import StyleMixins.Proofs.Sheet.Cursors
import StyleMixins.Sheet.Parse

namespace StyleMixins.Sheet

variable {file : SourceText} {c d e : Cursor} {name params selector : List Char} {children more : List Element}
  {found : Option Element} {x : Element}

theorem trimmedText_append {cs ws : List Char} (h : ∀ y ∈ ws, isGapChar y = true) :
    trimmedText (cs ++ ws) = trimmedText cs := by
  rw [trimmedText, trimmedText, Text.trim_append fun y hy => isBlank_of_isGapChar (h y hy)]

theorem trimmedText_append_left {cs ws : List Char} (h : ∀ y ∈ ws, isGapChar y = true) :
    trimmedText (ws ++ cs) = trimmedText cs := by
  rw [trimmedText, trimmedText, Text.trim_append_left fun y hy => isBlank_of_isGapChar (h y hy)]

theorem trimmedText_eq {s : String} (h : Text.Trimmed s.toList) : trimmedText s.toList = s := by
  have htrim : Text.trim s.toList = s.toList := h
  rw [trimmedText, htrim, String.ofList_toList]

theorem atRule?_of_no_head (h : c.atHead? = none) : atRule? file c = none := by
  rw [atRule?]
  split
  next => rfl
  next he => simp [h] at he

theorem atRule?_of_block (h : c.atHead? = some (name, params, d)) (hb : block? file d = some (children, e)) :
    atRule? file c =
      some (element file c e (.atRule (String.ofList name) (trimmedText params) true) children, e) := by
  rw [atRule?]
  split
  next he => simp [h] at he
  next he =>
    cases Option.some.inj (h.symm.trans he)
    rw [hb]

theorem atRule?_of_no_block (h : c.atHead? = some (name, params, d)) (hb : block? file d = none) :
    atRule? file c = d.close?.map fun e =>
      (element file c e (.atRule (String.ofList name) (trimmedText params) false) [], e) := by
  rw [atRule?]
  split
  next he => simp [h] at he
  next he =>
    cases Option.some.inj (h.symm.trans he)
    rw [hb]
    cases d.close? <;> rfl

theorem rule?_of_no_selector (h : c.selector? = none) : rule? file c = none := by
  rw [rule?]
  split
  next => rfl
  next he => simp [h] at he

theorem rule?_of_selector (h : c.selector? = some (selector, d)) :
    rule? file c = (block? file d).map fun (children, e) =>
      (element file c e (.rule (trimmedText selector)) children, e) := by
  rw [rule?]
  split
  next he => simp [h] at he
  next he =>
    cases Option.some.inj (h.symm.trans he)
    cases block? file d <;> rfl

theorem block?_of_not_open (h : c.char? '{' = none) : block? file c = none := by
  rw [block?]
  split
  next => rfl
  next he => simp [h] at he

theorem block?_of_open (h : c.char? '{' = some d) (hs : statements file d.skip = (children, e)) :
    block? file c = (e.char? '}').map fun f => (children, f) := by
  rw [block?]
  split
  next he => simp [h] at he
  next he =>
    cases Option.some.inj (h.symm.trans he)
    simp only [hs]
    cases e.char? '}' <;> rfl

theorem statements_of_none (h : statement? file c = none) : statements file c = ([], c) := by
  rw [statements, h]

theorem statements_of_some (h : statement? file c = some (found, d)) (hlt : d.skip.rest.length < c.rest.length)
    (hs : statements file d.skip = (more, e)) : statements file c = (found.toList ++ more, e) := by
  rw [statements, h]
  simp only [hlt, if_true, hs]

theorem statement?_of_atRule (h : atRule? file c = some (x, d)) : statement? file c = some (some x, d) := by
  rw [statement?, h]

theorem statement?_of_rule (ha : atRule? file c = none) (h : rule? file c = some (x, d)) :
    statement? file c = some (some x, d) := by
  rw [statement?, ha, h]

theorem statement?_of_no_block (ha : atRule? file c = none) (hr : rule? file c = none) :
    statement? file c =
      ((declaration? file c).map fun (x, d) => (some x, d)).or ((c.char? ';').map fun d => (none, d)) := by
  rw [statement?, ha, hr]
  cases declaration? file c with
  | some found => rfl
  | none => cases c.char? ';' <;> rfl

/-- At a brace, a semicolon or the end there is no statement but a semicolon alone. -/
theorem statement?_of_atStop (h : AtStop c.rest) : statement? file c = (c.char? ';').map fun d => (none, d) := by
  have hat : beginsAtRule c.rest = false := by
    by_contra hbegins
    obtain ⟨y, rest, he, -⟩ := beginsAtRule_iff.mp (by simpa using hbegins)
    exact absurd (h '@' (by simp [he])) (by decide)
  have hproperty : c.property? = none := by
    refine Cursor.property?_eq_none fun y hy => ?_
    simp [isPropertyChar, h y hy]
  rw [statement?_of_no_block (atRule?_of_no_head (Cursor.atHead?_eq_none hat))
    (rule?_of_no_selector (Cursor.selector?_eq_none h)), declaration?, Cursor.declaration?, hproperty]
  rfl

theorem parse_of_blank (h : Text.trim file.content.toList = []) : ∃ source, parse file = .ok (.mk .root source []) := by
  refine ⟨some ⟨file, ⟨0, file.content.utf8ByteSize⟩, 1, 1⟩, ?_⟩
  simp only [parse, h, List.isEmpty_nil, if_true]

theorem parse_of_document? (h : Text.trim file.content.toList ≠ []) (hd : document? file = some children) :
    ∃ source, parse file = .ok (.mk .root source children) := by
  refine ⟨some ⟨file, ⟨0, file.content.utf8ByteSize⟩, 1, 1⟩, ?_⟩
  simp only [parse, List.isEmpty_iff, h, if_false, hd]

theorem parse_of_no_document (h : Text.trim file.content.toList ≠ []) (hd : document? file = none) :
    parse file = .error (failure file) := by
  simp only [parse, List.isEmpty_iff, h, if_false, hd]

theorem parse_cases {e : Element} (h : parse file = .ok e) :
    ∃ es, e = .mk .root (some ⟨file, ⟨0, file.content.utf8ByteSize⟩, 1, 1⟩) es ∧
      (es = [] ∧ Text.trim file.content.toList = [] ∨ document? file = some es) := by
  rw [parse] at h
  split at h
  next hblank =>
    cases Except.ok.inj h
    exact ⟨[], rfl, .inl ⟨rfl, List.isEmpty_iff.mp hblank⟩⟩
  next =>
    split at h
    next es hd =>
      cases Except.ok.inj h
      exact ⟨es, rfl, .inr hd⟩
    next => simp at h

end StyleMixins.Sheet
