import StyleMixins.Proofs.Sheet.Ink

namespace StyleMixins

/-- The source is a stretch of the text that begins with an at-rule of the name. -/
def SourceText.HasAtRule (file : SourceText) (name : String) (source : Option Source) : Prop :=
  ∃ before tail after : String, file.content = before ++ ("@" ++ name ++ tail) ++ after ∧
    ∃ s, source = some s ∧ s.file = file ∧
      s.span = ⟨before.utf8ByteSize, before.utf8ByteSize + ("@" ++ name ++ tail).utf8ByteSize⟩

namespace Sheet

open Element

variable {file : SourceText} {c d : Cursor} {before taken name params : List Char} {es : List Element}

theorem offset_after (p : Position) (x : Char) : (p.after x).offset = p.offset + x.utf8Size := by
  rw [Position.after]
  split
  next h =>
    subst h
    rfl
  next => rfl

theorem offset_foldl_after (p : Position) (cs : List Char) :
    (cs.foldl Position.after p).offset = p.offset + (String.ofList cs).utf8ByteSize := by
  induction cs generalizing p with
  | nil => rfl
  | cons x cs ih =>
    rw [List.foldl_cons, ih, offset_after, String.ofList_cons, String.utf8ByteSize_append,
      String.utf8ByteSize_singleton, Nat.add_assoc]

/-- The cursor stands in the text, right behind `before`. -/
structure Cursor.Within (c : Cursor) (file : SourceText) (before : List Char) : Prop where
  text_eq : file.content.toList = before ++ c.rest
  offset_eq : c.place.offset = (String.ofList before).utf8ByteSize

theorem Cursor.within_ofText (file : SourceText) : (Cursor.ofText file.content).Within file [] :=
  ⟨rfl, rfl⟩

theorem Cursor.Within.moves (h : c.Within file before) (m : Moves c taken d) : d.Within file (before ++ taken) where
  text_eq := by rw [h.text_eq, m.rest_eq, List.append_assoc]
  offset_eq := by
    have hplace := congrArg (·.place.offset) m.eq_pass
    simp only [Cursor.pass, offset_foldl_after] at hplace
    rw [hplace, h.offset_eq, String.ofList_append, String.utf8ByteSize_append]

theorem Cursor.Within.hasAtRule (h : c.Within file before) (m : Moves c ('@' :: name ++ taken) d) (kind : Kind)
    (children : List Element) : file.HasAtRule (String.ofList name) (element file c d kind children).source := by
  have hd := h.moves m
  have hslice : String.ofList ('@' :: name ++ taken) = "@" ++ String.ofList name ++ String.ofList taken := by
    rw [String.ofList_append, String.ofList_cons]
    rfl
  refine ⟨String.ofList before, String.ofList taken, String.ofList d.rest, ?_, _, rfl, rfl, ?_⟩
  · rw [← hslice, ← String.ofList_append, ← String.ofList_append, ← hd.text_eq, String.ofList_toList]
  · rw [h.offset_eq, hd.offset_eq, String.ofList_append, hslice, String.utf8ByteSize_append]

theorem moves_atHead? (h : c.atHead? = some (name, params, d)) : ∃ taken, Moves c ('@' :: name ++ taken) d := by
  obtain ⟨e, hkeyword, hparams⟩ := atHead?_inv h
  obtain ⟨f, hat, -, hname⟩ := keyword?_inv hkeyword
  have m := ((moves_char? hat).trans (moves_run hname)).trans ((moves_skip e).trans (moves_run hparams))
  exact ⟨_, m⟩

theorem eq_of_isAtRule {name params word : String} {hasBlock : Bool}
    (h : (Kind.atRule name params hasBlock).isAtRule word = true) : name = word := by
  simpa [Kind.isAtRule] using h

/-- Every at-rule that is read stands at its source. -/
theorem Reading.hasAtRule (h : Reading file c es d) (hc : c.Within file before) :
    ∀ x ∈ partsAll es, ∀ word, x.kind.isAtRule word = true → file.HasAtRule word x.source := by
  induction h generalizing before with
  | done => simp
  | @semicolon c d e es hsemicolon _ ih =>
    exact ih ((hc.moves (moves_char? hsemicolon)).moves (moves_skip d))
  | @declaration c d e property value es _ htext _ ih =>
    obtain ⟨taken, m, -⟩ : Covers file c _ d := covers_declaration? htext
    simp only [element, partsAll_cons, partsAll_nil, List.nil_append, List.forall_mem_cons]
    exact ⟨by simp [Element.kind, Kind.isAtRule], ih ((hc.moves m).moves (moves_skip d))⟩
  | @atRule c d e f name params es hhead hclosed _ ih =>
    obtain ⟨head, mhead⟩ := moves_atHead? hhead
    obtain ⟨close, mclose, -⟩ : Covers file d 0 e := covers_close? hclosed
    have m := mhead.trans mclose
    rw [List.append_assoc] at m
    have hself := hc.hasAtRule m (.atRule (String.ofList name) (trimmedText params) false) []
    simp only [element, partsAll_cons, partsAll_nil, List.nil_append, List.forall_mem_cons] at hself ⊢
    refine ⟨fun word hword => ?_, ih ((hc.moves m).moves (moves_skip e))⟩
    rw [← eq_of_isAtRule hword]
    exact hself
  | @block c d e f g last kind children es hhead hblock hopened hinner hclosed _ ihinner ihrest =>
    obtain ⟨n, ⟨head, mhead, -⟩, -⟩ := hhead.covers
    obtain ⟨body, mbody, -⟩ := hinner.covers
    have mopen := (moves_char? hopened).trans (moves_skip e)
    have mblock := (mopen.trans mbody).trans (moves_char? hclosed)
    have hbody := ihinner ((hc.moves mhead).moves mopen)
    have hafter := ihrest ((hc.moves (mhead.trans mblock)).moves (moves_skip g))
    simp only [element, partsAll_cons, List.forall_mem_cons, List.forall_mem_append]
    refine ⟨fun word hword => ?_, hbody, hafter⟩
    rcases hhead with ⟨name, params, hat, rfl⟩ | ⟨-, selector, -, rfl⟩
    · obtain ⟨taken, mat⟩ := moves_atHead? hat
      have m := mat.trans mblock
      rw [List.append_assoc] at m
      rw [← eq_of_isAtRule hword]
      exact hc.hasAtRule m _ children
    · simp [Element.kind, Kind.isAtRule] at hword

theorem hasAtRule_of_parse {sheet : Element} (h : parse file = .ok sheet) :
    ∀ x ∈ partsAll sheet.children, ∀ word, x.kind.isAtRule word = true → file.HasAtRule word x.source := by
  obtain ⟨es, rfl, ⟨rfl, -⟩ | hd⟩ := parse_cases h
  · simp [Element.children]
  · obtain ⟨last, hread, -⟩ := reading_of_document? hd
    exact hread.hasAtRule ((Cursor.within_ofText file).moves (moves_skip _))

end Sheet

end StyleMixins
