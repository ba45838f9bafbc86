import StyleMixins.Proofs.Sheet.Printable
import StyleMixins.Proofs.Sheet.Readers

namespace StyleMixins.Sheet

open Element

variable {file : SourceText} {c d : Cursor} {name params selector property value : List Char}
  {es children : List Element} {x : Element}

/-- The head of a statement with a block, up to the opening brace. A rule is read where no at-rule can be. -/
def BlockHead (file : SourceText) (c : Cursor) (kind : Kind) (d : Cursor) : Prop :=
  (∃ name params, c.atHead? = some (name, params, d) ∧ kind = .atRule (String.ofList name) (trimmedText params) true) ∨
    atRule? file c = none ∧ ∃ selector, c.selector? = some (selector, d) ∧ kind = .rule (trimmedText selector)

/-- Statements one after the other between two cursors, each with what the reader has taken for it. -/
inductive Reading (file : SourceText) : Cursor → List Element → Cursor → Prop
  | done (c : Cursor) : Reading file c [] c
  | semicolon {c d e : Cursor} {es : List Element} (semicolon : c.char? ';' = some d)
      (rest : Reading file d.skip es e) : Reading file c es e
  | declaration {c d e : Cursor} {property value : List Char} {es : List Element}
      (first : atRule? file c = none) (text : c.declaration? = some (property, value, d))
      (rest : Reading file d.skip es e) :
      Reading file c (element file c d (.declaration (trimmedText property) (trimmedText value)) [] :: es) e
  | atRule {c d e f : Cursor} {name params : List Char} {es : List Element}
      (head : c.atHead? = some (name, params, d)) (closed : d.close? = some e) (rest : Reading file e.skip es f) :
      Reading file c (element file c e (.atRule (String.ofList name) (trimmedText params) false) [] :: es) f
  | block {c d e f g last : Cursor} {kind : Kind} {children es : List Element} (head : BlockHead file c kind d)
      (block : block? file d = some (children, g)) (opened : d.char? '{' = some e)
      (inner : Reading file e.skip children f) (closed : f.char? '}' = some g) (rest : Reading file g.skip es last) :
      Reading file c (element file c g kind children :: es) last

/-- A statement that is read before further statements. -/
def Continues (file : SourceText) (c : Cursor) (found : List Element) (d : Cursor) : Prop :=
  ∀ es e, Reading file d.skip es e → Reading file c (found ++ es) e

theorem continues_block {kind : Kind} {e : Cursor} (head : BlockHead file c kind d)
    (hblock : block? file d = some (children, e))
    (h : ∃ opened f, d.char? '{' = some opened ∧ Reading file opened.skip children f ∧ f.char? '}' = some e) :
    Continues file c [element file c e kind children] e := by
  obtain ⟨opened, f, hopened, hinner, hclosed⟩ := h
  intro es last hrest
  exact .block head hblock hopened hinner hclosed hrest

theorem continues_declaration (hat : atRule? file c = none) (h : declaration? file c = some (x, d)) :
    Continues file c [x] d := by
  intro es last hrest
  rw [declaration?] at h
  split at h
  next => simp at h
  next property value d' htext =>
    cases Option.some.inj h
    exact .declaration hat htext hrest

/-- What is read from a cursor on is a reading. -/
def ReadsThrough (file : SourceText) (c : Cursor) : Prop :=
  Reading file c (statements file c).1 (statements file c).2

-- Each reader in turn, given that what is read from cursors further on are readings.
section Readers

variable (ih : ∀ c' : Cursor, c'.rest.length < c.rest.length → ReadsThrough file c')
include ih

theorem reading_of_block? (h : block? file c = some (children, d)) :
    ∃ opened f, c.char? '{' = some opened ∧ Reading file opened.skip children f ∧ f.char? '}' = some d := by
  cases hopen : c.char? '{' with
  | none => simp [block?_of_not_open hopen] at h
  | some opened =>
    have hread := ih opened.skip (Nat.lt_of_le_of_lt opened.length_skip_le (Cursor.length_char?_lt hopen))
    rcases hfound : statements file opened.skip with ⟨found, f⟩
    rw [ReadsThrough, hfound] at hread
    rw [block?_of_open hopen hfound] at h
    obtain ⟨g, hclosed, hg⟩ := Option.map_eq_some_iff.mp h
    cases hg
    exact ⟨opened, f, rfl, hread, hclosed⟩

theorem continues_atRule (h : atRule? file c = some (x, d)) : Continues file c [x] d := by
  cases hhead : c.atHead? with
  | none => simp [atRule?_of_no_head hhead] at h
  | some head =>
    obtain ⟨name, params, e⟩ := head
    have hle := Cursor.length_atHead?_le hhead
    cases hblock : block? file e with
    | some found =>
      obtain ⟨children, f⟩ := found
      cases Option.some.inj ((atRule?_of_block hhead hblock).symm.trans h)
      refine continues_block (Or.inl ⟨name, params, hhead, rfl⟩) hblock (reading_of_block? (fun c' hlt => ?_) hblock)
      exact ih c' (Nat.lt_of_lt_of_le hlt hle)
    | none =>
      rw [atRule?_of_no_block hhead hblock] at h
      obtain ⟨f, hclosed, hf⟩ := Option.map_eq_some_iff.mp h
      cases hf
      intro es last hrest
      exact .atRule hhead hclosed hrest

theorem continues_rule (hat : atRule? file c = none) (h : rule? file c = some (x, d)) : Continues file c [x] d := by
  cases hhead : c.selector? with
  | none => simp [rule?_of_no_selector hhead] at h
  | some head =>
    obtain ⟨selector, e⟩ := head
    have hle := Cursor.length_selector?_le hhead
    rw [rule?_of_selector hhead] at h
    obtain ⟨⟨children, f⟩, hblock, hf⟩ := Option.map_eq_some_iff.mp h
    cases hf
    refine continues_block (Or.inr ⟨hat, selector, hhead, rfl⟩) hblock (reading_of_block? (fun c' hlt => ?_) hblock)
    exact ih c' (Nat.lt_of_lt_of_le hlt hle)

theorem continues_statement {found : Option Element} (h : statement? file c = some (found, d)) :
    Continues file c found.toList d := by
  cases hat : atRule? file c with
  | some result =>
    cases Option.some.inj ((statement?_of_atRule hat).symm.trans h)
    exact continues_atRule ih hat
  | none =>
    cases hrule : rule? file c with
    | some result =>
      cases Option.some.inj ((statement?_of_rule hat hrule).symm.trans h)
      exact continues_rule ih hat hrule
    | none =>
      rw [statement?_of_no_block hat hrule] at h
      rcases Option.or_eq_some_iff.mp h with hdeclaration | ⟨-, hsemicolon⟩
      · obtain ⟨⟨x, e⟩, hread, he⟩ := Option.map_eq_some_iff.mp hdeclaration
        cases he
        exact continues_declaration hat hread
      · obtain ⟨e, hread, he⟩ := Option.map_eq_some_iff.mp hsemicolon
        cases he
        intro es last hrest
        exact .semicolon hread hrest

theorem readsThrough_of_shorter : ReadsThrough file c := by
  rw [ReadsThrough]
  cases hfound : statement? file c with
  | none =>
    rw [statements_of_none hfound]
    exact .done c
  | some result =>
    obtain ⟨found, d⟩ := result
    have hcontinues := continues_statement ih hfound
    by_cases hlt : d.skip.rest.length < c.rest.length
    · have hread := ih d.skip hlt
      rcases hmore : statements file d.skip with ⟨more, e⟩
      rw [ReadsThrough, hmore] at hread
      rw [statements_of_some hfound hlt hmore]
      exact hcontinues more e hread
    · have hlast : statements file c = (found.toList, d.skip) := by rw [statements, hfound]; simp [hlt]
      rw [hlast, ← List.append_nil found.toList]
      exact hcontinues [] d.skip (.done d.skip)

end Readers

theorem reading_statements (file : SourceText) (c : Cursor) :
    Reading file c (statements file c).1 (statements file c).2 :=
  readsThrough_of_shorter fun c' _ => reading_statements file c'
termination_by c.rest.length

theorem reading_of_document? (h : document? file = some es) :
    ∃ last, Reading file (Cursor.ofText file.content).skip es last ∧ last.rest = [] := by
  rw [document?] at h
  split at h
  next found last hfound =>
    have hread := reading_statements file (Cursor.ofText file.content).skip
    rw [hfound] at hread
    split at h
    next hend =>
      cases Option.some.inj h
      exact ⟨last, hread, List.isEmpty_iff.mp hend⟩
    next => simp at h

theorem chars_run {p : Char → Bool} {cs : List Char} (h : c.run p = (cs, d)) : ∀ x ∈ cs, p x = true := by
  obtain rfl : c.rest.takeWhile p = cs := congrArg Prod.fst h
  exact fun x hx => List.mem_takeWhile_imp hx

theorem atStop_run {cs : List Char} (h : c.run isHeadChar = (cs, d)) : AtStop d.rest := by
  obtain rfl : c.pass (c.rest.takeWhile isHeadChar) (c.rest.dropWhile isHeadChar) = d := congrArg Prod.snd h
  intro x hx
  simpa [isHeadChar] using Text.head_dropWhile (p := isHeadChar) hx

theorem keyword?_inv (h : c.keyword? = some (name, d)) :
    ∃ e, c.char? '@' = some e ∧ name ≠ [] ∧ e.run isKeywordChar = (name, d) := by
  rw [Cursor.keyword?] at h
  split at h
  next => simp at h
  next e hat =>
    split at h
    next => simp at h
    next hne =>
      have hrun := Option.some.inj h
      rw [hrun] at hne
      exact ⟨e, hat, by simpa using hne, hrun⟩

theorem atHead?_inv (h : c.atHead? = some (name, params, d)) :
    ∃ e, c.keyword? = some (name, e) ∧ e.skip.run isHeadChar = (params, d) := by
  rw [Cursor.atHead?] at h
  split at h
  next => simp at h
  next word e hkeyword =>
    rcases hrun : e.skip.run isHeadChar with ⟨cs, f⟩
    have hself := Cursor.skip_eq_self (atStop_run hrun).solid
    obtain ⟨rfl, rfl, rfl⟩ : word = name ∧ cs = params ∧ f = d := by simpa [hrun, hself] using h
    exact ⟨e, hkeyword, hrun⟩

theorem selector?_inv (h : c.selector? = some (selector, d)) : selector ≠ [] ∧ c.run isHeadChar = (selector, d) := by
  rw [Cursor.selector?] at h
  rcases hrun : c.run isHeadChar with ⟨cs, f⟩
  have hself := Cursor.skip_eq_self (atStop_run hrun).solid
  simp only [hrun, hself] at h
  split at h
  next => simp at h
  next hne =>
    obtain ⟨rfl, rfl⟩ : cs = selector ∧ f = d := by simpa using h
    exact ⟨by simpa using hne, rfl⟩

theorem property?_inv (h : c.property? = some (property, d)) :
    ∃ e f, property ≠ [] ∧ c.run isPropertyChar = (property, e) ∧ e.skip.char? ':' = some f ∧ d = f.skip := by
  rw [Cursor.property?] at h
  rcases hrun : c.run isPropertyChar with ⟨cs, e⟩
  simp only [hrun] at h
  split at h
  next => simp at h
  next hne =>
    split at h
    next => simp at h
    next f hcolon =>
      obtain ⟨rfl, rfl⟩ : cs = property ∧ f.skip = d := by simpa using h
      exact ⟨e, f, by simpa using hne, rfl, hcolon, rfl⟩

theorem declaration?_inv (h : c.declaration? = some (property, value, d)) :
    ∃ e f, c.property? = some (property, e) ∧ e.run isHeadChar = (value, f) ∧ f.close? = some d := by
  rw [Cursor.declaration?] at h
  split at h
  next => simp at h
  next word e hproperty =>
    rcases hrun : e.run isHeadChar with ⟨cs, f⟩
    have hself := Cursor.skip_eq_self (atStop_run hrun).solid
    simp only [hrun, hself] at h
    split at h
    next => simp at h
    next g hclosed =>
      obtain ⟨rfl, rfl, rfl⟩ : word = property ∧ cs = value ∧ g = d := by simpa using h
      exact ⟨e, f, hproperty, hrun, hclosed⟩

theorem atHead?_chars (h : c.atHead? = some (name, params, d)) :
    (name ≠ [] ∧ ∀ x ∈ name, isKeywordChar x = true) ∧ ∀ x ∈ params, isHeadChar x = true := by
  obtain ⟨e, hkeyword, hrun⟩ := atHead?_inv h
  obtain ⟨f, -, hne, hname⟩ := keyword?_inv hkeyword
  exact ⟨⟨hne, chars_run hname⟩, chars_run hrun⟩

theorem declaration?_chars (h : c.declaration? = some (property, value, d)) :
    (∀ x ∈ property, isPropertyChar x = true) ∧ ∀ x ∈ value, isHeadChar x = true := by
  obtain ⟨e, f, hproperty, hrun, -⟩ := declaration?_inv h
  obtain ⟨_, _, -, hproperty, -, -⟩ := property?_inv hproperty
  exact ⟨chars_run hproperty, chars_run hrun⟩

theorem headText_trimmedText {cs : List Char} (h : ∀ x ∈ cs, isHeadChar x = true) : HeadText (trimmedText cs) := by
  rw [HeadText, trimmedText, String.toList_ofList]
  exact ⟨Text.trimmed_trim cs, fun x hx => h x (Text.mem_of_mem_trim hx)⟩

theorem shaped_atHead? {children : List Element} {hasBlock : Bool} (h : c.atHead? = some (name, params, d))
    (hblock : (children.isEmpty || hasBlock) = true) :
    (Kind.atRule (String.ofList name) (trimmedText params) hasBlock).Shaped children := by
  obtain ⟨⟨hne, hname⟩, hparams⟩ := atHead?_chars h
  refine ⟨⟨?_, ?_⟩, headText_trimmedText hparams, hblock⟩
  · simpa [← String.toList_eq_nil_iff] using hne
  · simpa using hname

theorem BlockHead.shaped {kind : Kind} (h : BlockHead file c kind d) (children : List Element) :
    kind.Shaped children := by
  rcases h with ⟨name, params, hhead, rfl⟩ | ⟨-, selector, hhead, rfl⟩
  · exact shaped_atHead? hhead (by simp)
  · exact headText_trimmedText (chars_run (selector?_inv hhead).2)

/-- All statements that are read are shaped as statements are. -/
theorem Reading.shaped (h : Reading file c es d) : ∀ x ∈ partsAll es, x.kind.Shaped x.children := by
  induction h with
  | done => simp
  | semicolon _ _ ih => exact ih
  | declaration _ text _ ih =>
    obtain ⟨hproperty, hvalue⟩ := declaration?_chars text
    simp only [element, partsAll_cons, partsAll_nil, List.nil_append, List.forall_mem_cons]
    refine ⟨⟨?_, headText_trimmedText hvalue, rfl⟩, ih⟩
    rw [trimmedText, String.toList_ofList]
    exact ⟨Text.trimmed_trim _, fun x hx => hproperty x (Text.mem_of_mem_trim hx)⟩
  | atRule head _ _ ih =>
    simp only [element, partsAll_cons, partsAll_nil, List.nil_append, List.forall_mem_cons]
    exact ⟨shaped_atHead? head rfl, ih⟩
  | block head _ _ _ _ _ ihinner ihrest =>
    simp only [element, partsAll_cons, List.forall_mem_cons, List.forall_mem_append]
    exact ⟨head.shaped _, ihinner, ihrest⟩

end StyleMixins.Sheet
