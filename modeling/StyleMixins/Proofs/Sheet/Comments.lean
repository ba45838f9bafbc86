import StyleMixins.Proofs.Sheet.Printable

namespace StyleMixins

namespace Kind

/-- Where the texts of a statement start in its printed text, apart from the name of an at-rule. -/
def starts (tail : List Char) : Kind → List (List Char)
  | root => []
  | rule selector => [selector.toList ++ tail]
  | atRule _ params _ => [params.toList ++ tail]
  | declaration property value =>
    [property.toList ++ ':' :: ' ' :: (value.toList ++ tail), value.toList ++ tail]

end Kind

namespace Element

def texts (es : List Element) : List String :=
  (partsAll es).flatMap fun x => x.kind.texts

/-- What is printed behind the head of a statement. -/
def tail (depth : Nat) (after : List Char) : Element → List Char
  | mk (.rule _) _ children | mk (.atRule _ _ true) _ children =>
    ' ' :: '{' :: '\n' :: (writeAll (depth + 1) children ++ (indent depth ++ '}' :: '\n' :: after))
  | _ => ';' :: '\n' :: after

mutual

/-- In the printed text no text of the statements starts with a complete comment. -/
def Clear (depth : Nat) (after : List Char) : Element → Prop
  | mk kind source children =>
    (∀ s ∈ kind.starts (tail depth after (mk kind source children)), Sheet.comment? s = none) ∧
      ClearAll (depth + 1) (indent depth ++ '}' :: '\n' :: after) children

def ClearAll (depth : Nat) (after : List Char) : List Element → Prop
  | [] => True
  | e :: rest => e.Clear depth (writeAll depth rest ++ after) ∧ ClearAll depth after rest

end

end Element

namespace Sheet

open Element

variable {a b cs : List Char} {s : String} {x : Char} {depth : Nat} {after : List Char} {es : List Element}

def OpensComment (s : String) : Prop :=
  ['/', '*'] <+: s.toList

def ClosesComment (cs : List Char) : Prop :=
  ['*', '/'] <:+: cs

instance (s : String) : Decidable (OpensComment s) :=
  inferInstanceAs (Decidable (_ <+: _))

instance (cs : List Char) : Decidable (ClosesComment cs) :=
  inferInstanceAs (Decidable (_ <:+: _))

/-- No text opens a comment that it closes itself or that a later one closes. -/
def Uncommented (texts : List String) : Prop :=
  (∀ s ∈ texts, OpensComment s → ¬ClosesComment (s.toList.drop 2)) ∧
    texts.Pairwise fun s t => OpensComment s → ¬ClosesComment t.toList

instance (texts : List String) : Decidable (Uncommented texts) :=
  inferInstanceAs (Decidable (_ ∧ List.Pairwise (fun s t => OpensComment s → ¬ClosesComment t.toList) _))

theorem commentEnd_eq_none_iff : commentEnd cs = none ↔ ¬ClosesComment cs := by
  unfold ClosesComment
  fun_induction commentEnd cs with
  | case1 => simp
  | case2 rest => simpa using List.infix_cons_iff.mpr (Or.inl ⟨rest, rfl⟩)
  | case3 y rest hno body after closed ih =>
    rw [closed] at ih
    simp only [reduceCtorEq, false_iff, not_not] at ih ⊢
    exact List.infix_cons_iff.mpr (Or.inr ih)
  | case4 y rest hno closed ih =>
    rw [closed] at ih
    simp only [true_iff] at ih ⊢
    rw [List.infix_cons_iff]
    rintro (⟨more, he⟩ | hinfix)
    · obtain ⟨rfl, rfl⟩ : '*' = y ∧ '/' :: more = rest := by simpa using he
      exact hno more rfl rfl
    · exact ih hinfix

theorem comment?_eq_none_iff : comment? cs = none ↔ (['/', '*'] <+: cs → ¬ClosesComment (cs.drop 2)) := by
  unfold comment?
  split
  next inner =>
    have hopen : ['/', '*'] <+: '/' :: '*' :: inner := ⟨inner, rfl⟩
    rw [← commentEnd_eq_none_iff, List.drop_succ_cons, List.drop_succ_cons, List.drop_zero]
    cases commentEnd inner <;> simp [hopen]
  next hno =>
    refine iff_of_true rfl ?_
    rintro ⟨inner, rfl⟩
    exact absurd rfl (hno inner)

theorem closesComment_append (hstar : x ≠ '*') (hslash : x ≠ '/') :
    ClosesComment (a ++ x :: b) ↔ ClosesComment a ∨ ClosesComment b := by
  unfold ClosesComment
  induction a with
  | nil =>
    rw [List.nil_append, List.infix_cons_iff]
    simp [hstar.symm]
  | cons y a ih =>
    have hfirst : ['*', '/'] <+: y :: (a ++ x :: b) ↔ ['*', '/'] <+: y :: a := by
      cases a <;> simp [hslash.symm]
    rw [List.cons_append, List.infix_cons_iff, List.infix_cons_iff, ih, hfirst, or_assoc]

theorem closesComment_cons (hstar : x ≠ '*') (hslash : x ≠ '/') : ClosesComment (x :: b) ↔ ClosesComment b := by
  have hnil : ¬ClosesComment [] := by decide
  rw [← List.nil_append (x :: b), closesComment_append hstar hslash]
  simp [hnil]

theorem closesComment_indent (depth : Nat) : ClosesComment (indent depth ++ b) ↔ ClosesComment b := by
  unfold indent
  induction 2 * depth with
  | zero => rfl
  | succ n ih => rw [List.replicate_succ, List.cons_append, closesComment_cons (by decide) (by decide), ih]

theorem not_closesComment_indent (depth : Nat) : ¬ClosesComment (indent depth) := by
  rw [← List.append_nil (indent depth), closesComment_indent]
  decide

/-- A text before a character that belongs to no comment mark. -/
theorem comment?_append_iff (hstar : x ≠ '*') (hslash : x ≠ '/') : comment? (s.toList ++ x :: b) = none ↔
    (OpensComment s → ¬ClosesComment (s.toList.drop 2) ∧ ¬ClosesComment b) := by
  have hopen : ['/', '*'] <+: s.toList ++ x :: b ↔ OpensComment s := by
    unfold OpensComment
    match s.toList with
    | [] => simp [hslash.symm]
    | [y] => simp [hstar.symm]
    | y :: z :: rest => simp
  rw [comment?_eq_none_iff, hopen]
  refine imp_congr_right fun hs => ?_
  have hlength : 2 ≤ s.toList.length := hs.length_le
  rw [List.drop_append_of_le_length hlength, closesComment_append hstar hslash, not_or]

theorem uncommented_of_not_opens {texts : List String} (h : ∀ s ∈ texts, ¬OpensComment s) : Uncommented texts := by
  refine ⟨fun s hs hopen => absurd hopen (h s hs), List.pairwise_of_forall_mem_list ?_⟩
  exact fun s hs _ _ hopen => absurd hopen (h s hs)

theorem uncommented_append {texts more : List String} : Uncommented (texts ++ more) ↔
    Uncommented texts ∧ Uncommented more ∧ ∀ s ∈ texts, OpensComment s → ∀ t ∈ more, ¬ClosesComment t.toList := by
  simp only [Uncommented, List.pairwise_append, List.forall_mem_append]
  constructor
  · rintro ⟨⟨hown, hown'⟩, hpairs, hpairs', hacross⟩
    exact ⟨⟨hown, hpairs⟩, ⟨hown', hpairs'⟩, fun s hs hopen t ht => hacross s hs t ht hopen⟩
  · rintro ⟨⟨hown, hpairs⟩, ⟨hown', hpairs'⟩, hacross⟩
    exact ⟨⟨hown, hown'⟩, hpairs, hpairs', fun s hs t ht hopen => hacross s hs hopen t ht⟩

theorem head_tail (depth : Nat) (after : List Char) (x : Element) :
    ∃ y rest, x.tail depth after = y :: rest ∧ (y = ' ' ∨ y = ';') := by
  unfold Element.tail
  split
  next => exact ⟨_, _, rfl, Or.inl rfl⟩
  next => exact ⟨_, _, rfl, Or.inl rfl⟩
  next => exact ⟨_, _, rfl, Or.inr rfl⟩

theorem texts_cons (kind : Kind) (source : Option Source) (children rest : List Element) :
    texts (.mk kind source children :: rest) = kind.texts ++ (texts children ++ texts rest) := by
  simp [texts, Element.kind]

theorem not_comment_of_keyword {name : String} (hname : ∀ x ∈ name.toList, isKeywordChar x = true) :
    ¬OpensComment name ∧ ¬ClosesComment name.toList := by
  constructor
  · intro hopen
    exact absurd (hname '/' (hopen.subset (by simp))) (by decide)
  · intro hclose
    exact absurd (hname '/' (hclose.subset (by simp))) (by decide)

theorem closesComment_atHead {name params : String} (hname : ∀ x ∈ name.toList, isKeywordChar x = true)
    (hstar : x ≠ '*') (hslash : x ≠ '/') :
    ClosesComment (atHead name params ++ x :: b) ↔ ClosesComment params.toList ∨ ClosesComment b := by
  have hquiet : ¬ClosesComment name.toList := (not_comment_of_keyword hname).2
  have hnil : ¬ClosesComment [] := by decide
  rw [closesComment_append hstar hslash, atHead, List.cons_append, closesComment_cons (by decide) (by decide)]
  split
  next hempty =>
    obtain rfl : params = "" := by simpa using hempty
    simp [hquiet, hnil]
  next => simp [closesComment_append, hquiet]

/-- The ends of comments in a printed text are those in its texts. -/
theorem closesComment_writeAll (h : ∀ x ∈ partsAll es, x.kind.Shaped x.children) :
    ClosesComment (writeAll depth es ++ after) ↔ (∃ s ∈ texts es, ClosesComment s.toList) ∨ ClosesComment after := by
  induction es using forest_induction generalizing depth after with
  | nil => simp [writeAll, texts]
  | cons kind source children rest hc hr =>
    simp only [partsAll_cons, List.forall_mem_cons, List.forall_mem_append] at h
    obtain ⟨hfirst, hchildren, hrest⟩ := h
    have hfirst : kind.Shaped children := hfirst
    rw [texts_cons]
    cases kind with
    | root => exact hfirst.elim
    | rule selector =>
      simp (disch := decide) only [writeAll, write, List.append_assoc, List.cons_append, List.nil_append,
        closesComment_indent, closesComment_append, closesComment_cons, hc hchildren, hr hrest, Kind.texts]
      simp [or_and_right, exists_or, or_assoc, not_closesComment_indent]
    | atRule name params hasBlock =>
      have hname : ∀ x ∈ name.toList, isKeywordChar x = true := hfirst.1.2
      have hquiet := (not_comment_of_keyword hname).2
      simp only [writeAll, write]
      split
      next =>
        simp (disch := first | decide | exact hname) only [List.append_assoc, List.cons_append, List.nil_append,
          closesComment_indent, closesComment_atHead, closesComment_cons, hc hchildren, hr hrest, Kind.texts]
        simp [or_and_right, exists_or, or_assoc, hquiet]
      next hleaf =>
        obtain ⟨-, rfl⟩ : hasBlock = false ∧ children = [] := by simpa using hleaf
        simp (disch := first | decide | exact hname) only [List.append_assoc, List.cons_append, List.nil_append,
          closesComment_indent, closesComment_atHead, closesComment_cons, hr hrest, Kind.texts]
        simp [or_and_right, exists_or, or_assoc, hquiet, texts]
    | declaration property value =>
      obtain rfl : children = [] := by simpa using hfirst.2.2
      simp (disch := decide) only [writeAll, write, List.append_assoc, List.cons_append, List.nil_append,
        closesComment_indent, closesComment_append, closesComment_cons, hr hrest, Kind.texts]
      simp [or_and_right, exists_or, or_assoc, texts]

theorem closesComment_tail {x : Element} (h : x.kind.Shaped x.children)
    (hchildren : ∀ y ∈ partsAll x.children, y.kind.Shaped y.children) :
    ClosesComment (x.tail depth after) ↔ (∃ s ∈ texts x.children, ClosesComment s.toList) ∨ ClosesComment after := by
  have hblock : ClosesComment (' ' :: '{' :: '\n' :: (writeAll (depth + 1) x.children ++
      (indent depth ++ '}' :: '\n' :: after))) ↔
      (∃ s ∈ texts x.children, ClosesComment s.toList) ∨ ClosesComment after := by
    simp (disch := decide) only [closesComment_cons, closesComment_writeAll hchildren, closesComment_indent]
  have hleaf : x.children = [] → (ClosesComment (';' :: '\n' :: after) ↔
      (∃ s ∈ texts x.children, ClosesComment s.toList) ∨ ClosesComment after) := by
    intro hempty
    simp (disch := decide) only [closesComment_cons, hempty]
    simp [texts]
  obtain ⟨kind, source, children⟩ := x
  match kind, h with
  | .rule _, _ => exact hblock
  | .atRule _ _ true, _ => exact hblock
  | .atRule _ _ false, h => exact hleaf (by simpa using h.2.2)
  | .declaration _ _, h => exact hleaf (by simpa using h.2.2)

theorem starts_iff {x : Element} (h : x.kind.Shaped x.children) :
    (∀ cs ∈ x.kind.starts (x.tail depth after), comment? cs = none) ↔
      Uncommented x.kind.texts ∧ ∀ s ∈ x.kind.texts, OpensComment s → ¬ClosesComment (x.tail depth after) := by
  obtain ⟨y, rest, htail, hy⟩ := head_tail depth after x
  obtain ⟨hstar, hslash⟩ : y ≠ '*' ∧ y ≠ '/' := by rcases hy with rfl | rfl <;> decide
  rw [htail, closesComment_cons hstar hslash]
  obtain ⟨kind, source, children⟩ := x
  cases kind with
  | root => exact h.elim
  | rule selector =>
    simp only [Element.kind, Kind.starts, Kind.texts, Uncommented, List.forall_mem_singleton, List.pairwise_singleton,
      and_true, comment?_append_iff hstar hslash, imp_and]
  | atRule name params hasBlock =>
    have hname : ∀ x ∈ name.toList, isKeywordChar x = true := h.1.2
    have hquiet := (not_comment_of_keyword hname).1
    simp only [Element.kind, Kind.starts, Kind.texts, Uncommented, List.forall_mem_singleton, List.forall_mem_cons,
      List.pairwise_cons, comment?_append_iff hstar hslash, imp_and, hquiet]
    simp
  | declaration property value =>
    have hproperty : comment? (property.toList ++ ':' :: ' ' :: (value.toList ++ y :: rest)) = none ↔ _ :=
      comment?_append_iff (by decide) (by decide)
    rw [closesComment_cons (by decide) (by decide), closesComment_append hstar hslash] at hproperty
    simp only [Element.kind, Kind.starts, Kind.texts, Uncommented, List.forall_mem_singleton, List.forall_mem_cons,
      List.pairwise_cons, comment?_append_iff hstar hslash, imp_and, hproperty]
    simp only [not_or, imp_and, List.not_mem_nil, false_imp_iff, implies_true, and_true, List.Pairwise.nil]
    constructor
    · rintro ⟨⟨hown, hvalue, hrest⟩, hown', hrest'⟩
      exact ⟨⟨⟨hown, hown'⟩, hvalue⟩, hrest, hrest'⟩
    · rintro ⟨⟨⟨hown, hown'⟩, hvalue⟩, hrest, hrest'⟩
      exact ⟨⟨hown, hvalue, hrest⟩, hown', hrest'⟩

theorem clearAll_iff (h : ∀ x ∈ partsAll es, x.kind.Shaped x.children) : ClearAll depth after es ↔
    Uncommented (texts es) ∧ ∀ s ∈ texts es, OpensComment s → ¬ClosesComment after := by
  induction es using forest_induction generalizing depth after with
  | nil => simp [ClearAll, texts, Uncommented]
  | cons kind source children rest hc hr =>
    simp only [partsAll_cons, List.forall_mem_cons, List.forall_mem_append] at h
    obtain ⟨hfirst, hchildren, hrest⟩ := h
    rw [ClearAll, Clear, hc hchildren, hr hrest]
    have htail : ClosesComment (tail depth (writeAll depth rest ++ after) (.mk kind source children)) ↔ _ :=
      closesComment_tail hfirst hchildren
    rw [closesComment_writeAll hrest] at htail
    have hend : ClosesComment (indent depth ++ '}' :: '\n' :: (writeAll depth rest ++ after)) ↔
        (∃ s ∈ texts rest, ClosesComment s.toList) ∨ ClosesComment after := by
      simp (disch := decide) only [closesComment_indent, closesComment_cons, closesComment_writeAll hrest]
    have hstarts : (∀ cs ∈ kind.starts (tail depth (writeAll depth rest ++ after) (.mk kind source children)), _) ↔ _ :=
      starts_iff hfirst
    rw [hstarts, htail, hend, texts_cons, uncommented_append, uncommented_append]
    simp only [List.forall_mem_append]
    constructor
    · rintro ⟨⟨⟨hown, htexts⟩, hinner, hin⟩, hbehind, hafter⟩
      refine ⟨⟨hown, ⟨hinner, hbehind, ?_⟩, ?_⟩, ?_, ?_, hafter⟩
      · exact fun s hs hopen t ht hclose => hin s hs hopen (Or.inl ⟨t, ht, hclose⟩)
      · intro s hs hopen
        exact ⟨fun t ht hclose => htexts s hs hopen (Or.inl ⟨t, ht, hclose⟩),
          fun t ht hclose => htexts s hs hopen (Or.inr (Or.inl ⟨t, ht, hclose⟩))⟩
      · exact fun s hs hopen hclose => htexts s hs hopen (Or.inr (Or.inr hclose))
      · exact fun s hs hopen hclose => hin s hs hopen (Or.inr hclose)
    · rintro ⟨⟨hown, ⟨hinner, hbehind, hacross⟩, hlater⟩, htexts, hin, hafter⟩
      refine ⟨⟨⟨hown, ?_⟩, hinner, ?_⟩, hbehind, hafter⟩
      · rintro s hs hopen (⟨t, ht, hclose⟩ | ⟨t, ht, hclose⟩ | hclose)
        · exact (hlater s hs hopen).1 t ht hclose
        · exact (hlater s hs hopen).2 t ht hclose
        · exact htexts s hs hopen hclose
      · rintro s hs hopen (⟨t, ht, hclose⟩ | hclose)
        · exact hacross s hs hopen t ht hclose
        · exact hin s hs hopen hclose

theorem clearAll_nil_iff (h : ∀ x ∈ partsAll es, x.kind.Shaped x.children) :
    ClearAll depth [] es ↔ Uncommented (texts es) := by
  have hnil : ¬ClosesComment [] := by decide
  rw [clearAll_iff h]
  exact and_iff_left fun _ _ _ => hnil

end Sheet

end StyleMixins
