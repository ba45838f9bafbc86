import StyleMixins.Proofs.Text.Trim
import StyleMixins.Substitution

namespace StyleMixins

namespace Text

theorem isWord_of_isBlank {c : Char} (h : isBlank c = true) : isWord c = false :=
  forall_isBlank (p := fun c => isWord c = false) (by decide +kernel) h

end Text

namespace Substitution

variable {c : Char} {cs b w n a : List Char} {joint : Bool} {ps : List Piece}

theorem isNameChar_of_isBlank (h : Text.isBlank c = true) : isNameChar c = false := by
  have hminus : c ≠ '-' := by
    rintro rfl
    exact absurd h (by decide)
  simp [isNameChar, Text.isWord_of_isBlank h, hminus]

def IsName (name : List Char) : Prop :=
  name ≠ [] ∧ ∀ c ∈ name, isNameChar c = true

/-- `$(name)`, with blanks allowed inside the parentheses. -/
def Grouped (written name : List Char) : Prop :=
  IsName name ∧ ∃ left right, (∀ c ∈ left, Text.isBlank c = true) ∧ (∀ c ∈ right, Text.isBlank c = true) ∧
    written = '$' :: '(' :: (left ++ name ++ right ++ [')'])

/-- `$name`, where the name does not go on in the text after it. -/
def Bare (written name after : List Char) : Prop :=
  IsName name ∧ written = '$' :: name ∧ ∀ c ∈ after.head?, isNameChar c = false

/-- The start of a text, or what ends in a character that belongs to no word. -/
def Boundary (before : List Char) : Prop :=
  ∀ c ∈ before.getLast?, Text.isWord c = false

/-- A reference stands between two parts of a text. -/
def Occurs (before written name after : List Char) : Prop :=
  Grouped written name ∨ Bare written name after ∧ Boundary before

theorem takeWhile_append_of_head {p : Char → Bool} (hcs : ∀ c ∈ cs, p c = true) (ha : ∀ c ∈ a.head?, p c = false) :
    (cs ++ a).takeWhile p = cs ∧ (cs ++ a).dropWhile p = a := by
  rw [List.takeWhile_append_of_pos hcs, List.dropWhile_append_of_pos hcs]
  cases a with
  | nil => simp
  | cons d a =>
    have hd := ha d rfl
    simp [hd]

theorem grouped?_of_grouped (h : Grouped w n) (a : List Char) : grouped? (w ++ a) = some ⟨w, n, a⟩ := by
  obtain ⟨⟨hne, hname⟩, left, right, hleft, hright, rfl⟩ := h
  have hclose : ∀ x ∈ (right ++ ')' :: a).head?, isNameChar x = false := by
    cases right with
    | nil => simp [show isNameChar ')' = false by decide]
    | cons e right => simpa using isNameChar_of_isBlank (hright e (by simp))
  have hopen : ∀ x ∈ (n ++ (right ++ ')' :: a)).head?, Text.isBlank x = false := by
    intro x hx
    obtain ⟨d, n, rfl⟩ := List.exists_cons_of_ne_nil hne
    obtain rfl : d = x := by simpa using hx
    cases hb : Text.isBlank d with
    | false => rfl
    | true => simpa [isNameChar_of_isBlank hb] using hname d (by simp)
  obtain ⟨hleft₁, hleft₂⟩ := takeWhile_append_of_head hleft hopen
  obtain ⟨hname₁, hname₂⟩ := takeWhile_append_of_head hname hclose
  obtain ⟨hright₁, hright₂⟩ := takeWhile_append_of_head (a := ')' :: a) hright (by simp; decide)
  have hsplit : '$' :: '(' :: (left ++ n ++ right ++ [')']) ++ a =
      '$' :: '(' :: (left ++ (n ++ (right ++ ')' :: a))) := by simp
  rw [hsplit, grouped?]
  simp only [hleft₁, hleft₂, hname₁, hname₂, hright₁, hright₂]
  cases n with
  | nil => exact absurd rfl hne
  | cons d n => simp

theorem grouped_of_grouped? {r : Reference} (h : grouped? cs = some r) :
    Grouped r.written r.name ∧ cs = r.written ++ r.rest := by
  unfold grouped? at h
  split at h
  next cs =>
    simp only at h
    split at h
    next hname hrest =>
      obtain rfl := Option.some.inj h
      refine ⟨⟨⟨by simp [hname], fun c hc => List.mem_takeWhile_imp hc⟩, cs.takeWhile Text.isBlank, _,
        fun c hc => List.mem_takeWhile_imp hc, fun c hc => List.mem_takeWhile_imp hc, by simp; rfl⟩, ?_⟩
      simp only [List.cons_append, List.append_assoc, List.nil_append, ← hrest,
        List.takeWhile_append_dropWhile]
    next => simp at h
  next => simp at h

theorem bare?_of_bare (h : Bare w n a) : bare? (w ++ a) = some ⟨w, n, a⟩ := by
  obtain ⟨⟨hne, hname⟩, rfl, ha⟩ := h
  obtain ⟨ht, hd⟩ := takeWhile_append_of_head hname ha
  obtain ⟨d, n, rfl⟩ := List.exists_cons_of_ne_nil hne
  rw [List.cons_append, bare?, ht, hd]

theorem bare_of_bare? {r : Reference} (h : bare? cs = some r) :
    Bare r.written r.name r.rest ∧ cs = r.written ++ r.rest := by
  unfold bare? at h
  split at h
  next cs =>
    split at h
    next => simp at h
    next name hne =>
      obtain rfl := Option.some.inj h
      refine ⟨⟨⟨hne, fun c hc => List.mem_takeWhile_imp hc⟩, rfl, fun c hc => Text.head_dropWhile hc⟩, ?_⟩
      simp
  next => simp at h

/-- A reference starts with `$` and holds no other. -/
theorem Grouped.eq_cons (h : Grouped w n) : ∃ tail, w = '$' :: tail ∧ '$' ∉ tail := by
  obtain ⟨⟨-, hname⟩, left, right, hleft, hright, rfl⟩ := h
  refine ⟨_, rfl, fun hm => ?_⟩
  simp only [List.mem_cons, List.mem_append, List.not_mem_nil, or_false] at hm
  rcases hm with hm | ((hm | hm) | hm) | hm
  · exact absurd hm (by decide)
  · exact absurd (hleft _ hm) (by decide)
  · exact absurd (hname _ hm) (by decide)
  · exact absurd (hright _ hm) (by decide)
  · exact absurd hm (by decide)

theorem Bare.eq_cons (h : Bare w n a) : ∃ tail, w = '$' :: tail ∧ '$' ∉ tail := by
  obtain ⟨⟨-, hname⟩, rfl, -⟩ := h
  exact ⟨n, rfl, fun hm => absurd (hname _ hm) (by decide)⟩

theorem Occurs.eq_cons (h : Occurs b w n a) : ∃ tail, w = '$' :: tail ∧ '$' ∉ tail :=
  h.elim Grouped.eq_cons fun hb => hb.1.eq_cons

theorem Grouped.not_bare {w' n' a' : List Char} (h : Grouped w n) (hw : w ++ a = w' ++ a') : ¬Bare w' n' a' := by
  rintro ⟨⟨hne, hname⟩, rfl, -⟩
  obtain ⟨-, left, right, -, -, rfl⟩ := h
  obtain ⟨d, n', rfl⟩ := List.exists_cons_of_ne_nil hne
  simp only [List.cons_append, List.cons.injEq, true_and] at hw
  obtain ⟨rfl, -⟩ := hw
  exact absurd (hname '(' (by simp)) (by decide)

/-- The text that a piece stands for. -/
def Piece.written : Piece → List Char
  | .plain c => [c]
  | .reference written _ => written

def spell (ps : List Piece) : List Char :=
  ps.flatMap Piece.written

@[simp] theorem spell_nil : spell [] = [] := rfl

@[simp] theorem spell_cons (p : Piece) (ps : List Piece) : spell (p :: ps) = p.written ++ spell ps := rfl

@[simp] theorem spell_append (ps qs : List Piece) : spell (ps ++ qs) = spell ps ++ spell qs :=
  List.flatMap_append

/-- How a text that follows `before` falls into pieces. `joint` says that a reference ends where the text starts; a
bare reference is not found there. -/
inductive Reads : (before : List Char) → (joint : Bool) → (text : List Char) → List Piece → Prop
  | done {b : List Char} {joint : Bool} : Reads b joint [] []
  | grouped {b w n a : List Char} {joint : Bool} {ps : List Piece} (h : Grouped w n) (ha : Reads (b ++ w) true a ps) :
      Reads b joint (w ++ a) (.reference w n :: ps)
  | bare {b w n a : List Char} {ps : List Piece} (h : Bare w n a) (hb : Boundary b) (ha : Reads (b ++ w) true a ps) :
      Reads b false (w ++ a) (.reference w n :: ps)
  | plain {b : List Char} {joint : Bool} {c : Char} {cs : List Char} {ps : List Piece}
      (h : ∀ w n a, c :: cs = w ++ a → ¬Grouped w n ∧ (Bare w n a → Boundary b → joint = true))
      (ha : Reads (b ++ [c]) false cs ps) : Reads b joint (c :: cs) (.plain c :: ps)

theorem not_grouped_of_grouped?_eq_none (h : grouped? (w ++ a) = none) : ¬Grouped w n := fun hg => by
  simp [grouped?_of_grouped hg a] at h

theorem not_bare_of_bare?_eq_none (h : bare? (w ++ a) = none) : ¬Bare w n a := fun hb => by
  simp [bare?_of_bare hb] at h

theorem boundary_append (hc : Text.isWord c = false) : Boundary (b ++ [c]) := by
  simp [Boundary, hc]

theorem not_boundary_append (hc : Text.isWord c = true) : ¬Boundary (b ++ [c]) := by
  simp [Boundary, hc]

/-- What the search for a reference at the head of a text rules out when it fails. -/
theorem none_at_head {atStart : Bool} (hgrouped : grouped? cs = none)
    (hfirst : (if atStart then bare? cs else none) = none)
    (hlater : atStart = false → joint = true ∨ ¬Boundary b ∨ bare? cs = none) (w n a : List Char) (hsplit : cs = w ++ a) :
    ¬Grouped w n ∧ (Bare w n a → Boundary b → joint = true) := by
  subst hsplit
  refine ⟨not_grouped_of_grouped?_eq_none hgrouped, fun hbare hb => ?_⟩
  cases atStart with
  | true => exact absurd hbare (not_bare_of_bare?_eq_none hfirst)
  | false =>
    rcases hlater rfl with h | h | h
    · exact h
    · exact absurd hb h
    · exact absurd hbare (not_bare_of_bare?_eq_none h)

/-- The pieces of a text are a reading of it. Past the start a bare reference is looked for together with the character
before it, so at the head of what is left there is none, unless that character was used up or belongs to a word. -/
theorem reads_pieces (atStart : Bool) (text : List Char) (hstart : atStart = true → b = [] ∧ joint = false)
    (hlater : atStart = false → joint = true ∨ ¬Boundary b ∨ bare? text = none) :
    Reads b joint text (pieces atStart text) := by
  fun_induction pieces atStart text generalizing b joint with
  | case1 => exact .done
  | case2 atStart c cs r hr ih =>
    obtain ⟨hg, hsplit⟩ := grouped_of_grouped? hr
    rw [hsplit]
    exact .grouped hg (ih (by simp) (by simp))
  | case3 atStart c cs hnone r hr ih =>
    cases atStart with
    | false => simp at hr
    | true =>
      obtain ⟨rfl, rfl⟩ := hstart rfl
      obtain ⟨hb, hsplit⟩ := bare_of_bare? hr
      rw [hsplit]
      exact .bare hb (by simp [Boundary]) (ih (by simp) (by simp))
  | case4 atStart c cs hnone hfirst hword ih =>
    exact .plain (none_at_head hnone hfirst hlater) (ih (by simp) fun _ => .inr (.inl (not_boundary_append hword)))
  | case5 atStart c cs hnone hfirst hword r hr ih =>
    obtain ⟨hb, hsplit⟩ := bare_of_bare? hr
    refine .plain (none_at_head hnone hfirst hlater) ?_
    rw [hsplit]
    exact .bare hb (boundary_append (by simpa using hword)) (ih (by simp) (by simp))
  | case6 atStart c cs hnone hfirst hword hinner ih =>
    exact .plain (none_at_head hnone hfirst hlater) (ih (by simp) fun _ => .inr (.inr hinner))

theorem reads_pieces_true (text : List Char) : Reads [] false text (pieces true text) :=
  reads_pieces true text (by simp) (by simp)

/-- Pieces hold a reference, with what stands before and after it. -/
def HasReference (ps : List Piece) (before written name after : List Char) : Prop :=
  ∃ front back, ps = front ++ .reference written name :: back ∧ spell front = before ∧ spell back = after

def Piece.isReference : Piece → Bool
  | .plain _ => false
  | .reference _ _ => true

/-- A reference ends where these pieces end; `joint` says it of where they start. -/
def joins (joint : Bool) (ps : List Piece) : Bool :=
  ps.foldl (fun _ p => p.isReference) joint

theorem exists_of_joins (h : joins false ps = true) : ∃ front w n, ps = front ++ [.reference w n] := by
  rcases List.eq_nil_or_concat ps with rfl | ⟨front, p, rfl⟩
  · simp [joins] at h
  · cases p with
    | plain c => simp [joins, Piece.isReference] at h
    | reference w n => exact ⟨front, w, n, by simp⟩

namespace Reads

variable {text : List Char}

theorem spell_eq (h : Reads b joint text ps) : spell ps = text := by
  induction h with
  | done => rfl
  | grouped _ _ ih => rw [spell_cons, ih]; rfl
  | bare _ _ _ ih => rw [spell_cons, ih]; rfl
  | plain _ _ ih => rw [spell_cons, ih]; rfl

/-- In no piece a `$` follows the first character. -/
theorem written_eq_cons (h : Reads b joint text ps) {p : Piece} (hp : p ∈ ps) :
    ∃ d tail, p.written = d :: tail ∧ '$' ∉ tail := by
  induction h with
  | done => simp at hp
  | grouped hg _ ih =>
    rcases List.mem_cons.1 hp with rfl | hp
    · exact ⟨_, hg.eq_cons⟩
    · exact ih hp
  | bare hb _ _ ih =>
    rcases List.mem_cons.1 hp with rfl | hp
    · exact ⟨_, hb.eq_cons⟩
    · exact ih hp
  | @plain _ _ c _ _ _ _ ih =>
    rcases List.mem_cons.1 hp with rfl | hp
    · exact ⟨c, [], rfl, by simp⟩
    · exact ih hp

/-- A reading goes on after any of its pieces. -/
theorem cut {front rest : List Piece} (h : Reads b joint text (front ++ rest)) :
    Reads (b ++ spell front) (joins joint front) (spell rest) rest := by
  induction front generalizing b joint text with
  | nil =>
    rw [List.nil_append] at h
    simpa [h.spell_eq, joins] using h
  | cons p front ih =>
    rw [spell_cons, ← List.append_assoc]
    cases h with
    | grouped _ ha => exact ih ha
    | bare _ _ ha => exact ih ha
    | plain _ ha => exact ih ha

/-- When a reading starts with a reference. -/
theorem head_iff (h : Reads b joint (w ++ a) ps) :
    (∃ back, ps = .reference w n :: back ∧ spell back = a) ↔
      Grouped w n ∨ Bare w n a ∧ Boundary b ∧ joint = false := by
  generalize htext : w ++ a = text at h
  cases h with
  | done =>
    obtain ⟨rfl, rfl⟩ := List.append_eq_nil_iff.1 htext
    constructor
    · rintro ⟨back, hps, -⟩
      cases hps
    · intro hfound
      obtain ⟨tail, htail, -⟩ := Occurs.eq_cons (hfound.imp_right fun h => ⟨h.1, h.2.1⟩)
      cases htail
  | @grouped _ w₀ n₀ a₀ _ ps hg ha =>
    constructor
    · rintro ⟨back, hps, -⟩
      obtain ⟨⟨rfl, rfl⟩, rfl⟩ : (w₀ = w ∧ n₀ = n) ∧ ps = back := by simpa using hps
      exact .inl hg
    · rintro (hg' | ⟨hb, -⟩)
      · have hsame := grouped?_of_grouped hg' a
        rw [htext, grouped?_of_grouped hg] at hsame
        obtain ⟨rfl, rfl, rfl⟩ : w₀ = w ∧ n₀ = n ∧ a₀ = a := by simpa using hsame
        exact ⟨ps, rfl, ha.spell_eq⟩
      · exact absurd hb (hg.not_bare htext.symm)
  | @bare _ w₀ n₀ a₀ ps hb hbound ha =>
    constructor
    · rintro ⟨back, hps, hback⟩
      obtain ⟨⟨rfl, rfl⟩, rfl⟩ : (w₀ = w ∧ n₀ = n) ∧ ps = back := by simpa using hps
      obtain rfl : a₀ = a := ha.spell_eq.symm.trans hback
      exact .inr ⟨hb, hbound, rfl⟩
    · rintro (hg | ⟨hb', -⟩)
      · exact absurd hb (hg.not_bare htext)
      · have hsame := bare?_of_bare hb'
        rw [htext, bare?_of_bare hb] at hsame
        obtain ⟨rfl, rfl, rfl⟩ : w₀ = w ∧ n₀ = n ∧ a₀ = a := by simpa using hsame
        exact ⟨ps, rfl, ha.spell_eq⟩
  | plain hnone ha =>
    constructor
    · rintro ⟨back, hps, -⟩
      cases hps
    · rintro (hg | ⟨hb, hbound, hjoint⟩)
      · exact absurd hg (hnone w n a htext.symm).1
      · have := (hnone w n a htext.symm).2 hb hbound
        simp [this] at hjoint

end Reads

/-- Where no piece reaches over a `$`, one starts at each. -/
theorem exists_spell_front (hps : ∀ p ∈ ps, ∃ d tail, p.written = d :: tail ∧ '$' ∉ tail)
    (htext : spell ps = cs ++ '$' :: a) : ∃ front rest, ps = front ++ rest ∧ spell front = cs := by
  induction ps generalizing cs with
  | nil => simp at htext
  | cons p ps ih =>
    cases cs with
    | nil => exact ⟨[], p :: ps, rfl, rfl⟩
    | cons c cs =>
      obtain ⟨d, tail, hp, htail⟩ := hps p (by simp)
      simp only [spell_cons, hp, List.cons_append, List.cons.injEq] at htext
      obtain ⟨rfl, htext⟩ := htext
      rcases List.append_eq_append_iff.1 htext with ⟨more, rfl, hmore⟩ | ⟨more, rfl, hmore⟩
      · obtain ⟨front, rest, rfl, rfl⟩ := ih (fun q hq => hps q (by simp [hq])) hmore
        exact ⟨p :: front, rest, rfl, by simp [hp]⟩
      · cases more with
        | nil => exact ⟨[p], ps, rfl, by simp [hp]⟩
        | cons e more =>
          obtain ⟨rfl, -⟩ : '$' = e ∧ _ := by simpa using hmore
          simp at htail

/-- A reading has one way to be cut at a place of its text. -/
theorem front_unique {front front' rest rest' : List Piece} (hps : ∀ p ∈ front ++ rest, p.written ≠ [])
    (h : front ++ rest = front' ++ rest') (hspell : spell front = spell front') : front = front' := by
  induction front generalizing front' with
  | nil =>
    cases front' with
    | nil => rfl
    | cons p front' =>
      obtain rfl : rest = p :: (front' ++ rest') := h
      exact absurd (List.append_eq_nil_iff.1 hspell.symm).1 (hps p (by simp))
  | cons p front ih =>
    cases front' with
    | nil => exact absurd (List.append_eq_nil_iff.1 hspell).1 (hps p (by simp))
    | cons q front' =>
      obtain ⟨rfl, htail⟩ := List.cons.inj h
      rw [ih (fun r hr => hps r (by simp [hr])) htail (List.append_cancel_left hspell)]

/-- The references that a reading of a whole text finds: all the grouped ones, and of the bare ones after a boundary
those that do not begin where the reference before them ends. -/
theorem Reads.hasReference_iff (h : Reads [] false (b ++ w ++ a) ps) :
    HasReference ps b w n a ↔
      Grouped w n ∨
        Bare w n a ∧ Boundary b ∧ ¬∃ b' w' n', b' ++ w' = b ∧ HasReference ps b' w' n' (w ++ a) := by
  constructor
  · rintro ⟨front, back, rfl, rfl, rfl⟩
    rcases h.cut.head_iff.1 ⟨back, rfl, rfl⟩ with hg | ⟨hb, hbound, hjoint⟩
    · exact .inl hg
    · refine .inr ⟨hb, by simpa using hbound, ?_⟩
      rintro ⟨b', w', n', hsplit, front', back', hps, rfl, -⟩
      have hps' : front ++ .reference w n :: back = front' ++ [.reference w' n'] ++ back' := by simpa using hps
      have hsame : front = front' ++ [.reference w' n'] := by
        refine front_unique (fun p hp => ?_) hps' (by simp [← hsplit, Piece.written])
        obtain ⟨d, tail, hd, -⟩ := h.written_eq_cons hp
        simp [hd]
      simp [hsame, joins, Piece.isReference] at hjoint
  · intro hfound
    have hocc : Occurs b w n a := hfound.imp_right fun h => ⟨h.1, h.2.1⟩
    obtain ⟨tail, rfl, -⟩ := hocc.eq_cons
    obtain ⟨front, rest, rfl, rfl⟩ := exists_spell_front (fun p => h.written_eq_cons)
      (h.spell_eq.trans (by simp : _ = b ++ '$' :: (tail ++ a)))
    have hrest : spell rest = '$' :: tail ++ a := by simpa using h.spell_eq
    have hcut := h.cut
    rw [hrest] at hcut
    have hhead : Grouped ('$' :: tail) n ∨
        Bare ('$' :: tail) n a ∧ Boundary ([] ++ spell front) ∧ joins false front = false := by
      refine hfound.imp_right fun ⟨hb, hbound, hfree⟩ => ⟨hb, hbound, ?_⟩
      by_contra hjoint
      obtain ⟨front', w', n', rfl⟩ := exists_of_joins (by simpa using hjoint)
      exact hfree ⟨spell front', w', n', by simp [Piece.written], front', rest, by simp, rfl, hrest⟩
    obtain ⟨back, rfl, rfl⟩ := hcut.head_iff.2 hhead
    exact ⟨front, back, rfl, rfl, rfl⟩

end Substitution

end StyleMixins
