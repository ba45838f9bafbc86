import Mathlib.Data.List.Infix
import StyleMixins.Proofs.Substitution.References

namespace StyleMixins.Substitution

variable {c : Char} {cs b w n a : List Char} {ps qs : List Piece} {values : Entries String} {text : String}

def Known (values : Entries String) (name : List Char) : Prop :=
  (values.find? (String.ofList name)).isSome = true

instance (values : Entries String) (name : List Char) : Decidable (Known values name) :=
  inferInstanceAs (Decidable (_ = true))

/-- A reference without a value is plain text. -/
def Piece.known (values : Entries String) : Piece → List Piece
  | .plain c => [.plain c]
  | .reference w n => if Known values n then [.reference w n] else w.map .plain

theorem spell_map_plain (cs : List Char) : spell (cs.map .plain) = cs := by
  induction cs with
  | nil => rfl
  | cons c cs ih => rw [List.map_cons, spell_cons, ih]; rfl

theorem replace_map_plain (values : Entries String) (cs : List Char) :
    (cs.map Piece.plain).flatMap (Piece.replace values) = cs := by
  induction cs with
  | nil => rfl
  | cons c cs ih => rw [List.map_cons, List.flatMap_cons, ih]; rfl

theorem Piece.replace_of_not_known (h : ¬Known values n) : Piece.replace values (.reference w n) = w := by
  rw [Known, Bool.not_eq_true, Option.isSome_eq_false_iff, Option.isNone_iff_eq_none] at h
  simp [Piece.replace, h]

theorem spell_known (values : Entries String) (ps : List Piece) : spell (ps.flatMap (Piece.known values)) = spell ps := by
  induction ps with
  | nil => rfl
  | cons p ps ih =>
    rw [List.flatMap_cons, spell_append, ih, spell_cons]
    cases p with
    | plain c => rfl
    | reference w n =>
      by_cases h : Known values n
      · simp [Piece.known, h]
      · simp [Piece.known, h, spell_map_plain, Piece.written]

theorem replace_known (values : Entries String) (ps : List Piece) :
    (ps.flatMap (Piece.known values)).flatMap (Piece.replace values) = ps.flatMap (Piece.replace values) := by
  induction ps with
  | nil => rfl
  | cons p ps ih =>
    rw [List.flatMap_cons, List.flatMap_append, ih, List.flatMap_cons]
    cases p with
    | plain c => rfl
    | reference w n =>
      by_cases h : Known values n
      · simp [Piece.known, h]
      · simp only [Piece.known, if_neg h, replace_map_plain, Piece.replace_of_not_known h]

theorem hasReference_cons {p : Piece} :
    HasReference (p :: ps) b w n a ↔
      (p = .reference w n ∧ b = [] ∧ spell ps = a) ∨ ∃ b', b = p.written ++ b' ∧ HasReference ps b' w n a := by
  constructor
  · rintro ⟨front, back, hps, rfl, rfl⟩
    cases front with
    | nil =>
      obtain ⟨rfl, rfl⟩ := List.cons.inj hps
      exact .inl ⟨rfl, rfl, rfl⟩
    | cons q front =>
      obtain ⟨rfl, rfl⟩ := List.cons.inj hps
      exact .inr ⟨spell front, rfl, front, back, rfl, rfl, rfl⟩
  · rintro (⟨rfl, rfl, rfl⟩ | ⟨b', rfl, front, back, rfl, rfl, rfl⟩)
    · exact ⟨[], ps, rfl, rfl, rfl⟩
    · exact ⟨p :: front, back, rfl, rfl, rfl⟩

theorem hasReference_plain_append :
    HasReference (cs.map .plain ++ ps) b w n a ↔ ∃ b', b = cs ++ b' ∧ HasReference ps b' w n a := by
  induction cs generalizing b with
  | nil => simp
  | cons c cs ih => simp [hasReference_cons, ih, Piece.written]

theorem hasReference_known :
    HasReference (ps.flatMap (Piece.known values)) b w n a ↔ HasReference ps b w n a ∧ Known values n := by
  induction ps generalizing b with
  | nil => simp [HasReference]
  | cons p ps ih =>
    rw [List.flatMap_cons]
    cases p with
    | plain c => simp [Piece.known, hasReference_cons, ih, Piece.written, ← and_assoc]
    | reference w' n' =>
      by_cases h : Known values n'
      · simp only [Piece.known, if_pos h, List.singleton_append, hasReference_cons, ih, spell_known]
        grind
      · simp only [Piece.known, if_neg h, hasReference_plain_append, hasReference_cons, ih]
        grind [Piece.written]

/-- A result is the text with the references of these pieces replaced. -/
structure Replaces (values : Entries String) (text : String) (ps : List Piece) (result : String) : Prop where
  spelled : spell ps = text.toList
  replaced : ps.flatMap (Piece.replace values) = result.toList

theorem Replaces.known {result : String} (h : Replaces values text ps result) :
    Replaces values text (ps.flatMap (Piece.known values)) result where
  spelled := (spell_known values ps).trans h.spelled
  replaced := (replace_known values ps).trans h.replaced

theorem HasReference.spell_eq (h : HasReference ps b w n a) : spell ps = b ++ w ++ a := by
  obtain ⟨front, back, rfl, rfl, rfl⟩ := h
  simp [Piece.written]

/-- Where a text has changed, a reference was replaced. -/
theorem Replaces.exists_hasReference {result : String} (h : Replaces values text ps result) (hne : result ≠ text) :
    ∃ b w n a, HasReference ps b w n a := by
  by_contra hnone
  have hplain : ∀ p ∈ ps, p.replace values = p.written := by
    intro p hp
    cases p with
    | plain c => rfl
    | reference w n =>
      obtain ⟨front, back, hps⟩ := List.append_of_mem hp
      exact absurd ⟨spell front, w, n, spell back, front, back, hps, rfl, rfl⟩ hnone
  refine hne (String.toList_injective ?_)
  rw [← h.replaced, ← h.spelled, List.flatMap_congr hplain, spell]

theorem hasReference_pieces_iff (htext : b ++ w ++ a = cs) :
    HasReference (pieces true cs) b w n a ↔
      Grouped w n ∨
        Bare w n a ∧ Boundary b ∧ ¬∃ b' w' n', b' ++ w' = b ∧ HasReference (pieces true cs) b' w' n' (w ++ a) := by
  subst htext
  exact (reads_pieces_true _).hasReference_iff

theorem occurs_of_hasReference (h : HasReference (pieces true cs) b w n a) : Occurs b w n a := by
  have hsplit : b ++ w ++ a = cs := h.spell_eq.symm.trans (reads_pieces_true cs).spell_eq
  rcases (hasReference_pieces_iff hsplit).1 h with hg | ⟨hb, hbound, -⟩
  · exact .inl hg
  · exact .inr ⟨hb, hbound⟩

/-- Two mappings that agree on the references in a text give the same result. -/
theorem replaceAll_congr {values' : Entries String}
    (h : ∀ b w n a, b ++ w ++ a = text.toList → Occurs b w n a →
      values.find? (String.ofList n) = values'.find? (String.ofList n)) :
    replaceAll values text = replaceAll values' text := by
  have hpiece : ∀ p ∈ pieces true text.toList, p.replace values = p.replace values' := by
    intro p hp
    cases p with
    | plain c => rfl
    | reference w n =>
      obtain ⟨front, back, hps⟩ := List.append_of_mem hp
      have href : HasReference (pieces true text.toList) (spell front) w n (spell back) :=
        ⟨front, back, hps, rfl, rfl⟩
      have hsplit := href.spell_eq.symm.trans (reads_pieces_true text.toList).spell_eq
      simp only [Piece.replace, h _ _ _ _ hsplit (occurs_of_hasReference href)]
  rw [replaceAll, replaceAll, List.flatMap_congr hpiece]

theorem replaceAll_nil (text : String) : replaceAll [] text = text := by
  have hpiece : ∀ p ∈ pieces true text.toList, p.replace [] = p.written := by
    intro p _
    cases p <;> rfl
  rw [replaceAll, List.flatMap_congr hpiece]
  exact (congrArg String.ofList (reads_pieces_true text.toList).spell_eq).trans String.ofList_toList

/-- A text none of whose references has a value stays as it is. -/
theorem replaceAll_of_not_known
    (h : ∀ b w n a, b ++ w ++ a = text.toList → Occurs b w n a → ¬Known values n) : replaceAll values text = text := by
  refine (replaceAll_congr fun b w n a hsplit hocc => ?_).trans (replaceAll_nil text)
  have hnone := h b w n a hsplit hocc
  rw [Known, Bool.not_eq_true, Option.isSome_eq_false_iff, Option.isNone_iff_eq_none] at hnone
  exact hnone

theorem Occurs.mem_dollar (h : Occurs b w n a) : '$' ∈ w := by
  obtain ⟨tail, rfl, -⟩ := h.eq_cons
  simp

/-- Nothing is missed in a text that is not searched. -/
theorem substitute_eq (values : Entries String) (text : String) : substitute values text = replaceAll values text := by
  rw [substitute]
  split
  next => rfl
  next hdollar =>
    refine (replaceAll_of_not_known fun b w n a hsplit hocc _ => hdollar ?_).symm
    simp [← hsplit, hocc.mem_dollar]

theorem substitute_of_no_dollar (h : '$' ∉ text.toList) : substitute values text = text := by
  rw [substitute, List.contains_eq_mem, if_neg (by simpa using h)]

theorem reword_eq (values : Entries String) : reword values = substitute values := by
  funext text
  rw [reword]
  split
  next => rfl
  next hdollar => exact (substitute_of_no_dollar (by simpa using hdollar)).symm

theorem replaces_pieces (values : Entries String) (text : String) :
    Replaces values text (pieces true text.toList) (substitute values text) where
  spelled := (reads_pieces_true text.toList).spell_eq
  replaced := by rw [substitute_eq, replaceAll, String.toList_ofList]

/-- Of the references in a text exactly those with a value are replaced. -/
def ReplacesEvery (values : Entries String) (text result : String) : Prop :=
  ∃ ps, Replaces values text ps result ∧
    ∀ b w n a, b ++ w ++ a = text.toList → (HasReference ps b w n a ↔ Occurs b w n a ∧ Known values n)

/-- No bare reference with a value begins where another reference ends. -/
def Apart (values : Entries String) (text : List Char) : Prop :=
  ∀ b w n a b' w' n', b ++ w ++ a = text → b' ++ w' = b → Occurs b' w' n' (w ++ a) → Bare w n a → Boundary b →
    ¬Known values n

/-- A reference ends in `)` or in a character of its name. -/
theorem Occurs.getLast? (h : Occurs b w n a) : ∃ front c, w = front ++ [c] ∧ (c = ')' ∨ isNameChar c = true) := by
  rcases h with ⟨-, left, right, -, -, rfl⟩ | ⟨⟨⟨hne, hname⟩, rfl, -⟩, -⟩
  · exact ⟨'$' :: '(' :: (left ++ n ++ right), ')', by simp, .inl rfl⟩
  · obtain ⟨front, c, rfl⟩ := (List.eq_nil_or_concat n).resolve_left hne
    exact ⟨'$' :: front, c, by simp, .inr (hname c (by simp))⟩

/-- It is enough that no `$` stands just after `)` or `-`. -/
theorem apart_of_not_infix (hclose : ¬[')', '$'] <:+: cs) (hminus : ¬['-', '$'] <:+: cs) : Apart values cs := by
  rintro b w n a b' w' n' rfl rfl hocc hb hbound -
  obtain ⟨front, c, rfl, hc⟩ := hocc.getLast?
  obtain ⟨tail, rfl, -⟩ := hb.eq_cons
  have hword : Text.isWord c = false := hbound c (by simp)
  have hinfix : [c, '$'] <:+: b' ++ (front ++ [c]) ++ '$' :: tail ++ a := ⟨b' ++ front, tail ++ a, by simp⟩
  rcases hc with rfl | hc
  · exact hclose hinfix
  · obtain rfl : c = '-' := by simpa [isNameChar, hword] using hc
    exact hminus hinfix

theorem replacesEvery_of_apart (h : Apart values text.toList) : ReplacesEvery values text (substitute values text) := by
  refine ⟨_, (replaces_pieces values text).known, fun b w n a hsplit => ?_⟩
  rw [hasReference_known]
  refine and_congr_left fun hknown => ⟨occurs_of_hasReference, fun hocc => ?_⟩
  rw [hasReference_pieces_iff hsplit]
  refine hocc.imp_right fun ⟨hb, hbound⟩ => ⟨hb, hbound, ?_⟩
  rintro ⟨b', w', n', hbefore, href⟩
  exact h b w n a b' w' n' hsplit hbefore (occurs_of_hasReference href) hb hbound hknown

/-- Every reference is found, except a bare one that begins where the reference found before it ends: it would have to
share the character before it. So all references with a value are replaced in a text that holds no such pair. -/
theorem substitute_finds_references (values : Entries String) (text : String) :
    (∃ ps, Replaces values text ps (substitute values text) ∧
      ∀ b w n a, b ++ w ++ a = text.toList →
        (HasReference ps b w n a ↔
          Grouped w n ∨
            Bare w n a ∧ Boundary b ∧ ¬∃ b' w' n', b' ++ w' = b ∧ HasReference ps b' w' n' (w ++ a))) ∧
    (Apart values text.toList → ReplacesEvery values text (substitute values text)) :=
  ⟨⟨pieces true text.toList, replaces_pieces values text, fun _ _ _ _ => hasReference_pieces_iff⟩,
    replacesEvery_of_apart⟩

theorem substitute_finds_references_list :
    Apart [("a", "1"), ("b-c", "$a")] "($a,$( b-c ) $a-, $d)".toList ∧
      ReplacesEvery [("a", "1"), ("b-c", "$a")] "($a,$( b-c ) $a-, $d)" "(1,$a $a-, $d)" := by
  have hapart : Apart [("a", "1"), ("b-c", "$a")] "($a,$( b-c ) $a-, $d)".toList :=
    apart_of_not_infix (by decide) (by decide)
  have hresult : substitute [("a", "1"), ("b-c", "$a")] "($a,$( b-c ) $a-, $d)" = "(1,$a $a-, $d)" := by decide +kernel
  refine ⟨hapart, ?_⟩
  have h := (substitute_finds_references [("a", "1"), ("b-c", "$a")] "($a,$( b-c ) $a-, $d)").2 hapart
  rwa [hresult] at h

/-- In `$(a)$a` the second reference follows a character that belongs to no word, and is overlooked. -/
theorem adjacent_reference_overlooked :
    ¬ReplacesEvery [("a", "1")] "$(a)$a" (substitute [("a", "1")] "$(a)$a") := by
  have hresult : substitute [("a", "1")] "$(a)$a" = "1$a" := by decide +kernel
  rw [hresult]
  rintro ⟨ps, ⟨hspell, hreplaced⟩, hevery⟩
  have hname : IsName ['a'] := ⟨by simp, by simpa using (by decide : isNameChar 'a' = true)⟩
  have hocc : Occurs "$(a)".toList "$a".toList ['a'] [] :=
    .inr ⟨⟨hname, rfl, by simp⟩, by simp [Boundary]; decide⟩
  obtain ⟨front, back, rfl, hfront, hback⟩ := (hevery _ _ _ _ rfl).2 ⟨hocc, by decide⟩
  -- Nothing can follow the last reference, so a result that replaces it ends in its value.
  cases back with
  | nil =>
    have hlast := congrArg List.getLast? hreplaced
    simp [Piece.replace, Entries.find?] at hlast
  | cons p back =>
    obtain ⟨hp, -⟩ := List.append_eq_nil_iff.1 hback
    cases p with
    | plain c => simp [Piece.written] at hp
    | reference w n =>
      obtain rfl : w = [] := hp
      have href : HasReference (front ++ .reference "$a".toList ['a'] :: .reference [] n :: back)
          (spell (front ++ [.reference "$a".toList ['a']])) [] n (spell back) :=
        ⟨front ++ [.reference "$a".toList ['a']], back, by simp, rfl, rfl⟩
      have hempty := ((hevery _ _ _ _ (href.spell_eq.symm.trans hspell)).1 href).1.mem_dollar
      simp at hempty

end StyleMixins.Substitution
