import StyleMixins.Call.Invocation
import StyleMixins.Substitution

namespace StyleMixins

namespace Call

/-- The part of a call text before the first `(`. -/
def head (text : String) : List Char :=
  text.toList.takeWhile (· ≠ '(')

def headName (text : String) : String :=
  String.ofList (Text.trim (head text))

theorem name_of_read {text : String} {invocation : Invocation} (h : Invocation.read text = some invocation) :
    invocation.name = headName text := by
  rw [Invocation.read] at h
  simp only at h
  split at h
  next => rw [← Option.some.inj h]; rfl
  next =>
    split at h
    next => rw [← Option.some.inj h]; rfl
    next => simp at h

end Call

namespace Substitution

variable {c : Char} {cs : List Char}

theorem grouped?_eq_none (h : c ≠ '$') : grouped? (c :: cs) = none := by
  unfold grouped?
  split
  next heq => exact absurd (List.cons.inj heq).1 h
  next => rfl

theorem bare?_eq_none (h : cs.head? ≠ some '$') : bare? cs = none := by
  unfold bare?
  split
  next => simp at h
  next => rfl

/-- A character that starts no reference is a piece of its own. -/
theorem exists_pieces_cons (atStart : Bool) (cs : List Char) (h : c ≠ '$') :
    ∃ rest, pieces atStart (c :: cs) = .plain c :: rest := by
  have hbare : (if atStart then bare? (c :: cs) else none) = none := by
    rw [bare?_eq_none (by simpa using h), ite_self]
  rw [pieces, grouped?_eq_none h, hbare]
  simp only
  split
  · exact ⟨_, rfl⟩
  · split <;> exact ⟨_, rfl⟩

theorem pieces_cons (atStart : Bool) (h : c ≠ '$') (hcs : cs.head? ≠ some '$') :
    pieces atStart (c :: cs) = .plain c :: pieces false cs := by
  have hbare : (if atStart then bare? (c :: cs) else none) = none := by
    rw [bare?_eq_none (by simpa using h), ite_self]
  rw [pieces, grouped?_eq_none h, hbare, bare?_eq_none hcs]
  simp

theorem takeWhile_pieces (values : Entries String) (atStart : Bool) (cs : List Char)
    (h : '$' ∉ cs.takeWhile (· ≠ '(')) :
    ((pieces atStart cs).flatMap (Piece.replace values)).takeWhile (· ≠ '(') = cs.takeWhile (· ≠ '(') := by
  induction cs generalizing atStart with
  | nil =>
    rw [pieces]
    rfl
  | cons c cs ih =>
    by_cases hc : c = '('
    · obtain ⟨rest, he⟩ := exists_pieces_cons atStart cs (show c ≠ '$' by rw [hc]; decide)
      rw [he, List.flatMap_cons, hc]
      rfl
    · have hcons : ∀ l : List Char, (c :: l).takeWhile (· ≠ '(') = c :: l.takeWhile (· ≠ '(') := by simp [hc]
      rw [hcons, List.mem_cons, not_or] at h
      have hcs : cs.head? ≠ some '$' := by
        intro hd
        obtain ⟨rest, rfl⟩ := List.head?_eq_some_iff.mp hd
        exact h.2 (by simp)
      rw [pieces_cons atStart (Ne.symm h.1) hcs, List.flatMap_cons, Piece.replace, List.singleton_append,
        hcons, hcons, ih false h.2]

theorem head_substitute (values : Entries String) {text : String} (h : '$' ∉ Call.head text) :
    Call.head (substitute values text) = Call.head text := by
  rw [substitute]
  split
  next =>
    rw [Call.head, replaceAll, String.toList_ofList]
    exact takeWhile_pieces values true text.toList h
  next => rfl

end Substitution

end StyleMixins
