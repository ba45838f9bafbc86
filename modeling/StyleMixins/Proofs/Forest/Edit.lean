import StyleMixins.Proofs.Forest.Basic
import Mathlib.Data.List.Nodup

namespace StyleMixins

/-- Every occurrence of an entry gives way to new ones. -/
def swap {α : Type} [DecidableEq α] (c : α) (new l : List α) : List α :=
  l.flatMap fun x => if x = c then new else [x]

section Swap

variable {α : Type} [DecidableEq α]

@[simp] theorem swap_nil (c : α) (new : List α) : swap c new [] = [] := rfl

@[simp] theorem swap_cons (c : α) (new : List α) (x : α) (l : List α) :
    swap c new (x :: l) = (if x = c then new else [x]) ++ swap c new l := rfl

theorem swap_append (c : α) (new l l' : List α) : swap c new (l ++ l') = swap c new l ++ swap c new l' :=
  List.flatMap_append

theorem swap_of_not_mem {c : α} {l : List α} (new : List α) (h : c ∉ l) : swap c new l = l := by
  induction l with
  | nil => rfl
  | cons x l ih =>
    rw [List.mem_cons, not_or] at h
    rw [swap_cons, if_neg (Ne.symm h.1), ih h.2]
    rfl

theorem swap_empty (c : α) (l : List α) : swap c [] l = l.filter (· ≠ c) := by
  induction l with
  | nil => rfl
  | cons x l ih => by_cases h : x = c <;> simp [h, ih]

theorem mem_swap {c x : α} {new l : List α} : x ∈ swap c new l ↔ x ∈ l ∧ x ≠ c ∨ c ∈ l ∧ x ∈ new := by
  rw [swap, List.mem_flatMap]
  constructor
  · rintro ⟨y, hy, hx⟩
    by_cases h : y = c
    · exact Or.inr ⟨h ▸ hy, by simpa [h] using hx⟩
    · have e : x = y := by simpa [h] using hx
      exact Or.inl ⟨e ▸ hy, e ▸ h⟩
  · rintro (⟨hx, hc⟩ | ⟨hc, hx⟩)
    · exact ⟨x, hx, by simp [hc]⟩
    · exact ⟨c, hc, by simpa using hx⟩

/-- An entry that comes once gives way where it stands. -/
theorem exists_swap_eq {c : α} {l : List α} (hm : c ∈ l) (hn : l.Nodup) (new : List α) :
    ∃ before after, l = before ++ c :: after ∧ swap c new l = before ++ new ++ after := by
  obtain ⟨before, after, rfl⟩ := List.append_of_mem hm
  have hbefore : c ∉ before := by
    intro hb
    exact (List.nodup_append.mp hn).2.2 c hb c (List.mem_cons_self ..) rfl
  have hafter : c ∉ after := (List.nodup_cons.mp (List.nodup_append.mp hn).2.1).1
  refine ⟨before, after, rfl, ?_⟩
  rw [swap_append, swap_of_not_mem _ hbefore, swap_cons, if_pos rfl, swap_of_not_mem _ hafter, List.append_assoc]

theorem nodup_swap {c : α} {new l : List α} (hl : l.Nodup) (hn : new.Nodup)
    (h : ∀ x ∈ new, x ∈ l → x = c) : (swap c new l).Nodup := by
  induction l with
  | nil => simp
  | cons a l ih =>
    obtain ⟨ha, hl⟩ := List.nodup_cons.mp hl
    have ih := ih hl fun x hx hm => h x hx (by simp [hm])
    rw [swap_cons]
    by_cases e : a = c
    · subst e
      rw [if_pos rfl, swap_of_not_mem _ ha]
      refine List.nodup_append.mpr ⟨hn, hl, ?_⟩
      rintro x hx y hy rfl
      exact ha (h x hx (by simp [hy]) ▸ hy)
    · rw [if_neg e]
      refine List.nodup_cons.mpr ⟨?_, ih⟩
      intro hm
      rcases mem_swap.mp hm with ⟨hm, _⟩ | ⟨_, hm⟩
      · exact ha hm
      · exact e (h a hm (by simp))

end Swap

namespace Forest

variable {α β γ : Type}

section Marked

variable [DecidableEq α]

def replace : Forest α → (c : α) → (g : Forest α) → Forest α
  | nil, _, _ => nil
  | cons a k s below rest, c, g =>
    if a = c then g ++ rest.replace c g else cons a k s (below.replace c g) (rest.replace c g)

def putBefore : Forest α → (c : α) → (g : Forest α) → Forest α
  | nil, _, _ => nil
  | cons a k s below rest, c, g =>
    (if a = c then g else nil) ++ cons a k s (below.putBefore c g) (rest.putBefore c g)

theorem tops_replace (c : α) (g f : Forest α) : (f.replace c g).tops = swap c g.tops f.tops := by
  induction f with
  | nil => rfl
  | cons a k s below rest _ hr => by_cases h : a = c <;> simp [replace, tops, h, hr]

theorem tops_putBefore (c : α) (g f : Forest α) :
    (f.putBefore c g).tops = swap c (g.tops ++ [c]) f.tops := by
  induction f with
  | nil => rfl
  | cons a k s below rest _ hr =>
    by_cases h : a = c
    · subst h; simp [putBefore, tops, hr]
    · simp [putBefore, tops, h, hr]

theorem replace_append (c : α) (g f h : Forest α) :
    (f ++ h).replace c g = f.replace c g ++ h.replace c g := by
  induction f with
  | nil => rfl
  | cons a k s below rest _ hr => by_cases e : a = c <;> simp [replace, e, hr, append_assoc]

theorem replace_of_not_mem {c : α} {f : Forest α} (g : Forest α) (h : c ∉ f.marks) :
    f.replace c g = f := by
  induction f with
  | nil => rfl
  | cons a k s below rest hb hr =>
    simp only [marks, List.mem_cons, List.mem_append, not_or] at h
    rw [replace, if_neg (Ne.symm h.1), hb h.2.1, hr h.2.2]

theorem putBefore_of_not_mem {c : α} {f : Forest α} (g : Forest α) (h : c ∉ f.marks) :
    f.putBefore c g = f := by
  induction f with
  | nil => rfl
  | cons a k s below rest hb hr =>
    simp only [marks, List.mem_cons, List.mem_append, not_or] at h
    rw [putBefore, if_neg (Ne.symm h.1), hb h.2.1, hr h.2.2]
    rfl

@[simp] theorem putBefore_nil (c : α) (f : Forest α) : f.putBefore c nil = f := by
  induction f with
  | nil => rfl
  | cons a k s below rest hb hr => by_cases h : a = c <;> simp [putBefore, h, hb, hr]

theorem mem_marks_replace {c x : α} {f g : Forest α} (hc : c ∈ f.marks) (hx : x ∈ g.marks) :
    x ∈ (f.replace c g).marks := by
  induction f with
  | nil => simp [marks] at hc
  | cons a k s below rest hb hr =>
    by_cases e : a = c
    · simp [replace, e, hx]
    · simp only [marks, List.mem_cons, List.mem_append, Ne.symm e, false_or] at hc
      rw [replace, if_neg e, marks, List.mem_cons, List.mem_append]
      exact Or.inr (hc.imp hb hr)

theorem mem_marks_of_replace {c x : α} {g f : Forest α} (h : x ∈ (f.replace c g).marks) :
    x ∈ f.marks ∧ x ≠ c ∨ x ∈ g.marks := by
  induction f with
  | nil => simp [replace, marks] at h
  | cons a k s below rest hb hr =>
    by_cases e : a = c
    · simp only [replace, e, if_true, marks_append, List.mem_append] at h
      rcases h with h | h
      · exact Or.inr h
      · exact (hr h).imp_left fun h => ⟨by simp [marks, h.1], h.2⟩
    · simp only [replace, e, if_false, marks, List.mem_cons, List.mem_append] at h
      rcases h with rfl | h | h
      · exact Or.inl ⟨by simp [marks], e⟩
      · exact (hb h).imp_left fun h => ⟨by simp [marks, h.1], h.2⟩
      · exact (hr h).imp_left fun h => ⟨by simp [marks, h.1], h.2⟩

theorem mem_marks_of_putBefore {c x : α} {g f : Forest α} (h : x ∈ (f.putBefore c g).marks) :
    x ∈ f.marks ∨ x ∈ g.marks := by
  induction f with
  | nil => simp [putBefore, marks] at h
  | cons a k s below rest hb hr =>
    simp only [putBefore, marks_append, marks, List.mem_append, List.mem_cons] at h ⊢
    rcases h with h | rfl | h | h
    · by_cases e : a = c
      · exact Or.inr (by simpa [e] using h)
      · simp [e, marks] at h
    · exact Or.inl (Or.inl rfl)
    · exact (hb h).imp_left fun h => Or.inr (Or.inl h)
    · exact (hr h).imp_left fun h => Or.inr (Or.inr h)

/-- What was put in front of a tree that is then replaced stays in front of what replaces it. -/
theorem replace_putBefore {c : α} {x : Forest α} (g f : Forest α) (hx : c ∉ x.marks) :
    (f.putBefore c x).replace c g = f.replace c (x ++ g) := by
  induction f with
  | nil => rfl
  | cons a k s below rest hb hr =>
    by_cases e : a = c
    · subst e
      simp [putBefore, replace, replace_append, replace_of_not_mem g hx, hr, append_assoc]
    · simp [putBefore, replace, e, hb, hr]

theorem putBefore_append (c : α) (g f h : Forest α) :
    (f ++ h).putBefore c g = f.putBefore c g ++ h.putBefore c g := by
  induction f with
  | nil => rfl
  | cons a k s below rest _ hr => simp [putBefore, hr, append_assoc]

theorem putBefore_putBefore {c : α} {x : Forest α} (g f : Forest α) (hx : c ∉ x.marks) :
    (f.putBefore c x).putBefore c g = f.putBefore c (x ++ g) := by
  induction f with
  | nil => rfl
  | cons a k s below rest hb hr =>
    by_cases e : a = c
    · subst e
      simp [putBefore, putBefore_append, putBefore_of_not_mem g hx, hb, hr, append_assoc]
    · simp [putBefore, e, hb, hr]

/-- Taking out what lies below `c` makes no difference once `c` is replaced. -/
theorem replace_replace_of_below {c x : α} (g : Forest α) {f : Forest α} (hx : x ≠ c)
    (h : x ∉ (f.replace c nil).marks) : (f.replace x nil).replace c g = f.replace c g := by
  induction f with
  | nil => rfl
  | cons a k s below rest hb hr =>
    by_cases e : a = c
    · subst e
      rw [replace, if_pos rfl] at h
      rw [replace, if_neg (Ne.symm hx), replace, if_pos rfl, replace, if_pos rfl, hr h]
    · simp only [replace, e, if_false, marks, List.mem_cons, List.mem_append, not_or] at h
      rw [replace, if_neg (Ne.symm h.1), replace, if_neg e, replace, if_neg e, hb h.2.1, hr h.2.2]

end Marked

/-- The nodes numbered in document order from `n` on. -/
def number (n : Nat) : Forest α → Forest NodeId
  | nil => nil
  | cons _ k s below rest =>
    cons n k s (below.number (n + 1)) (rest.number (n + 1 + below.marks.length))

theorem marks_number (n : Nat) (f : Forest α) :
    (f.number n).marks = List.range' n f.marks.length := by
  induction f generalizing n with
  | nil => rfl
  | cons a k s below rest hb hr =>
    rw [number, marks, marks, hb, hr, List.length_cons, List.length_append, List.range'_succ,
      List.range'_append_1]

@[simp] theorem elements_number (n : Nat) (f : Forest α) : (f.number n).elements = f.elements := by
  induction f generalizing n with
  | nil => rfl
  | cons a k s below rest hb hr => simp [number, elements, hb, hr]

end Forest

end StyleMixins
