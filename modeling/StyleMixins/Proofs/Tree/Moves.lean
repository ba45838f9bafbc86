import StyleMixins.Proofs.Tree.Graft

namespace StyleMixins.Tree

variable {t u : Tree} {p root x y anchor : Nat} {f below : Forest NodeId} {k : Kind} {s : Option Source}

theorem Shows.detach (h : t.Shows f) (hl : t.Linked) (x : NodeId) : (t.detach x).Shows (f.replace x .nil) := by
  induction f with
  | nil => trivial
  | cons id k s below rest hb hr =>
    obtain ⟨⟨hk, hs, hc⟩, h4, h5⟩ := h
    by_cases e : id = x
    · simpa [Forest.replace, e] using hr h5
    · rw [Forest.replace, if_neg e]
      refine ⟨⟨by simpa using hk, by simpa using hs, ?_⟩, hb h4, hr h5⟩
      rw [hl.children_detach, hc, Forest.tops_replace, Forest.tops]

theorem Hangs.detach (h : t.Hangs root f) (hl : t.Linked) (x : NodeId) :
    (t.detach x).Hangs root (f.replace x .nil) where
  children_eq := by rw [hl.children_detach, h.children_eq, Forest.tops_replace, Forest.tops]
  shows := h.shows.detach hl x
  not_mem hm := by
    rcases Forest.mem_marks_of_replace hm with hm | hm
    · exact h.not_mem hm.1
    · simp [Forest.marks] at hm

/-- The tree that moves is still shown, unless the anchor is part of it. -/
theorem Shows.insertBefore_self (hx : t.Shows (.cons x k s below .nil)) (hl : t.Linked) (hne : anchor ≠ x)
    (hp : t.parent? anchor = some p) (hxb : x ∉ below.marks) (hab : anchor ∉ below.marks) :
    (t.insertBefore anchor x).1.Shows (.cons x k s below .nil) := by
  refine hx.grows (grows_insertBefore t anchor x) fun y hy => ?_
  have hsub : ∀ z ∈ t.children y, z ∈ below.marks := by
    intro z hz
    rcases List.mem_cons.mp (by simpa [Forest.marks] using hy) with rfl | hy
    · exact below.tops_subset_marks (hx.1.2.2 ▸ hz)
    · exact hx.2.1.child_mem hy hz
  rw [hl.children_insertBefore hne hp, swap_of_not_mem [] fun hm => hxb (hsub x hm),
    swap_of_not_mem _ fun hm => hab (hsub anchor hm)]

theorem Shows.insertBefore (h : t.Shows f) (hl : t.Linked) (hne : anchor ≠ x)
    (hp : t.parent? anchor = some p) (hx : t.Shows (.cons x k s below .nil))
    (hxb : x ∉ below.marks) (hab : anchor ∉ below.marks) :
    (t.insertBefore anchor x).1.Shows
      ((f.replace x .nil).putBefore anchor (.cons x k s below .nil)) := by
  have hself := hx.insertBefore_self hl hne hp hxb hab
  induction f with
  | nil => trivial
  | cons id k' s' b r hb hr =>
    obtain ⟨⟨hk, hs, hc⟩, h4, h5⟩ := h
    by_cases e : id = x
    · simpa [Forest.replace, e] using hr h5
    · rw [Forest.replace, if_neg e, Forest.putBefore, shows_append]
      refine ⟨?_, ⟨?_, ?_, ?_⟩, hb h4, hr h5⟩
      · by_cases ha : id = anchor
        · simpa [ha] using hself
        · simp [ha, Shows]
      · rw [kind?_insertBefore, hk]
      · rw [source?_insertBefore, hs]
      · rw [hl.children_insertBefore hne hp, hc, Forest.tops_putBefore, Forest.tops_replace]
        rfl

theorem Hangs.insertBefore (h : t.Hangs root f) (hl : t.Linked) (hne : anchor ≠ x)
    (hp : t.parent? anchor = some p) (hx : t.Shows (.cons x k s below .nil))
    (hxb : x ∉ below.marks) (hab : anchor ∉ below.marks) (hr : root ≠ x) (hrb : root ∉ below.marks) :
    (t.insertBefore anchor x).1.Hangs root
      ((f.replace x .nil).putBefore anchor (.cons x k s below .nil)) where
  children_eq := by
    rw [hl.children_insertBefore hne hp, h.children_eq, Forest.tops_putBefore, Forest.tops_replace]
    rfl
  shows := h.shows.insertBefore hl hne hp hx hxb hab
  not_mem hm := by
    rcases Forest.mem_marks_of_putBefore hm with hm | hm
    · rcases Forest.mem_marks_of_replace hm with hm | hm
      · exact h.not_mem hm.1
      · simp [Forest.marks] at hm
    · simp [Forest.marks, hr, hrb] at hm

/-- A move changes the child lists of two nodes at most. -/
theorem Linked.children_insertBefore_of_ne (hl : t.Linked) (hne : anchor ≠ x)
    (hp : t.parent? anchor = some p) (hy : y ≠ p) (hx : t.parent? x ≠ some y) :
    (t.insertBefore anchor x).1.children y = t.children y := by
  have ha : anchor ∉ t.children y := by
    rw [hl.mem_children, hp, Option.some.injEq]
    exact Ne.symm hy
  rw [hl.children_insertBefore hne hp, swap_of_not_mem [] (mt (hl.mem_children y x).mp hx), swap_of_not_mem _ ha]

theorem Linked.children_detach_of_ne (hl : t.Linked) (hx : t.parent? x ≠ some y) :
    (t.detach x).children y = t.children y := by
  rw [hl.children_detach, swap_of_not_mem [] (mt (hl.mem_children y x).mp hx)]

theorem Hangs.grows (h : t.Hangs root f) (hg : t.Grows u)
    (hc : ∀ y ∈ root :: f.marks, u.children y = t.children y) : u.Hangs root f :=
  ⟨(hc root (by simp)).trans h.children_eq, h.shows.grows hg fun y hy => hc y (by simp [hy]), h.not_mem⟩

end StyleMixins.Tree
