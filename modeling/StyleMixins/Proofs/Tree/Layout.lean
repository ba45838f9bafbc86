import StyleMixins.Proofs.Tree.Links
import StyleMixins.Tree.Copy

namespace StyleMixins.Tree

variable {t u : Tree} {root x y : Nat} {f g : Forest NodeId}

/-- The store holds the trees of a forest at the numbers that are their marks. -/
def Shows (t : Tree) : Forest NodeId → Prop
  | .nil => True
  | .cons id k s below rest =>
    (t.kind? id = some k ∧ t.source? id = s ∧ t.children id = below.tops) ∧ t.Shows below ∧ t.Shows rest

/-- A forest is all that is below a node. -/
structure Hangs (t : Tree) (root : NodeId) (f : Forest NodeId) : Prop where
  children_eq : t.children root = f.tops
  shows : t.Shows f
  not_mem : root ∉ f.marks

theorem shows_append : t.Shows (f ++ g) ↔ t.Shows f ∧ t.Shows g := by
  induction f with
  | nil => simp [Shows]
  | cons id k s below rest _ hr => simp [Shows, hr, and_assoc]

theorem Shows.congr (h : t.Shows f) (hk : ∀ y ∈ f.marks, u.kind? y = t.kind? y)
    (hs : ∀ y ∈ f.marks, u.source? y = t.source? y) (hc : ∀ y ∈ f.marks, u.children y = t.children y) :
    u.Shows f := by
  induction f with
  | nil => trivial
  | cons id k s below rest hb hr =>
    obtain ⟨⟨h1, h2, h3⟩, h4, h5⟩ := h
    simp only [Forest.marks, List.mem_cons, List.mem_append] at hk hs hc
    refine ⟨⟨(hk id (Or.inl rfl)).trans h1, (hs id (Or.inl rfl)).trans h2, (hc id (Or.inl rfl)).trans h3⟩, ?_, ?_⟩
    · exact hb h4 (fun y hy => hk y (Or.inr (Or.inl hy))) (fun y hy => hs y (Or.inr (Or.inl hy)))
        (fun y hy => hc y (Or.inr (Or.inl hy)))
    · exact hr h5 (fun y hy => hk y (Or.inr (Or.inr hy))) (fun y hy => hs y (Or.inr (Or.inr hy)))
        (fun y hy => hc y (Or.inr (Or.inr hy)))

theorem Shows.lt_size (h : t.Shows f) (hy : y ∈ f.marks) : y < t.size := by
  induction f with
  | nil => simp [Forest.marks] at hy
  | cons id k s below rest hb hr =>
    simp only [Forest.marks, List.mem_cons, List.mem_append] at hy
    rcases hy with rfl | hy | hy
    · exact lt_size_of_kind? h.1.1
    · exact hb h.2.1 hy
    · exact hr h.2.2 hy

/-- A store has room for every forest it shows without repetition. -/
theorem Shows.length_le (h : t.Shows f) (hn : f.marks.Nodup) : f.marks.length ≤ t.size := by
  have hsub : f.marks ⊆ List.range t.size := fun y hy => List.mem_range.mpr (h.lt_size hy)
  simpa using hn.length_le_of_subset hsub

theorem Shows.parent_mem (h : t.Shows f) (hl : t.Linked) (hy : y ∈ f.marks) :
    y ∈ f.tops ∨ ∃ p ∈ f.marks, t.parent? y = some p := by
  induction f with
  | nil => simp [Forest.marks] at hy
  | cons id k s below rest hb hr =>
    obtain ⟨⟨_, _, hc⟩, h4, h5⟩ := h
    simp only [Forest.marks, Forest.tops, List.mem_cons, List.mem_append] at hy ⊢
    rcases hy with rfl | hy | hy
    · exact Or.inl (Or.inl rfl)
    · rcases hb h4 hy with ht | ⟨p, hp, hpar⟩
      · exact Or.inr ⟨id, Or.inl rfl, (hl.mem_children id y).mp (hc ▸ ht)⟩
      · exact Or.inr ⟨p, Or.inr (Or.inl hp), hpar⟩
    · rcases hr h5 hy with ht | ⟨p, hp, hpar⟩
      · exact Or.inl (Or.inr ht)
      · exact Or.inr ⟨p, Or.inr (Or.inr hp), hpar⟩

theorem Shows.child_mem (h : t.Shows f) (hy : y ∈ f.marks) (hx : x ∈ t.children y) : x ∈ f.marks := by
  induction f with
  | nil => simp [Forest.marks] at hy
  | cons id k s below rest hb hr =>
    obtain ⟨⟨_, _, hc⟩, h4, h5⟩ := h
    simp only [Forest.marks, List.mem_cons, List.mem_append] at hy ⊢
    rcases hy with rfl | hy | hy
    · exact Or.inr (Or.inl (below.tops_subset_marks (hc ▸ hx)))
    · exact Or.inr (Or.inl (hb h4 hy))
    · exact Or.inr (Or.inr (hr h5 hy))

theorem Hangs.parent_mem (h : t.Hangs root f) (hl : t.Linked) (hy : y ∈ f.marks) :
    ∃ p ∈ root :: f.marks, t.parent? y = some p := by
  rcases h.shows.parent_mem hl hy with ht | ⟨p, hp, hpar⟩
  · exact ⟨root, by simp, (hl.mem_children root y).mp (h.children_eq ▸ ht)⟩
  · exact ⟨p, by simp [hp], hpar⟩

theorem Hangs.child_mem (h : t.Hangs root f) (hy : y ∈ root :: f.marks) (hx : x ∈ t.children y) :
    x ∈ f.marks := by
  rcases List.mem_cons.mp hy with rfl | hy
  · exact f.tops_subset_marks (h.children_eq ▸ hx)
  · exact h.shows.child_mem hy hx

/-- Nodes that hang from a node outside a set closed under going up stay outside it. -/
theorem Shows.not_mem_of_closed {S : NodeId → Prop} (h : t.Shows f) (hl : t.Linked) {q : NodeId}
    (hq : ¬S q) (htop : ∀ y ∈ f.tops, t.parent? y = some q)
    (closed : ∀ y p, S y → t.parent? y = some p → S p ∨ p = root) (hr : root ∉ f.marks) (hqr : q ≠ root) :
    ∀ y ∈ f.marks, ¬S y := by
  induction f generalizing q with
  | nil => simp [Forest.marks]
  | cons id k s below rest ihb ihr =>
    obtain ⟨⟨_, _, hc⟩, h4, h5⟩ := h
    simp only [Forest.marks, Forest.tops, List.mem_cons, List.mem_append, not_or] at htop hr ⊢
    have hid : ¬S id := fun hs =>
      (closed id q hs (htop id (Or.inl rfl))).elim hq hqr
    rintro y (rfl | hy | hy)
    · exact hid
    · exact ihb h4 hid (fun z hz => (hl.mem_children id z).mp (hc ▸ hz)) hr.2.1 (Ne.symm hr.1) y hy
    · exact ihr h5 hq (fun z hz => htop z (Or.inr hz)) hr.2.2 hqr y hy

theorem Shows.nodup (h : t.Shows f) (hl : t.Linked) (htop : ∀ y ∈ f.tops, t.parent? y = some root)
    (hn : f.tops.Nodup) (hr : root ∉ f.marks) : f.marks.Nodup := by
  induction f generalizing root with
  | nil => simp [Forest.marks]
  | cons id k s below rest ihb ihr =>
    obtain ⟨⟨_, _, hc⟩, h4, h5⟩ := h
    simp only [Forest.marks, Forest.tops, List.mem_cons, List.mem_append, not_or] at htop hr
    obtain ⟨hid, hn⟩ := List.nodup_cons.mp hn
    have htb : ∀ y ∈ below.tops, t.parent? y = some id := fun y hy => (hl.mem_children id y).mp (hc ▸ hy)
    have hpar := htop id (Or.inl rfl)
    have hib : id ∉ below.marks := by
      intro hm
      rcases h4.parent_mem hl hm with ht | ⟨p, hp, he⟩
      · exact hr.1 (Option.some.inj (hpar.symm.trans (htb id ht)))
      · exact hr.2.1 (Option.some.inj (hpar.symm.trans he) ▸ hp)
    have hir : id ∉ rest.marks := by
      intro hm
      rcases h5.parent_mem hl hm with ht | ⟨p, hp, he⟩
      · exact hid ht
      · exact hr.2.2 (Option.some.inj (hpar.symm.trans he) ▸ hp)
    have hd : ∀ y ∈ below.marks, y ∉ rest.marks := by
      refine h4.not_mem_of_closed hl hir htb ?_ hr.2.1 (Ne.symm hr.1)
      intro y p hy hp
      rcases h5.parent_mem hl hy with ht | ⟨q, hq, he⟩
      · exact Or.inr (Option.some.inj (hp.symm.trans (htop y (Or.inr ht))))
      · exact Or.inl (Option.some.inj (hp.symm.trans he) ▸ hq)
    refine List.nodup_cons.mpr ⟨by simp [hib, hir], List.nodup_append.mpr ⟨?_, ?_, ?_⟩⟩
    · exact ihb h4 htb (hc ▸ hl.nodup id) hib
    · exact ihr h5 (fun y hy => htop y (Or.inr hy)) hn hr.2.2
    · rintro y hy z hz rfl
      exact hd y hy hz

/-- What hangs from two nodes that are not below each other has no node in common. -/
theorem Hangs.disjoint {a b : Nat} (hf : t.Hangs a f) (hg : t.Hangs b g) (hl : t.Linked) (hab : a ≠ b)
    (ha : a ∉ g.marks) (hb : b ∉ f.marks) : ∀ y ∈ f.marks, y ∉ g.marks := by
  refine hf.shows.not_mem_of_closed hl ha (fun y hy => (hl.mem_children a y).mp (hf.children_eq ▸ hy)) ?_ hb hab
  intro y p hy hp
  obtain ⟨q, hq, he⟩ := hg.parent_mem hl hy
  rw [Option.some.inj (hp.symm.trans he)]
  exact (List.mem_cons.mp hq).symm

theorem Hangs.nodup (h : t.Hangs root f) (hl : t.Linked) : f.marks.Nodup :=
  h.shows.nodup hl (fun y hy => (hl.mem_children root y).mp (h.children_eq ▸ hy))
    (h.children_eq ▸ hl.nodup root) h.not_mem

end StyleMixins.Tree
