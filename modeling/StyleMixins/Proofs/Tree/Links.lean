import StyleMixins.Proofs.Forest.Edit
import StyleMixins.Tree.Relink

namespace StyleMixins.Tree

variable {t : Tree} {p x y anchor node : Nat}

/-- Links to parents and links to children agree, and no child is listed twice. -/
structure Linked (t : Tree) : Prop where
  mem_children : ∀ p c, c ∈ t.children p ↔ t.parent? c = some p
  nodup : ∀ p, (t.children p).Nodup

/-- Moreover every way up ends. -/
structure WellFormed (t : Tree) : Prop extends Linked t where
  ends : WellFounded fun p c => t.parent? c = some p

theorem lt_size_iff : y < t.size ↔ ∃ n, t.node? y = some n := by
  rw [size, node?]
  constructor
  · intro h
    exact ⟨t.nodes[y], Array.getElem?_eq_getElem h⟩
  · rintro ⟨n, h⟩
    exact (Array.getElem?_eq_some_iff.mp h).1

theorem lt_size_of_kind? {k : Kind} (h : t.kind? y = some k) : y < t.size := by
  obtain ⟨n, hn, _⟩ := Option.map_eq_some_iff.mp h
  exact lt_size_iff.mpr ⟨n, hn⟩

theorem lt_size_of_parent? (h : t.parent? y = some p) : y < t.size := by
  obtain ⟨n, hn, _⟩ := Option.bind_eq_some_iff.mp h
  exact lt_size_iff.mpr ⟨n, hn⟩

theorem lt_size_of_mem_children (h : y ∈ t.children p) : p < t.size := by
  unfold children at h
  split at h
  next n hn => exact lt_size_iff.mpr ⟨n, hn⟩
  next => simp at h

theorem children_eq (t : Tree) (y : NodeId) : t.children y = ((t.node? y).map Node.children).getD [] := by
  unfold children
  cases t.node? y <;> rfl

theorem ext_node? {u : Tree} (h : ∀ y, t.node? y = u.node? y) : t = u := by
  obtain ⟨nodes⟩ := t
  obtain ⟨nodes'⟩ := u
  congr 1
  exact Array.ext_getElem? h

/-- A node is given by its kind, its source and its links. -/
theorem node?_congr {u : Tree} (hk : u.kind? y = t.kind? y) (hs : u.source? y = t.source? y)
    (hp : u.parent? y = t.parent? y) (hc : u.children y = t.children y) : u.node? y = t.node? y := by
  rw [kind?, kind?] at hk
  rw [source?, source?] at hs
  rw [parent?, parent?] at hp
  rw [children_eq, children_eq] at hc
  cases hu : u.node? y with
  | none =>
    rw [hu, Option.map_none] at hk
    exact (Option.map_eq_none_iff.mp hk.symm).symm
  | some m =>
    cases ht : t.node? y with
    | none => simp [hu, ht] at hk
    | some n =>
      simp only [hu, ht, Option.map_some, Option.some.injEq, Option.bind_some, Option.getD_some] at hk hs hp hc
      obtain ⟨_, _, _, _⟩ := m
      obtain ⟨_, _, _, _⟩ := n
      subst hk hs hp hc
      rfl

theorem Linked.parent_lt (h : t.Linked) (hp : t.parent? y = some p) : p < t.size :=
  lt_size_of_mem_children ((h.mem_children p y).mpr hp)

theorem Linked.child_lt (h : t.Linked) (hc : y ∈ t.children p) : y < t.size :=
  lt_size_of_parent? ((h.mem_children p y).mp hc)

theorem node?_detach (t : Tree) (x y : NodeId) :
    (t.detach x).node? y = (t.node? y).map fun n =>
      { n with
        parent := if y = x then none else n.parent
        children := if t.parent? x = some y then n.children.filter (· ≠ x) else n.children } := by
  unfold detach
  split
  next hp =>
    cases hn : t.node? y with
    | none => rfl
    | some n =>
      by_cases hy : y = x
      · subst hy
        have : n.parent = none := by simpa [parent?, hn] using hp
        cases n
        simp_all
      · simp [hp, hy]
  next p hp =>
    simp only [node?_modify, hp, Option.some.injEq]
    by_cases hy : y = x <;> by_cases hpy : p = y <;>
      simp [hy, hpy, eq_comm, Function.comp_def] <;> simp_all [eq_comm]

@[simp] theorem kind?_detach (t : Tree) (x y : NodeId) : (t.detach x).kind? y = t.kind? y := by
  rw [kind?, kind?, node?_detach]
  cases t.node? y <;> rfl

@[simp] theorem source?_detach (t : Tree) (x y : NodeId) : (t.detach x).source? y = t.source? y := by
  rw [source?, source?, node?_detach]
  cases t.node? y <;> rfl

@[simp] theorem size_detach (t : Tree) (x : NodeId) : (t.detach x).size = t.size := by
  unfold detach
  split <;> simp [size_modify]

theorem parent?_detach (t : Tree) (x y : NodeId) :
    (t.detach x).parent? y = if y = x then none else t.parent? y := by
  rw [parent?, parent?, node?_detach]
  cases t.node? y <;> by_cases h : y = x <;> simp [h]

theorem Linked.children_detach (h : t.Linked) (x y : NodeId) :
    (t.detach x).children y = swap x [] (t.children y) := by
  have hy := children_eq t y
  rw [children_eq, node?_detach]
  by_cases hp : t.parent? x = some y
  · rw [swap_empty, hy]
    cases t.node? y <;> simp [hp]
  · rw [swap_of_not_mem [] (mt (h.mem_children y x).mp hp), hy]
    cases t.node? y <;> simp [hp]

theorem Linked.detach (h : t.Linked) (x : NodeId) : (t.detach x).Linked := by
  constructor
  · intro p c
    rw [h.children_detach, swap_empty, List.mem_filter, h.mem_children, parent?_detach]
    by_cases hc : c = x <;> simp [hc]
  · intro p
    rw [h.children_detach, swap_empty]
    exact (h.nodup p).filter _

theorem placeBefore_eq_swap {l : List NodeId} (hm : anchor ∈ l) (hl : l.Nodup) :
    placeBefore anchor node l = swap anchor [node, anchor] l := by
  induction l with
  | nil => simp at hm
  | cons a l ih =>
    obtain ⟨ha, hl⟩ := List.nodup_cons.mp hl
    by_cases h : a = anchor
    · subst h
      simp [placeBefore, swap_of_not_mem _ ha]
    · have hm : anchor ∈ l := (List.mem_cons.mp hm).resolve_left (Ne.symm h)
      simp [placeBefore, h, ih hm hl]

/-- A node other than the anchor takes nothing from it, so the second look finds the parent again. -/
theorem insertBefore_eq (hne : anchor ≠ node) (hp : t.parent? anchor = some p) :
    t.insertBefore anchor node =
      (((t.detach node).modify p fun n =>
        { n with children := placeBefore anchor node n.children }).modify node fun n =>
          { n with parent := some p }, true) := by
  have hagain : (t.detach node).parent? anchor = some p := by rw [parent?_detach, if_neg hne, hp]
  simp [insertBefore, hne, hp, hagain]

theorem node?_insertBefore (hne : anchor ≠ node) (hp : t.parent? anchor = some p) (y : NodeId) :
    (t.insertBefore anchor node).1.node? y = ((t.detach node).node? y).map fun n =>
      { n with
        parent := if y = node then some p else n.parent
        children := if y = p then placeBefore anchor node n.children else n.children } := by
  simp only [insertBefore_eq hne hp, node?_modify]
  by_cases hy : y = node <;> by_cases hpy : y = p <;> cases (t.detach node).node? y <;>
    simp_all [eq_comm]

theorem kind?_insertBefore (t : Tree) (anchor node y : NodeId) :
    (t.insertBefore anchor node).1.kind? y = t.kind? y := by
  by_cases hne : anchor = node
  · simp [insertBefore, hne]
  · cases hp : t.parent? anchor with
    | none => simp [insertBefore, hne, hp]
    | some p =>
      rw [← kind?_detach t node y, kind?, kind?, node?_insertBefore hne hp]
      cases (t.detach node).node? y <;> rfl

theorem source?_insertBefore (t : Tree) (anchor node y : NodeId) :
    (t.insertBefore anchor node).1.source? y = t.source? y := by
  by_cases hne : anchor = node
  · simp [insertBefore, hne]
  · cases hp : t.parent? anchor with
    | none => simp [insertBefore, hne, hp]
    | some p =>
      rw [← source?_detach t node y, source?, source?, node?_insertBefore hne hp]
      cases (t.detach node).node? y <;> rfl

theorem size_insertBefore (t : Tree) (anchor node : NodeId) :
    (t.insertBefore anchor node).1.size = t.size := by
  unfold insertBefore
  split
  · rfl
  · simp only
    split <;> simp [size_modify]

theorem parent?_insertBefore (hne : anchor ≠ node) (hp : t.parent? anchor = some p)
    (hn : node < t.size) (y : NodeId) :
    (t.insertBefore anchor node).1.parent? y = if y = node then some p else t.parent? y := by
  rw [parent?, node?_insertBefore hne hp]
  by_cases hy : y = node
  · subst hy
    obtain ⟨n, h⟩ := lt_size_iff.mp hn
    simp [node?_detach, h]
  · have h := parent?_detach t node y
    rw [if_neg hy] at h
    rw [if_neg hy, ← h, parent?]
    cases (t.detach node).node? y <;> simp [hy]

theorem Linked.children_insertBefore (h : t.Linked) (hne : anchor ≠ node)
    (hp : t.parent? anchor = some p) (y : NodeId) :
    (t.insertBefore anchor node).1.children y = swap anchor [node, anchor] (swap node [] (t.children y)) := by
  have hd := h.detach node
  have ha : ∀ q, anchor ∈ (t.detach node).children q ↔ q = p := by
    intro q
    rw [hd.mem_children, parent?_detach, if_neg hne, hp, Option.some.injEq, eq_comm]
  rw [← h.children_detach]
  by_cases hy : y = p
  · subst hy
    rw [← placeBefore_eq_swap ((ha y).mpr rfl) (hd.nodup y), children_eq, node?_insertBefore hne hp,
      children_eq]
    have hm := (ha y).mpr rfl
    rw [children_eq] at hm
    cases hn : (t.detach node).node? y with
    | none => simp [hn] at hm
    | some n => simp
  · rw [swap_of_not_mem _ (mt (ha y).mp hy), children_eq, node?_insertBefore hne hp, children_eq]
    cases (t.detach node).node? y <;> simp [hy]

theorem Linked.insertBefore (h : t.Linked) (hn : node < t.size) :
    (t.insertBefore anchor node).1.Linked := by
  by_cases hne : anchor = node
  · simpa [Tree.insertBefore, hne] using h
  cases hp : t.parent? anchor with
  | none => simpa [Tree.insertBefore, hne, hp] using h
  | some p =>
    have hd := h.detach node
    have hm : ∀ q c, c ∈ (t.detach node).children q ↔ c ≠ node ∧ t.parent? c = some q := by
      intro q c
      rw [hd.mem_children, parent?_detach]
      by_cases hc : c = node <;> simp [hc]
    constructor
    · intro q c
      rw [h.children_insertBefore hne hp, ← h.children_detach, parent?_insertBefore hne hp hn, mem_swap,
        hm, hm, hp]
      by_cases hc : c = node
      · simp [hc, hne]
      · by_cases ha : c = anchor <;> simp [hc, ha, hne, hp]
    · intro q
      rw [h.children_insertBefore hne hp, ← h.children_detach]
      refine nodup_swap (hd.nodup q) (by simp [Ne.symm hne]) ?_
      intro x hx hxm
      rcases List.mem_cons.mp hx with rfl | hx
      · exact absurd rfl ((hm q x).mp hxm).1
      · exact List.mem_singleton.mp hx

theorem node?_create (t : Tree) (kind : Kind) (source : Option Source) (y : NodeId) :
    (t.create kind source).1.node? y = if y = t.size then some ⟨kind, source, none, []⟩ else t.node? y := by
  rw [create, node?, node?, size, Array.getElem?_push]

@[simp] theorem size_create (t : Tree) (kind : Kind) (source : Option Source) :
    (t.create kind source).1.size = t.size + 1 := by
  simp [create, size]

theorem node?_eq_none (h : t.size ≤ y) : t.node? y = none := by
  cases hn : t.node? y with
  | none => rfl
  | some n => exact absurd (lt_size_iff.mpr ⟨n, hn⟩) (Nat.not_lt.mpr h)

theorem children_create (t : Tree) (kind : Kind) (source : Option Source) (y : NodeId) :
    (t.create kind source).1.children y = t.children y := by
  rw [children_eq, children_eq, node?_create]
  by_cases h : y = t.size
  · simp [h, node?_eq_none (Nat.le_refl t.size)]
  · simp [h]

theorem parent?_create (t : Tree) (kind : Kind) (source : Option Source) (y : NodeId) :
    (t.create kind source).1.parent? y = t.parent? y := by
  rw [parent?, parent?, node?_create]
  by_cases h : y = t.size
  · simp [h, node?_eq_none (Nat.le_refl t.size)]
  · simp [h]

theorem Linked.create (h : t.Linked) (kind : Kind) (source : Option Source) :
    (t.create kind source).1.Linked := by
  constructor
  · intro p c
    rw [children_create, parent?_create]
    exact h.mem_children p c
  · intro p
    rw [children_create]
    exact h.nodup p

theorem node?_append (t : Tree) (p x y : NodeId) :
    (t.append p x).node? y = ((t.detach x).node? y).map fun n =>
      { n with
        parent := if y = x then some p else n.parent
        children := if y = p then n.children ++ [x] else n.children } := by
  simp only [append, node?_modify]
  by_cases hy : y = x <;> by_cases hpy : y = p <;> cases (t.detach x).node? y <;> simp_all [eq_comm]

@[simp] theorem size_append (t : Tree) (p x : NodeId) : (t.append p x).size = t.size := by
  simp [append, size_modify]

@[simp] theorem kind?_append (t : Tree) (p x y : NodeId) : (t.append p x).kind? y = t.kind? y := by
  rw [← kind?_detach t x y, kind?, kind?, node?_append]
  cases (t.detach x).node? y <;> rfl

@[simp] theorem source?_append (t : Tree) (p x y : NodeId) : (t.append p x).source? y = t.source? y := by
  rw [← source?_detach t x y, source?, source?, node?_append]
  cases (t.detach x).node? y <;> rfl

theorem parent?_append (hx : x < t.size) (y : NodeId) :
    (t.append p x).parent? y = if y = x then some p else t.parent? y := by
  rw [parent?, node?_append]
  by_cases hy : y = x
  · subst hy
    obtain ⟨n, h⟩ := lt_size_iff.mp hx
    simp [node?_detach, h]
  · have h := parent?_detach t x y
    rw [if_neg hy] at h
    rw [if_neg hy, ← h, parent?]
    cases (t.detach x).node? y <;> simp [hy]

theorem Linked.children_append (h : t.Linked) (hp : p < t.size) (y : NodeId) :
    (t.append p x).children y = swap x [] (t.children y) ++ if y = p then [x] else [] := by
  rw [← h.children_detach, children_eq, node?_append, children_eq]
  by_cases hy : y = p
  · subst hy
    obtain ⟨n, hn⟩ := lt_size_iff.mp ((size_detach t x).symm ▸ hp)
    simp [hn]
  · cases (t.detach x).node? y <;> simp [hy]

theorem Linked.append (h : t.Linked) (hp : p < t.size) (hx : x < t.size) : (t.append p x).Linked := by
  have hm : ∀ q c, c ∈ swap x [] (t.children q) ↔ c ≠ x ∧ t.parent? c = some q := by
    intro q c
    rw [mem_swap, h.mem_children]
    simp [and_comm]
  constructor
  · intro q c
    rw [h.children_append hp, parent?_append hx, List.mem_append, hm]
    by_cases hc : c = x <;> by_cases hq : q = p <;> simp [hc, hq, eq_comm]
    exact Ne.symm hq
  · intro q
    rw [h.children_append hp]
    have hn : (swap x [] (t.children q)).Nodup := nodup_swap (h.nodup q) (by simp) (by simp)
    by_cases hq : q = p
    · rw [if_pos hq]
      refine List.nodup_append.mpr ⟨hn, by simp, ?_⟩
      rintro c hc y hy rfl
      exact absurd (List.mem_singleton.mp hy) ((hm q c).mp hc).1
    · simpa [hq] using hn

end StyleMixins.Tree
