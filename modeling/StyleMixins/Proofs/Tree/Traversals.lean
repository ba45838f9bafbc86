import StyleMixins.Proofs.Tree.Upkeep

namespace StyleMixins.Tree

variable {t : Tree} {id x : Nat} {stack listed : List NodeId} {f : Forest NodeId}

/-- A stack is worked off without any bound: the node on top is listed and its children take its place, until
nothing is left. -/
inductive Drains (t : Tree) : (stack listed : List NodeId) → Prop
  | done : t.Drains [] []
  | visit {id : NodeId} {stack listed : List NodeId} (rest : t.Drains (t.children id ++ stack) listed) :
      t.Drains (id :: stack) (id :: listed)

/-- The nodes below a node by recursion: each child, and right behind it those below the child. -/
def WellFormed.preorder (h : t.WellFormed) (id : NodeId) : List NodeId :=
  (t.children id).attach.flatMap fun c => c.1 :: h.preorder c.1
termination_by t.countBelow id
decreasing_by
  apply h.countBelow_lt
  exact (h.mem_children id c.1).mp c.2

theorem WellFormed.preorder_eq (h : t.WellFormed) (id : NodeId) :
    h.preorder id = (t.children id).flatMap fun c => c :: h.preorder c := by
  rw [WellFormed.preorder]
  simp

theorem Drains.unique {other : List NodeId} (h : t.Drains stack listed) (k : t.Drains stack other) :
    other = listed := by
  induction h generalizing other with
  | done =>
    cases k
    rfl
  | visit _ ih =>
    cases k with
    | visit rest => rw [ih rest]

/-- On top of a stack, a forest is listed whole before anything else. -/
theorem Shows.drains (h : t.Shows f) (hstack : t.Drains stack listed) :
    t.Drains (f.tops ++ stack) (f.marks ++ listed) := by
  induction f generalizing stack listed with
  | nil => exact hstack
  | cons id k s below rest hb hr =>
    obtain ⟨⟨-, -, hc⟩, hbelow, hrest⟩ := h
    have hchildren := hb hbelow (hr hrest hstack)
    rw [← hc, ← List.append_assoc below.marks] at hchildren
    exact .visit hchildren

theorem Hangs.drains (h : t.Hangs id f) : t.Drains (t.children id) f.marks := by
  have hdrains := h.shows.drains .done
  rwa [List.append_nil, List.append_nil, ← h.children_eq] at hdrains

theorem Shows.preorder (hs : t.Shows f) (h : t.WellFormed) : (f.tops.flatMap fun c => c :: h.preorder c) = f.marks := by
  induction f with
  | nil => rfl
  | cons id k s below rest hb hr =>
    obtain ⟨⟨-, -, hc⟩, hbelow, hrest⟩ := hs
    rw [Forest.tops, Forest.marks, List.flatMap_cons, hr hrest, h.preorder_eq, hc, hb hbelow, List.cons_append]

theorem WellFormed.descendants_eq_preorder (h : t.WellFormed) (id : NodeId) : t.descendants id = h.preorder id := by
  obtain ⟨f, hf⟩ := h.exists_hangs id
  rw [hf.descendants h.toLinked, h.preorder_eq, hf.children_eq, hf.shows.preorder h]

theorem WellFormed.nodup_descendants (h : t.WellFormed) (id : NodeId) : (t.descendants id).Nodup := by
  obtain ⟨f, hf⟩ := h.exists_hangs id
  rw [hf.descendants h.toLinked]
  exact hf.nodup h.toLinked

theorem WellFormed.drains_iff (h : t.WellFormed) : t.Drains (t.children id) listed ↔ listed = t.descendants id := by
  obtain ⟨f, hf⟩ := h.exists_hangs id
  rw [hf.descendants h.toLinked]
  constructor
  · intro hdrains
    exact hf.drains.unique hdrains
  · rintro rfl
    exact hf.drains

theorem WellFormed.mem_descendants_iff_isAttached (h : t.WellFormed) :
    x ∈ t.descendants id ↔ x ≠ id ∧ t.isAttached x id = true := by
  rw [h.mem_descendants, h.isAttached_iff]
  constructor
  · intro ha
    refine ⟨?_, .inr ha⟩
    rintro rfl
    exact h.not_above_self x ha
  · rintro ⟨hne, he | ha⟩
    · exact absurd he hne
    · exact ha

/-- All walks agree. The one with a stack ends, and it lists what recursion lists; the way up from a node leads to
`id` just if the node is listed; and the search that stops early finds the first at-rule of a name that there is. -/
theorem walks_agree (h : t.WellFormed) (id : NodeId) :
    (∀ listed, t.Drains (t.children id) listed ↔ listed = t.descendants id) ∧
      t.descendants id = h.preorder id ∧ (t.descendants id).Nodup ∧
      (∀ x, x ∈ t.descendants id ↔ x ≠ id ∧ t.isAttached x id = true) ∧
      (∀ x, t.isAttached x id = true ↔ x = id ∨ t.Above id x) ∧
      ∀ name, t.firstAtRule id name = (t.atRules id name).head? ∧
        (t.firstAtRule id name = none ↔ t.atRules id name = []) := by
  refine ⟨fun _ => h.drains_iff, h.descendants_eq_preorder id, h.nodup_descendants id,
    fun _ => h.mem_descendants_iff_isAttached, fun _ => h.isAttached_iff, fun name => ?_⟩
  have hfirst := firstAtRule_eq_head? t id name
  refine ⟨hfirst, ?_⟩
  rw [hfirst, List.head?_eq_none_iff]

/-- Below a node that hangs from nothing. -/
theorem walks_agree_detached :
    let t := (ofElement (.mk .root none [.mk (.rule "a") none [.mk (.rule "b") none
      [.mk (.atRule "include" "m" false) none []], .mk (.atRule "include" "n" false) none []]])).detach 1
    t.WellFormed ∧ t.Drains (t.children 1) [2, 3, 4] ∧ t.isAttached 3 1 = true ∧ 3 ∈ t.descendants 1 ∧
      t.firstAtRule 1 "include" = some 3 := by
  intro t
  have hwf : t.WellFormed := (wellFormed_ofElement _).detach 1
  obtain ⟨hdrains, -, -, hattached, -, hfirst⟩ := walks_agree hwf 1
  have hlisted : t.descendants 1 = [2, 3, 4] := by decide
  have hmem : 3 ∈ t.descendants 1 := by simp [hlisted]
  refine ⟨hwf, (hdrains _).mpr hlisted.symm, ((hattached 3).mp hmem).2, hmem, ?_⟩
  rw [(hfirst "include").1]
  decide

end StyleMixins.Tree
