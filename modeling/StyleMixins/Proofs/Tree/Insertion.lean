import StyleMixins.Proofs.Tree.Moves
import StyleMixins.Proofs.Tree.Upkeep
import StyleMixins.Tree.Checked

namespace StyleMixins.Tree

variable {t u : Tree} {p anchor node y : Nat} {ids : List NodeId}

theorem erase_eq_swap (hn : ids.Nodup) (x : NodeId) : ids.erase x = swap x [] ids := by
  rw [swap_empty, hn.erase_eq_filter]
  apply List.filter_congr
  intro y _
  by_cases hy : y = x <;> simp [hy]

/-- `node` has come to stand right before `anchor`, a child of `p`, with all that hangs from it. -/
structure MovedBefore (t : Tree) (anchor node p : NodeId) (u : Tree) : Prop where
  wellFormed : u.WellFormed
  size_eq : u.size = t.size
  kind? : ∀ y, u.kind? y = t.kind? y
  source? : ∀ y, u.source? y = t.source? y
  parent?_node : u.parent? node = some p
  parent? : ∀ y, y ≠ node → u.parent? y = t.parent? y
  siblings : ∃ before after, (t.children p).erase node = before ++ anchor :: after ∧
    u.children p = before ++ node :: anchor :: after
  former : ∀ q, t.parent? node = some q → q ≠ p → u.children q = (t.children q).erase node
  children : ∀ y, y ≠ p → t.parent? node ≠ some y → u.children y = t.children y
  below : ∀ y ∈ node :: t.descendants node, u.children y = t.children y
  descendants : u.descendants node = t.descendants node
  element? : u.element? node = t.element? node

theorem Linked.siblings_insertBefore (h : t.Linked) (hne : anchor ≠ node) (hp : t.parent? anchor = some p) :
    ∃ before after, (t.children p).erase node = before ++ anchor :: after ∧
      (t.insertBefore anchor node).1.children p = before ++ node :: anchor :: after := by
  have hm : anchor ∈ swap node [] (t.children p) := by
    rw [mem_swap]
    exact .inl ⟨(h.mem_children p anchor).mpr hp, hne⟩
  have hn : (swap node [] (t.children p)).Nodup := nodup_swap (h.nodup p) (by simp) (by simp)
  obtain ⟨before, after, hsplit, hput⟩ := exists_swap_eq hm hn [node, anchor]
  refine ⟨before, after, ?_, ?_⟩
  · rw [erase_eq_swap (h.nodup p), hsplit]
  · rw [h.children_insertBefore hne hp, hput, List.append_assoc]
    rfl

theorem Linked.former_insertBefore (h : t.Linked) (hne : anchor ≠ node) (hp : t.parent? anchor = some p) {q : NodeId}
    (hq : q ≠ p) : (t.insertBefore anchor node).1.children q = (t.children q).erase node := by
  have hanchor : anchor ∉ swap node [] (t.children q) := by
    intro hm
    rcases mem_swap.mp hm with ⟨hm, -⟩ | ⟨-, hm⟩
    · have he := hp.symm.trans ((h.mem_children q anchor).mp hm)
      exact hq (Option.some.inj he).symm
    · simp at hm
  rw [h.children_insertBefore hne hp, swap_of_not_mem _ hanchor, erase_eq_swap (h.nodup q)]

/-- The nodes that go along keep their children: neither the old nor the new parent is among them. -/
theorem WellFormed.below_insertBefore (h : t.WellFormed) (hbelow : ¬t.Above node anchor) (hne : anchor ≠ node)
    (hp : t.parent? anchor = some p) (hy : y = node ∨ t.Above node y) :
    (t.insertBefore anchor node).1.children y = t.children y := by
  apply h.toLinked.children_insertBefore_of_ne hne hp
  · rintro rfl
    rcases hy with rfl | hy
    · exact hbelow (.single hp)
    · exact hbelow (.tail hy hp)
  · intro hpar
    rcases hy with rfl | hy
    · exact h.not_above_self y (.single hpar)
    · exact h.not_above_self y (.head hpar hy)

theorem WellFormed.movedBefore (h : t.WellFormed) (hn : node < t.size) (hbelow : ¬t.Above node anchor)
    (hne : anchor ≠ node) (hp : t.parent? anchor = some p) :
    MovedBefore t anchor node p (t.insertBefore anchor node).1 := by
  have hwf := h.insertBefore hn hbelow
  have hparent := parent?_insertBefore hne hp hn
  have hgrows := grows_insertBefore t anchor node
  obtain ⟨f, hf⟩ := h.exists_hangs node
  have hkeep : ∀ y ∈ node :: f.marks, (t.insertBefore anchor node).1.children y = t.children y := by
    intro y hy
    apply h.below_insertBefore hbelow hne hp
    rwa [List.mem_cons, hf.mem_marks_iff h] at hy
  have hmoved := hf.grows hgrows hkeep
  have hdescendants := hf.descendants h.toLinked
  refine ⟨hwf, size_insertBefore t anchor node, kind?_insertBefore t anchor node, source?_insertBefore t anchor node,
    ?_, ?_, h.toLinked.siblings_insertBefore hne hp, ?_, ?_, ?_, ?_, ?_⟩
  · rw [hparent, if_pos rfl]
  · intro y hy
    rw [hparent, if_neg hy]
  · intro q _ hq
    exact h.toLinked.former_insertBefore hne hp hq
  · intro y hy hpar
    exact h.toLinked.children_insertBefore_of_ne hne hp hy hpar
  · rwa [hdescendants]
  · rw [hmoved.descendants hwf.toLinked, hdescendants]
  · obtain ⟨n, hnode⟩ := lt_size_iff.mp hn
    have hk : t.kind? node = some n.kind := by simp [Tree.kind?, hnode]
    have hku := (kind?_insertBefore t anchor node node).trans hk
    rw [hwf.element?_eq hku, h.element?_eq hk, source?_insertBefore, hmoved.forest_eq hwf.toLinked,
      hf.forest_eq h.toLinked]

theorem insertBefore_eq_of_refused (h : anchor = node ∨ t.parent? anchor = none) :
    t.insertBefore anchor node = (t, false) := by
  rcases h with rfl | hp
  · simp [Tree.insertBefore]
  · by_cases hne : anchor = node
    · simp [Tree.insertBefore, hne]
    · simp [Tree.insertBefore, hne, hp]

theorem insertBefore?_eq_some (ha : anchor < t.size) (hn : node < t.size) :
    t.insertBefore? anchor node = some (t.insertBefore anchor node) := by
  by_cases hne : anchor = node
  · rw [insertBefore_eq_of_refused (.inl hne), Tree.insertBefore?, if_pos hne]
  · simp [Tree.insertBefore?, hne, has, ha, hn]

/-- A node is moved right before another one, or else nothing at all is done. -/
theorem insertBefore_moves_or_refuses (h : t.WellFormed) (ha : anchor < t.size) (hn : node < t.size)
    (hbelow : ¬t.Above node anchor) :
    ∃ u answer, t.insertBefore? anchor node = some (u, answer) ∧ t.insertBefore anchor node = (u, answer) ∧
      (answer = false ↔ anchor = node ∨ t.parent? anchor = none) ∧ (answer = false → u = t) ∧
      (answer = true → ∃ p, t.parent? anchor = some p ∧ MovedBefore t anchor node p u) := by
  refine ⟨(t.insertBefore anchor node).1, (t.insertBefore anchor node).2, insertBefore?_eq_some ha hn, rfl, ?_⟩
  by_cases hrefused : anchor = node ∨ t.parent? anchor = none
  · rw [insertBefore_eq_of_refused hrefused]
    simp [hrefused]
  · obtain ⟨hne, hsome⟩ := not_or.mp hrefused
    obtain ⟨p, hp⟩ := Option.ne_none_iff_exists'.mp hsome
    have hanswer : (t.insertBefore anchor node).2 = true := by rw [insertBefore_eq hne hp]
    rw [hanswer]
    refine ⟨by simp [hrefused], by simp, fun _ => ⟨p, hp, h.movedBefore hn hbelow hne hp⟩⟩

/-- A node that stands before its sibling already, but not right before it, is taken there. -/
theorem insertBefore_moves_or_refuses_sibling :
    let t := ofElement (.mk .root none [.mk (.rule "a") none [.mk (.rule "b") none [.mk (.declaration "top" "0") none []],
      .mk (.rule "c") none [], .mk (.rule "d") none []]])
    t.WellFormed ∧ 5 < t.size ∧ 2 < t.size ∧ ¬t.Above 2 5 ∧ (t.insertBefore 5 2).1.children 1 = [4, 2, 5] ∧
      MovedBefore t 5 2 1 (t.insertBefore 5 2).1 := by
  intro t
  have hwf : t.WellFormed := wellFormed_ofElement _
  have hnot : ¬t.Above 2 5 := fun hab => absurd (hwf.isAttached_iff.mpr (.inr hab)) (by decide)
  obtain ⟨u, answer, -, hmove, hanswer, -, hmoved⟩ :=
    insertBefore_moves_or_refuses hwf (show 5 < t.size by decide) (show 2 < t.size by decide) hnot
  have htrue : answer = true := by
    have hrefused : ¬(5 = 2 ∨ t.parent? 5 = none) := by decide
    simpa using mt hanswer.mp hrefused
  obtain ⟨p, hp, hu⟩ := hmoved htrue
  obtain rfl : p = 1 := Option.some.inj (hp.symm.trans (by decide))
  have hfirst : (t.insertBefore 5 2).1 = u := congrArg Prod.fst hmove
  exact ⟨hwf, by decide, by decide, hnot, by decide, hfirst ▸ hu⟩

end StyleMixins.Tree
