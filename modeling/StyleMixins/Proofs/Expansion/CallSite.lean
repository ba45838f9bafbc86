import StyleMixins.Proofs.Expansion.Upkeep

namespace StyleMixins

section Swap

variable {α : Type} [DecidableEq α] {c x : α} {new l : List α}

theorem swap_self (c : α) (l : List α) : swap c [c] l = l := by
  induction l with
  | nil => rfl
  | cons a l ih => by_cases h : a = c <;> simp [h, ih]

theorem swap_swap_concat (hx : c ∉ new) (more l : List α) :
    swap c more (swap c (new ++ [c]) l) = swap c (new ++ more) l := by
  induction l with
  | nil => rfl
  | cons a l ih =>
    by_cases h : a = c
    · simp [h, swap_append, swap_of_not_mem more hx, ih]
    · simp [h, ih]

theorem filter_swap {p : α → Bool} (hc : p c = false) (hnew : ∀ x ∈ new, p x = false) (l : List α) :
    (swap c new l).filter p = l.filter p := by
  induction l with
  | nil => rfl
  | cons a l ih =>
    have hnone : new.filter p = [] := List.filter_eq_nil_iff.mpr fun x hx => by simp [hnew x hx]
    by_cases h : a = c
    · simp [h, hnone, ih, hc]
    · simp [h, ih, List.filter_cons]

end Swap

namespace Tree

variable {t u : Tree} {call anchor node proxy x y : Nat} {ids ps : List NodeId}

/-- Of the nodes of `t`, only the children of the call may have got other parents, and only the call may have lost
children. -/
structure Prepared (t : Tree) (call : NodeId) (u : Tree) : Prop where
  linked : u.Linked
  size_le : t.size ≤ u.size
  parent? : ∀ y < t.size, t.parent? y ≠ some call → u.parent? y = t.parent? y
  children : ∀ y < t.size, y ≠ call → u.children y = t.children y
  subset : ∀ x ∈ u.children call, x ∈ t.children call

theorem Prepared.refl (h : t.Linked) (call : NodeId) : t.Prepared call t :=
  ⟨h, Nat.le_refl _, fun _ _ _ => rfl, fun _ _ _ => rfl, fun _ hx => hx⟩

/-- New nodes do not hang from old ones. -/
theorem Prepared.not_mem (h : t.Prepared call u) (hl : t.Linked) (hx : t.size ≤ x) (hy : y < t.size) :
    x ∉ u.children y := by
  intro hm
  have hold : x ∈ t.children y := by
    by_cases hc : y = call
    · exact hc ▸ h.subset x (hc ▸ hm)
    · rwa [h.children y hy hc] at hm
  exact absurd (hl.child_lt hold) (Nat.not_lt.mpr hx)

theorem Prepared.graft (h : t.Prepared call u) (hcall : call < t.size) (e : Element) :
    t.Prepared call (u.graft e).1 := by
  obtain ⟨kind, source, es⟩ := e
  obtain ⟨v, f, hv, -, hg⟩ := h.linked.graft kind source es
  have hsize := h.size_le
  rw [hv]
  refine ⟨hg.linked, Nat.le_trans h.size_le hg.grows.size_le, ?_, ?_, ?_⟩
  · intro y hy hp
    rw [hg.parent? y (by omega), h.parent? y hy hp]
  · intro y hy hc
    rw [hg.children y (by omega), h.children y hy hc]
  · intro x hx
    rw [hg.children call (by omega)] at hx
    exact h.subset x hx

theorem Prepared.detach (h : t.Prepared call u) (hl : t.Linked) (hcall : call < t.size) (hx : t.size ≤ x) :
    t.Prepared call (u.detach x) := by
  have hchildren : ∀ y < t.size, (u.detach x).children y = u.children y := fun y hy => by
    rw [h.linked.children_detach, swap_of_not_mem [] (h.not_mem hl hx hy)]
  refine ⟨h.linked.detach x, by simpa using h.size_le, ?_, ?_, ?_⟩
  · intro y hy hp
    have hne : y ≠ x := by omega
    rw [parent?_detach, if_neg hne, h.parent? y hy hp]
  · intro y hy hc
    rw [hchildren y hy, h.children y hy hc]
  · intro y hy
    rw [hchildren call hcall] at hy
    exact h.subset y hy

/-- A new node or a child of the call is moved in front of a new one. -/
theorem Prepared.insertBefore (h : t.Prepared call u) (hl : t.Linked) (hcall : call < t.size) (ha : t.size ≤ anchor)
    (hnode : t.size ≤ node ∨ t.parent? node = some call) (hlt : node < u.size) :
    t.Prepared call (u.insertBefore anchor node).1 := by
  by_cases hne : anchor = node
  · simpa [Tree.insertBefore, hne] using h
  cases hp : u.parent? anchor with
  | none => simpa [Tree.insertBefore, hne, hp] using h
  | some p =>
    -- No old node has the anchor as a child, and only the call may have the node.
    have hchildren : ∀ y < t.size, (u.insertBefore anchor node).1.children y = swap node [] (u.children y) := by
      intro y hy
      have hm : anchor ∉ swap node [] (u.children y) := by
        intro hm
        rcases mem_swap.mp hm with ⟨hm, -⟩ | ⟨-, hm⟩
        · exact h.not_mem hl ha hy hm
        · simp at hm
      rw [h.linked.children_insertBefore hne hp, swap_of_not_mem _ hm]
    refine ⟨h.linked.insertBefore hlt, by simpa [size_insertBefore] using h.size_le, ?_, ?_, ?_⟩
    · intro y hy hpar
      have hyn : y ≠ node := by
        rintro rfl
        rcases hnode with hnew | hchild
        · omega
        · exact hpar hchild
      rw [parent?_insertBefore hne hp hlt, if_neg hyn, h.parent? y hy hpar]
    · intro y hy hc
      have hm : node ∉ u.children y := by
        rcases hnode with hnew | hchild
        · exact h.not_mem hl hnew hy
        · rw [h.children y hy hc, hl.mem_children, hchild]
          exact fun e => hc (Option.some.inj e).symm
      rw [hchildren y hy, swap_of_not_mem [] hm, h.children y hy hc]
    · intro x hx
      rw [hchildren call hcall, mem_swap] at hx
      rcases hx with ⟨hx, -⟩ | ⟨-, hx⟩
      · exact h.subset x hx
      · simp at hx

theorem Prepared.placeContent (h : t.Prepared call u) (hl : t.Linked) (hcall : call < t.size) (ha : t.size ≤ anchor)
    (own : Bool) (hids : ∀ x ∈ ids, t.parent? x = some call) : t.Prepared call (u.placeContent anchor own ids).1 := by
  induction ids generalizing u with
  | nil => exact h
  | cons id ids ih =>
    simp only [List.forall_mem_cons] at hids
    cases own with
    | true =>
      have hlt : id < u.size := Nat.lt_of_lt_of_le (lt_size_of_parent? hids.1) h.size_le
      rw [placeContent_own_cons]
      exact ih (h.insertBefore hl hcall ha (.inr hids.1) hlt) hids.2
    | false =>
      cases he : u.copy? id with
      | none =>
        rw [placeContent_copy_none he]
        exact ih h hids.2
      | some r =>
        obtain ⟨e, rfl⟩ := exists_graft_of_copyTo he
        have hcopied := (h.graft hcall e).insertBefore hl hcall ha (.inl h.size_le) (h.linked.size_lt_graft e)
        rw [placeContent_copy_cons he, graft_snd]
        exact ih hcopied hids.2

theorem Prepared.fillPlaceholders (h : t.Prepared call u) (hl : t.Linked) (hcall : call < t.size)
    (hps : ∀ p ∈ ps, t.size ≤ p) (own : Bool) (hids : ∀ x ∈ ids, t.parent? x = some call) :
    t.Prepared call (u.fillPlaceholders ids own ps).1 := by
  induction ps generalizing u own with
  | nil => exact h
  | cons p ps ih =>
    simp only [List.forall_mem_cons] at hps
    rw [fillPlaceholders_cons]
    exact ih ((h.placeContent hl hcall hps.1 own hids).detach hl hcall hps.1) hps.2 false

theorem Linked.prepared_materialize (h : t.Linked) (hcall : call < t.size) (m : BlockMixin)
    (arguments : List Call.Argument) : t.Prepared call (t.materialize m call arguments).1 := by
  have hgraft := (Prepared.refl h call).graft hcall (m.instantiate arguments)
  cases he : m.instantiate arguments with
  | mk kind source es =>
  obtain ⟨u, f, hu, -, hg⟩ := h.graft kind source es
  rw [he, hu] at hgraft
  rw [h.materialize_eq m call arguments (he ▸ congrArg Prod.fst hu)]
  split
  · refine hgraft.fillPlaceholders h hcall ?_ true fun x hx => (h.mem_children call x).mp (hgraft.subset x hx)
    intro p hp
    rw [hg.hangs.atRules hg.linked] at hp
    exact Nat.le_of_lt (hg.fresh p ((f.atRules_sublist_marks _).subset hp))
  · exact hgraft

theorem Linked.children_placeContent_own (h : t.Linked) (hn : ids.Nodup)
    (hids : ∀ x ∈ ids, x < t.size ∧ x ≠ anchor ∧ x ∉ t.children y) :
    (t.placeContent anchor true ids).1.children y = swap anchor (ids ++ [anchor]) (t.children y) := by
  induction ids generalizing t with
  | nil => exact (swap_self anchor _).symm
  | cons id ids ih =>
    obtain ⟨hid, hn⟩ := List.nodup_cons.mp hn
    simp only [List.forall_mem_cons] at hids
    obtain ⟨⟨hlt, hne, hnot⟩, hrest⟩ := hids
    rw [placeContent_own_cons]
    cases hp : t.parent? anchor with
    | none =>
      have hkeep : (t.insertBefore anchor id).1 = t := by simp [Tree.insertBefore, hne.symm, hp]
      have hm : anchor ∉ t.children y := by
        rw [h.mem_children, hp]
        simp
      rw [hkeep, ih h hn hrest, swap_of_not_mem _ hm, swap_of_not_mem _ hm]
    | some p =>
      have hchildren : (t.insertBefore anchor id).1.children y = swap anchor [id, anchor] (t.children y) := by
        rw [h.children_insertBefore hne.symm hp, swap_of_not_mem [] hnot]
      have hstill : ∀ x ∈ ids, x < (t.insertBefore anchor id).1.size ∧ x ≠ anchor ∧
          x ∉ (t.insertBefore anchor id).1.children y := by
        intro x hx
        obtain ⟨hxlt, hxne, hxnot⟩ := hrest x hx
        refine ⟨by simpa [size_insertBefore] using hxlt, hxne, ?_⟩
        rw [hchildren, mem_swap]
        have hxid : x ≠ id := fun e => hid (e ▸ hx)
        simp [hxnot, hxid, hxne]
      have hanchor : anchor ∉ [id] := by simpa using hne.symm
      rw [ih (h.insertBefore hlt) hn hstill, hchildren]
      exact swap_swap_concat hanchor (ids ++ [anchor]) (t.children y)

theorem Linked.placeContent_own_linked (h : t.Linked) (hids : ∀ x ∈ ids, x < t.size) :
    (t.placeContent anchor true ids).1.Linked := by
  induction ids generalizing t with
  | nil => exact h
  | cons id ids ih =>
    simp only [List.forall_mem_cons] at hids
    rw [placeContent_own_cons]
    exact ih (h.insertBefore hids.1) (by simpa [size_insertBefore] using hids.2)

theorem parent?_placeContent_own (hids : ∀ x ∈ ids, x < t.size) (hy : y ∉ ids) :
    (t.placeContent anchor true ids).1.parent? y = t.parent? y := by
  induction ids generalizing t with
  | nil => rfl
  | cons id ids ih =>
    rw [List.forall_mem_cons] at hids
    rw [List.mem_cons, not_or] at hy
    rw [placeContent_own_cons, ih (by simpa [size_insertBefore] using hids.2) hy.2]
    by_cases hne : anchor = id
    · simp [Tree.insertBefore, hne]
    cases hp : t.parent? anchor with
    | none => simp [Tree.insertBefore, hne, hp]
    | some p => rw [parent?_insertBefore hne hp hids.1, if_neg hy.1]

/-- Of the nodes of `t`, only the call and its children may have got other parents. Where the call was, there are now
new nodes and children of it, and no other node but the call has other children. -/
structure ChangedAt (t : Tree) (call : NodeId) (u : Tree) : Prop where
  parent? : ∀ y < t.size, y ≠ call → t.parent? y ≠ some call → u.parent? y = t.parent? y
  children : ∃ put, (∀ x ∈ put, t.size ≤ x ∨ t.parent? x = some call) ∧
    ∀ y < t.size, y ≠ call → u.children y = swap call put (t.children y)

theorem Linked.changedAt_detach (h : t.Linked) (call : NodeId) : t.ChangedAt call (t.detach call) := by
  refine ⟨fun y _ hne _ => ?_, [], by simp, fun y _ _ => h.children_detach call y⟩
  rw [parent?_detach, if_neg hne]

/-- The children of `proxy` take the place of the call. -/
theorem Linked.children_insertInPlace (h : t.Linked) (hcall : call ∉ t.children proxy) (hy : y ≠ proxy) :
    ((t.insertInPlace call proxy).detach call).children y = swap call (t.children proxy) (t.children y) := by
  have hlt : ∀ x ∈ t.children proxy, x < t.size := fun x hx => h.child_lt hx
  have hids : ∀ x ∈ t.children proxy, x < t.size ∧ x ≠ call ∧ x ∉ t.children y := by
    intro x hx
    refine ⟨hlt x hx, fun e => hcall (e ▸ hx), fun hm => hy ?_⟩
    have he := ((h.mem_children y x).mp hm).symm.trans ((h.mem_children proxy x).mp hx)
    exact Option.some.inj he
  rw [insertInPlace_eq, (h.placeContent_own_linked hlt).children_detach,
    h.children_placeContent_own (h.nodup _) hids, swap_swap_concat hcall, List.append_nil]

theorem Linked.parent?_insertInPlace (h : t.Linked) (hm : y ∉ t.children proxy) (hy : y ≠ call) :
    ((t.insertInPlace call proxy).detach call).parent? y = t.parent? y := by
  rw [insertInPlace_eq, parent?_detach, if_neg hy, parent?_placeContent_own (fun x hx => h.child_lt hx) hm]

/-- An instance is moved from a new node to the place of the call. -/
theorem Prepared.changedAt (h : t.Prepared call u) (hl : t.Linked) (hcall : call < t.size)
    (hself : t.parent? call ≠ some call) :
    t.ChangedAt call ((u.insertInPlace call t.size).detach call) := by
  -- No old node has come to hang from the new one but such as hung from the call.
  have hput : ∀ x ∈ u.children t.size, t.size ≤ x ∨ t.parent? x = some call := by
    intro x hx
    by_contra hold
    rw [not_or, Nat.not_le] at hold
    have hp := (h.parent? x hold.1 hold.2).symm.trans ((h.linked.mem_children _ x).mp hx)
    exact absurd (hl.parent_lt hp) (Nat.lt_irrefl _)
  have hcallNot : call ∉ u.children t.size := by
    intro hm
    rcases hput call hm with hnew | hchild
    · omega
    · exact hself hchild
  refine ⟨fun y hy hne hp => ?_, u.children t.size, hput, fun y hy hne => ?_⟩
  · have hm : y ∉ u.children t.size := by
      intro hm
      rcases hput y hm with hnew | hchild
      · omega
      · exact hp hchild
    rw [h.linked.parent?_insertInPlace hm hne, h.parent? y hy hp]
  · rw [h.linked.children_insertInPlace hcallNot (Nat.ne_of_lt hy), h.children y hy hne]

theorem WellFormed.changedAt_replaceByRecord (h : t.WellFormed) (hcall : call < t.size) (fields : Record) :
    t.ChangedAt call (t.replaceByRecord call fields).1 := by
  have hgraft := (Prepared.refl h.toLinked call).graft hcall (Record.fragment fields (t.source? call))
  have hchanged := hgraft.changedAt h.toLinked hcall fun hp => h.not_above_self call (.single hp)
  rw [← graft_snd t (Record.fragment fields (t.source? call))] at hchanged
  exact hchanged

theorem WellFormed.changedAt_replaceByBlock (h : t.WellFormed) (hcall : call < t.size) (m : BlockMixin)
    (arguments : List Call.Argument) : t.ChangedAt call (t.replaceByBlock call m arguments).1 := by
  have hinst := h.toLinked.prepared_materialize hcall m arguments
  have hchanged := hinst.changedAt h.toLinked hcall fun hp => h.not_above_self call (.single hp)
  rw [← materialize_proxy t m call arguments] at hchanged
  exact hchanged

theorem lt_size_of_params? {text : String} (h : t.params? y = some text) : y < t.size := by
  rw [params?] at h
  split at h
  next hk => exact lt_size_of_kind? hk
  next => simp at h

theorem WellFormed.changedAt_replaceCall (h : t.WellFormed) (hcall : call < t.size) {name : String}
    {arguments : List Call.Argument} {d : Definition} {inserted : Inserted}
    (he : t.replaceCall call name arguments d = (u, .ok inserted)) : t.ChangedAt call u := by
  cases d with
  | block m =>
    cases he
    exact h.changedAt_replaceByBlock hcall m arguments
  | record fields =>
    cases he
    exact h.changedAt_replaceByRecord hcall fields
  | callback run =>
    rw [Tree.replaceCall] at he
    split at he
    next => simp at he
    next =>
      cases he
      exact h.toLinked.changedAt_detach call
    next fields _ =>
      cases he
      exact h.changedAt_replaceByRecord hcall fields

end Tree

/-- Whatever an at-rule comes to, nothing is linked anew but at its place. -/
theorem Expansion.Handles.changedAt {ctx : Context} {t t' : Tree} {report report' : Report} {call d : Nat}
    {inserted : Tree.Inserted} (h : t.WellFormed) {text : String} (hcall : t.params? call = some text)
    (hhandles : Handles ctx t report call d t' report' inserted) : t.ChangedAt call t' := by
  cases hhandles with
  | leave hnone => simp [hnone] at hcall
  | skip => exact h.toLinked.changedAt_detach call
  | expand _ _ _ _ hreplace => exact h.changedAt_replaceCall (Tree.lt_size_of_params? hcall) hreplace

end StyleMixins
