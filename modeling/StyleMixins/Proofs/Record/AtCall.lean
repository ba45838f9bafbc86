import StyleMixins.Proofs.Expansion.CallSite
import StyleMixins.Proofs.Record.Store

namespace StyleMixins.Tree

variable {t u : Tree} {call p : Nat} {f : Forest NodeId} {fields : Record}

theorem Shows.element?_tops (h : t.Shows f) (hf : f.marks.length ≤ t.size) :
    f.tops.map t.element? = f.elements.map some := by
  induction f with
  | nil => rfl
  | cons id k s below rest _ hr =>
    simp only [Forest.marks, List.length_cons, List.length_append] at hf
    rw [Forest.tops, Forest.elements, List.map_cons, List.map_cons, h.element?_eq (by omega), hr h.2.2 (by omega)]

/-- The nodes `ids` show the fields and stand where the call stood, a child of `p`. They carry the source of the call,
and nothing but the call has lost its place. -/
structure StandsFor (t : Tree) (call p : NodeId) (fields : Record) (ids : List NodeId) (v : Tree) : Prop where
  wellFormed : v.WellFormed
  siblings : ∃ before after, t.children p = before ++ call :: after ∧ v.children p = before ++ ids ++ after
  shown : ∃ es, ids.map v.element? = es.map some ∧ Record.AllShown (t.source? call) fields es
  fresh : ∀ y ∈ ids, t.size ≤ y
  size_eq : v.size = t.size + ((Record.listing fields).length + 1)
  source?_new : ∀ y < v.size, t.size ≤ y → v.source? y = t.source? call
  parent?_call : v.parent? call = none
  parent? : ∀ y < t.size, y ≠ call → v.parent? y = t.parent? y
  children : ∀ y < t.size, y ≠ p → v.children y = t.children y
  kind? : ∀ y < t.size, v.kind? y = t.kind? y
  source? : ∀ y < t.size, v.source? y = t.source? y

section InPlace

variable {kind : Kind} {source : Option Source} {y : Nat}

theorem Grafted.not_mem (hg : t.Grafted kind source f u) (hy : y < t.size) : y ∉ u.children t.size := by
  rw [hg.hangs.children_eq]
  intro hm
  have := hg.fresh y (f.tops_subset_marks hm)
  omega

theorem Grafted.grows_insertInPlace (hg : t.Grafted kind source f u) (hp : t.parent? call = some p) :
    u.Grows ((u.insertInPlace call t.size).detach call) ∧
      ((u.insertInPlace call t.size).detach call).size = u.size := by
  have hcall : call < t.size := lt_size_of_parent? hp
  have hold : call ∉ f.marks := fun hm => Nat.lt_asymm hcall (hg.fresh call hm)
  obtain ⟨w, hw, mv⟩ := placeContent_own hg.linked hg.shows.2.1 hg.nodup hold ((hg.parent? call hcall).trans hp)
  have hplaced : u.insertInPlace call t.size = w := by rw [insertInPlace_eq, hg.hangs.children_eq, hw]
  rw [hplaced]
  exact ⟨mv.grows.trans (grows_detach w call), (size_detach w call).trans mv.size_eq⟩

/-- The call is a child of `p` and of no other node. -/
theorem Grafted.children_insertInPlace (hg : t.Grafted kind source f u) (hp : t.parent? call = some p)
    (hy : y ≠ t.size) (hyp : y ≠ p) :
    ((u.insertInPlace call t.size).detach call).children y = u.children y := by
  have hcall : call < t.size := lt_size_of_parent? hp
  have hm : call ∉ u.children y := by
    rw [hg.linked.mem_children, hg.parent? call hcall, hp]
    exact fun e => hyp (Option.some.inj e).symm
  rw [hg.linked.children_insertInPlace (hg.not_mem hcall) hy, swap_of_not_mem _ hm]

theorem Grafted.siblings_insertInPlace (hg : t.Grafted kind source f u) (hl : t.Linked) (hp : t.parent? call = some p) :
    ∃ before after, t.children p = before ++ call :: after ∧
      ((u.insertInPlace call t.size).detach call).children p = before ++ u.children t.size ++ after := by
  have hlt : p < t.size := hl.parent_lt hp
  have hm : call ∈ t.children p := (hl.mem_children p call).mpr hp
  rw [hg.linked.children_insertInPlace (hg.not_mem (lt_size_of_parent? hp)) (Nat.ne_of_lt hlt), hg.children p hlt]
  exact exists_swap_eq hm (hl.nodup p) _

theorem Grafted.shows_insertInPlace (hg : t.Grafted kind source f u) (hl : t.Linked) (hp : t.parent? call = some p) :
    ((u.insertInPlace call t.size).detach call).Shows f := by
  refine hg.shows.2.1.grows (hg.grows_insertInPlace hp).1 fun y hy => ?_
  have hnew := hg.fresh y hy
  have hlt := hl.parent_lt hp
  exact hg.children_insertInPlace hp (by omega) (by omega)

end InPlace

theorem Grafted.standsFor (hg : t.Grafted .root (t.source? call) f u) (hl : t.Linked) (hp : t.parent? call = some p)
    (hf : f.elements = Record.fieldElements (t.source? call) fields)
    (hlen : f.marks.length = (Record.listing fields).length)
    (hwf : ((u.insertInPlace call t.size).detach call).WellFormed) :
    t.StandsFor call p fields (u.children t.size) ((u.insertInPlace call t.size).detach call) := by
  obtain ⟨hgrows, hsize⟩ := hg.grows_insertInPlace hp
  have hshows := hg.shows_insertInPlace hl hp
  have hle := hg.grows.size_le
  refine ⟨hwf, hg.siblings_insertInPlace hl hp, ⟨f.elements, ?_, Record.allShown_iff.mpr hf⟩, ?_, ?_, ?_, ?_, ?_, ?_,
    ?_, ?_⟩
  · rw [hg.hangs.children_eq]
    exact hshows.element?_tops (hshows.length_le hg.nodup)
  · intro y hy
    rw [hg.hangs.children_eq] at hy
    exact Nat.le_of_lt (hg.fresh y (f.tops_subset_marks hy))
  · rw [hsize, hg.size_eq, hlen, Nat.add_assoc, Nat.add_comm 1]
  · intro y hy hge
    rw [hsize] at hy
    rcases Nat.eq_or_lt_of_le hge with rfl | hlt
    · rw [hgrows.source? _ hy]
      exact hg.shows.1.2.1
    · refine hshows.source?_eq ?_ y (hg.cover y hy hlt)
      rw [hf]
      exact Record.source_fieldElements _ _
  · rw [parent?_detach, if_pos rfl]
  · intro y hy hne
    rw [hg.linked.parent?_insertInPlace (hg.not_mem hy) hne, hg.parent? y hy]
  · intro y hy hyp
    rw [hg.children_insertInPlace hp (Nat.ne_of_lt hy) hyp, hg.children y hy]
  · intro y hy
    rw [hgrows.kind? y (Nat.lt_of_lt_of_le hy hle), hg.grows.kind? y hy]
  · intro y hy
    rw [hgrows.source? y (Nat.lt_of_lt_of_le hy hle), hg.grows.source? y hy]

theorem Linked.copyFrom?_store (h : t.Linked) (fields : Record) (source : Option Source) :
    t.copyFrom? (Record.store fields source) root = some ((t.graft (Record.fragment fields source)).1, t.size) := by
  rw [Record.store_eq_ofElement, h.copyFrom?_ofElement, ← graft_snd t (Record.fragment fields source)]

theorem WellFormed.standsFor (h : t.WellFormed) (hp : t.parent? call = some p) (fields : Record)
    (hu : u = (t.graft (Record.fragment fields (t.source? call))).1) :
    t.StandsFor call p fields (u.children t.size) ((u.insertInPlace call t.size).detach call) := by
  have hg := h.toLinked.grafted .root (t.source? call)
    (Forest.ofElements () (Record.fieldElements (t.source? call) fields))
  have hlen := (Record.store_grafted fields (t.source? call)).size_eq
  rw [(Record.store_holds fields (t.source? call)).size_eq, length_marks_number] at hlen
  have hwf := h.replaceByRecord (lt_size_of_parent? hp) fields
  rw [Forest.elements_ofElements] at hg
  refine Grafted.standsFor (hu ▸ hg) h.toLinked hp ?_ ?_ ?_
  · rw [Forest.elements_number, Forest.elements_ofElements]
  · rw [length_marks_number]
    have : (⟨#[]⟩ : Tree).size = 0 := rfl
    omega
  · rw [hu, ← graft_snd t (Record.fragment fields (t.source? call))]
    exact hwf

/-- Every record is held by its own store as the style sheet that shows it, and a copy of that store put in the place
of a call leaves the nodes for the fields where the call stood. -/
theorem record_stands_for_call (fields : Record) (h : t.WellFormed) (hp : t.parent? call = some p) :
    (∀ source, Record.Holds fields source (Record.store fields source)) ∧
    ∃ u, t.copyFrom? (Record.store fields (t.source? call)) root = some (u, t.size) ∧
      t.replaceByRecord call fields =
        ((u.insertInPlace call t.size).detach call, { nodes := u.children t.size }) ∧
      t.StandsFor call p fields (u.children t.size) ((u.insertInPlace call t.size).detach call) := by
  refine ⟨Record.store_holds fields, _, h.toLinked.copyFrom?_store fields _, ?_, h.standsFor hp fields rfl⟩
  rw [Tree.replaceByRecord, ← graft_snd t (Record.fragment fields (t.source? call))]

/-- A record with a list, a null and a condition inside, in place of a call between two siblings. -/
theorem record_stands_for_call_nested :
    let src : Source := ⟨⟨"a.css", "a\x7b\x7d@include m;b\x7b\x7d"⟩, ⟨3, 14⟩, 1, 4⟩
    let t := ofElement (.mk .root none [.mk (.rule "a") none [], .mk (.atRule "include" "m" false) src [],
      .mk (.rule "b") none []])
    let fields : Record := [("top", .number (.integer 0)),
      ("@media  print ", .record [("b", .list [.text "x", .null]), ("c", .null)]), ("left", .bool true)]
    t.WellFormed ∧ t.parent? 2 = some root ∧ (Record.store fields src).size = 8 ∧
      (t.replaceByRecord 2 fields).1.children root = [1, 5, 6, 11, 3] ∧
      t.StandsFor 2 root fields (t.replaceByRecord 2 fields).2.nodes (t.replaceByRecord 2 fields).1 := by
  intro src t fields
  have hwf : t.WellFormed := wellFormed_ofElement _
  have hp : t.parent? 2 = some root := by decide
  obtain ⟨-, u, -, hreplaced, hstands⟩ := record_stands_for_call fields hwf hp
  refine ⟨hwf, hp, by decide, by decide, ?_⟩
  rw [hreplaced]
  exact hstands

end StyleMixins.Tree
