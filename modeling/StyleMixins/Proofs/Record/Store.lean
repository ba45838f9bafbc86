import StyleMixins.Proofs.Record.Depiction
import StyleMixins.Proofs.Tree.Copies
import StyleMixins.Proofs.Tree.Planting
import StyleMixins.Record.Store

namespace StyleMixins

open Element

namespace Tree

variable {t u v : Tree} {p : Nat} {f g : Forest NodeId} {kind : Kind} {source : Option Source}

theorem addItems_eq (t : Tree) (p : NodeId) (source : Option Source) (index : Nat) (items : List Value) :
    t.addItems p source index items = t.addFields p source (Value.keyed index items) := by
  induction items generalizing t index with
  | nil => rfl
  | cons v rest ih => rw [addItems, Value.keyed, addFields, ih]

theorem addFields_cons (t : Tree) (p : NodeId) (source : Option Source) (key : String) (v : Value)
    (rest : List (String × Value)) :
    t.addFields p source ((key, v) :: rest) =
      ((t.addChild p (Record.entryKind key v) source).1.addFields t.size source v.entries).addFields p source rest := by
  cases v <;> simp [addFields, addEntry, addItems_eq, Record.entryKind, Value.scalarText?, Value.entries] <;> rfl

theorem Linked.planted_addFields (h : t.Linked) (hp : p < t.size) (source : Option Source)
    (fields : List (String × Value)) :
    t.Planted p ((Forest.ofElements () (Record.fieldElements source fields)).number t.size)
      (t.addFields p source fields) := by
  induction fields using Record.induction generalizing t p with
  | nil => exact h.planted hp []
  | cons key v rest hv hr =>
    have hnode := h.planted_addChild hp (Record.entryKind key v) source
    have hsize := hnode.size_eq
    simp only [Forest.marks, List.append_nil, List.length_singleton] at hsize
    have hinner := hv hnode.linked (show t.size < Tree.size _ by omega)
    have hle := hinner.grows.size_le
    have hrest := hr hinner.linked (show p < Tree.size _ by omega)
    rw [addFields_cons, Record.fieldElements_cons, Forest.ofElements_cons]
    exact hnode.cons hp hinner hrest

theorem Shows.map_marks (h : t.Shows f) :
    f.marks.map (fun y => (t.kind? y, t.source? y)) = (partsAll f.elements).map fun x => (some x.kind, x.source) := by
  induction f with
  | nil => rfl
  | cons id k s below rest hb hr =>
    obtain ⟨⟨hk, hs, -⟩, hbelow, hrest⟩ := h
    rw [Forest.marks, Forest.elements, partsAll_cons, List.map_cons, List.map_append, hb hbelow, hr hrest, hk, hs,
      List.map_cons, List.map_append]
    rfl

theorem Shows.source?_eq (h : t.Shows f) (hs : ∀ x ∈ partsAll f.elements, x.source = source) :
    ∀ y ∈ f.marks, t.source? y = source := by
  intro y hy
  have hpair : (t.kind? y, t.source? y) ∈ List.map _ _ := h.map_marks ▸ List.mem_map_of_mem hy
  obtain ⟨x, hx, he⟩ := List.mem_map.mp hpair
  rw [← (Prod.mk.inj he).2]
  exact hs x hx

end Tree

namespace Record

open StyleMixins.Tree

theorem store_eq_ofElement (fields : Record) (source : Option Source) :
    store fields source = ofElement (fragment fields source) := by
  have hroot := linked_nil.create .root source
  have hlt : (⟨#[]⟩ : Tree).size < ((⟨#[]⟩ : Tree).create .root source).1.size := by simp
  exact (hroot.planted_addFields hlt source fields).unique (hroot.planted hlt (fieldElements source fields))

/-- The store holds a record as a style sheet and nothing else. There is one node for each entry, in document order,
and all nodes have one source. -/
structure Holds (fields : Record) (source : Option Source) (t : Tree) : Prop where
  wellFormed : t.WellFormed
  kind?_root : t.kind? root = some .root
  source? : ∀ y < t.size, t.source? y = source
  shown : AllShown source fields (t.forest root)
  entries : List.Forall₂ (fun id entry => ∃ kind, t.kind? id = some kind ∧ IsKind entry.1 entry.2 kind)
    (t.descendants root) (listing fields)
  numbers : root :: t.descendants root = List.range t.size
  size_eq : t.size = (listing fields).length + 1

theorem store_grafted (fields : Record) (source : Option Source) :
    (⟨#[]⟩ : Tree).Grafted .root source ((Forest.ofElements () (fieldElements source fields)).number 1)
      (store fields source) := by
  have h := linked_nil.grafted .root source (Forest.ofElements () (fieldElements source fields))
  rw [Forest.elements_ofElements] at h
  rw [store_eq_ofElement]
  exact h

theorem store_map_kind? (fields : Record) (source : Option Source) :
    ((store fields source).descendants root).map (store fields source).kind? =
      (listing fields).map fun entry => some (entryKind entry.1 entry.2) := by
  have h := store_grafted fields source
  have hhangs : (store fields source).Hangs root _ := h.hangs
  have hmap := congrArg (List.map Prod.fst) h.shows.2.1.map_marks
  rw [List.map_map, List.map_map, Forest.elements_number, Forest.elements_ofElements] at hmap
  have hlisted := congrArg (List.map some) (map_kind_fieldElements source fields)
  rw [List.map_map, List.map_map] at hlisted
  rw [hhangs.descendants h.linked]
  exact hmap.trans hlisted

theorem store_numbers (fields : Record) (source : Option Source) :
    root :: (store fields source).descendants root = List.range (store fields source).size := by
  have h := store_grafted fields source
  have hhangs : (store fields source).Hangs root _ := h.hangs
  have hsize : (store fields source).size = _ + 1 := h.size_eq.trans (Nat.add_comm 1 _)
  rw [hhangs.descendants h.linked, hsize, Forest.marks_number, List.length_range', List.range_eq_range',
    List.range'_succ]
  rfl

theorem store_holds (fields : Record) (source : Option Source) : Holds fields source (store fields source) := by
  have hkinds := store_map_kind? fields source
  have hnumbers := store_numbers fields source
  have hgrafted := store_grafted fields source
  refine ⟨?_, hgrafted.shows.1.1, ?_, ?_, ?_, hnumbers, ?_⟩
  · rw [store_eq_ofElement]
    exact wellFormed_ofElement _
  · intro y hy
    rw [← List.mem_range, ← hnumbers, List.mem_cons] at hy
    rcases hy with rfl | hy
    · exact hgrafted.shows.1.2.1
    · have hhangs : (store fields source).Hangs root _ := hgrafted.hangs
      rw [hhangs.descendants hgrafted.linked] at hy
      refine hgrafted.shows.2.1.source?_eq ?_ y hy
      rw [Forest.elements_number, Forest.elements_ofElements]
      exact source_fieldElements source fields
  · rw [store_eq_ofElement, forest_ofElement]
    exact allShown_iff.mpr rfl
  · have hall := List.forall₂_eq_eq_eq.symm ▸ hkinds
    rw [List.forall₂_map_left_iff, List.forall₂_map_right_iff] at hall
    exact hall.imp fun id entry he => ⟨_, he, isKind_iff.mpr rfl⟩
  · have hcount := congrArg List.length hkinds
    have hlength := congrArg List.length hnumbers
    rw [List.length_map, List.length_map] at hcount
    rw [List.length_cons, List.length_range] at hlength
    omega

end Record

end StyleMixins
