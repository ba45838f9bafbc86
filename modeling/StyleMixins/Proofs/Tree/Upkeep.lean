import StyleMixins.Proofs.Tree.Acyclic
import StyleMixins.Proofs.Tree.Walks

namespace StyleMixins.Tree

open Relation

variable {t u : Tree} {p x y z anchor node : Nat} {parent : Option NodeId}

theorem WellFormed.above_lt (h : t.WellFormed) (ha : t.Above x y) : x < t.size := by
  induction ha with
  | single hp => exact h.parent_lt hp
  | tail _ _ ih => exact ih

/-- What hangs from a node is what lies below it. -/
theorem Hangs.mem_marks_iff {f : Forest NodeId} (hf : t.Hangs x f) (h : t.WellFormed) :
    y ∈ f.marks ↔ t.Above x y := by
  constructor
  · -- Upwards from `y`: its parent is `x`, or is in the forest too.
    induction y using h.ends.induction with
    | _ y ih =>
      intro hy
      obtain ⟨p, hp, hpar⟩ := hf.parent_mem h.toLinked hy
      rcases List.mem_cons.mp hp with rfl | hp
      · exact .single hpar
      · exact .tail (ih p hpar hp) hpar
  · intro ha
    induction ha with
    | single hp => exact hf.child_mem (List.mem_cons_self ..) ((h.mem_children _ _).mpr hp)
    | tail _ hp ih => exact hf.child_mem (List.mem_cons_of_mem _ ih) ((h.mem_children _ _).mpr hp)

theorem WellFormed.isAttached_iff (h : t.WellFormed) : t.isAttached y x = true ↔ y = x ∨ t.Above x y := by
  obtain ⟨f, hf⟩ := h.exists_hangs x
  rw [hf.isAttached_iff h.toLinked, List.mem_cons, hf.mem_marks_iff h]

theorem WellFormed.mem_descendants (h : t.WellFormed) : y ∈ t.descendants x ↔ t.Above x y := by
  obtain ⟨f, hf⟩ := h.exists_hangs x
  rw [hf.descendants h.toLinked, hf.mem_marks_iff h]

theorem WellFormed.element?_eq (h : t.WellFormed) {k : Kind} (hk : t.kind? x = some k) :
    t.element? x = some (.mk k (t.source? x) (t.forest x)) := by
  obtain ⟨f, hf⟩ := h.exists_hangs x
  have hs : t.Shows (.cons x k (t.source? x) f .nil) := ⟨⟨hk, rfl, hf.children_eq⟩, hf.shows, trivial⟩
  have hn : (Forest.cons x k (t.source? x) f .nil).marks.Nodup := by
    simpa [Forest.marks] using ⟨hf.not_mem, hf.nodup h.toLinked⟩
  have hlen := hs.length_le hn
  simp only [Forest.marks, List.append_nil, List.length_cons] at hlen
  rw [hs.element?_eq hlen, hf.forest_eq h.toLinked]

/-- A way up that does not lead through `x` was there before `x` got its new parent. -/
theorem above_of_parent? (hu : ∀ y, u.parent? y = if y = x then parent else t.parent? y) (hy : y ≠ x)
    (hx : ¬t.Above x y) (ha : u.Above z y) : t.Above z y := by
  induction ha with
  | single hp => exact .single (by rwa [hu, if_neg hy] at hp)
  | @tail b y _ hp ih =>
    have hp : t.parent? y = some b := by rwa [hu, if_neg hy] at hp
    exact .tail (ih (fun e => hx (.single (e ▸ hp))) fun hb => hx (.tail hb hp)) hp

theorem WellFormed.ends_of_parent? (h : t.WellFormed)
    (hu : ∀ y, u.parent? y = if y = x then parent else t.parent? y)
    (hx : ∀ p, parent = some p → p ≠ x ∧ ¬t.Above x p) : WellFounded fun p c => u.parent? c = some p := by
  -- First the ways up that do not meet `x`, then that of `x`, and from there all others.
  have hout : ∀ y, y ≠ x → ¬t.Above x y → Acc (fun p c => u.parent? c = some p) y := by
    intro y
    induction y using h.ends.induction with
    | _ y ih =>
      intro hy ha
      refine Acc.intro y fun p hp => ?_
      rw [hu, if_neg hy] at hp
      exact ih p hp (fun e => ha (.single (e ▸ hp))) fun hb => ha (.tail hb hp)
  have hself : Acc (fun p c => u.parent? c = some p) x := by
    refine Acc.intro x fun p hp => ?_
    rw [hu, if_pos rfl] at hp
    exact hout p (hx p hp).1 (hx p hp).2
  refine ⟨fun y => ?_⟩
  induction y using h.ends.induction with
  | _ y ih =>
    by_cases hy : y = x
    · exact hy ▸ hself
    · refine Acc.intro y fun p hp => ih p ?_
      rwa [hu, if_neg hy] at hp

theorem WellFormed.detach (h : t.WellFormed) (x : NodeId) : (t.detach x).WellFormed :=
  ⟨h.toLinked.detach x, h.ends_of_parent? (parent?_detach t x) (by simp)⟩

theorem WellFormed.foldl_detach (h : t.WellFormed) (ids : List NodeId) : (ids.foldl Tree.detach t).WellFormed := by
  induction ids generalizing t with
  | nil => exact h
  | cons x ids ih => exact ih (h.detach x)

theorem above_of_detach (ha : (t.detach x).Above z y) : t.Above z y := by
  have hp : ∀ p c, (t.detach x).parent? c = some p → t.parent? c = some p := by
    intro p c hc
    rw [parent?_detach] at hc
    split at hc
    · simp at hc
    · exact hc
  exact TransGen.mono hp _ _ ha

theorem WellFormed.append (h : t.WellFormed) (hp : p < t.size) (hx : x < t.size) (hne : p ≠ x)
    (ha : ¬t.Above x p) : (t.append p x).WellFormed :=
  ⟨h.toLinked.append hp hx, h.ends_of_parent? (parent?_append hx) (by rintro q ⟨⟩; exact ⟨hne, ha⟩)⟩

theorem WellFormed.insertBefore (h : t.WellFormed) (hn : node < t.size) (ha : ¬t.Above node anchor) :
    (t.insertBefore anchor node).1.WellFormed := by
  by_cases hne : anchor = node
  · simpa [Tree.insertBefore, hne] using h
  cases hp : t.parent? anchor with
  | none => simpa [Tree.insertBefore, hne, hp] using h
  | some p =>
    refine ⟨h.toLinked.insertBefore hn, h.ends_of_parent? (parent?_insertBefore hne hp hn) ?_⟩
    rintro q ⟨⟩
    exact ⟨fun e => ha (.single (e ▸ hp)), fun hb => ha (.tail hb hp)⟩

theorem above_of_insertBefore (hn : node < t.size) (hy : y ≠ node) (hx : ¬t.Above node y)
    (ha : (t.insertBefore anchor node).1.Above z y) : t.Above z y := by
  by_cases hne : anchor = node
  · simpa [Tree.insertBefore, hne] using ha
  cases hp : t.parent? anchor with
  | none => simpa [Tree.insertBefore, hne, hp] using ha
  | some p => exact above_of_parent? (parent?_insertBefore hne hp hn) hy hx ha

theorem WellFormed.create (h : t.WellFormed) (kind : Kind) (source : Option Source) :
    (t.create kind source).1.WellFormed := by
  refine ⟨h.toLinked.create kind source, ?_⟩
  simp only [parent?_create]
  exact h.ends

theorem parent?_setKind (t : Tree) (x : NodeId) (kind : Kind) (y : NodeId) :
    (t.setKind x kind).parent? y = t.parent? y := by
  rw [parent?, parent?, setKind, node?_modify]
  split
  · cases t.node? y <;> rfl
  · rfl

theorem children_setKind (t : Tree) (x : NodeId) (kind : Kind) (y : NodeId) :
    (t.setKind x kind).children y = t.children y := by
  rw [children_eq, children_eq, setKind, node?_modify]
  split
  · cases t.node? y <;> rfl
  · rfl

theorem WellFormed.setKind (h : t.WellFormed) (x : NodeId) (kind : Kind) : (t.setKind x kind).WellFormed := by
  refine ⟨⟨fun p c => ?_, fun p => ?_⟩, ?_⟩
  · rw [children_setKind, parent?_setKind]
    exact h.mem_children p c
  · rw [children_setKind]
    exact h.nodup p
  · simp only [parent?_setKind]
    exact h.ends

theorem graft_snd (t : Tree) (e : Element) : (t.graft e).2 = t.size := by
  cases e
  rfl

/-- The way up from an old node is the same after new nodes were added. -/
theorem WellFormed.above_of_graft (h : t.WellFormed) (e : Element) (hy : y < t.size)
    (ha : (t.graft e).1.Above z y) : t.Above z y := by
  obtain ⟨kind, source, es⟩ := e
  obtain ⟨u, f, hu, -, hg⟩ := h.toLinked.graft kind source es
  rw [hu] at ha
  induction ha with
  | single hp => exact .single (by rwa [hg.parent? _ hy] at hp)
  | tail _ hp ih =>
    rw [hg.parent? _ hy] at hp
    exact .tail (ih (h.parent_lt hp)) hp

theorem kind?_ofElement (e : Element) : (ofElement e).kind? root = some e.kind := by
  obtain ⟨kind, source, es⟩ := e
  obtain ⟨u, f, hu, -, hg⟩ := linked_nil.graft kind source es
  rw [ofElement, hu]
  exact hg.shows.1.1

theorem source?_ofElement (e : Element) : (ofElement e).source? root = e.source := by
  obtain ⟨kind, source, es⟩ := e
  obtain ⟨u, f, hu, -, hg⟩ := linked_nil.graft kind source es
  rw [ofElement, hu]
  exact hg.shows.1.2.1

/-- A style sheet is read off from its store as it was put in. -/
theorem forest_ofElement (e : Element) : (ofElement e).forest root = e.children := by
  obtain ⟨kind, source, es⟩ := e
  obtain ⟨u, f, hu, he, hg⟩ := linked_nil.graft kind source es
  obtain ⟨⟨-, -, hc⟩, hs, -⟩ := hg.shows
  have hf : u.Hangs root f := ⟨hc, hs, fun hm => absurd (hg.fresh root hm) (Nat.not_lt_zero _)⟩
  rw [ofElement, hu, hf.forest_eq hg.linked, he]
  rfl

end StyleMixins.Tree
