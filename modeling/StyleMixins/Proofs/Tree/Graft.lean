import StyleMixins.Proofs.Tree.Layout

namespace StyleMixins.Tree

variable {t u v : Tree} {p x y : Nat} {f : Forest NodeId}

/-- All nodes are kept with their kinds and sources; links may have changed. -/
structure Grows (t u : Tree) : Prop where
  size_le : t.size ≤ u.size
  kind? : ∀ y < t.size, u.kind? y = t.kind? y
  source? : ∀ y < t.size, u.source? y = t.source? y

theorem Grows.refl (t : Tree) : t.Grows t :=
  ⟨Nat.le_refl _, fun _ _ => rfl, fun _ _ => rfl⟩

theorem Grows.trans (h : t.Grows u) (k : u.Grows v) : t.Grows v where
  size_le := Nat.le_trans h.size_le k.size_le
  kind? y hy := (k.kind? y (Nat.lt_of_lt_of_le hy h.size_le)).trans (h.kind? y hy)
  source? y hy := (k.source? y (Nat.lt_of_lt_of_le hy h.size_le)).trans (h.source? y hy)

theorem grows_detach (t : Tree) (x : NodeId) : t.Grows (t.detach x) :=
  ⟨by simp, fun y _ => kind?_detach t x y, fun y _ => source?_detach t x y⟩

theorem grows_insertBefore (t : Tree) (anchor node : NodeId) : t.Grows (t.insertBefore anchor node).1 :=
  ⟨by simp [size_insertBefore], fun y _ => kind?_insertBefore t anchor node y,
    fun y _ => source?_insertBefore t anchor node y⟩

theorem Shows.grows (h : t.Shows f) (hg : t.Grows u) (hc : ∀ y ∈ f.marks, u.children y = t.children y) :
    u.Shows f :=
  h.congr (fun y hy => hg.kind? y (h.lt_size hy)) (fun y hy => hg.source? y (h.lt_size hy)) hc

/-- A forest of new nodes was added behind the children of `p`, and nothing else changed. -/
structure Planted (t : Tree) (p : NodeId) (f : Forest NodeId) (u : Tree) : Prop where
  linked : u.Linked
  grows : t.Grows u
  size_eq : u.size = t.size + f.marks.length
  children_parent : u.children p = t.children p ++ f.tops
  children : ∀ y < t.size, y ≠ p → u.children y = t.children y
  parent? : ∀ y < t.size, u.parent? y = t.parent? y
  shows : u.Shows f

theorem children_eq_nil (h : t.size ≤ y) : t.children y = [] := by
  simp [children_eq, node?_eq_none h]

theorem parent?_eq_none (h : t.size ≤ y) : t.parent? y = none := by
  simp [parent?, node?_eq_none h]

theorem graftAll_cons (t : Tree) (p : NodeId) (kind : Kind) (source : Option Source)
    (children rest : List Element) :
    t.graftAll p (.mk kind source children :: rest) =
      ((((t.create kind source).1.graftAll t.size children).append p t.size).graftAll p rest) := rfl

theorem grows_create (t : Tree) (kind : Kind) (source : Option Source) :
    t.Grows (t.create kind source).1 := by
  refine ⟨by simp, fun y hy => ?_, fun y hy => ?_⟩
  · rw [kind?, kind?, node?_create, if_neg (Nat.ne_of_lt hy)]
  · rw [source?, source?, node?_create, if_neg (Nat.ne_of_lt hy)]

theorem grows_append (t : Tree) (p x : NodeId) : t.Grows (t.append p x) :=
  ⟨by simp, fun y _ => kind?_append t p x y, fun y _ => source?_append t p x y⟩

/-- Numbers in use come before those of the forest added next. -/
theorem mem_marks_number {α : Type} {n : Nat} {f : Forest α} (h : y ∈ (f.number n).marks) :
    n ≤ y ∧ y < n + f.marks.length := by
  rw [Forest.marks_number] at h
  exact List.mem_range'_1.mp h

theorem length_marks_number {α : Type} (n : Nat) (f : Forest α) :
    (f.number n).marks.length = f.marks.length := by
  rw [Forest.marks_number, List.length_range']

/-- An element was added as new nodes, its root first; it hangs from nothing. -/
structure Grafted (t : Tree) (kind : Kind) (source : Option Source) (f : Forest NodeId) (u : Tree) : Prop where
  linked : u.Linked
  grows : t.Grows u
  size_eq : u.size = t.size + 1 + f.marks.length
  shows : u.Shows (.cons t.size kind source f .nil)
  fresh : ∀ y ∈ f.marks, t.size < y
  nodup : f.marks.Nodup
  cover : ∀ y < u.size, t.size < y → y ∈ f.marks
  children : ∀ y < t.size, u.children y = t.children y
  parent? : ∀ y < t.size, u.parent? y = t.parent? y
  parent?_top : u.parent? t.size = none

section Grafting

variable {kind : Kind} {source : Option Source}

/-- A new node with new nodes planted under it. -/
theorem Planted.grafted {α : Type} {g : Forest α}
    (h : (t.create kind source).1.Planted t.size (g.number (t.size + 1)) u) :
    t.Grafted kind source (g.number (t.size + 1)) u := by
  have hid : t.size < (t.create kind source).1.size := by simp
  have hroot : (t.create kind source).1.node? t.size = some ⟨kind, source, none, []⟩ := by
    rw [node?_create, if_pos rfl]
  have hsize := h.size_eq
  rw [size_create] at hsize
  refine ⟨h.linked, (grows_create t kind source).trans h.grows, hsize, ⟨⟨?_, ?_, ?_⟩, h.shows, trivial⟩,
    ?_, ?_, ?_, ?_, ?_, ?_⟩
  · rw [h.grows.kind? _ hid, Tree.kind?, hroot]
    rfl
  · rw [h.grows.source? _ hid, Tree.source?, hroot]
    rfl
  · rw [h.children_parent, children_create, children_eq_nil (Nat.le_refl _), List.nil_append]
  · intro y hy
    have := (mem_marks_number hy).1
    omega
  · rw [Forest.marks_number]
    exact List.nodup_range'
  · intro y hy hlt
    rw [length_marks_number] at hsize
    rw [Forest.marks_number, List.mem_range'_1]
    omega
  · intro y hy
    rw [h.children y (by omega) (by omega), children_create]
  · intro y hy
    rw [h.parent? y (by omega), parent?_create]
  · rw [h.parent? t.size hid, parent?_create, parent?_eq_none (Nat.le_refl _)]

theorem Grafted.hangs (h : t.Grafted kind source f u) : u.Hangs t.size f :=
  ⟨h.shows.1.2.2, h.shows.2.1, fun hm => Nat.lt_irrefl _ (h.fresh _ hm)⟩

theorem Grafted.children_append (h : t.Grafted kind source f u) (hp : p < t.size) (q : NodeId) :
    (u.append p t.size).children q = u.children q ++ if q = p then [t.size] else [] := by
  have hnot : t.size ∉ u.children q := by
    rw [h.linked.mem_children, h.parent?_top]
    simp
  have hlt : p < u.size := Nat.lt_of_lt_of_le hp h.grows.size_le
  rw [h.linked.children_append hlt, swap_of_not_mem [] hnot]

/-- A grafted element becomes the first of the trees planted under a node. -/
theorem Grafted.planted (h : t.Grafted kind source f u) (hp : p < t.size) {g : Forest NodeId}
    (hg : (u.append p t.size).Planted p g v) : t.Planted p (.cons t.size kind source f g) v := by
  have hsize := h.size_eq
  have hid : t.size < u.size := by omega
  have grow : u.Grows v := (grows_append u p t.size).trans hg.grows
  have hold : ∀ y < u.size, y ≠ p → v.children y = u.children y := by
    intro y hy hyp
    rw [hg.children y (by simpa using hy) hyp, h.children_append hp, if_neg hyp, List.append_nil]
  have hshows := h.shows.grows grow fun y hy => by
    refine hold y (h.shows.lt_size hy) ?_
    simp only [Forest.marks, List.mem_cons, List.append_nil] at hy
    rcases hy with rfl | hy
    · omega
    · have := h.fresh y hy
      omega
  refine ⟨hg.linked, h.grows.trans grow, ?_, ?_, ?_, ?_, hshows.1, hshows.2.1, hg.shows⟩
  · rw [hg.size_eq, size_append, Forest.marks, List.length_cons, List.length_append]
    omega
  · rw [hg.children_parent, h.children_append hp, if_pos rfl, h.children p hp, Forest.tops, List.append_assoc,
      List.singleton_append]
  · intro y hy hyp
    rw [hold y (by omega) hyp, h.children y hy]
  · intro y hy
    rw [hg.parent? y (by simp; omega), parent?_append hid, if_neg (Nat.ne_of_lt hy), h.parent? y hy]

end Grafting

theorem Linked.planted (h : t.Linked) (hp : p < t.size) (es : List Element) :
    t.Planted p ((Forest.ofElements () es).number t.size) (t.graftAll p es) := by
  induction es using Element.forest_induction generalizing t p with
  | nil =>
    exact ⟨h, .refl t, rfl, (List.append_nil _).symm, fun _ _ _ => rfl, fun _ _ => rfl, trivial⟩
  | cons kind source children rest hc hr =>
    have hchildren := hc (h.create kind source) (show t.size < (t.create kind source).1.size by simp)
    rw [size_create] at hchildren
    have first := hchildren.grafted
    have hsize := first.size_eq
    rw [length_marks_number] at hsize
    have hlt : p < ((t.create kind source).1.graftAll t.size children).size := by omega
    have hid : t.size < ((t.create kind source).1.graftAll t.size children).size := by omega
    have others := hr (first.linked.append hlt hid) (show p < Tree.size _ by simpa using hlt)
    rw [size_append, hsize] at others
    rw [graftAll_cons]
    exact first.planted hp others

theorem Linked.graft (h : t.Linked) (kind : Kind) (source : Option Source) (es : List Element) :
    ∃ u f, t.graft (.mk kind source es) = (u, t.size) ∧ f.elements = es ∧ t.Grafted kind source f u := by
  have hp := (h.create kind source).planted (show t.size < (t.create kind source).1.size by simp) es
  rw [size_create] at hp
  exact ⟨_, _, rfl, by simp, hp.grafted⟩

theorem Linked.size_lt_graft (h : t.Linked) (e : Element) : t.size < (t.graft e).1.size := by
  obtain ⟨kind, source, es⟩ := e
  obtain ⟨u, f, hu, -, hg⟩ := h.graft kind source es
  rw [hu]
  exact lt_size_of_kind? hg.shows.1.1

end StyleMixins.Tree
