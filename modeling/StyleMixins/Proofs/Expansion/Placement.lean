import StyleMixins.Expansion.Instance
import StyleMixins.Proofs.Tree.Copying
import StyleMixins.Proofs.Tree.Moves

namespace StyleMixins.Tree

variable {t u : Tree} {p anchor : Nat} {content placed : Forest NodeId}

/-- The content was moved in front of `anchor`, a child of `p`. -/
structure Moved (t : Tree) (anchor p : Nat) (content : Forest NodeId) (u : Tree) : Prop where
  linked : u.Linked
  grows : t.Grows u
  size_eq : u.size = t.size
  shows : u.Shows content
  parent? : ∀ y, y ∉ content.tops → u.parent? y = t.parent? y
  children : ∀ y, y ≠ p → (∀ x ∈ content.tops, t.parent? x ≠ some y) → u.children y = t.children y
  /-- Where the anchor is, the content now stands in front of it. -/
  put : ∀ root f, t.Hangs root f → root ∉ content.marks → (∀ x ∈ content.marks, x ∉ f.marks) →
    u.Hangs root (f.putBefore anchor content)
  /-- Where the content was below a node `c`, nothing has changed around `c`. -/
  take : ∀ root f c, t.Hangs root f → root ∉ content.marks → anchor ∉ f.marks →
    (∀ x ∈ content.tops, x ≠ c ∧ x ∉ (f.replace c .nil).marks) →
    ∃ f', u.Hangs root f' ∧ (∀ g, f'.replace c g = f.replace c g) ∧ f'.marks ⊆ f.marks

theorem placeContent_own_cons (t : Tree) (anchor id : NodeId) (ids : List NodeId) :
    t.placeContent anchor true (id :: ids) =
      (((t.insertBefore anchor id).1.placeContent anchor true ids).1,
        id :: ((t.insertBefore anchor id).1.placeContent anchor true ids).2) := rfl

theorem Shows.moved {id : Nat} {k : Kind} {s : Option Source} {below : Forest NodeId}
    (hx : t.Shows (.cons id k s below .nil)) (hl : t.Linked) (hp : t.parent? anchor = some p) (hne : anchor ≠ id)
    (hid : id ∉ below.marks) (ha : anchor ∉ below.marks) :
    t.Moved anchor p (.cons id k s below .nil) (t.insertBefore anchor id).1 := by
  have hlt : id < t.size := lt_size_of_kind? hx.1.1
  refine ⟨hl.insertBefore hlt, grows_insertBefore t anchor id, size_insertBefore t anchor id,
    hx.insertBefore_self hl hne hp hid ha, ?_, ?_, ?_, ?_⟩
  · intro y hy
    rw [parent?_insertBefore hne hp hlt, if_neg (by simpa [Forest.tops] using hy)]
  · intro y hy hpar
    exact hl.children_insertBefore_of_ne hne hp hy (hpar id (by simp [Forest.tops]))
  · intro root f hf hr hdis
    simp only [Forest.marks, List.mem_cons, List.append_nil, not_or] at hr hdis
    have h := hf.insertBefore hl hne hp hx hid ha hr.1 hr.2
    rwa [Forest.replace_of_not_mem _ (hdis id (Or.inl rfl))] at h
  · intro root f c hf hr haf hc
    simp only [Forest.marks, List.mem_cons, List.append_nil, not_or] at hr
    obtain ⟨hidc, hout⟩ := hc id (by simp [Forest.tops])
    have hsub : (f.replace id .nil).marks ⊆ f.marks := fun y hy => by
      rcases Forest.mem_marks_of_replace hy with hy | hy
      · exact hy.1
      · simp [Forest.marks] at hy
    have h := hf.insertBefore hl hne hp hx hid ha hr.1 hr.2
    rw [Forest.putBefore_of_not_mem _ fun hm => haf (hsub hm)] at h
    exact ⟨f.replace id .nil, h, fun g => Forest.replace_replace_of_below g hidc hout, hsub⟩

/-- One part of the content is moved after the other. -/
theorem Moved.trans {v : Tree} {more : Forest NodeId} (h : t.Moved anchor p content u)
    (k : u.Moved anchor p more v) (hp : t.parent? anchor = some p) (ha : anchor ∉ content.marks)
    (hd : ∀ x ∈ content.marks, x ∉ more.marks) : t.Moved anchor p (content ++ more) v := by
  have hmore : ∀ x ∈ more.tops, x ∉ content.tops := fun x hx hm =>
    hd x (content.tops_subset_marks hm) (more.tops_subset_marks hx)
  have hpu : u.parent? anchor = some p :=
    (h.parent? anchor fun hm => ha (content.tops_subset_marks hm)).trans hp
  -- No node of the first part is the parent of the anchor, or of content still to be moved.
  have hkeep : ∀ y ∈ content.marks, v.children y = u.children y := by
    refine fun y hy => k.children y ?_ fun x hx hxp => ?_
    · rintro rfl
      exact ha (h.shows.child_mem hy ((h.linked.mem_children y anchor).mpr hpu))
    · exact hd x (h.shows.child_mem hy ((h.linked.mem_children y x).mpr hxp)) (more.tops_subset_marks hx)
  refine ⟨k.linked, h.grows.trans k.grows, k.size_eq.trans h.size_eq,
    shows_append.mpr ⟨h.shows.grows k.grows hkeep, k.shows⟩, ?_, ?_, ?_, ?_⟩
  · intro y hy
    rw [Forest.tops_append, List.mem_append, not_or] at hy
    rw [k.parent? y hy.2, h.parent? y hy.1]
  · intro y hy hpar
    simp only [Forest.tops_append, List.mem_append] at hpar
    rw [k.children y hy ?_, h.children y hy fun x hx => hpar x (Or.inl hx)]
    intro x hx
    rw [h.parent? x (hmore x hx)]
    exact hpar x (Or.inr hx)
  · intro root f hf hr hdis
    simp only [Forest.marks_append, List.mem_append, not_or] at hr hdis
    have h2 := k.put root _ (h.put root f hf hr.1 fun x hx => hdis x (Or.inl hx)) hr.2 ?_
    · rwa [Forest.putBefore_putBefore _ _ ha] at h2
    · intro x hx hm
      rcases Forest.mem_marks_of_putBefore hm with hm | hm
      · exact hdis x (Or.inr hx) hm
      · exact hd x hm hx
  · intro root f c hf hr haf hc
    simp only [Forest.marks_append, Forest.tops_append, List.mem_append, not_or] at hr hc
    obtain ⟨f₁, hf₁, he₁, hm₁⟩ := h.take root f c hf hr.1 haf fun x hx => hc x (Or.inl hx)
    obtain ⟨f₂, hf₂, he₂, hm₂⟩ := k.take root f₁ c hf₁ hr.2 (fun hm => haf (hm₁ hm)) fun x hx =>
      ⟨(hc x (Or.inr hx)).1, he₁ .nil ▸ (hc x (Or.inr hx)).2⟩
    exact ⟨f₂, hf₂, fun g => (he₂ g).trans (he₁ g), fun y hy => hm₁ (hm₂ hy)⟩

theorem placeContent_own (hl : t.Linked) (hs : t.Shows content) (hn : content.marks.Nodup)
    (ha : anchor ∉ content.marks) (hp : t.parent? anchor = some p) :
    ∃ u, t.placeContent anchor true content.tops = (u, content.tops) ∧ t.Moved anchor p content u := by
  induction content generalizing t with
  | nil =>
    refine ⟨t, rfl, hl, .refl t, rfl, trivial, fun _ _ => rfl, fun _ _ _ => rfl, ?_, ?_⟩
    · intro root f hf _ _
      rwa [Forest.putBefore_nil]
    · exact fun root f c hf _ _ _ => ⟨f, hf, fun _ => rfl, List.Subset.refl _⟩
  | cons id k s below rest _ ih =>
    obtain ⟨hid, hn⟩ := List.nodup_cons.mp hn
    obtain ⟨_, hnr, hd⟩ := List.nodup_append.mp hn
    simp only [Forest.marks, List.mem_cons, List.mem_append, not_or] at ha hid
    have hx : t.Shows (.cons id k s below .nil) := ⟨hs.1, hs.2.1, trivial⟩
    have first := hx.moved hl hp ha.1 hid.1 ha.2.1
    have hrest := hs.2.2.insertBefore hl ha.1 hp hx hid.1 ha.2.1
    rw [Forest.replace_of_not_mem _ hid.2, Forest.putBefore_of_not_mem _ ha.2.2] at hrest
    have hpu := (first.parent? anchor (by simpa [Forest.tops] using ha.1)).trans hp
    obtain ⟨u, hu, second⟩ := ih first.linked hrest hnr ha.2.2 hpu
    refine ⟨u, by rw [Forest.tops, placeContent_own_cons, hu], first.trans second hp ?_ ?_⟩
    · simpa [Forest.marks] using ⟨ha.1, ha.2.1⟩
    · intro x hxm hxr
      simp only [Forest.marks, List.mem_cons, List.append_nil] at hxm
      rcases hxm with rfl | hxm
      · exact hid.2 hxr
      · exact hd x hxm x hxr rfl

/-- Copies of the content were put in front of `anchor`, a child of `p`. -/
structure Copied (t : Tree) (anchor p : Nat) (content placed : Forest NodeId) (u : Tree) : Prop where
  linked : u.Linked
  grows : t.Grows u
  shows : u.Shows placed
  elements_eq : placed.elements = content.elements
  fresh : ∀ y ∈ placed.marks, t.size ≤ y
  nodup : placed.marks.Nodup
  parent? : ∀ y < t.size, u.parent? y = t.parent? y
  children : ∀ y < t.size, y ≠ p → u.children y = t.children y
  put : ∀ root f, root < t.size → t.Hangs root f → u.Hangs root (f.putBefore anchor placed)

theorem placeContent_copy_none {id : NodeId} (h : t.copy? id = none) (anchor : NodeId) (ids : List NodeId) :
    t.placeContent anchor false (id :: ids) = t.placeContent anchor false ids := by
  simp only [placeContent, h, Bool.false_eq_true, if_false]

theorem placeContent_copy_cons {id : NodeId} {e : Element} (h : t.copy? id = some (t.graft e)) (anchor : NodeId)
    (ids : List NodeId) :
    t.placeContent anchor false (id :: ids) =
      ((((t.graft e).1.insertBefore anchor (t.graft e).2).1.placeContent anchor false ids).1,
        (t.graft e).2 :: (((t.graft e).1.insertBefore anchor (t.graft e).2).1.placeContent anchor false ids).2) := by
  simp only [placeContent, h, Bool.false_eq_true, if_false]

theorem Grafted.copied {k : Kind} {s : Option Source} {below : Forest NodeId} (h : t.Grafted k s below u)
    (hl : t.Linked) (hp : t.parent? anchor = some p) (hc : content.elements = [.mk k s below.elements]) :
    t.Copied anchor p content (.cons t.size k s below .nil) (u.insertBefore anchor t.size).1 := by
  have ha : anchor < t.size := lt_size_of_parent? hp
  have hpu : u.parent? anchor = some p := (h.parent? anchor ha).trans hp
  have hne : anchor ≠ t.size := Nat.ne_of_lt ha
  have hlt : t.size < u.size := lt_size_of_kind? h.shows.1.1
  have hxb : t.size ∉ below.marks := fun hm => Nat.lt_irrefl _ (h.fresh _ hm)
  have hab : anchor ∉ below.marks := fun hm => Nat.lt_irrefl _ (Nat.lt_trans ha (h.fresh _ hm))
  have hroot : ∀ y < t.size, t.size ∉ u.children y := by
    intro y hy hm
    rw [h.children y hy] at hm
    exact Nat.lt_irrefl _ (hl.child_lt hm)
  refine ⟨h.linked.insertBefore hlt, h.grows.trans (grows_insertBefore u anchor t.size),
    h.shows.insertBefore_self h.linked hne hpu hxb hab, by simp [Forest.elements, hc], ?_, ?_, ?_, ?_, ?_⟩
  · intro y hy
    simp only [Forest.marks, List.mem_cons, List.append_nil] at hy
    rcases hy with rfl | hy
    · exact Nat.le_refl _
    · exact Nat.le_of_lt (h.fresh y hy)
  · simpa [Forest.marks, hxb] using h.nodup
  · intro y hy
    rw [parent?_insertBefore hne hpu hlt, if_neg (Nat.ne_of_lt hy), h.parent? y hy]
  · intro y hy hyp
    have hpar : u.parent? t.size ≠ some y := mt (h.linked.mem_children y t.size).mpr (hroot y hy)
    rw [h.linked.children_insertBefore_of_ne hne hpu hyp hpar, h.children y hy]
  · intro root f hr hf
    have hu := hf.grows h.grows fun y hy => h.children y (by
      rcases List.mem_cons.mp hy with rfl | hy
      · exact hr
      · exact hf.shows.lt_size hy)
    have hrb : root ∉ below.marks := fun hm => Nat.lt_irrefl _ (Nat.lt_trans hr (h.fresh _ hm))
    have hm := hu.insertBefore h.linked hne hpu h.shows hxb hab (Nat.ne_of_lt hr) hrb
    rwa [Forest.replace_of_not_mem _ fun hm => Nat.lt_irrefl _ (hf.shows.lt_size hm)] at hm

theorem Copied.trans {v : Tree} {content' placed' : Forest NodeId} (h : t.Copied anchor p content placed u)
    (k : u.Copied anchor p content' placed' v) (hp : p < t.size) (ha : anchor < t.size) :
    t.Copied anchor p (content ++ content') (placed ++ placed') v := by
  have hle := h.grows.size_le
  have hlt : ∀ y ∈ placed.marks, y < u.size := fun y hy => h.shows.lt_size hy
  refine ⟨k.linked, h.grows.trans k.grows, shows_append.mpr ⟨?_, k.shows⟩, ?_, ?_, ?_, ?_, ?_, ?_⟩
  · refine h.shows.grows k.grows fun y hy => k.children y (hlt y hy) ?_
    rintro rfl
    exact absurd (h.fresh _ hy) (Nat.not_le.mpr hp)
  · simp [h.elements_eq, k.elements_eq]
  · intro y hy
    rcases List.mem_append.mp (Forest.marks_append _ _ ▸ hy) with hy | hy
    · exact h.fresh y hy
    · exact Nat.le_trans hle (k.fresh y hy)
  · rw [Forest.marks_append]
    refine List.nodup_append.mpr ⟨h.nodup, k.nodup, ?_⟩
    rintro y hy z hz rfl
    exact absurd (k.fresh y hz) (Nat.not_le.mpr (hlt y hy))
  · intro y hy
    rw [k.parent? y (Nat.lt_of_lt_of_le hy hle), h.parent? y hy]
  · intro y hy hyp
    rw [k.children y (Nat.lt_of_lt_of_le hy hle) hyp, h.children y hy hyp]
  · intro root f hr hf
    have h2 := k.put root _ (Nat.lt_of_lt_of_le hr hle) (h.put root f hr hf)
    rwa [Forest.putBefore_putBefore] at h2
    exact fun hm => absurd (h.fresh _ hm) (Nat.not_le.mpr ha)

theorem placeContent_copies (hl : t.Linked) (hs : t.Shows content) (hn : content.marks.Nodup)
    (hpc : p ∉ content.marks) (hp : t.parent? anchor = some p) :
    ∃ u placed, t.placeContent anchor false content.tops = (u, placed.tops) ∧
      t.Copied anchor p content placed u := by
  induction content generalizing t with
  | nil =>
    refine ⟨t, .nil, rfl, hl, .refl t, trivial, rfl, by simp [Forest.marks], by simp [Forest.marks],
      fun _ _ => rfl, fun _ _ _ => rfl, ?_⟩
    intro root f _ hf
    rwa [Forest.putBefore_nil]
  | cons id k s below rest _ ih =>
    have hlen := hs.length_le hn
    obtain ⟨hnb, hnr, hd⟩ := List.nodup_append.mp (List.nodup_cons.mp hn).2
    simp only [Forest.marks, List.mem_cons, List.mem_append, not_or, List.length_cons,
      List.length_append] at hpc hlen
    have hanchor : anchor < t.size := lt_size_of_parent? hp
    obtain ⟨u, copy, hu, he, hg⟩ := hl.graft k s below.elements
    have first : t.Copied anchor p (.cons id k s below .nil) (.cons t.size k s copy .nil) _ :=
      hg.copied hl hp (by simp [Forest.elements, he])
    have hrest := hs.2.2.grows first.grows fun y hy => first.children y (hs.2.2.lt_size hy) (by
      rintro rfl
      exact hpc.2.2 hy)
    obtain ⟨v, placed, hv, second⟩ := ih first.linked hrest hnr hpc.2.2
      ((first.parent? anchor hanchor).trans hp)
    refine ⟨v, .cons t.size k s copy placed, ?_, first.trans second (hl.parent_lt hp) hanchor⟩
    have hone : t.Shows (.cons id k s below .nil) := ⟨hs.1, hs.2.1, trivial⟩
    rw [Forest.tops, placeContent_copy_cons (hone.copy?_eq hl (by omega)), hu, hv]
    rfl

end StyleMixins.Tree
