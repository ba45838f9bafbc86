import StyleMixins.Proofs.Forest.Texts
import StyleMixins.Proofs.Tree.Graft
import StyleMixins.Proofs.Tree.Walks

namespace StyleMixins

def Node.mapTexts (f : String → String) (n : Node) : Node :=
  { n with kind := n.kind.mapTexts f }

namespace Tree

variable {t u : Tree} {n p id : Nat} {f : String → String} {g : Forest NodeId}

theorem node?_foldl_modify {ids : List NodeId} (hn : ids.Nodup) (t : Tree) (f : Node → Node) (x : NodeId) :
    (ids.foldl (fun t n => t.modify n f) t).node? x = if x ∈ ids then (t.node? x).map f else t.node? x := by
  induction ids generalizing t with
  | nil => rfl
  | cons id ids ih =>
    obtain ⟨hid, hn⟩ := List.nodup_cons.1 hn
    rw [List.foldl_cons, ih hn, node?_modify]
    by_cases h : id = x
    · subst h
      simp [hid]
    · simp [h, Ne.symm h]

theorem size_foldl_modify (ids : List NodeId) (t : Tree) (f : Node → Node) :
    (ids.foldl (fun t n => t.modify n f) t).size = t.size := by
  induction ids generalizing t with
  | nil => rfl
  | cons id ids ih => rw [List.foldl_cons, ih, size_modify]

/-- Each node is visited once, so each text is changed once. -/
theorem Hangs.node?_mapTextsBelow (hg : t.Hangs id g) (h : t.Linked) (f : String → String) (x : NodeId) :
    (t.mapTextsBelow id f).node? x = if x ∈ id :: g.marks then (t.node? x).map (Node.mapTexts f) else t.node? x := by
  have hn : (g.marks ++ [id]).Nodup := by
    refine List.nodup_append.2 ⟨hg.nodup h, by simp, ?_⟩
    rintro y hy _ hid rfl
    exact hg.not_mem (List.mem_singleton.1 hid ▸ hy)
  have hmem : x ∈ g.marks ++ [id] ↔ x ∈ id :: g.marks := by
    rw [List.mem_append, List.mem_singleton, List.mem_cons, or_comm]
  rw [mapTextsBelow, hg.descendants h]
  exact (node?_foldl_modify hn t (Node.mapTexts f) x).trans (if_congr hmem rfl rfl)

theorem mapTextsBelow_id (t : Tree) (id : NodeId) : t.mapTextsBelow id (fun text => text) = t := by
  have hkind : ∀ k : Kind, k.mapTexts (fun text => text) = k := fun k => by cases k <;> rfl
  have hmodify : ∀ (u : Tree) (n : NodeId),
      (u.modify n fun node => { node with kind := node.kind.mapTexts fun text => text }) = u := by
    intro u n
    refine ext_node? fun y => ?_
    simp only [node?_modify, hkind]
    split
    · cases u.node? y <;> rfl
    · rfl
  rw [mapTextsBelow]
  induction t.descendants id ++ [id] with
  | nil => rfl
  | cons n ids ih => rw [List.foldl_cons, hmodify, ih]

/-- The second store has the same nodes as the first, those from number `n` on with other texts. -/
def Reworded (n : Nat) (f : String → String) (t u : Tree) : Prop :=
  ∀ y, u.node? y = (t.node? y).map fun node => if y < n then node else node.mapTexts f

theorem Reworded.unique {v : Tree} (hu : Reworded n f t u) (hv : Reworded n f t v) : u = v :=
  ext_node? fun y => (hu y).trans (hv y).symm

theorem reworded_size (t : Tree) (f : String → String) : Reworded t.size f t t := by
  intro y
  cases hn : t.node? y with
  | none => rfl
  | some node => simp [lt_size_iff.mpr ⟨node, hn⟩]

theorem Reworded.size_eq (h : Reworded n f t u) : u.size = t.size := by
  have hlt : ∀ y, y < u.size ↔ y < t.size := fun y => by simp [lt_size_iff, h y]
  have hle := mt (hlt t.size).mp (Nat.lt_irrefl _)
  have hge := mt (hlt u.size).mpr (Nat.lt_irrefl _)
  omega

theorem Reworded.create (h : Reworded n f t u) (hn : n ≤ t.size) (kind : Kind) (source : Option Source) :
    Reworded n f (t.create kind source).1 (u.create (kind.mapTexts f) source).1 := by
  intro y
  rw [node?_create, node?_create, h.size_eq, h y]
  by_cases hy : y = t.size
  · have hnew : ¬y < n := by
      rw [hy]
      exact Nat.not_lt.mpr hn
    rw [if_pos hy, if_pos hy, Option.map_some, if_neg hnew]
    rfl
  · rw [if_neg hy, if_neg hy]

/-- Links are made alike, whatever the texts are. -/
theorem Reworded.append (h : Reworded n f t u) (p x : NodeId) : Reworded n f (t.append p x) (u.append p x) := by
  have hparent : u.parent? x = t.parent? x := by
    rw [parent?, parent?, h x]
    cases t.node? x with
    | none => rfl
    | some node =>
      simp only [Option.map_some, Option.bind_some]
      split <;> rfl
  intro y
  rw [node?_append, node?_append, node?_detach, node?_detach, hparent, h y]
  cases t.node? y with
  | none => rfl
  | some node =>
    simp only [Option.map_some]
    split <;> rfl

theorem Reworded.graftAll (h : Reworded n f t u) (hn : n ≤ t.size) (p : NodeId) (es : List Element) :
    Reworded n f (t.graftAll p es) (u.graftAll p (Element.mapTextsAll f es)) ∧ n ≤ (t.graftAll p es).size := by
  induction es using Element.forest_induction generalizing t u p with
  | nil => exact ⟨h, hn⟩
  | cons kind source children rest hchildren hrest =>
    have hsize : n ≤ (t.create kind source).1.size := by
      rw [size_create]
      omega
    obtain ⟨hbelow, hle⟩ := hchildren (h.create hn kind source) hsize t.size
    rw [graftAll_cons, Element.mapTextsAll_cons, graftAll_cons, h.size_eq]
    exact hrest (hbelow.append p t.size) (by rwa [size_append]) p

/-- It is the same to change the texts of new nodes and to add nodes with changed texts. -/
theorem Linked.mapTextsBelow_graft (h : t.Linked) (e : Element) (f : String → String) :
    (t.graft e).1.mapTextsBelow t.size f = (t.graft (e.mapTexts f)).1 := by
  obtain ⟨kind, source, es⟩ := e
  obtain ⟨u, g, hu, -, hg⟩ := h.graft kind source es
  have hroot : t.size ≤ (t.create kind source).1.size := by simp
  have hnew : Reworded t.size f (t.graft (.mk kind source es)).1 (t.graft ((Element.mk kind source es).mapTexts f)).1 :=
    (((reworded_size t f).create (Nat.le_refl _) kind source).graftAll hroot t.size es).1
  rw [hu] at hnew ⊢
  refine Reworded.unique (n := t.size) (f := f) (t := u) (fun y => ?_) hnew
  rw [hg.hangs.node?_mapTextsBelow hg.linked]
  cases hn : u.node? y with
  | none => simp
  | some node =>
    -- A node of the new store is an old one, the root of the element or below it.
    have hy : y < u.size := lt_size_iff.mpr ⟨node, hn⟩
    have hmem : y ∈ t.size :: g.marks ↔ ¬y < t.size := by
      rw [List.mem_cons]
      constructor
      · rintro (rfl | hm)
        · exact Nat.lt_irrefl _
        · exact Nat.not_lt.mpr (Nat.le_of_lt (hg.fresh y hm))
      · intro hle
        rcases Nat.eq_or_lt_of_le (Nat.not_lt.mp hle) with heq | hlt
        · exact .inl heq.symm
        · exact .inr (hg.cover y hy hlt)
    simp only [hmem, Option.map_some]
    by_cases hold : y < t.size <;> simp [hold]

end Tree

end StyleMixins
