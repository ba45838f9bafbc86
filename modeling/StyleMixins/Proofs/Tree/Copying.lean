import StyleMixins.Proofs.Tree.Acyclic
import StyleMixins.Proofs.Tree.Walks

namespace StyleMixins.Tree

variable {t u base src : Tree} {p id y fuel : Nat} {f : Forest NodeId} {view : Tree → Tree}

/-- The nodes of `t` are as they were, and there may be more behind them. -/
structure Extends (t u : Tree) : Prop where
  size_le : t.size ≤ u.size
  node? : ∀ y < t.size, u.node? y = t.node? y

theorem Extends.refl (t : Tree) : t.Extends t :=
  ⟨Nat.le_refl _, fun _ _ => rfl⟩

theorem Extends.create (h : base.Extends t) (kind : Kind) (source : Option Source) :
    base.Extends (t.create kind source).1 := by
  refine ⟨by simpa using Nat.le_succ_of_le h.size_le, fun y hy => ?_⟩
  rw [node?_create, if_neg (Nat.ne_of_lt (Nat.lt_of_lt_of_le hy h.size_le)), h.node? y hy]

theorem Extends.planted (h : base.Extends t) (hp : base.size ≤ p) (k : t.Planted p f u) : base.Extends u := by
  refine ⟨Nat.le_trans h.size_le k.grows.size_le, fun y hy => ?_⟩
  have hlt : y < t.size := Nat.lt_of_lt_of_le hy h.size_le
  rw [← h.node? y hy]
  exact node?_congr (k.grows.kind? y hlt) (k.grows.source? y hlt) (k.parent? y hlt)
    (k.children y hlt (Nat.ne_of_lt (Nat.lt_of_lt_of_le hy hp)))

theorem Shows.node? {k : Kind} {s : Option Source} {below rest : Forest NodeId}
    (h : t.Shows (.cons id k s below rest)) : ∃ parent, t.node? id = some ⟨k, s, parent, below.tops⟩ := by
  obtain ⟨⟨hk, hs, hc⟩, -, -⟩ := h
  obtain ⟨n, hn⟩ := lt_size_iff.mp (lt_size_of_kind? hk)
  obtain ⟨kind, source, parent, children⟩ := n
  simp only [kind?, source?, children_eq, hn, Option.map_some, Option.bind_some, Option.getD_some,
    Option.some.injEq] at hk hs hc
  subst hk hs hc
  exact ⟨parent, hn⟩

theorem copyTo_succ {kind : Kind} {source : Option Source} {parent : Option NodeId} {children : List NodeId}
    (h : (view t).node? id = some ⟨kind, source, parent, children⟩) :
    copyTo view (fuel + 1) t id =
      (copyEach (copyTo view fuel) t.size (t.create kind source).1 children).map (·, t.size) := by
  rw [copyTo, h]
  rfl

/-- Where all that is copied is seen as it was, whatever has been added by then, the copies are those of the trees read
off beforehand. -/
theorem copyEach_eq (hview : ∀ u, base.Extends u → ∀ y < src.size, (view u).node? y = src.node? y)
    (hf : src.Shows f) (hfuel : f.marks.length ≤ fuel) (hl : t.Linked) (hb : base.Extends t) (hp : p < t.size)
    (hbase : base.size ≤ p) : copyEach (copyTo view fuel) p t f.tops = some (t.graftAll p f.elements) := by
  induction f generalizing t p fuel with
  | nil => rfl
  | cons id k s below rest hbelow hrest =>
    simp only [Forest.marks, List.length_cons, List.length_append] at hfuel
    obtain ⟨fuel, rfl⟩ : ∃ n, fuel = n + 1 := ⟨fuel - 1, by omega⟩
    obtain ⟨parent, hnode⟩ := hf.node?
    have hseen : (view t).node? id = some ⟨k, s, parent, below.tops⟩ :=
      (hview t hb id (lt_size_iff.mpr ⟨_, hnode⟩)).trans hnode
    have hinner : copyEach (copyTo view fuel) t.size (t.create k s).1 below.tops =
        some ((t.create k s).1.graftAll t.size below.elements) :=
      hbelow hf.2.1 (by omega) (hl.create k s) (hb.create k s) (by simp) hb.size_le
    have hone := hl.planted hp [.mk k s below.elements]
    rw [Forest.tops, copyEach, copyTo_succ hseen, hinner, Forest.elements, graftAll_cons]
    exact hrest hf.2.2 (by omega) hone.linked (hb.planted hbase hone) (Nat.lt_of_lt_of_le hp hone.grows.size_le) hbase

theorem copyTo_eq {k : Kind} {s : Option Source} {below : Forest NodeId}
    (hview : ∀ u, base.Extends u → ∀ y < src.size, (view u).node? y = src.node? y)
    (hf : src.Shows (.cons id k s below .nil)) (hfuel : below.marks.length < fuel) (hl : t.Linked)
    (hb : base.Extends t) : copyTo view fuel t id = some (t.graft (.mk k s below.elements)) := by
  obtain ⟨fuel, rfl⟩ : ∃ n, fuel = n + 1 := ⟨fuel - 1, by omega⟩
  obtain ⟨parent, hnode⟩ := hf.node?
  have hseen : (view t).node? id = some ⟨k, s, parent, below.tops⟩ :=
    (hview t hb id (lt_size_iff.mpr ⟨_, hnode⟩)).trans hnode
  rw [copyTo_succ hseen, copyEach_eq hview hf.2.1 (by omega) (hl.create k s) (hb.create k s) (by simp) hb.size_le]
  rfl

/-- A copy within a store is not disturbed by what it adds to it. -/
theorem Shows.copy?_eq {k : Kind} {s : Option Source} {below : Forest NodeId}
    (h : t.Shows (.cons id k s below .nil)) (hl : t.Linked) (hlen : below.marks.length < t.size) :
    t.copy? id = some (t.graft (.mk k s below.elements)) :=
  copyTo_eq (fun _ hu y hy => hu.node? y hy) h hlen hl (.refl t)

theorem Shows.copyFrom?_eq {k : Kind} {s : Option Source} {below : Forest NodeId}
    (h : src.Shows (.cons id k s below .nil)) (hl : t.Linked) (hlen : below.marks.length < src.size) :
    t.copyFrom? src id = some (t.graft (.mk k s below.elements)) :=
  copyTo_eq (fun _ _ _ _ => rfl) h hlen hl (.refl t)

theorem exists_graftAll_of_copyEach {copy : Tree → NodeId → Option (Tree × NodeId)} {ids : List NodeId}
    (hcopy : ∀ u id r, copy u id = some r → ∃ e, r = u.graft e) (h : copyEach copy p t ids = some u) :
    ∃ es, u = t.graftAll p es := by
  induction ids generalizing t with
  | nil => exact ⟨[], (Option.some.inj h).symm⟩
  | cons id rest ih =>
    rw [copyEach] at h
    split at h
    next => simp at h
    next v copied hone =>
      obtain ⟨e, he⟩ := hcopy _ _ _ hone
      obtain ⟨es, rfl⟩ := ih h
      exact ⟨e :: es, by rw [graftAll, ← he]⟩

/-- Whatever is copied, a tree is added. -/
theorem exists_graft_of_copyTo {r : Tree × NodeId} (h : copyTo view fuel t id = some r) : ∃ e, r = t.graft e := by
  induction fuel generalizing t id r with
  | zero => simp [copyTo] at h
  | succ fuel ih =>
    cases hn : (view t).node? id with
    | none => simp [copyTo, hn] at h
    | some n =>
      obtain ⟨kind, source, parent, children⟩ := n
      rw [copyTo_succ hn] at h
      obtain ⟨u, hu, rfl⟩ := Option.map_eq_some_iff.mp h
      obtain ⟨es, rfl⟩ := exists_graftAll_of_copyEach (fun _ _ _ => ih) hu
      exact ⟨.mk kind source es, rfl⟩

end StyleMixins.Tree
