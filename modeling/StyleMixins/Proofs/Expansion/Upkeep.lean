import StyleMixins.Proofs.Expansion.Order
import StyleMixins.Proofs.Tree.Upkeep

namespace StyleMixins.Tree

open Relation

variable {t u v : Tree} {y anchor call proxy : Nat} {ids ps : List NodeId}

/-- The store is well-formed, and nothing has come to lie above `y`. -/
structure Upheld (t : Tree) (y : NodeId) (u : Tree) : Prop where
  wellFormed : u.WellFormed
  size_le : t.size ≤ u.size
  above : ∀ z, u.Above z y → t.Above z y

theorem Upheld.refl (h : t.WellFormed) (y : NodeId) : t.Upheld y t :=
  ⟨h, Nat.le_refl _, fun _ ha => ha⟩

theorem Upheld.trans (h : t.Upheld y u) (k : u.Upheld y v) : t.Upheld y v :=
  ⟨k.wellFormed, Nat.le_trans h.size_le k.size_le, fun z ha => h.above z (k.above z ha)⟩

theorem Upheld.detach (h : t.Upheld y u) (x : NodeId) : t.Upheld y (u.detach x) :=
  h.trans ⟨h.wellFormed.detach x, by simp, fun _ => above_of_detach⟩

theorem WellFormed.upheld_graft (h : t.WellFormed) (hy : y < t.size) (e : Element) : t.Upheld y (t.graft e).1 :=
  ⟨h.graft e, Nat.le_of_lt (h.toLinked.size_lt_graft e), fun _ => h.above_of_graft e hy⟩

theorem WellFormed.placeContent_own (h : t.WellFormed) (hids : ∀ x ∈ ids, x < t.size)
    (hanchor : ∀ x ∈ ids, ¬t.Above x anchor) (hy : ∀ x ∈ ids, y ≠ x ∧ ¬t.Above x y) :
    t.Upheld y (t.placeContent anchor true ids).1 := by
  induction ids generalizing t with
  | nil => exact .refl h y
  | cons id ids ih =>
    simp only [List.forall_mem_cons] at hids hanchor hy
    have hfirst : t.Upheld y (t.insertBefore anchor id).1 :=
      ⟨h.insertBefore hids.1 hanchor.1, by simp [size_insertBefore],
        fun _ => above_of_insertBefore hids.1 hy.1.1 hy.1.2⟩
    refine hfirst.trans (ih hfirst.wellFormed ?_ ?_ ?_)
    · simpa [size_insertBefore] using hids.2
    · intro x hx ha
      by_cases he : anchor = id
      · exact hanchor.2 x hx (by simpa [Tree.insertBefore, he] using ha)
      · exact hanchor.2 x hx (above_of_insertBefore hids.1 he hanchor.1 ha)
    · exact fun x hx => ⟨(hy.2 x hx).1, fun ha => (hy.2 x hx).2 (hfirst.above x ha)⟩

theorem WellFormed.placeContent_copies (h : t.WellFormed) (hanchor : anchor < t.size) (hy : y < t.size) :
    t.Upheld y (t.placeContent anchor false ids).1 := by
  induction ids generalizing t with
  | nil => exact .refl h y
  | cons id ids ih =>
    cases he : t.copy? id with
    | none =>
      rw [placeContent_copy_none he]
      exact ih h hanchor hy
    | some r =>
      obtain ⟨e, rfl⟩ := exists_graft_of_copyTo he
      have hnew : ∀ x < t.size, ¬(t.graft e).1.Above t.size x := fun x hx ha =>
        Nat.lt_irrefl _ (h.above_lt (h.above_of_graft e hx ha))
      have hgraft := h.upheld_graft hy e
      have hlt := h.toLinked.size_lt_graft e
      have hfirst : t.Upheld y ((t.graft e).1.insertBefore anchor t.size).1 :=
        hgraft.trans ⟨hgraft.wellFormed.insertBefore hlt (hnew anchor hanchor), by simp [size_insertBefore],
          fun _ => above_of_insertBefore hlt (Nat.ne_of_lt hy) (hnew y hy)⟩
      rw [placeContent_copy_cons he, graft_snd]
      exact hfirst.trans (ih hfirst.wellFormed (Nat.lt_of_lt_of_le hanchor hfirst.size_le)
        (Nat.lt_of_lt_of_le hy hfirst.size_le))

theorem WellFormed.fillPlaceholders_copies (h : t.WellFormed) (hps : ∀ p ∈ ps, p < t.size) (hy : y < t.size) :
    t.Upheld y (t.fillPlaceholders ids false ps).1 := by
  induction ps generalizing t with
  | nil => exact .refl h y
  | cons p ps ih =>
    simp only [List.forall_mem_cons] at hps
    have hfirst : t.Upheld y ((t.placeContent p false ids).1.detach p) := (h.placeContent_copies hps.1 hy).detach p
    rw [fillPlaceholders_cons]
    exact hfirst.trans (ih hfirst.wellFormed (fun q hq => Nat.lt_of_lt_of_le (hps.2 q hq) hfirst.size_le)
      (Nat.lt_of_lt_of_le hy hfirst.size_le))

theorem WellFormed.fillPlaceholders (h : t.WellFormed) (hids : ∀ x ∈ ids, x < t.size)
    (hps : ∀ p ∈ ps, p < t.size ∧ ∀ x ∈ ids, ¬t.Above x p) (hy : y < t.size)
    (hyids : ∀ x ∈ ids, y ≠ x ∧ ¬t.Above x y) : t.Upheld y (t.fillPlaceholders ids true ps).1 := by
  cases ps with
  | nil => exact .refl h y
  | cons p ps =>
    simp only [List.forall_mem_cons] at hps
    have hfirst := (h.placeContent_own hids hps.1.2 hyids).detach p
    rw [fillPlaceholders_cons]
    exact hfirst.trans (hfirst.wellFormed.fillPlaceholders_copies
      (fun q hq => Nat.lt_of_lt_of_le (hps.2 q hq).1 hfirst.size_le) (Nat.lt_of_lt_of_le hy hfirst.size_le))

theorem WellFormed.insertInPlace (h : t.WellFormed) (hproxy : ¬t.Above proxy call) :
    (t.insertInPlace call proxy).WellFormed := by
  have hpar : ∀ x ∈ t.children proxy, t.parent? x = some proxy := fun x hx => (h.mem_children proxy x).mp hx
  have habove : ∀ x ∈ t.children proxy, ¬t.Above x call := fun x hx ha => hproxy (.head (hpar x hx) ha)
  rw [insertInPlace_eq]
  refine (h.placeContent_own (y := call) (fun x hx => h.child_lt hx) habove fun x hx => ⟨?_, habove x hx⟩).wellFormed
  rintro rfl
  exact hproxy (.single (hpar call hx))

theorem Upheld.not_above_size (h : t.Upheld call u) (ht : t.WellFormed) : ¬u.Above t.size call :=
  fun ha => Nat.lt_irrefl _ (ht.above_lt (h.above _ ha))

/-- Above a new node there are new nodes only. -/
theorem Grafted.size_le_of_above {kind : Kind} {source : Option Source} {f : Forest NodeId}
    (hg : t.Grafted kind source f u) (h : t.Linked) {x p : NodeId} (hp : t.size ≤ p) (ha : u.Above x p) :
    t.size ≤ x := by
  have hstep : ∀ q c, u.parent? c = some q → t.size ≤ c → t.size ≤ q := by
    intro q c hpar hc
    by_contra hq
    have hchild : c ∈ t.children q := by
      rw [← hg.children q (Nat.not_le.mp hq)]
      exact (hg.linked.mem_children q c).mpr hpar
    exact absurd (h.child_lt hchild) (Nat.not_lt.mpr hc)
  induction ha with
  | single hpar => exact hstep _ _ hpar hp
  | tail _ hpar ih => exact ih (hstep _ _ hpar hp)

theorem WellFormed.materialize (h : t.WellFormed) (hcall : call < t.size) (m : BlockMixin)
    (arguments : List Call.Argument) : t.Upheld call (t.materialize m call arguments).1 := by
  cases he : m.instantiate arguments with
  | mk kind source es =>
  obtain ⟨u, f, hu, -, hg⟩ := h.toLinked.graft kind source es
  have hgraft : t.Upheld call u := by simpa [hu] using h.upheld_graft hcall (.mk kind source es)
  have hkids : ∀ x ∈ u.children call, x < t.size ∧ t.parent? x = some call := by
    intro x hx
    rw [hg.children call hcall] at hx
    exact ⟨h.child_lt hx, (h.mem_children call x).mp hx⟩
  rw [h.toLinked.materialize_eq m call arguments (he ▸ congrArg Prod.fst hu)]
  split
  · -- The children of the call are not above it, nor above a node of the new instance.
    refine hgraft.trans (hgraft.wellFormed.fillPlaceholders
      (fun x hx => Nat.lt_of_lt_of_le (hkids x hx).1 hgraft.size_le) ?_ (Nat.lt_of_lt_of_le hcall hgraft.size_le) ?_)
    · intro p hp
      rw [hg.hangs.atRules hg.linked] at hp
      have hm := (f.atRules_sublist_marks _).subset hp
      refine ⟨hg.hangs.shows.lt_size hm, fun x hx ha => ?_⟩
      exact absurd (hg.size_le_of_above h.toLinked (Nat.le_of_lt (hg.fresh p hm)) ha) (Nat.not_le.mpr (hkids x hx).1)
    · intro x hx
      have hcycle : ¬t.Above x call := fun ha => h.not_above_self call (.head (hkids x hx).2 ha)
      refine ⟨?_, fun ha => hcycle (hgraft.above x ha)⟩
      rintro rfl
      exact h.not_above_self call (.single (hkids call hx).2)
  · exact hgraft

theorem materialize_proxy (t : Tree) (m : BlockMixin) (call : NodeId) (arguments : List Call.Argument) :
    (t.materialize m call arguments).2.1 = t.size := by
  rw [← graft_snd t m.body, materialize]
  split
  next hg => split <;> rw [hg]

theorem WellFormed.replaceByRecord (h : t.WellFormed) (hcall : call < t.size) (fields : Record) :
    (t.replaceByRecord call fields).1.WellFormed := by
  have hgraft := h.upheld_graft hcall (Record.fragment fields (t.source? call))
  have hproxy := hgraft.not_above_size h
  rw [← graft_snd t (Record.fragment fields (t.source? call))] at hproxy
  exact (hgraft.wellFormed.insertInPlace hproxy).detach call

theorem WellFormed.replaceByBlock (h : t.WellFormed) (hcall : call < t.size) (m : BlockMixin)
    (arguments : List Call.Argument) : (t.replaceByBlock call m arguments).1.WellFormed := by
  have hinst := h.materialize hcall m arguments
  have hproxy := hinst.not_above_size h
  rw [← materialize_proxy t m call arguments] at hproxy
  exact (hinst.wellFormed.insertInPlace hproxy).detach call

theorem WellFormed.replaceCall (h : t.WellFormed) (hcall : call < t.size) (name : String)
    (arguments : List Call.Argument) (d : Definition) : (t.replaceCall call name arguments d).1.WellFormed := by
  cases d with
  | block m => exact h.replaceByBlock hcall m arguments
  | record fields => exact h.replaceByRecord hcall fields
  | callback run =>
    rw [Tree.replaceCall]
    split
    next => exact h
    next => exact h.detach call
    next fields _ => exact h.replaceByRecord hcall fields

end StyleMixins.Tree

namespace StyleMixins.Expansion

variable {ctx : Context} {t t' : Tree} {s : State} {log : List Visit}

theorem Handles.wellFormed {report report' : Report} {call d : Nat} {inserted : Tree.Inserted} (h : t.WellFormed)
    (hcall : call < t.size) (hhandles : Handles ctx t report call d t' report' inserted) : t'.WellFormed := by
  cases hhandles with
  | leave => exact h
  | skip => exact h.detach call
  | @expand _ head definition _ _ _ _ _ _ hreplace =>
    have hwf := h.replaceCall hcall head.name ((head.list.map Call.readArguments).getD []) definition
    rwa [hreplace] at hwf

theorem Reaches.wellFormed (ht : t.WellFormed) (h : Reaches ctx (Expansion.start ctx t) log s) :
    s.tree.WellFormed := by
  induction h with
  | start => exact ht
  | pass _ _ ha hn ih =>
    obtain rfl := eq_of_next ha hn
    exact ih
  | @visit log s s' call d rest hs hp ha hn ih =>
    obtain ⟨f, τ, standing, -⟩ := hs.standing ht
    have hcall := (standing.known (call, d) (by simp [hp])).1
    obtain ⟨t', report', inserted, hhandles, rfl⟩ := handles_of_next ha hn
    exact hhandles.wellFormed ih hcall

theorem wellFormed_expand (ht : t.WellFormed) (ctx : Context) (budget : Nat) :
    (expand ctx budget t).tree.WellFormed := by
  obtain ⟨log, s, h, hend⟩ := (Reaches.start : Reaches ctx (start ctx t) [] _).exists_end budget
  rw [expand, hend.tree_eq]
  exact h.wellFormed ht

theorem grows_expand (ht : t.WellFormed) (ctx : Context) (budget : Nat) : t.Grows (expand ctx budget t).tree := by
  obtain ⟨log, s, h, hend⟩ := (Reaches.start : Reaches ctx (start ctx t) [] _).exists_end budget
  rw [expand, hend.tree_eq]
  exact h.grows ht

end StyleMixins.Expansion
