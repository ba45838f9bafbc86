import StyleMixins.Proofs.Expansion.CallSite

namespace StyleMixins

namespace Tree

open Relation

variable {t u v : Tree} {root call p y z : Nat}

/-- The nodes below a node that are no calls and lie inside none. -/
def outsideCalls (t : Tree) (root : NodeId) : List NodeId :=
  (t.descendants root).filter fun y => (t.atRules root Keyword.call).all fun call => !t.isAttached y call

theorem WellFormed.mem_outsideCalls (h : t.WellFormed) : y ∈ t.outsideCalls root ↔
    t.Above root y ∧ ∀ c, t.Above root c → t.isAtRule c Keyword.call = true → y ≠ c ∧ ¬t.Above c y := by
  simp only [outsideCalls, atRules, List.mem_filter, h.mem_descendants, List.all_eq_true, and_imp,
    Bool.not_eq_true', ← Bool.not_eq_true, h.isAttached_iff, not_or]

theorem WellFormed.not_isAtRule_of_outside (h : t.WellFormed) (hy : y ∈ t.outsideCalls root) :
    t.isAtRule y Keyword.call = false := by
  obtain ⟨ha, hcalls⟩ := h.mem_outsideCalls.mp hy
  by_contra hcall
  exact (hcalls y ha (by simpa using hcall)).1 rfl

/-- The parent of a node outside all calls is one too, or the node at the top. -/
theorem WellFormed.parent_of_outside (h : t.WellFormed) (hy : y ∈ t.outsideCalls root) :
    ∃ p, t.parent? y = some p ∧ (p = root ∨ p ∈ t.outsideCalls root) := by
  obtain ⟨ha, hcalls⟩ := h.mem_outsideCalls.mp hy
  cases ha with
  | single hp => exact ⟨root, hp, .inl rfl⟩
  | @tail p _ hup hp =>
    refine ⟨p, hp, .inr (h.mem_outsideCalls.mpr ⟨hup, fun c hc hcall => ?_⟩)⟩
    obtain ⟨-, hnot⟩ := hcalls c hc hcall
    exact ⟨fun e => hnot (.single (e ▸ hp)), fun hcp => hnot (.tail hcp hp)⟩

def Elsewhere (t : Tree) (root y : NodeId) : Prop :=
  y < t.size ∧ y ≠ root ∧ ¬t.Above root y

theorem Elsewhere.parent (h : t.Elsewhere root y) (hl : t.Linked) (hp : t.parent? y = some p) :
    t.Elsewhere root p :=
  ⟨hl.parent_lt hp, fun e => h.2.2 (.single (e ▸ hp)), fun ha => h.2.2 (.tail ha hp)⟩

/-- From `t` to `u`, nodes below `root` and outside all calls keep their parents and their order, and all links
elsewhere are as before. -/
structure Keeps (t : Tree) (root : NodeId) (u : Tree) : Prop where
  parent? : ∀ y ∈ t.outsideCalls root, u.parent? y = t.parent? y
  order : ∀ p, (u.children p).filter (· ∈ t.outsideCalls root) = (t.children p).filter (· ∈ t.outsideCalls root)
  elsewhere : ∀ y, t.Elsewhere root y → u.parent? y = t.parent? y ∧ u.children y = t.children y

theorem Keeps.refl (t : Tree) (root : NodeId) : t.Keeps root t :=
  ⟨fun _ _ => rfl, fun _ => rfl, fun _ _ => ⟨rfl, rfl⟩⟩

/-- No node elsewhere has come to lie below `root`. -/
theorem Keeps.not_above (h : t.Keeps root u) (ht : t.Linked) (ha : u.Above root y) : ¬t.Elsewhere root y := by
  induction ha with
  | single hp =>
    intro hy
    rw [(h.elsewhere _ hy).1] at hp
    exact hy.2.2 (.single hp)
  | tail _ hp ih =>
    intro hy
    rw [(h.elsewhere _ hy).1] at hp
    exact ih (hy.parent ht hp)

theorem Keeps.above (h : t.Keeps root u) (ht : t.WellFormed) (hy : y ∈ t.outsideCalls root) : u.Above root y := by
  induction y using ht.ends.induction with
  | _ y ih =>
    obtain ⟨p, hp, hup⟩ := ht.parent_of_outside hy
    have hpu : u.parent? y = some p := (h.parent? y hy).trans hp
    rcases hup with rfl | hup
    · exact .single hpu
    · exact .tail (ih p hp hup) hpu

theorem filter_children_eq_nil (hu : u.Linked) (ht : t.WellFormed)
    (hkept : ∀ y ∈ t.outsideCalls root, u.parent? y = t.parent? y) (hp : p ≠ root) (hout : p ∉ t.outsideCalls root) :
    (u.children p).filter (· ∈ t.outsideCalls root) = [] := by
  rw [List.filter_eq_nil_iff]
  intro y hy
  rw [decide_eq_true_eq]
  intro hm
  obtain ⟨q, hq, hup⟩ := ht.parent_of_outside hm
  rw [hu.mem_children, hkept y hm, hq, Option.some.injEq] at hy
  rcases hup with rfl | hup
  · exact hp hy.symm
  · exact hout (hy ▸ hup)

/-- One more call is replaced. -/
theorem Keeps.changedAt (h : t.Keeps root u) (ht : t.WellFormed) (hu : u.WellFormed) (hv : v.Linked)
    (hgrows : t.Grows u) (hcall : u.Above root call) (hrule : u.isAtRule call Keyword.call = true)
    (hchanged : u.ChangedAt call v) : t.Keeps root v := by
  obtain ⟨put, hput, hchildren⟩ := hchanged.children
  have hlt : ∀ y ∈ t.outsideCalls root, y < t.size := fun y hy => (ht.mem_outsideCalls.mp hy).1.lt_size
  have hroot : root ≠ call := fun e => hu.not_above_self call (e ▸ hcall)
  have hnot : call ∉ t.outsideCalls root := by
    intro hm
    have hplain := ht.not_isAtRule_of_outside hm
    rw [← hgrows.isAtRule (hlt call hm), hrule] at hplain
    simp at hplain
  -- Nodes outside all calls hang from such nodes or from `root`, so none hangs from the call.
  have hchild : ∀ y ∈ t.outsideCalls root, u.parent? y ≠ some call := by
    intro y hy hp
    obtain ⟨q, hq, hup⟩ := ht.parent_of_outside hy
    rw [h.parent? y hy, hq, Option.some.injEq] at hp
    subst hp
    exact hup.elim hroot.symm hnot
  have hparent : ∀ y ∈ t.outsideCalls root, v.parent? y = t.parent? y := by
    intro y hy
    have hyu : y < u.size := Nat.lt_of_lt_of_le (hlt y hy) hgrows.size_le
    rw [hchanged.parent? y hyu (fun e => hnot (e ▸ hy)) (hchild y hy), h.parent? y hy]
  refine ⟨hparent, fun p => ?_, fun y hy => ?_⟩
  · by_cases hp : p = root ∨ p ∈ t.outsideCalls root
    · have hpu : p < u.size := by
        rcases hp with rfl | hp
        · exact hu.above_lt hcall
        · exact Nat.lt_of_lt_of_le (hlt p hp) hgrows.size_le
      have hpc : p ≠ call := by
        rcases hp with rfl | hp
        · exact hroot
        · exact fun e => hnot (e ▸ hp)
      rw [hchildren p hpu hpc, filter_swap, h.order p]
      · simpa using hnot
      · -- What came in place of the call is new, or was inside it.
        intro x hx
        rw [decide_eq_false_iff_not]
        intro hm
        rcases hput x hx with hnew | hp
        · exact absurd (Nat.le_trans hgrows.size_le hnew) (Nat.not_le.mpr (hlt x hm))
        · exact hchild x hm hp
    · rw [not_or] at hp
      rw [filter_children_eq_nil hv ht hparent hp.1 hp.2,
        filter_children_eq_nil ht.toLinked ht (fun _ _ => rfl) hp.1 hp.2]
  · obtain ⟨hp, hc⟩ := h.elsewhere y hy
    have hyu : y < u.size := Nat.lt_of_lt_of_le hy.1 hgrows.size_le
    -- The way up from a node elsewhere does not meet `root`, but that from the call does.
    have hcallNot := h.not_above ht.toLinked hcall
    have hyc : y ≠ call := fun e => hcallNot (e ▸ hy)
    constructor
    · rw [hchanged.parent? y hyu hyc, hp]
      intro hpc
      rw [hp] at hpc
      exact hcallNot (hy.parent ht.toLinked hpc)
    · have hm : call ∉ u.children y := by
        intro hm
        have hpc := (hu.mem_children y call).mp hm
        cases hcall with
        | single hr => exact hy.2.1 (Option.some.inj (hpc.symm.trans hr))
        | tail hup hr =>
          have hyr := Option.some.inj (hpc.symm.trans hr)
          exact h.not_above ht.toLinked (hyr ▸ hup) hy
      rw [hchildren y hyu hyc, swap_of_not_mem put hm, hc]

end Tree

namespace Expansion

variable {ctx : Context} {t : Tree} {s : State} {log : List Visit}

theorem Reaches.keeps (ht : t.WellFormed) (h : Reaches ctx (Expansion.start ctx t) log s) :
    t.Keeps ctx.root s.tree := by
  induction h with
  | start => exact .refl t ctx.root
  | pass _ _ ha hn ih =>
    obtain rfl := eq_of_next ha hn
    exact ih
  | @visit log s s' call d rest hs hp ha hn ih =>
    have hwf := hs.wellFormed ht
    obtain ⟨f, τ, standing, -⟩ := hs.standing ht
    obtain ⟨c, hc, rfl, -⟩ := standing.top hp ha
    have habove := (standing.hangs.mem_marks_iff hwf).mp (Forest.mark_mem_of_firstCall? hc)
    have hrule : s.tree.isAtRule c.mark Keyword.call = true := by
      obtain ⟨later, hcalls, -⟩ := Forest.atRules_putFirst hc
      exact (standing.hangs.shows.mem_atRules.mp (hcalls ▸ by simp)).2
    obtain ⟨t', report', inserted, hhandles, rfl⟩ := handles_of_next ha hn
    exact ih.changedAt ht hwf (hhandles.wellFormed hwf habove.lt_size).toLinked (hs.grows ht) habove hrule
      (hhandles.changedAt hwf (standing.hangs.shows.hasCall hc).params?)

/-- Whether a run finishes, fails or is cut short: below the root of the run, nodes outside all calls keep their kinds,
sources, parents and order and stay attached, and nodes elsewhere are as they were. -/
theorem expand_leaves_rest (ht : t.WellFormed) (ctx : Context) (budget : Nat) :
    (∀ y ∈ t.outsideCalls ctx.root,
      (expand ctx budget t).tree.kind? y = t.kind? y ∧ (expand ctx budget t).tree.source? y = t.source? y ∧
        (expand ctx budget t).tree.parent? y = t.parent? y ∧
        (expand ctx budget t).tree.isAttached y ctx.root = true) ∧
      (∀ p, ((expand ctx budget t).tree.children p).filter (· ∈ t.outsideCalls ctx.root) =
        (t.children p).filter (· ∈ t.outsideCalls ctx.root)) ∧
      ∀ y < t.size, t.isAttached y ctx.root = false → (expand ctx budget t).tree.node? y = t.node? y := by
  have hgrows := grows_expand ht ctx budget
  have hwf := wellFormed_expand ht ctx budget
  have hkeeps : t.Keeps ctx.root (expand ctx budget t).tree := by
    obtain ⟨log, s, h, hend⟩ := (Reaches.start : Reaches ctx (start ctx t) [] _).exists_end budget
    rw [expand, hend.tree_eq]
    exact h.keeps ht
  refine ⟨fun y hy => ?_, hkeeps.order, fun y hy hout => ?_⟩
  · have hlt : y < t.size := (ht.mem_outsideCalls.mp hy).1.lt_size
    exact ⟨hgrows.kind? y hlt, hgrows.source? y hlt, hkeeps.parent? y hy,
      hwf.isAttached_iff.mpr (.inr (hkeeps.above ht hy))⟩
  · have hnot := mt ht.isAttached_iff.mpr (by simpa using hout)
    rw [not_or] at hnot
    obtain ⟨hp, hc⟩ := hkeeps.elsewhere y ⟨hy, hnot.1, hnot.2⟩
    exact Tree.node?_congr (hgrows.kind? y hy) (hgrows.source? y hy) hp hc

/-- A call between two rules, of which one has a declaration, with a rule beside all that. -/
def Sample.surrounded : Tree :=
  .ofElement (.mk .root none
    [.mk (.atRule "media" "print" true) none
      [.mk (.rule ".x") none [.mk (.declaration "top" "0") none []],
        .mk (.atRule "include" "twice" true) none [.mk (.rule ".y") none []],
        .mk (.rule ".z") none []],
      .mk (.rule ".w") none []])

theorem expand_leaves_rest_surrounded :
    Sample.surrounded.WellFormed ∧ Sample.surrounded.outsideCalls 1 = [2, 3, 6] ∧
      ∀ budget,
        ((expand ⟨1, Sample.registry, {}⟩ budget Sample.surrounded).tree.children 1).filter (· ∈ [2, 3, 6]) = [2, 6] ∧
        (expand ⟨1, Sample.registry, {}⟩ budget Sample.surrounded).tree.node? 7 = Sample.surrounded.node? 7 := by
  have hwf : Sample.surrounded.WellFormed := Tree.wellFormed_ofElement _
  have houtside : Sample.surrounded.outsideCalls 1 = [2, 3, 6] := by decide
  refine ⟨hwf, houtside, fun budget => ?_⟩
  obtain ⟨-, horder, helsewhere⟩ := expand_leaves_rest hwf ⟨1, Sample.registry, {}⟩ budget
  have hfirst := horder 1
  simp only [houtside] at hfirst
  exact ⟨hfirst, helsewhere 7 (by decide) (by decide)⟩

end Expansion

end StyleMixins
