import StyleMixins.Proofs.Expansion.Runs

namespace StyleMixins.Expansion

variable {ctx ctx' : Context} {s s' : State} {call d : Nat} {rest : List (NodeId × Nat)}
  {R : Report → Report → Prop} {E : Error → Prop}

/-- What one context makes of a call, another makes of it too, with a related report; and it refuses the call for the
same reason, if that is among `E`. -/
structure SameCall (ctx ctx' : Context) (R : Report → Report → Prop) (E : Error → Prop) (t : Tree)
    (report report' : Report) (call : NodeId) (d : Nat) : Prop where
  handles : ∀ {t' report₁ inserted}, Handles ctx t report call d t' report₁ inserted →
    ∃ report₁', Handles ctx' t report' call d t' report₁' inserted ∧ R report₁ report₁'
  refused : ∀ {e}, E e → Refused ctx t call d e → Refused ctx' t call d e

/-- States with the same store and the same stack, and related reports. -/
structure Alike (R : Report → Report → Prop) (s s' : State) : Prop where
  tree : s'.tree = s.tree
  pending : s'.pending = s.pending
  report : R s.report s'.report

/-- A turn that succeeds is matched by one that leaves a state alike, and one that fails with an error among `E` by one
that fails with it and leaves the same store. -/
def SameTurn (R : Report → Report → Prop) (E : Error → Prop) : State × Option Error → State × Option Error → Prop
  | (s, none), other => ∃ s', other = (s', none) ∧ Alike R s s'
  | (s, some e), other => E e → ∃ s', other = (s', some e) ∧ s'.tree = s.tree

theorem Alike.next (hroot : ctx'.root = ctx.root) (hs : Alike R s s')
    (hcall : SameCall ctx ctx' R E s.tree s.report s'.report call d) :
    SameTurn R E (Expansion.next ctx s call d rest) (Expansion.next ctx' s' call d rest) := by
  cases ha : s.tree.isAttached call ctx.root with
  | false =>
    have ha' : s'.tree.isAttached call ctx'.root = false := by rw [hs.tree, hroot, ha]
    rw [next_of_not_attached ha, next_of_not_attached ha']
    exact ⟨_, rfl, hs.tree, rfl, hs.report⟩
  | true =>
    have ha' : s'.tree.isAttached call ctx'.root = true := by rw [hs.tree, hroot, ha]
    rcases handles_or_refused ctx s.tree s.report call d with ⟨t', report₁, inserted, hhandles⟩ | ⟨e, hrefused⟩
    · obtain ⟨report₁', hhandles', hR⟩ := hcall.handles hhandles
      rw [← hs.tree] at hhandles'
      rw [hhandles.next_eq ha, hhandles'.next_eq ha']
      exact ⟨_, rfl, rfl, rfl, hR⟩
    · rw [hrefused.next_eq ha]
      intro hE
      have hrefused' := hcall.refused hE hrefused
      rw [← hs.tree] at hrefused'
      exact ⟨_, hrefused'.next_eq ha', hs.tree⟩

/-- The second outcome is the one that the first leads one to expect. -/
def Outcome.Follows (R : Report → Report → Prop) (E : Error → Prop) : Outcome → Outcome → Prop
  | .finished t report, other => ∃ report', other = .finished t report' ∧ R report report'
  | .failed t e, other => E e → other = .failed t e
  | .unfinished s, other => ∃ s', other = .unfinished s' ∧ Alike R s s'

/-- Where the stack is empty or the budget used up, the context does not matter. -/
theorem run_stopped (ctx ctx' : Context) {budget : Nat} (hstop : s.pending = [] ∨ budget = 0) :
    Expansion.run ctx budget s = Expansion.run ctx' budget s := by
  cases hp : s.pending with
  | nil => rw [run_nil budget hp, run_nil budget hp]
  | cons entry rest =>
    obtain rfl : budget = 0 := hstop.resolve_left (by simp [hp])
    rw [run, run, hp]

theorem Alike.run_stopped (hs : Alike R s s') {budget : Nat} (hstop : s.pending = [] ∨ budget = 0) :
    (run ctx budget s).Follows R E (run ctx' budget s') := by
  cases hp : s.pending with
  | nil =>
    rw [run_nil budget hp, run_nil budget (hs.pending.trans hp), hs.tree]
    exact ⟨_, rfl, hs.report⟩
  | cons entry rest =>
    obtain rfl : budget = 0 := hstop.resolve_left (by simp [hp])
    rw [run, run, hs.pending, hp]
    exact ⟨s', rfl, hs⟩

/-- Whatever one context makes of a call, the other makes of it too; errors apart that are not among `E`. -/
structure LockStep (ctx ctx' : Context) (R : Report → Report → Prop) (E : Error → Prop) : Prop where
  root : ctx'.root = ctx.root
  call : ∀ t report report' call d, R report report' → SameCall ctx ctx' R E t report report' call d

theorem LockStep.run (h : LockStep ctx ctx' R E) (hs : Alike R s s') (budget : Nat) :
    (Expansion.run ctx budget s).Follows R E (Expansion.run ctx' budget s') := by
  induction budget generalizing s s' with
  | zero => exact hs.run_stopped (Or.inr rfl)
  | succ budget ih =>
    cases hp : s.pending with
    | nil => exact hs.run_stopped (Or.inl hp)
    | cons entry rest =>
      obtain ⟨call, d⟩ := entry
      have hp' := hs.pending.trans hp
      have hturn : SameTurn R E (next ctx s call d rest) (next ctx' s' call d rest) :=
        hs.next h.root (h.call _ _ _ call d hs.report)
      cases hn : next ctx s call d rest with
      | mk s₁ error =>
        rw [hn] at hturn
        cases error with
        | some e =>
          rw [run_error budget hp hn]
          intro hE
          obtain ⟨s₁', hn', htree⟩ := hturn hE
          rw [run_error budget hp' hn', htree]
        | none =>
          obtain ⟨s₁', hn', hs₁⟩ := hturn
          rw [run_cons budget hp hn, run_cons budget hp' hn']
          exact ih hs₁

theorem LockStep.expand (h : LockStep ctx ctx' R E) (hR : R {} {}) (t : Tree) (budget : Nat) :
    (Expansion.expand ctx budget t).Follows R E (Expansion.expand ctx' budget t) := by
  have hs : Alike R (start ctx t) (start ctx' t) := ⟨rfl, by simp only [start, h.root], hR⟩
  exact h.run hs budget

end StyleMixins.Expansion
