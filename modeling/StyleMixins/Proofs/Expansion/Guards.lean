import StyleMixins.Proofs.Expansion.LockStep

namespace StyleMixins.Expansion

variable {a b : Settings} {depth : Nat}

/-- The second settings drop the calls of unknown mixins if the first do, and allow every depth that the first do. -/
structure Settings.Loosens (a b : Settings) : Prop where
  silent : a.silent = true → b.silent = true
  maxDepth : ∀ limit', b.maxDepth = some limit' → ∃ limit, a.maxDepth = some limit ∧ limit ≤ limit'
  trace : b.trace = a.trace

theorem Settings.Loosens.allows (h : a.Loosens b) (ha : a.Allows depth) : b.Allows depth := by
  intro limit' hb
  obtain ⟨limit, hmax, hle⟩ := h.maxDepth limit' hb
  exact Nat.le_trans (ha limit hmax) hle

/-- A call that is handled is handled in the same way under looser guards, and one that is refused is refused for the
same reason, unless that was a guard which has been loosened. -/
theorem Settings.Loosens.lockStep (h : a.Loosens b) (root : NodeId) (registry : Registry) :
    LockStep ⟨root, registry, a⟩ ⟨root, registry, b⟩ Eq
      fun e => a.silent = b.silent ∧ e.category ≠ "RecursionLimit" where
  root := rfl
  call t report _ call d := by
    rintro rfl
    refine ⟨fun hcall => ⟨_, ?_, rfl⟩, fun hE hcall => ?_⟩
    · cases hcall with
      | leave htext => exact .leave htext
      | skip htext hread hfind hsilent => exact .skip htext hread hfind (h.silent hsilent)
      | expand htext hread hfind hallowed hreplace =>
        simp only [← h.trace]
        exact .expand htext hread hfind (h.allows hallowed) hreplace
    · obtain ⟨hsilent, hcategory⟩ := hE
      cases hcall with
      | malformed htext hread => exact .malformed htext hread
      | undefined htext hread hfind hstrict => exact .undefined htext hread hfind (hsilent.symm.trans hstrict)
      | tooDeep => exact absurd rfl hcategory
      | callback htext hread hfind hallowed hrun => exact .callback htext hread hfind (h.allows hallowed) hrun

/-- A run that finishes does so under looser guards too, with the same store and the same report. One that fails for
another reason than its depth fails in the same way when only the depth limit is raised or taken away. -/
theorem expand_of_looser_guards (h : a.Loosens b) (root : NodeId) (registry : Registry) (t : Tree) (budget : Nat) :
    (∀ t' report, expand ⟨root, registry, a⟩ budget t = .finished t' report →
      expand ⟨root, registry, b⟩ budget t = .finished t' report) ∧
    ∀ t' e, expand ⟨root, registry, a⟩ budget t = .failed t' e → a.silent = b.silent →
      e.category ≠ "RecursionLimit" → expand ⟨root, registry, b⟩ budget t = .failed t' e := by
  have hfollows := (h.lockStep root registry).expand rfl t budget
  constructor
  · intro t' report hrun
    rw [hrun] at hfollows
    obtain ⟨report', hrun', rfl⟩ := hfollows
    exact hrun'
  · intro t' e hrun hsilent hcategory
    rw [hrun] at hfollows
    exact hfollows ⟨hsilent, hcategory⟩

/-- The nested calls end within two levels, and without a limit too; where one of the mixins is unknown, both runs say
so. -/
theorem expand_of_looser_guards_twice :
    (∃ t' report, expand (Sample.context { maxDepth := some 1 }) 14 Sample.document = .finished t' report ∧
      expand (Sample.context { silent := true, maxDepth := none }) 14 Sample.document = .finished t' report) ∧
    ∃ t' e, expand ⟨0, [("twice", .block Sample.twice)], { maxDepth := some 1 }⟩ 9 Sample.document = .failed t' e ∧
      e.category = "UndefinedMixin" ∧
      expand ⟨0, [("twice", .block Sample.twice)], { maxDepth := none }⟩ 9 Sample.document = .failed t' e := by
  have hfirst : Settings.Loosens { maxDepth := some 1 } { silent := true, maxDepth := none } :=
    ⟨fun _ => rfl, by simp, rfl⟩
  have hsecond : Settings.Loosens { maxDepth := some 1 } { maxDepth := none } := ⟨by simp, by simp, rfl⟩
  constructor
  · have hends : (match expand (Sample.context { maxDepth := some 1 }) 14 Sample.document with
        | .finished _ _ => true
        | _ => false) = true := by decide +kernel
    cases hrun : expand (Sample.context { maxDepth := some 1 }) 14 Sample.document with
    | finished t' report =>
      exact ⟨t', report, rfl, (expand_of_looser_guards hfirst 0 Sample.registry Sample.document 14).1 t' report hrun⟩
    | failed t' e => simp [hrun] at hends
    | unfinished s => simp [hrun] at hends
  · have hcategory : (match expand ⟨0, [("twice", .block Sample.twice)], { maxDepth := some 1 }⟩ 9 Sample.document with
        | .failed _ e => e.category
        | _ => "") = "UndefinedMixin" := by decide +kernel
    cases hrun : expand ⟨0, [("twice", .block Sample.twice)], { maxDepth := some 1 }⟩ 9 Sample.document with
    | failed t' e =>
      simp only [hrun] at hcategory
      exact ⟨t', e, rfl, hcategory, (expand_of_looser_guards hsecond 0 _ Sample.document 9).2 t' e hrun rfl
        (by simp [hcategory])⟩
    | finished t' report => simp [hrun] at hcategory
    | unfinished s => simp [hrun] at hcategory

end StyleMixins.Expansion
