import StyleMixins.Proofs.Expansion.LockStep

namespace StyleMixins.Expansion

variable {ctx : Context} {t t' : Tree} {s : State} {report report' : Report} {log : List Visit} {budget : Nat}

def Context.recording (ctx : Context) (trace : Bool) : Context :=
  { ctx with settings := { ctx.settings with trace := trace } }

/-- Reports that differ in their traces at most. -/
def SameCounts (report report' : Report) : Prop :=
  report'.expanded = report.expanded ∧ report'.skipped = report.skipped

theorem Context.lockStep_recording (ctx : Context) (trace : Bool) :
    LockStep ctx (ctx.recording trace) SameCounts fun _ => True where
  root := rfl
  call t report report' call d hcounts := by
    refine ⟨fun hcall => ?_, fun _ hcall => ?_⟩
    · cases hcall with
      | leave htext => exact ⟨_, .leave htext, hcounts⟩
      | skip htext hread hfind hsilent =>
        exact ⟨_, .skip htext hread hfind hsilent, hcounts.1, congrArg (· + 1) hcounts.2⟩
      | expand htext hread hfind hallowed hreplace =>
        exact ⟨_, .expand htext hread hfind hallowed hreplace, congrArg (· + 1) hcounts.1, hcounts.2⟩
    · cases hcall with
      | malformed htext hread => exact .malformed htext hread
      | undefined htext hread hfind hstrict => exact .undefined htext hread hfind hstrict
      | tooDeep htext hread hfind hmax hlt => exact .tooDeep htext hread hfind hmax hlt
      | callback htext hread hfind hallowed hrun => exact .callback htext hread hfind hallowed hrun

/-- A run that finishes also does so when its steps are recorded, or no longer recorded. -/
theorem finished_recording (h : expand ctx budget t = .finished t' report) (trace : Bool) :
    ∃ report', expand (ctx.recording trace) budget t = .finished t' report' ∧ SameCounts report report' := by
  have hfollows := (ctx.lockStep_recording trace).expand ⟨rfl, rfl⟩ t budget
  rwa [h] at hfollows

/-- The document after the last step of a report; `initial` is the document before the first. -/
def Report.lastSnapshot (report : Report) (initial : String) : String :=
  (report.trace.getLast?.map Step.snapshot).getD initial

/-- The trace has a step for each call that was expanded, and shows how the document stands. -/
structure Recorded (ctx : Context) (initial : String) (s : State) : Prop where
  length_eq : s.report.trace.length = s.report.expanded
  last : s.report.skipped = 0 → s.report.lastSnapshot initial = snapshot s.tree ctx.root

theorem Reaches.recorded (htrace : ctx.settings.trace = true) (h : Reaches ctx (Expansion.start ctx t) log s) :
    Recorded ctx (snapshot t ctx.root) s := by
  induction h with
  | start => exact ⟨rfl, fun _ => rfl⟩
  | pass _ _ ha hn ih =>
    obtain rfl := eq_of_next ha hn
    exact ⟨ih.length_eq, ih.last⟩
  | @visit log s s' call d rest _ _ ha hn ih =>
    obtain ⟨t', report', inserted, hcall, rfl⟩ := handles_of_next ha hn
    cases hcall with
    | leave => exact ⟨ih.length_eq, ih.last⟩
    | skip => exact ⟨ih.length_eq, fun hskipped => absurd hskipped (Nat.succ_ne_zero _)⟩
    | expand =>
      refine ⟨?_, fun _ => ?_⟩
      · simp [Report.withStep, htrace, ih.length_eq]
      · simp [Report.lastSnapshot, Report.withStep, htrace]

theorem recorded_of_finished (htrace : ctx.settings.trace = true) (h : expand ctx budget t = .finished t' report) :
    report.trace.length = report.expanded ∧
      (report.skipped = 0 → report.lastSnapshot (snapshot t ctx.root) = snapshot t' ctx.root) := by
  obtain ⟨log, s, hreach, hend⟩ := (Reaches.start : Reaches ctx (start ctx t) [] _).exists_end budget
  rw [← expand, h] at hend
  obtain ⟨-, rfl, rfl⟩ := hend
  have hrecorded := hreach.recorded htrace
  exact ⟨hrecorded.length_eq, hrecorded.last⟩

end StyleMixins.Expansion
