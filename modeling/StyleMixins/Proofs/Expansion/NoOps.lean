import StyleMixins.Proofs.Expansion.Recording

namespace StyleMixins

theorem Entries.find?_append {α : Type} (front back : Entries α) (key : String) :
    find? (front ++ back) key = (front.find? key).or (back.find? key) := by
  induction front with
  | nil => rfl
  | cons entry front ih =>
    obtain ⟨k, v⟩ := entry
    by_cases h : k = key <;> simp [find?, h, ih]

def Definition.noOp : Definition :=
  .callback fun _ => .ok none

/-- The registry with those of the names that it lacks as no-ops. -/
def Registry.withNoOps (registry : Registry) (names : List String) : Registry :=
  registry ++ names.map (·, .noOp)

theorem Registry.find?_withNoOps (registry : Registry) {names : List String} {name : String} (h : name ∈ names) :
    (registry.withNoOps names).find? name = some ((registry.find? name).getD .noOp) := by
  have hnoOps : Entries.find? (names.map (·, Definition.noOp)) name = some .noOp := by
    induction names with
    | nil => simp at h
    | cons first names ih =>
      by_cases hfirst : first = name
      · simp [Entries.find?, hfirst]
      · have hmem : name ∈ names := (List.mem_cons.mp h).resolve_left (Ne.symm hfirst)
        simp [Entries.find?, hfirst, ih hmem]
  rw [withNoOps, Entries.find?_append, hnoOps]
  cases registry.find? name <;> rfl

namespace Expansion

variable {ctx ctx' : Context} {t t' : Tree} {s s' : State} {report report' : Report} {call d budget : Nat}
  {names : List String} {outcome outcome' : Outcome}

def Context.silenced (ctx : Context) : Context :=
  { ctx with settings := { ctx.settings with silent := true } }

/-- Those of the names that are unknown are no-ops, and calls of other unknown mixins are errors. -/
def Context.strictOver (ctx : Context) (names : List String) : Context :=
  ⟨ctx.root, ctx.registry.withNoOps names, { ctx.settings with silent := false }⟩

/-- What the strict run comes to when every unknown name is a no-op: what it comes to as soon as enough of them are. -/
def NoOpRun (ctx : Context) (budget : Nat) (t : Tree) (outcome : Outcome) : Prop :=
  ∃ enough : List String, ∀ names, enough ⊆ names → expand (ctx.strictOver names) budget t = outcome

/-- A call looks up one name. -/
theorem expandCall_congr (hroot : ctx'.root = ctx.root) (hsettings : ctx'.settings = ctx.settings)
    (hfind : ∀ text head, t.params? call = some text → Call.Invocation.read text = some head →
      ctx'.registry.find? head.name = ctx.registry.find? head.name) :
    expandCall ctx' t report call d = expandCall ctx t report call d := by
  rw [expandCall, expandCall, hsettings, hroot]
  cases htext : t.params? call with
  | none => rfl
  | some text =>
    cases hread : Call.Invocation.read text with
    | none => simp only [hread]
    | some head => simp only [hread, hfind text head htext hread]

/-- The name that a call looks up. -/
def calledName (t : Tree) (call : NodeId) : String :=
  (((t.params? call).bind Call.Invocation.read).map (·.name)).getD ""

theorem find?_withNoOps_of_read {text : String} {head : Call.Invocation} (hname : calledName t call ∈ names)
    (htext : t.params? call = some text) (hread : Call.Invocation.read text = some head) :
    (ctx.registry.withNoOps names).find? head.name = some ((ctx.registry.find? head.name).getD .noOp) := by
  have hcalled : calledName t call = head.name := by simp [calledName, htext, hread]
  exact ctx.registry.find?_withNoOps (hcalled ▸ hname)

theorem expandCall_strictOver (hname : calledName t call ∈ names) :
    expandCall (ctx.strictOver names) t report call d =
      expandCall (ctx.strictOver [calledName t call]) t report call d := by
  refine expandCall_congr rfl rfl fun text head htext hread => ?_
  exact (find?_withNoOps_of_read hname htext hread).trans (find?_withNoOps_of_read (by simp) htext hread).symm

/-- The calls that a silent run skips are among those that a strict run expands, to nothing. -/
structure Tally (ctx : Context) (strict silent : Report) : Prop where
  total : silent.expanded + silent.skipped = strict.expanded
  skipped : ctx.settings.trace = true →
    silent.skipped = strict.trace.countP fun step => (ctx.registry.find? step.mixin).isNone

theorem Tally.skip (h : Tally ctx report report') {step : Step} (hstep : ctx.registry.find? step.mixin = none) :
    Tally ctx (report.withStep ctx.settings.trace step) { report' with skipped := report'.skipped + 1 } where
  total := congrArg (· + 1) h.total
  skipped htrace := by simp [Report.withStep, htrace, hstep, h.skipped htrace]

theorem Tally.expand (h : Tally ctx report report') {step : Step} {definition : Definition} (step' : Step)
    (hstep : ctx.registry.find? step.mixin = some definition) :
    Tally ctx (report.withStep ctx.settings.trace step) (report'.withStep ctx.settings.trace step') where
  total := by
    have htotal := h.total
    simp only [Report.withStep]
    omega
  skipped htrace := by simp [Report.withStep, htrace, hstep, h.skipped htrace]

theorem sameCall_silenced (hname : calledName t call ∈ names) (htally : Tally ctx report report') :
    SameCall (ctx.strictOver names) ctx.silenced (Tally ctx) (fun _ => ctx.settings.maxDepth = none) t report report'
      call d := by
  have hfound : ∀ {text head definition}, t.params? call = some text → Call.Invocation.read text = some head →
      (ctx.registry.withNoOps names).find? head.name = some definition →
      (ctx.registry.find? head.name).getD .noOp = definition := by
    intro text head definition htext hread hfind
    exact Option.some.inj ((find?_withNoOps_of_read hname htext hread).symm.trans hfind)
  refine ⟨fun hcall => ?_, fun hlimit hcall => ?_⟩
  · cases hcall with
    | leave htext => exact ⟨_, .leave htext, htally⟩
    | skip _ _ _ hsilent => exact absurd hsilent Bool.false_ne_true
    | @expand text head definition t' inserted htext hread hfind hallowed hreplace =>
      have hdefinition := hfound htext hread hfind
      cases hknown : ctx.registry.find? head.name with
      | none =>
        -- A no-op leaves nothing but the place of the call, as if it had been dropped.
        rw [hknown, Option.getD_none] at hdefinition
        subst hdefinition
        cases hreplace
        exact ⟨_, .skip htext hread hknown rfl, htally.skip hknown⟩
      | some known =>
        rw [hknown, Option.getD_some] at hdefinition
        subst hdefinition
        exact ⟨_, .expand htext hread hknown hallowed hreplace, htally.expand _ hknown⟩
  · cases hcall with
    | malformed htext hread => exact .malformed htext hread
    | undefined htext hread hfind =>
      exact absurd ((find?_withNoOps_of_read hname htext hread).symm.trans hfind) (by simp)
    | tooDeep _ _ _ hmax => exact absurd (hlimit.symm.trans hmax) (by simp)
    | @callback text head run e htext hread hfind hallowed hrun =>
      have hdefinition := hfound htext hread hfind
      cases hknown : ctx.registry.find? head.name with
      | none =>
        rw [hknown, Option.getD_none] at hdefinition
        cases Definition.callback.inj hdefinition
        simp at hrun
      | some known =>
        rw [hknown, Option.getD_some] at hdefinition
        subst hdefinition
        exact .callback htext hread hknown hallowed hrun

/-- A run of some length looks up finitely many names, those of the calls on top of its stacks. When they are no-ops
it goes the way of the silent run. -/
theorem exists_run_strictOver (hs : Alike (Tally ctx) s s') (budget : Nat) :
    ∃ outcome enough, (∀ names, enough ⊆ names → run (ctx.strictOver names) budget s = outcome) ∧
      outcome.Follows (Tally ctx) (fun _ => ctx.settings.maxDepth = none) (run ctx.silenced budget s') := by
  induction budget generalizing s s' with
  | zero => exact ⟨_, [], fun names _ => run_stopped _ ctx (Or.inr rfl), hs.run_stopped (Or.inr rfl)⟩
  | succ budget ih =>
    cases hp : s.pending with
    | nil => exact ⟨_, [], fun names _ => run_stopped _ ctx (Or.inl hp), hs.run_stopped (Or.inl hp)⟩
    | cons entry rest =>
      obtain ⟨call, d⟩ := entry
      have hp' := hs.pending.trans hp
      generalize hname : calledName s.tree call = name
      have hnext : ∀ names, name ∈ names →
          next (ctx.strictOver names) s call d rest = next (ctx.strictOver [name]) s call d rest := by
        intro names hmem
        subst hname
        rw [next, next, expandCall_strictOver hmem]
        rfl
      have hturn : SameTurn (Tally ctx) (fun _ => ctx.settings.maxDepth = none)
          (next (ctx.strictOver [name]) s call d rest) (next ctx.silenced s' call d rest) :=
        hs.next rfl (sameCall_silenced (by simp [hname]) hs.report)
      cases hn : next (ctx.strictOver [name]) s call d rest with
      | mk s₁ error =>
        rw [hn] at hturn
        cases error with
        | some e =>
          refine ⟨.failed s₁.tree e, [name], fun names hsub => ?_, fun hlimit => ?_⟩
          · exact run_error budget hp ((hnext names (hsub (by simp))).trans hn)
          · obtain ⟨s₁', hn', htree⟩ := hturn hlimit
            rw [run_error budget hp' hn', htree]
        | none =>
          obtain ⟨s₁', hn', hs₁⟩ := hturn
          obtain ⟨outcome, enough, hrun, hfollows⟩ := ih hs₁
          refine ⟨outcome, name :: enough, fun names hsub => ?_, ?_⟩
          · rw [run_cons budget hp ((hnext names (hsub (by simp))).trans hn)]
            exact hrun names fun x hx => hsub (List.mem_cons_of_mem name hx)
          · rw [run_cons budget hp' hn']
            exact hfollows

theorem exists_noOpRun (ctx : Context) (budget : Nat) (t : Tree) : ∃ outcome, NoOpRun ctx budget t outcome ∧
    outcome.Follows (Tally ctx) (fun _ => ctx.settings.maxDepth = none) (expand ctx.silenced budget t) := by
  have hs : Alike (Tally ctx) (start ctx t) (start ctx.silenced t) := ⟨rfl, rfl, rfl, fun _ => rfl⟩
  obtain ⟨outcome, enough, hrun, hfollows⟩ := exists_run_strictOver hs budget
  exact ⟨outcome, ⟨enough, hrun⟩, hfollows⟩

/-- For two such runs there are names that are enough for both. -/
theorem NoOpRun.exists_names (h : NoOpRun ctx budget t outcome) (h' : NoOpRun ctx' budget t outcome') :
    ∃ names, expand (ctx.strictOver names) budget t = outcome ∧
      expand (ctx'.strictOver names) budget t = outcome' := by
  obtain ⟨enough, hrun⟩ := h
  obtain ⟨enough', hrun'⟩ := h'
  exact ⟨enough ++ enough', hrun _ (List.subset_append_left ..), hrun' _ (List.subset_append_right ..)⟩

theorem NoOpRun.follows (h : NoOpRun ctx budget t outcome) :
    outcome.Follows (Tally ctx) (fun _ => ctx.settings.maxDepth = none) (expand ctx.silenced budget t) := by
  obtain ⟨outcome', h', hfollows⟩ := exists_noOpRun ctx budget t
  obtain ⟨names, rfl, rfl⟩ := h.exists_names h'
  exact hfollows

theorem NoOpRun.recording (h : NoOpRun ctx budget t (.finished t' report)) :
    ∃ traced, NoOpRun (ctx.recording true) budget t (.finished t' traced) ∧ SameCounts report traced := by
  obtain ⟨outcome, htraced, -⟩ := exists_noOpRun (ctx.recording true) budget t
  obtain ⟨names, hrun, hrun'⟩ := h.exists_names htraced
  obtain ⟨traced, hfinished, hcounts⟩ := finished_recording hrun true
  obtain rfl : outcome = .finished t' traced := hrun'.symm.trans hfinished
  exact ⟨traced, htraced, hcounts⟩

/-- The strict run in which every unknown name is a no-op and the silent run come to the same. When the first finishes,
the second does, with the same store; the calls that it skips are those that come to nothing in the first, as its
recorded steps show, and all others are expanded in both. Without a depth limit each fails if the other does, with the
same store and the same error. -/
theorem silent_run_is_noOp_run (ctx : Context) (budget : Nat) (t : Tree) :
    (∃ outcome, NoOpRun ctx budget t outcome) ∧
    (∀ t' strict, NoOpRun ctx budget t (.finished t' strict) →
      ∃ silent traced, expand ctx.silenced budget t = .finished t' silent ∧
        silent.expanded + silent.skipped = strict.expanded ∧
        NoOpRun (ctx.recording true) budget t (.finished t' traced) ∧ SameCounts strict traced ∧
        silent.skipped = traced.trace.countP fun step => (ctx.registry.find? step.mixin).isNone) ∧
    (ctx.settings.maxDepth = none → ∀ t' e,
      expand ctx.silenced budget t = .failed t' e ↔ NoOpRun ctx budget t (.failed t' e)) := by
  obtain ⟨outcome, hnoOps, hfollows⟩ := exists_noOpRun ctx budget t
  refine ⟨⟨outcome, hnoOps⟩, fun t' strict h => ?_, fun hlimit t' e => ⟨fun hfailed => ?_, fun h => h.follows hlimit⟩⟩
  · obtain ⟨silent, hsilent, htally⟩ := h.follows
    obtain ⟨traced, htraced, hcounts⟩ := h.recording
    obtain ⟨silent', hsilent', htally'⟩ := htraced.follows
    obtain ⟨recorded, hrecorded, -, hskipped⟩ := finished_recording hsilent true
    cases hsilent'.symm.trans hrecorded
    exact ⟨silent, traced, hsilent, htally.total, htraced, hcounts, hskipped.symm.trans (htally'.skipped rfl)⟩
  · -- The other outcomes of the strict run would be matched by other outcomes of the silent run.
    rw [hfailed] at hfollows
    cases outcome with
    | finished t₁ strict =>
      obtain ⟨silent, hfinished, -⟩ := hfollows
      cases hfinished
    | failed t₁ e₁ =>
      cases hfollows hlimit
      exact hnoOps
    | unfinished s =>
      obtain ⟨s', hunfinished, -⟩ := hfollows
      cases hunfinished

namespace Sample

/-- One of the two mixins that the document calls is unknown. -/
def unknownPlain : Context :=
  ⟨0, [("twice", .block twice)], { maxDepth := none }⟩

end Sample

theorem silent_run_is_noOp_run_twice :
    ∃ t' strict silent traced, NoOpRun Sample.unknownPlain 14 Sample.document (.finished t' strict) ∧
      expand Sample.unknownPlain.silenced 14 Sample.document = .finished t' silent ∧ silent.expanded = 3 ∧
      silent.skipped = 7 ∧ strict.expanded = 10 ∧
      NoOpRun (Sample.unknownPlain.recording true) 14 Sample.document (.finished t' traced) ∧
      traced.trace.countP (fun step => (Sample.unknownPlain.registry.find? step.mixin).isNone) = 7 := by
  have hcounts : (match expand Sample.unknownPlain.silenced 14 Sample.document with
      | .finished _ silent => (silent.expanded, silent.skipped)
      | _ => (0, 0)) = (3, 7) := by decide +kernel
  obtain ⟨outcome, h, hfollows⟩ := exists_noOpRun Sample.unknownPlain 14 Sample.document
  cases outcome with
  | finished t' strict =>
    obtain ⟨silent, traced, hsilent, htotal, htraced, -, hskipped⟩ :=
      (silent_run_is_noOp_run Sample.unknownPlain 14 Sample.document).2.1 t' strict h
    rw [hsilent] at hcounts
    obtain ⟨h3, h7⟩ := Prod.mk.inj hcounts
    refine ⟨t', strict, silent, traced, h, hsilent, h3, h7, ?_, htraced, hskipped.symm.trans h7⟩
    rw [← htotal, h3, h7]
  | failed t' e => simp [hfollows rfl] at hcounts
  | unfinished s =>
    obtain ⟨s', hunfinished, -⟩ := hfollows
    simp [hunfinished] at hcounts

end Expansion

end StyleMixins
