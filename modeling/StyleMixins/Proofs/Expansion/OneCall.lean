import StyleMixins.Expansion.Run

namespace StyleMixins.Expansion

variable {ctx : Context} {t t' : Tree} {s s' : State} {report report' : Report} {inserted : Tree.Inserted}
  {call d : Nat} {rest : List (NodeId × Nat)} {e : Error}

def Report.withStep (report : Report) (traced : Bool) (step : Step) : Report :=
  { report with expanded := report.expanded + 1, trace := report.trace ++ if traced then [step] else [] }

/-- The depth is not beyond the limit, if there is one. -/
def Settings.Allows (settings : Settings) (depth : Nat) : Prop :=
  ∀ limit, settings.maxDepth = some limit → depth ≤ limit

theorem depthError?_eq_none_iff {settings : Settings} {name : String} {source : Option Source} :
    depthError? settings name d source = none ↔ settings.Allows d := by
  rw [depthError?, Settings.Allows]
  cases settings.maxDepth with
  | none => simp
  | some limit => simp

theorem depthError?_eq_some_iff {settings : Settings} {name : String} {source : Option Source} :
    depthError? settings name d source = some e ↔
      ∃ limit, settings.maxDepth = some limit ∧ limit < d ∧ .tooDeep name limit source = e := by
  rw [depthError?]
  cases settings.maxDepth with
  | none => simp
  | some limit => simp

/-- How a call is handled, with the store, the report and the nodes in its place that this leaves. -/
inductive Handles (ctx : Context) (t : Tree) (report : Report) (call : NodeId) (depth : Nat) :
    Tree → Report → Tree.Inserted → Prop
  | leave : t.params? call = none → Handles ctx t report call depth t report {}
  | skip {text head} : t.params? call = some text → Call.Invocation.read text = some head →
      ctx.registry.find? head.name = none → ctx.settings.silent = true →
      Handles ctx t report call depth (t.detach call) { report with skipped := report.skipped + 1 } {}
  | expand {text head definition t' inserted} : t.params? call = some text → Call.Invocation.read text = some head →
      ctx.registry.find? head.name = some definition → ctx.settings.Allows depth →
      t.replaceCall call head.name ((head.list.map Call.readArguments).getD []) definition = (t', .ok inserted) →
      Handles ctx t report call depth t'
        (report.withStep ctx.settings.trace ⟨head.name, definition.label, depth, snapshot t' ctx.root⟩) inserted

/-- Why a call cannot be expanded. Each reason comes after those before it. -/
inductive Refused (ctx : Context) (t : Tree) (call : NodeId) (depth : Nat) : Error → Prop
  | malformed {text} : t.params? call = some text → Call.Invocation.read text = none →
      Refused ctx t call depth (.malformedList ("@" ++ Keyword.call ++ " " ++ text) (t.source? call))
  | undefined {text head} : t.params? call = some text → Call.Invocation.read text = some head →
      ctx.registry.find? head.name = none → ctx.settings.silent = false →
      Refused ctx t call depth (.undefined head.name (t.source? call))
  | tooDeep {text head definition limit} : t.params? call = some text → Call.Invocation.read text = some head →
      ctx.registry.find? head.name = some definition → ctx.settings.maxDepth = some limit → limit < depth →
      Refused ctx t call depth (.tooDeep head.name limit (t.source? call))
  | callback {text head run e} : t.params? call = some text → Call.Invocation.read text = some head →
      ctx.registry.find? head.name = some (.callback run) → ctx.settings.Allows depth →
      run ⟨t, call, head.name, (head.list.map Call.readArguments).getD []⟩ = .error e → Refused ctx t call depth e

/-- Only a callback fails, and then the store is as it was. -/
theorem replaceCall_eq_error_iff {name : String} {arguments : List Call.Argument} {definition : Definition} :
    t.replaceCall call name arguments definition = (t', .error e) ↔
      t' = t ∧ ∃ run, definition = .callback run ∧ run ⟨t, call, name, arguments⟩ = .error e := by
  cases definition with
  | block m => simp [Tree.replaceCall, Prod.map]
  | record fields => simp [Tree.replaceCall, Prod.map]
  | callback run =>
    simp only [Tree.replaceCall, Definition.callback.injEq, exists_eq_left']
    split
    next e' hrun => rw [hrun, Prod.mk.injEq, Except.error.injEq, Except.error.injEq, eq_comm (a := t)]
    next hrun => simp [hrun]
    next fields hrun => simp [hrun, Prod.map]

theorem Handles.expandCall_eq (h : Handles ctx t report call d t' report' inserted) :
    expandCall ctx t report call d = (t', report', .ok inserted) := by
  rw [expandCall]
  cases h with
  | leave htext => simp only [htext]
  | skip htext hread hfind hsilent => simp only [htext, hread, hfind, hsilent, if_true]
  | expand htext hread hfind hallowed hreplace =>
    simp only [htext, hread, hfind, depthError?_eq_none_iff.mpr hallowed, hreplace]
    rfl

theorem Refused.expandCall_eq (h : Refused ctx t call d e) (report : Report) :
    expandCall ctx t report call d = (t, report, .error e) := by
  rw [expandCall]
  cases h with
  | malformed htext hread => simp only [htext, hread]
  | undefined htext hread hfind hsilent => simp only [htext, hread, hfind, hsilent, Bool.false_eq_true, if_false]
  | tooDeep htext hread hfind hmax hlt =>
    simp only [htext, hread, hfind, depthError?_eq_some_iff.mpr ⟨_, hmax, hlt, rfl⟩]
  | callback htext hread hfind hallowed hrun =>
    simp only [htext, hread, hfind, depthError?_eq_none_iff.mpr hallowed,
      replaceCall_eq_error_iff.mpr ⟨rfl, _, rfl, hrun⟩]

theorem handles_or_refused (ctx : Context) (t : Tree) (report : Report) (call d : Nat) :
    (∃ t' report' inserted, Handles ctx t report call d t' report' inserted) ∨ ∃ e, Refused ctx t call d e := by
  cases htext : t.params? call with
  | none => exact .inl ⟨_, _, _, .leave htext⟩
  | some text =>
    cases hread : Call.Invocation.read text with
    | none => exact .inr ⟨_, .malformed htext hread⟩
    | some head =>
      cases hfind : ctx.registry.find? head.name with
      | none =>
        cases hsilent : ctx.settings.silent with
        | true => exact .inl ⟨_, _, _, .skip htext hread hfind hsilent⟩
        | false => exact .inr ⟨_, .undefined htext hread hfind hsilent⟩
      | some definition =>
        cases hdepth : depthError? ctx.settings head.name d (t.source? call) with
        | some e =>
          obtain ⟨limit, hmax, hlt, -⟩ := depthError?_eq_some_iff.mp hdepth
          exact .inr ⟨_, .tooDeep htext hread hfind hmax hlt⟩
        | none =>
          have hallowed := depthError?_eq_none_iff.mp hdepth
          cases hreplace : t.replaceCall call head.name ((head.list.map Call.readArguments).getD []) definition with
          | mk t' result =>
            cases result with
            | error e =>
              obtain ⟨-, run, rfl, hrun⟩ := replaceCall_eq_error_iff.mp hreplace
              exact .inr ⟨_, .callback htext hread hfind hallowed hrun⟩
            | ok inserted => exact .inl ⟨_, _, _, .expand htext hread hfind hallowed hreplace⟩

theorem Refused.unique {e' : Error} (h : Refused ctx t call d e) (h' : Refused ctx t call d e') : e' = e := by
  have heq := (h'.expandCall_eq {}).symm.trans (h.expandCall_eq {})
  exact Except.error.inj (Prod.mk.inj (Prod.mk.inj heq).2).2

/-- A turn at a call that has left the document does nothing. -/
theorem next_of_not_attached (ha : s.tree.isAttached call ctx.root = false) :
    next ctx s call d rest = ({ s with pending := rest }, none) := by
  rw [next, if_neg (by simp [ha])]

theorem eq_of_next (ha : s.tree.isAttached call ctx.root = false) (hn : next ctx s call d rest = (s', none)) :
    s' = { s with pending := rest } :=
  (Prod.mk.inj ((next_of_not_attached ha).symm.trans hn)).1.symm

theorem Handles.next_eq (h : Handles ctx s.tree s.report call d t' report' inserted)
    (ha : s.tree.isAttached call ctx.root = true) :
    next ctx s call d rest = (⟨t', discovered t' d inserted ++ rest, report'⟩, none) := by
  rw [next, if_pos ha, h.expandCall_eq]

theorem Refused.next_eq (h : Refused ctx s.tree call d e) (ha : s.tree.isAttached call ctx.root = true) :
    next ctx s call d rest = ({ s with pending := rest }, some e) := by
  rw [next, if_pos ha, h.expandCall_eq]

/-- A turn at an attached call handles it, and puts the calls of what is in its place on the stack. -/
theorem handles_of_next (ha : s.tree.isAttached call ctx.root = true) (hn : next ctx s call d rest = (s', none)) :
    ∃ t' report' inserted, Handles ctx s.tree s.report call d t' report' inserted ∧
      s' = ⟨t', discovered t' d inserted ++ rest, report'⟩ := by
  rcases handles_or_refused ctx s.tree s.report call d with ⟨t', report', inserted, hhandles⟩ | ⟨e, hrefused⟩
  · exact ⟨t', report', inserted, hhandles, (Prod.mk.inj ((hhandles.next_eq ha).symm.trans hn)).1.symm⟩
  · cases (hrefused.next_eq ha).symm.trans hn

/-- A turn that fails does so at an attached call, which is refused, and leaves all but the stack as it was. -/
theorem refused_of_next (hn : next ctx s call d rest = (s', some e)) :
    s.tree.isAttached call ctx.root = true ∧ s' = { s with pending := rest } ∧ Refused ctx s.tree call d e := by
  cases ha : s.tree.isAttached call ctx.root with
  | false => cases (next_of_not_attached ha).symm.trans hn
  | true =>
    rcases handles_or_refused ctx s.tree s.report call d with ⟨t', report', inserted, hhandles⟩ | ⟨e', hrefused⟩
    · cases (hhandles.next_eq ha).symm.trans hn
    · cases (hrefused.next_eq ha).symm.trans hn
      exact ⟨rfl, rfl, hrefused⟩

end StyleMixins.Expansion
