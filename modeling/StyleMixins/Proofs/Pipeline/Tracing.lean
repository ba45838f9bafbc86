import StyleMixins.CommandLine.Response
import StyleMixins.Proofs.Expansion.Recording
import StyleMixins.Proofs.Expansion.Upkeep
import StyleMixins.Proofs.Pipeline.ErrorPlaces
import StyleMixins.Proofs.Sheet.NormalForm
import StyleMixins.Proofs.Tree.Copies

namespace StyleMixins

namespace Pipeline

variable {p : Pipeline} {host : Host} {t t' : Tree} {file : SourceText} {report : Expansion.Report} {out : Output}

theorem process_eq_ok (h : p.process host t = .ok (t', report)) :
    ∃ registry t₁, (p.prepare host t).outcome = .ok registry ∧
      Expansion.expand (p.context registry) p.budget (p.prepare host t).tree = .finished t₁ report ∧
      t' = t₁.compact := by
  rw [process] at h
  cases hprepared : (p.prepare host t).outcome with
  | error e => simp [hprepared] at h
  | ok registry =>
    simp only [hprepared] at h
    cases hrun : Expansion.expand (p.context registry) p.budget (p.prepare host t).tree with
    | finished t₁ report₁ =>
      simp only [hrun, Except.ok.injEq, Prod.mk.injEq] at h
      obtain ⟨rfl, rfl⟩ := h
      exact ⟨registry, t₁, rfl, hrun, rfl⟩
    | failed t₁ e => simp [hrun] at h
    | unfinished s => simp [hrun] at h

theorem processText_eq_ok (h : p.processText host file = .ok out) :
    ∃ t t', Sheet.parseTree file = .ok t ∧ p.process host t = .ok (t', out.report) ∧
      out.css = Expansion.snapshot t' Tree.root := by
  rw [processText] at h
  cases hparse : Sheet.parseTree file with
  | error e => simp [hparse] at h
  | ok t =>
    cases hprocess : p.process host t with
    | error failure => simp [hparse, hprocess] at h
    | ok result =>
      simp only [hparse, hprocess, Except.ok.injEq] at h
      subst h
      exact ⟨t, result.1, rfl, hprocess, rfl⟩

/-- The store whose calls are expanded holds a style sheet. -/
theorem prepare_parseTree {registry : Registry} (hparse : Sheet.parseTree file = .ok t)
    (h : (p.prepare host t).outcome = .ok registry) :
    (p.prepare host t).tree.WellFormed ∧ (p.prepare host t).tree.kind? Tree.root = some .root := by
  obtain ⟨sheet, hsheet, rfl⟩ := Sheet.parseTree_eq_ok_iff.mp hparse
  rw [tree_prepare h]
  refine ⟨(Tree.wellFormed_ofElement sheet).harvest _ _, ?_⟩
  rw [Tree.tree_harvest, Tree.kind?_foldl_detach, Tree.kind?_ofElement, (Sheet.shaped_of_parse hsheet).1]

/-- A run changes no kinds, so that what it leaves of a style sheet is still printed as one. -/
theorem snapshot_compact_of_finished {ctx : Expansion.Context} {budget : Nat} (ht : t.WellFormed)
    (hkind : t.kind? Tree.root = some .root) (h : Expansion.expand ctx budget t = .finished t' report) :
    Expansion.snapshot t'.compact Tree.root = Expansion.snapshot t' Tree.root := by
  have hgrows := Expansion.grows_expand ht ctx budget
  have hwf := Expansion.wellFormed_expand ht ctx budget
  rw [h, Expansion.Outcome.tree] at hgrows hwf
  exact Tree.snapshot_compact hwf ((hgrows.kind? Tree.root (Tree.lt_size_of_kind? hkind)).trans hkind)

end Pipeline

namespace CommandLine

open Expansion (snapshot)

theorem Surroundings.trace_of_finished {s : Surroundings} {i : Input} {file : SourceText} {p : Pipeline} {t t' : Tree}
    {registry : Registry} {report : Expansion.Report} (hread : s.read i true = .ok (file, p))
    (hdefinitions : s.definitions file p = .ok (t, registry))
    (hrun : Expansion.expand (p.context registry) s.budget t = .finished t' report) :
    s.trace i = .ok { printed := traceText s.colored (snapshot t Tree.root) report.trace } := by
  rw [Surroundings.trace, hread]
  simp only [bind, Except.bind, hdefinitions, hrun]
  rfl

/-- Where a text is processed, its steps can be traced. The traced run expands and skips as many calls, and has a step
for each call that it expands. When no call is skipped, the last step shows what is printed for the processed text, as
does the style sheet before all steps if there is none. -/
theorem trace_agrees_with_expand {s : Surroundings} {o : Options} {file : SourceText} {out : Pipeline.Output}
    (h : Pipeline.processText ⟨o, false, s.budget⟩ s.host file = .ok out) :
    ∃ t registry t' report, s.definitions file ⟨o, true, s.budget⟩ = .ok (t, registry) ∧
      Expansion.expand (Pipeline.context ⟨o, true, s.budget⟩ registry) s.budget t = .finished t' report ∧
      report.expanded = out.report.expanded ∧ report.skipped = out.report.skipped ∧
      report.trace.length = report.expanded ∧
      (report.skipped = 0 → report.lastSnapshot (snapshot t Tree.root) = out.css) ∧
      ∀ i, s.read i true = .ok (file, ⟨o, true, s.budget⟩) →
        s.trace i = .ok { printed := traceText s.colored (snapshot t Tree.root) report.trace } := by
  obtain ⟨t, compacted, hparse, hprocess, hcss⟩ := Pipeline.processText_eq_ok h
  obtain ⟨registry, t', hprepared, hrun, rfl⟩ := Pipeline.process_eq_ok hprocess
  obtain ⟨hwf, hkind⟩ := Pipeline.prepare_parseTree hparse hprepared
  -- What is expanded does not depend on the recording, nor does what is prepared.
  obtain ⟨report, htraced, hexpanded, hskipped⟩ := Expansion.finished_recording hrun true
  obtain ⟨hlength, hlast⟩ := Expansion.recorded_of_finished rfl htraced
  have hdefinitions : s.definitions file ⟨o, true, s.budget⟩ =
      .ok ((Pipeline.prepare ⟨o, false, s.budget⟩ s.host t).tree, registry) := by
    rw [Surroundings.definitions, hparse]
    have hprepared' : (Pipeline.prepare ⟨o, true, s.budget⟩ s.host t).outcome = .ok registry := hprepared
    simp only [bind, Except.bind, hprepared']
    rfl
  refine ⟨_, registry, t', report, hdefinitions, htraced, hexpanded, hskipped, hlength, fun hnone => ?_,
    fun i hread => Surroundings.trace_of_finished hread hdefinitions htraced⟩
  rw [hcss, Pipeline.snapshot_compact_of_finished hwf hkind hrun]
  exact hlast hnone

namespace Sample

def text : SourceText :=
  ⟨"a.css", "@mixin a{b:c}@mixin d{@include a}@include d;"⟩

def surroundings : Surroundings :=
  ⟨{ read := fun _ => .ok text.content }, fun _ => false, false, 9⟩

def input : Input :=
  ⟨text.name, none, [], [], false, none, false⟩

theorem read_input (trace : Bool) : surroundings.read input trace = .ok (text, ⟨{}, trace, 9⟩) := rfl

theorem processText_text : ∃ out, Pipeline.processText ⟨{}, false, 9⟩ surroundings.host text = .ok out ∧
    out.css = "b: c;\n" ∧ out.report.expanded = 2 ∧ out.report.skipped = 0 := by
  have hresult : (match Pipeline.processText ⟨{}, false, 9⟩ surroundings.host text with
      | .ok out => some (out.css, out.report.expanded, out.report.skipped)
      | .error _ => none) = some ("b: c;\n", 2, 0) := by decide +kernel
  cases hrun : Pipeline.processText ⟨{}, false, 9⟩ surroundings.host text with
  | error failure => simp [hrun] at hresult
  | ok out => exact ⟨out, rfl, by simpa [hrun] using hresult⟩

end Sample

/-- The mixin that is called calls another one: there are two steps, and the second shows what is printed. -/
theorem trace_agrees_with_expand_nested :
    ∃ t registry t' report, Sample.surroundings.definitions Sample.text ⟨{}, true, 9⟩ = .ok (t, registry) ∧
      Expansion.expand (Pipeline.context ⟨{}, true, 9⟩ registry) 9 t = .finished t' report ∧
      report.trace.length = 2 ∧ report.lastSnapshot (snapshot t Tree.root) = "b: c;\n" ∧
      Sample.surroundings.trace Sample.input =
        .ok { printed := traceText false (snapshot t Tree.root) report.trace } := by
  obtain ⟨out, hout, hcss, hexpanded, hskipped⟩ := Sample.processText_text
  obtain ⟨t, registry, t', report, hdefinitions, htraced, hsame, hnone, hlength, hlast, htrace⟩ :=
    trace_agrees_with_expand (s := Sample.surroundings) hout
  refine ⟨t, registry, t', report, hdefinitions, htraced, ?_, ?_, htrace _ (Sample.read_input true)⟩
  · rw [hlength, hsame, hexpanded]
  · rw [hlast (hnone.trans hskipped), hcss]

end CommandLine

end StyleMixins
