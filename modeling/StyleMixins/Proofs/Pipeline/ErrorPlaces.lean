import StyleMixins.Pipeline
import StyleMixins.Proofs.Expansion.Failures
import StyleMixins.Proofs.Expansion.Provenance
import StyleMixins.Proofs.Loading
import StyleMixins.Proofs.Mixin.Harvest
import StyleMixins.Proofs.Sheet.Places
import StyleMixins.Proofs.Tree.Planting

namespace StyleMixins

open Element

variable {p : Pipeline} {host : Host} {t : Tree} {e : Error} {file : SourceText} {name : String}
  {source : Option Source}

/-- The error shows the text, and its label is on a stretch of it that begins with an at-rule of the name. -/
def Error.PointsAt (e : Error) (file : SourceText) (name : String) : Prop :=
  e.file = some file ∧ ∃ before tail after : String, file.content = before ++ ("@" ++ name ++ tail) ++ after ∧
    e.label = some ⟨before.utf8ByteSize, ("@" ++ name ++ tail).utf8ByteSize, e.remark⟩

theorem SourceText.HasAtRule.pointsAt (h : file.HasAtRule name source)
    (hfile : e.file = some ((source.map Source.file).getD (.fallback "no source available")))
    (hspan : e.span = some ((source.map Source.span).getD ⟨0, 0⟩)) : e.PointsAt file name := by
  obtain ⟨before, tail, after, htext, s, rfl, hs, hstretch⟩ := h
  rw [Option.map_some, Option.getD_some] at hfile hspan
  refine ⟨hfile.trans (congrArg some hs), before, tail, after, htext, ?_⟩
  rw [Error.label, hspan, hstretch, Option.map_some, Nat.add_sub_cancel_left]

/-- Given with options: a record, or a callback whose errors are its own. -/
def Definition.FailsAsCallback : Definition → Prop
  | .block _ => False
  | .record _ => True
  | .callback run => ∀ site e, run site = .error e → e.category = "Callback"

namespace Pipeline

/-- Loading fails, or the definitions are taken out on top of what was loaded. -/
theorem prepare_cases (p : Pipeline) (host : Host) (t : Tree) :
    (∃ e, p.prepare host t = ⟨t, .error e⟩ ∧ Loading.Unloadable e) ∨
      ∃ harvested, harvested = t.harvest Tree.root (Loading.load host p.options []).registry ∧
        p.prepare host t = ⟨harvested.tree, harvested.outcome.map fun _ => harvested.registry⟩ := by
  rw [prepare]
  cases hload : (Loading.load host p.options []).outcome with
  | error e => exact Or.inl ⟨e, rfl, Loading.unloadable_of_load hload⟩
  | ok n => exact Or.inr ⟨_, rfl, rfl⟩

theorem prepare_eq_error (ht : t.WellFormed) (h : (p.prepare host t).outcome = .error e) :
    Loading.Unloadable e ∨ ∃ b ∈ atRulesAll Keyword.definition (t.forest Tree.root), e = b.refusal := by
  rcases prepare_cases p host t with ⟨e', he, hload⟩ | ⟨harvested, rfl, he⟩
  · rw [he] at h
    exact Or.inl (Except.error.inj h ▸ hload)
  · rw [he] at h
    refine Or.inr ?_
    rcases readable_or_refused (atRulesAll Keyword.definition (t.forest Tree.root)) with
      hall | ⟨before, b, after, hsplit, hbefore, hb⟩
    · simp [(ht.harvest_of_readable Tree.root _ hall).1, Except.map] at h
    · simp only [(ht.harvest_of_refused Tree.root _ hsplit hbefore hb).1, Except.map, Except.error.injEq] at h
      exact ⟨b, by simp [hsplit], h.symm⟩

theorem tree_prepare {registry : Registry} (h : (p.prepare host t).outcome = .ok registry) :
    (p.prepare host t).tree = (t.harvest Tree.root (Loading.load host p.options []).registry).tree := by
  rcases prepare_cases p host t with ⟨e, he, -⟩ | ⟨harvested, rfl, he⟩
  · simp [he] at h
  · rw [he]

/-- Where the mixins that a run works with come from. -/
theorem find?_prepare {registry : Registry} (ht : t.WellFormed) (h : (p.prepare host t).outcome = .ok registry)
    {d : Definition} (hd : registry.find? name = some d) :
    (∃ b ∈ atRulesAll Keyword.definition (t.forest Tree.root), b.definition? = some (name, d)) ∨
      (∃ fields, d = .record fields) ∨ (name, d) ∈ p.options.mixins := by
  rcases prepare_cases p host t with ⟨e, he, -⟩ | ⟨harvested, rfl, he⟩
  · simp [he] at h
  · rw [he] at h
    rcases readable_or_refused (atRulesAll Keyword.definition (t.forest Tree.root)) with
      hall | ⟨before, b, after, hsplit, hbefore, hb⟩
    · obtain ⟨hok, hfind⟩ := ht.harvest_of_readable Tree.root (Loading.load host p.options []).registry hall
      simp only [hok, Except.map, Except.ok.injEq] at h
      subst h
      rw [hfind] at hd
      rcases Option.or_eq_some_iff.mp hd with hlast | ⟨-, hloaded⟩
      · obtain ⟨b, hb, hdefinition⟩ := List.mem_filterMap.mp (Entries.mem_of_getLast?_filter hlast)
        exact Or.inl ⟨b, hb, hdefinition⟩
      · exact Or.inr (Loading.find?_load hloaded)
    · simp [(ht.harvest_of_refused Tree.root _ hsplit hbefore hb).1, Except.map] at h

/-- All calls in bodies stand in the text, since all bodies do. -/
theorem bodiesFrom_prepare {registry : Registry} (ht : t.WellFormed) (h : (p.prepare host t).outcome = .ok registry)
    (hmixins : ∀ entry ∈ p.options.mixins, entry.2.FailsAsCallback) {P : Option Source → Prop}
    (hP : ∀ x ∈ atRulesAll Keyword.call (t.forest Tree.root), P x.source) : Expansion.BodiesFrom P registry := by
  intro name m hfind
  rcases find?_prepare ht h hfind with ⟨b, hb, hdefinition⟩ | ⟨fields, hrecord⟩ | hmem
  · obtain ⟨head, -, hpair⟩ := Option.map_eq_some_iff.mp hdefinition
    have hbody : m.body.children = without Keyword.definition b.children := by
      cases (Prod.mk.inj hpair).2
      rfl
    rw [hbody]
    exact source_without fun x hx => hP x (atRulesAll_children_subset (List.mem_of_mem_filter hb) _ hx)
  · simp at hrecord
  · exact (hmixins _ hmem).elim

theorem callback_of_prepare {registry : Registry} (ht : t.WellFormed) (h : (p.prepare host t).outcome = .ok registry)
    (hmixins : ∀ entry ∈ p.options.mixins, entry.2.FailsAsCallback) {run : Callback}
    (hfind : registry.find? name = some (.callback run)) {site : CallSite} (he : run site = .error e) :
    e.category = "Callback" := by
  rcases find?_prepare ht h hfind with ⟨b, hb, hdefinition⟩ | ⟨fields, hrecord⟩ | hmem
  · obtain ⟨head, -, hpair⟩ := Option.map_eq_some_iff.mp hdefinition
    simp at hpair
  · simp at hrecord
  · exact hmixins _ hmem site e he

/-- A call that fails has the source of a call in the text. -/
theorem pointsAt_of_failed {registry : Registry} (ht : t.WellFormed) (h : (p.prepare host t).outcome = .ok registry)
    (hmixins : ∀ entry ∈ p.options.mixins, entry.2.FailsAsCallback)
    (hcalls : ∀ x ∈ atRulesAll Keyword.call (t.forest Tree.root), file.HasAtRule Keyword.call x.source)
    {t' : Tree} (hfail : Expansion.expand (p.context registry) p.budget (p.prepare host t).tree = .failed t' e) :
    e.category = "Callback" ∨ e.PointsAt file Keyword.call := by
  have htree := tree_prepare h
  have hwf : (p.prepare host t).tree.WellFormed := htree ▸ ht.harvest _ _
  obtain ⟨log, s, s', call, depth, rest, hreach, hp, hn, -⟩ := Expansion.exists_reaches_of_failed hfail
  have halt := hreach.haltsAt hwf hp hn
  obtain ⟨events, g, site, hsteps, -, -, hfirst, -, -, hsource, -⟩ := halt.document
  have hstart : ∀ s ∈ (Forest.ofElements 0 ((p.prepare host t).tree.forest (p.context registry).root)).callSources,
      file.HasAtRule Keyword.call s := by
    intro s hs
    rw [Forest.callSources_ofElements, htree, show (p.context registry).root = Tree.root from rfl,
      ht.forest_harvest] at hs
    obtain ⟨x, hx, rfl⟩ := List.mem_map.mp hs
    exact source_without hcalls x hx
  have hcall := hsteps.callSources (bodiesFrom_prepare ht h hmixins hcalls) hstart site.source
    (Forest.callSources_of_firstCall? hfirst).1
  rw [hsource] at hcall
  cases (halt.refused e).mpr rfl with
  | malformed => exact Or.inr (hcall.pointsAt rfl rfl)
  | undefined => exact Or.inr (hcall.pointsAt rfl rfl)
  | tooDeep => exact Or.inr (hcall.pointsAt rfl rfl)
  | callback _ _ hfind _ hrun => exact Or.inl (callback_of_prepare ht h hmixins hfind hrun)

theorem category_of_parseTree (h : Sheet.parseTree file = .error e) : e.category = "Parse" := by
  rw [Sheet.parseTree, Sheet.parse] at h
  split at h
  next => simp [Except.map] at h
  next =>
    split at h
    next => simp [Except.map] at h
    next =>
      cases Except.error.inj h
      rfl

/-- An error of a run comes from the preparation or from the expansion. -/
theorem process_eq_error (h : p.process host t = .error (.error e)) :
    (p.prepare host t).outcome = .error e ∨ ∃ registry t', (p.prepare host t).outcome = .ok registry ∧
      Expansion.expand (p.context registry) p.budget (p.prepare host t).tree = .failed t' e := by
  rw [process] at h
  cases hprepared : (p.prepare host t).outcome with
  | error e' =>
    simp only [hprepared, Except.error.injEq, Failure.error.injEq] at h
    exact Or.inl (by rw [h])
  | ok registry =>
    simp only [hprepared] at h
    cases hrun : Expansion.expand (p.context registry) p.budget (p.prepare host t).tree with
    | finished t' report => simp [hrun] at h
    | failed t' e' =>
      simp only [hrun, Except.error.injEq, Failure.error.injEq] at h
      exact Or.inr ⟨registry, t', rfl, by rw [← h, ← hrun]⟩
    | unfinished s => simp [hrun] at h

theorem processText_eq_error (h : p.processText host file = .error (.error e)) :
    Sheet.parseTree file = .error e ∨
      ∃ t, Sheet.parseTree file = .ok t ∧ p.process host t = .error (.error e) := by
  rw [processText] at h
  cases hparse : Sheet.parseTree file with
  | error e' =>
    simp only [hparse, Except.error.injEq, Failure.error.injEq] at h
    exact Or.inl (by rw [h])
  | ok t =>
    refine Or.inr ⟨t, rfl, ?_⟩
    cases hrun : p.process host t with
    | error failure => simpa [hparse, hrun] using h
    | ok result => simp [hparse, hrun] at h

/-- Whatever options there are, an error about a block or a call points into the text that was processed: at a
block when the definitions are taken out, and at a call when calls are expanded. -/
theorem processText_error_points_into_text (hmixins : ∀ entry ∈ p.options.mixins, entry.2.FailsAsCallback)
    (h : p.processText host file = .error (.error e))
    (he : e.category ∈ ["Syntax", "UndefinedMixin", "RecursionLimit"]) :
    ∃ t, Sheet.parseTree file = .ok t ∧
      ((p.prepare host t).outcome = .error e ∧ e.PointsAt file Keyword.definition ∨
        ∃ registry t', (p.prepare host t).outcome = .ok registry ∧
          Expansion.expand (p.context registry) p.budget (p.prepare host t).tree = .failed t' e ∧
          e.PointsAt file Keyword.call) := by
  rcases processText_eq_error h with hparse | ⟨t, hparseTree, hprocess⟩
  · simp [category_of_parseTree hparse] at he
  obtain ⟨sheet, hparse, rfl⟩ := Sheet.parseTree_eq_ok_iff.mp hparseTree
  have ht : (Tree.ofElement sheet).WellFormed := Tree.wellFormed_ofElement sheet
  have hplaces : ∀ word, ∀ x ∈ atRulesAll word ((Tree.ofElement sheet).forest Tree.root),
      file.HasAtRule word x.source := by
    intro word x hx
    rw [Tree.forest_ofElement] at hx
    obtain ⟨hpart, hkind⟩ := List.mem_filter.mp hx
    exact Sheet.hasAtRule_of_parse hparse x hpart word hkind
  refine ⟨_, hparseTree, ?_⟩
  rcases process_eq_error hprocess with hprepared | ⟨registry, t', hprepared, hfail⟩
  · rcases prepare_eq_error ht hprepared with ⟨path, reason, cause, rfl⟩ | ⟨b, hb, rfl⟩
    · simp [Error.category] at he
    · exact Or.inl ⟨hprepared, (hplaces Keyword.definition b hb).pointsAt rfl rfl⟩
  · rcases pointsAt_of_failed ht hprepared hmixins (hplaces Keyword.call) hfail with hcallback | hpoints
    · simp [hcallback] at he
    · exact Or.inr ⟨registry, t', hprepared, hfail, hpoints⟩

namespace Sample

/-- The record's one field is a call of a mixin that there is not. -/
def forwarding : Pipeline :=
  ⟨{ mixins := [("outer", .record [("@include missing", .null)])] }, false, 9⟩

def text : SourceText :=
  ⟨"a.css", "/*é*/@include outer;"⟩

def error : Error :=
  .undefined "missing" (some ⟨text, ⟨6, 21⟩, 1, 6⟩)

theorem processText_text : forwarding.processText {} text = .error (.error error) := by
  have herror : (match forwarding.processText {} text with
      | .error (.error e) => some e
      | _ => none) = some error := by decide +kernel
  cases hrun : forwarding.processText {} text with
  | error failure =>
    cases failure with
    | error e =>
      simp only [hrun, Option.some.injEq] at herror
      rw [herror]
    | exhausted => simp [hrun] at herror
  | ok result => simp [hrun] at herror

end Sample

/-- The call that the record brings in points at the call of the record, behind a comment. -/
theorem processText_error_points_into_text_record :
    Sample.forwarding.processText {} Sample.text = .error (.error Sample.error) ∧
      Sample.error.PointsAt Sample.text Keyword.call := by
  have hmixins : ∀ entry ∈ Sample.forwarding.options.mixins, entry.2.FailsAsCallback := by
    intro entry hentry
    rw [List.mem_singleton.mp hentry]
    trivial
  obtain ⟨t, hparse, ⟨hprepared, -⟩ | ⟨registry, t', -, -, hpoints⟩⟩ :=
    processText_error_points_into_text hmixins Sample.processText_text (by decide)
  · obtain ⟨sheet, -, rfl⟩ := Sheet.parseTree_eq_ok_iff.mp hparse
    rcases prepare_eq_error (Tree.wellFormed_ofElement _) hprepared with ⟨path, reason, cause, he⟩ | ⟨b, -, he⟩
    · simp [Sample.error] at he
    · simp [Sample.error, refusal] at he
  · exact ⟨Sample.processText_text, hpoints⟩

end Pipeline

end StyleMixins
