import StyleMixins.Proofs.Expansion.Descent
import StyleMixins.Proofs.Tree.Upkeep

namespace StyleMixins

/-- The flag of a block is set if its body has a placeholder. -/
def BlockMixin.Truthful (m : BlockMixin) : Prop :=
  m.acceptsContent = true ∨ (Forest.ofElements () m.body.children).atRules Keyword.placeholder = []

theorem Forest.atRules_ofElements_eq_nil {α β : Type} {a : α} {b : β} {name : String} {es : List Element}
    (h : (ofElements a es).atRules name = []) : (ofElements b es).atRules name = [] := by
  rw [← map_const_ofElements a b, atRules_map, h, List.map_nil]

theorem BlockMixin.Truthful.filled_eq {m : BlockMixin} (h : m.Truthful) (arguments : List Call.Argument)
    (call : Site Nat) :
    m.filled arguments call =
      (Forest.ofElements (call.mark + 1) (m.instantiate arguments).children).fill
        (call.below.map fun _ => call.mark) := by
  rw [filled]
  split
  next => rfl
  next hflag =>
    have hbody := h.resolve_left hflag
    refine (Forest.fill_of_atRules_eq_nil ?_ _).symm
    rcases m.children_instantiate arguments with he | ⟨values, he⟩
    · rw [he]
      exact Forest.atRules_ofElements_eq_nil hbody
    · rw [he, Forest.atRules_mapTextsAll]
      exact Forest.atRules_ofElements_eq_nil hbody

namespace Expansion

variable {ctx : Context} {t t' : Tree} {s s' : State} {report report' : Report} {inserted : Tree.Inserted}
  {call d limit : Nat} {rest : List (NodeId × Nat)} {log : List Visit}

/-- What is expanded in the states of a run lies within the limit. -/
theorem Reaches.depth_le {first : State} (hlimit : ctx.settings.maxDepth = some limit)
    (hfirst : ∀ step ∈ first.report.trace, step.depth ≤ limit) (h : Reaches ctx first log s) :
    (∀ v ∈ log, v.expanded = true → v.depth ≤ limit) ∧ ∀ step ∈ s.report.trace, step.depth ≤ limit := by
  induction h with
  | start => exact ⟨by simp, hfirst⟩
  | pass _ _ ha hn ih =>
    obtain rfl := eq_of_next ha hn
    exact ih
  | @visit log s s' call d rest _ _ ha hn ih =>
    obtain ⟨t', report', inserted, hcall, rfl⟩ := handles_of_next ha hn
    cases hcall with
    | leave | skip =>
      refine ⟨fun v hv hexpanded => ?_, ih.2⟩
      rcases List.mem_append.mp hv with hv | hv
      · exact ih.1 v hv hexpanded
      · simp [List.mem_singleton.mp hv] at hexpanded
    | expand _ _ _ hallowed _ =>
      have hd := hallowed limit hlimit
      refine ⟨fun v hv hexpanded => ?_, fun step hstep => ?_⟩
      · rcases List.mem_append.mp hv with hv | hv
        · exact ih.1 v hv hexpanded
        · rw [List.mem_singleton.mp hv]
          exact hd
      · rcases List.mem_append.mp hstep with hold | hnew
        · exact ih.2 step hold
        · split at hnew
          · rw [List.mem_singleton.mp hnew]
            exact hd
          · simp at hnew

/-- Callbacks look at nothing but the source of a call and what stands inside it, besides its name and arguments. -/
def Local (registry : Registry) : Prop :=
  ∀ name run, registry.find? name = some (.callback run) → ∀ site site' : CallSite, site'.name = site.name →
    site'.arguments = site.arguments → site'.source? = site.source? →
    site'.tree.forest site'.node = site.tree.forest site.node → run site' = run site

theorem Local.instanceAt_eq {registry : Registry} {definition : Definition} {site site' : CallSite} {call : Site Nat}
    (h : Local registry) (hfind : registry.find? site.name = some definition) (hname : site'.name = site.name)
    (harguments : site'.arguments = site.arguments) (hsource : site'.source? = site.source?)
    (hforest : site'.tree.forest site'.node = site.tree.forest site.node) :
    definition.instanceAt site' call = definition.instanceAt site call := by
  cases definition with
  | block m => rw [Definition.instanceAt, Definition.instanceAt, harguments]
  | record fields => rfl
  | callback run =>
    rw [Definition.instanceAt, Definition.instanceAt, h site.name run hfind site site' hname harguments hsource hforest]

/-- Where callbacks are local, a call comes to the same in every store that has it. -/
theorem Local.heeds (h : Local ctx.registry) :
    ctx.Heeds (alone ctx.registry ctx.settings.silent ctx.settings.maxDepth) := by
  rintro t id call _ hsource hforest rfl
  rw [Context.replacement, replacementAlone, replacement, replacement]
  cases Call.Invocation.read call.text with
  | none => rfl
  | some head =>
    generalize hstore : Tree.ofElement (.mk (.atRule Keyword.call call.text true) call.source call.below.elements) = u
    have hsame : t.source? id = u.source? Tree.root ∧ t.forest id = u.forest Tree.root := by
      rw [← hstore, Tree.source?_ofElement, Tree.forest_ofElement]
      exact ⟨hsource, hforest⟩
    cases hfind : ctx.registry.find? head.name with
    | none => simp only [hfind]
    | some definition =>
      have hinst : ∀ arguments, definition.instanceAt ⟨t, id, head.name, arguments⟩ call =
          definition.instanceAt ⟨u, Tree.root, head.name, arguments⟩ call :=
        fun arguments => h.instanceAt_eq hfind rfl rfl hsame.1 hsame.2
      simp only [hfind, hinst]

/-- With a depth limit, a run on a store comes to what the recursion on ordered trees gives: the same trees below
the root, the same counts, the same steps in the trace, and the same error where there is one. -/
theorem expand_matches_expandForest (ht : t.WellFormed) (ctx : Context) (hlocal : Local ctx.registry)
    (hlimit : ctx.settings.maxDepth = some limit) :
    (∃ n, ∀ budget, n ≤ budget → (expand ctx budget t).Matches ctx
      (expandForest ctx.registry ctx.settings.silent limit (.ofElements 0 (t.forest ctx.root)))) ∧
    ∀ m arguments call, BlockMixin.Truthful m → m.filled arguments call =
      (Forest.ofElements (call.mark + 1) (m.instantiate arguments).children).fill
        (call.below.map fun _ => call.mark) := by
  refine ⟨?_, fun _ arguments call hm => hm.filled_eq arguments call⟩
  refine expand_of_settles hlocal.heeds ht ?_
  rw [hlimit]
  exact settles_expandForest ..

namespace Sample

/-- Gives what it is called with, and how many trees stand inside the call. -/
def counting : Callback := fun site =>
  .ok (some [("values", .text (String.intercalate " " (site.arguments.map Call.Argument.value))),
    ("inside", .text (toString (site.tree.forest site.node).length))])

def localRegistry : Registry :=
  [("twice", .block twice), ("plain", .callback counting)]

theorem local_counting : Local localRegistry := by
  intro name run h site site' _ harguments _ hforest
  simp only [localRegistry, Entries.find?] at h
  split at h
  next => simp at h
  next =>
    split at h
    next =>
      cases Option.some.inj h
      rw [counting, counting, harguments, hforest]
    next => simp at h

end Sample

theorem expand_matches_expandForest_twice :
    Sample.document.WellFormed ∧ Local Sample.localRegistry ∧ ∃ n, ∀ budget, n ≤ budget →
      (expand ⟨0, Sample.localRegistry, {}⟩ budget Sample.document).Matches ⟨0, Sample.localRegistry, {}⟩
        (expandForest Sample.localRegistry false defaultDepth (.ofElements 0 (Sample.document.forest 0))) :=
  ⟨Tree.wellFormed_ofElement _, Sample.local_counting,
    (expand_matches_expandForest (Tree.wellFormed_ofElement _) ⟨0, Sample.localRegistry, {}⟩ Sample.local_counting
      rfl).1⟩

/-- With a depth limit every run ends, and what it has expanded at any time lies within the limit. -/
theorem expand_ends_within_depth (ht : t.WellFormed) (ctx : Context)
    (hlimit : ctx.settings.maxDepth = some limit) :
    (∃ n, ∀ budget, n ≤ budget →
      (∃ t' report, expand ctx budget t = .finished t' report) ∨ ∃ t' e, expand ctx budget t = .failed t' e) ∧
    ∀ log s, Reaches ctx (start ctx t) log s →
      (∀ v ∈ log, v.expanded = true → v.depth ≤ limit) ∧ ∀ step ∈ s.report.trace, step.depth ≤ limit := by
  refine ⟨?_, fun log s h => h.depth_le hlimit (by simp [start])⟩
  obtain ⟨f, hstart, -⟩ := standing_start ctx ht
  obtain ⟨n, hends⟩ := hstart.run_ends hlimit
  refine ⟨n, fun budget hb => ?_⟩
  rw [expand, ← Nat.sub_add_cancel hb]
  exact hends (budget - n)

theorem expand_ends_within_depth_twice :
    Sample.document.WellFormed ∧
      (∃ n, ∀ budget, n ≤ budget →
        (∃ t' report, expand Sample.watched budget Sample.document = .finished t' report) ∨
          ∃ t' e, expand Sample.watched budget Sample.document = .failed t' e) ∧
      ∀ log s, Reaches Sample.watched (start Sample.watched Sample.document) log s →
        (∀ v ∈ log, v.expanded = true → v.depth ≤ 2) ∧ ∀ step ∈ s.report.trace, step.depth ≤ 2 :=
  ⟨Tree.wellFormed_ofElement _, expand_ends_within_depth (Tree.wellFormed_ofElement _) Sample.watched rfl⟩

end Expansion

end StyleMixins
