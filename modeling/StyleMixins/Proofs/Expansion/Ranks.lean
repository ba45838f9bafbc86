import StyleMixins.Proofs.Call.Name
import StyleMixins.Proofs.Expansion.DepthLimit

namespace StyleMixins

/-- A call that cannot be read, or that names no mixin. -/
def Error.IsUnresolved (e : Error) : Prop :=
  (∃ text source, e = .malformedList text source) ∨ ∃ name source, e = .undefined name source

namespace Expansion

/-- A call in the definition of `name` has a name without variables, of no mixin or of one of smaller rank. -/
def Descends (registry : Registry) (rank : String → Nat) (name text : String) : Prop :=
  '$' ∉ Call.head text ∧
    (registry.find? (Call.headName text) = none ∨ rank (Call.headName text) < rank name)

/-- There are no callbacks, and all calls in definitions descend. -/
structure Descending (registry : Registry) (rank : String → Nat) : Prop where
  block : ∀ name m, registry.find? name = some (.block m) →
    ∀ text ∈ (Forest.ofElements () m.body.children).callTexts, Descends registry rank name text
  record : ∀ name fields source, registry.find? name = some (.record fields) →
    ∀ text ∈ (Forest.ofElements () (Record.fieldElements source fields)).callTexts,
      Descends registry rank name text
  callback : ∀ name run, registry.find? name ≠ some (.callback run)

theorem Descends.substitute {registry : Registry} {rank : String → Nat} {name text : String}
    (h : Descends registry rank name text) (values : Entries String) :
    Descends registry rank name (Substitution.substitute values text) := by
  have he := Substitution.head_substitute values h.1
  rw [Descends, Call.headName, he]
  exact h

/-- Whatever the depths, the forest settles, and only a call that is unresolved can stop it. -/
def Ends (ρ : Answers) (f : Forest Nat) : Prop :=
  ∀ φ : Nat → Nat, ∃ r, Settles ρ (f.map φ) r ∧ ∀ e, r.error = some e → e.IsUnresolved

variable {ρ : Answers} {f g below rest : Forest Nat} {d : Nat} {kind : Kind} {source : Option Source} {text : String}

theorem Ends.map (h : Ends ρ f) (φ : Nat → Nat) : Ends ρ (f.map φ) := by
  intro ψ
  rw [Forest.map_map]
  exact h _

theorem Ends.self (h : Ends ρ f) : ∃ r, Settles ρ f r ∧ ∀ e, r.error = some e → e.IsUnresolved := by
  have hid := h fun a => a
  rwa [Forest.map_id] at hid

theorem error_andThen (r r' : Result) (f : Forest Nat) : (r.andThen f r').error = r.error.or r'.error := by
  obtain ⟨events, elements, error⟩ := r
  cases error <;> rfl

theorem ends_nil : Ends ρ .nil :=
  fun _ => ⟨{}, settles_nil, by simp⟩

theorem Ends.append (hf : Ends ρ f) (hg : Ends ρ g) : Ends ρ (f ++ g) := by
  intro φ
  obtain ⟨r, hr, he⟩ := hf φ
  obtain ⟨r', hr', he'⟩ := hg φ
  rw [Forest.map_append]
  refine ⟨_, hr.append hr', fun e h => ?_⟩
  rw [error_andThen] at h
  rcases Option.or_eq_some_iff.mp h with h | ⟨_, h⟩
  · exact he e h
  · exact he' e h

theorem Ends.under (hk : kind.callText? = none) (h : Ends ρ f) : Ends ρ (.cons d kind source f .nil) := by
  intro φ
  obtain ⟨r, hr, he⟩ := h φ
  exact ⟨_, hr.under hk, he⟩

/-- What has become of a call: it is unresolved, or its replacement settles. -/
def Resolves (ρ : Answers) (call : Site Nat) : Prop :=
  (∃ e, ρ call (.error e) ∧ e.IsUnresolved) ∨ ∃ event inst, ρ call (.ok (event, inst)) ∧ Ends ρ inst

theorem ends_call (hk : kind.callText? = some text)
    (h : ∀ φ : Nat → Nat, Resolves ρ ⟨φ d, text, source, below.map φ⟩) : Ends ρ (.cons d kind source below .nil) := by
  intro φ
  have hc : ((Forest.cons d kind source below .nil).map φ).firstCall? =
      some ⟨φ d, text, source, below.map φ⟩ := by
    simp [Forest.map, Forest.firstCall?, hk]
  rcases h φ with ⟨e, he, hu⟩ | ⟨event, inst, ho, hi⟩
  · exact ⟨_, settles_error hc he, fun e' h' => Option.some.inj h' ▸ hu⟩
  · obtain ⟨r, hr, he⟩ := hi.self
    refine ⟨_, .after hc ho ?_, he⟩
    simpa [Forest.map, Forest.putFirst, hk] using hr

/-- Forests made of content that was passed in and of nodes whose calls have texts of a kind. -/
inductive Built (T : String → Prop) (content : Forest Nat) : Forest Nat → Prop
  | nil : Built T content .nil
  | content (f : Forest Nat) : Built T content f → Built T content (content ++ f)
  | node (d : Nat) (kind : Kind) (source : Option Source) (below rest : Forest Nat) :
      (∀ text, kind.callText? = some text → T text) → Built T content below → Built T content rest →
      Built T content (.cons d kind source below rest)

theorem built_self {T : String → Prop} (content : Forest Nat) (h : ∀ text ∈ f.callTexts, T text) :
    Built T content f := by
  induction f with
  | nil => exact .nil
  | cons a k s below rest hb hr =>
    simp only [Forest.callTexts, List.mem_append, Option.mem_toList] at h
    exact .node _ _ _ _ _ (fun text ht => h text (Or.inl (Or.inl ht)))
      (hb fun text ht => h text (Or.inl (Or.inr ht))) (hr fun text ht => h text (Or.inr ht))

theorem built_fill {T : String → Prop} (content : Forest Nat) (h : ∀ text ∈ f.callTexts, T text) :
    Built T content (f.fill content) := by
  induction f with
  | nil => exact .nil
  | cons a k s below rest hb hr =>
    simp only [Forest.callTexts, List.mem_append, Option.mem_toList] at h
    have hr := hr fun text ht => h text (Or.inr ht)
    rw [Forest.fill]
    split
    · exact .content _ hr
    · exact .node _ _ _ _ _ (fun text ht => h text (Or.inl (Or.inl ht)))
        (hb fun text ht => h text (Or.inl (Or.inr ht))) hr

theorem Built.ends {T : String → Prop} {content : Forest Nat} (h : Built T content f) (hcontent : Ends ρ content)
    (hT : ∀ text, T text → ∀ call : Site Nat, call.text = text → Ends ρ call.below → Resolves ρ call) :
    Ends ρ f := by
  induction h with
  | nil => exact ends_nil
  | content _ _ ih => exact hcontent.append ih
  | node d kind source below rest htext _ _ hb hr =>
    have htree : Ends ρ (.cons d kind source below .nil) := by
      cases hk : kind.callText? with
      | none => exact hb.under hk
      | some text => exact ends_call hk fun φ => hT text (htext text hk) _ rfl (hb.map φ)
    exact htree.append hr

variable {registry : Registry} {rank : String → Nat} {silent : Bool}

/-- All instances of a definition settle if the content of the call does. -/
def InstancesEnd (registry : Registry) (silent : Bool) (definition : Definition) : Prop :=
  ∀ site call, Ends (alone registry silent none) call.below →
    ∃ inst, definition.instanceAt site call = .ok inst ∧ Ends (alone registry silent none) inst

theorem resolves_of_instancesEnd (call : Site Nat) (hbelow : Ends (alone registry silent none) call.below)
    (h : ∀ definition, registry.find? (Call.headName call.text) = some definition →
      InstancesEnd registry silent definition) :
    Resolves (alone registry silent none) call := by
  simp only [Resolves, alone, replacementAlone, replacement]
  cases hread : Call.Invocation.read call.text with
  | none => exact Or.inl ⟨_, rfl, Or.inl ⟨_, _, rfl⟩⟩
  | some invocation =>
    rw [← Call.name_of_read hread] at h
    simp only
    cases hfind : registry.find? invocation.name with
    | none =>
      cases silent with
      | true => exact Or.inr ⟨_, _, rfl, ends_nil⟩
      | false => exact Or.inl ⟨_, rfl, Or.inr ⟨_, _, rfl⟩⟩
    | some definition =>
      generalize Tree.ofElement (.mk (.atRule Keyword.call call.text true) call.source call.below.elements) = t
      obtain ⟨inst, hi, hends⟩ := h definition hfind
        ⟨t, Tree.root, invocation.name, (invocation.list.map Call.readArguments).getD []⟩ call hbelow
      simp only [Option.filter_none, hi]
      exact Or.inr ⟨_, _, rfl, hends⟩

/-- By induction on the rank: the calls of a definition lead to definitions whose instances settle. -/
theorem instancesEnd (hr : Descending registry rank) {name : String} {definition : Definition}
    (h : registry.find? name = some definition) : InstancesEnd registry silent definition := by
  induction hk : rank name using Nat.strongRecOn generalizing name definition with
  | ind k ih =>
    have hT : ∀ text, Descends registry rank name text → ∀ call : Site Nat, call.text = text →
        Ends (alone registry silent none) call.below → Resolves (alone registry silent none) call := by
      rintro text htext call rfl hbelow
      refine resolves_of_instancesEnd call hbelow fun definition hfind => ?_
      rcases htext.2 with hnone | hlt
      · simp [hnone] at hfind
      · exact ih _ (hk ▸ hlt) hfind rfl
    intro site call hbelow
    cases definition with
    | block m =>
      refine ⟨_, rfl, ?_⟩
      have htexts : ∀ text ∈ (Forest.ofElements (call.mark + 1) (m.instantiate site.arguments).children).callTexts,
          Descends registry rank name text := by
        intro text htext
        rw [Forest.callTexts_ofElements _ ()] at htext
        rcases m.children_instantiate site.arguments with he | ⟨values, he⟩
        · rw [he] at htext
          exact hr.block name m h text htext
        · rw [he, Forest.callTexts_mapTextsAll] at htext
          obtain ⟨text, hm, rfl⟩ := List.mem_map.mp htext
          exact (hr.block name m h text hm).substitute values
      rw [BlockMixin.filled]
      split
      · exact (built_fill _ htexts).ends (hbelow.map _) hT
      · exact (built_self .nil htexts).ends ends_nil hT
    | record fields =>
      refine ⟨_, rfl, (built_self .nil fun text htext => ?_).ends ends_nil hT⟩
      rw [Record.laidOut, Forest.callTexts_ofElements _ ()] at htext
      exact hr.record name fields call.source h text htext
    | callback run => exact absurd h (hr.callback name run)

/-- Without a depth limit, a run ends if the definitions descend: it finishes, or it stops at a call that cannot
be read or names no mixin. -/
theorem expand_ends_of_descending {t : Tree} (ht : t.WellFormed) (ctx : Context)
    (hmax : ctx.settings.maxDepth = none) (hr : Descending ctx.registry rank) :
    ∃ n, ∀ budget, n ≤ budget →
      (∃ t' report, expand ctx budget t = .finished t' report) ∨
        ∃ t' e, expand ctx budget t = .failed t' e ∧ e.IsUnresolved := by
  have hlocal : Local ctx.registry := fun name run hfind => absurd hfind (hr.callback name run)
  have hheeds := hlocal.heeds
  rw [hmax] at hheeds
  have hdoc : Ends (alone ctx.registry ctx.settings.silent none) (.ofElements 0 (t.forest ctx.root)) := by
    refine (built_self .nil fun _ _ => trivial).ends ends_nil (T := fun _ => True) fun text _ call _ hbelow => ?_
    exact resolves_of_instancesEnd call hbelow fun definition hfind => instancesEnd hr hfind
  obtain ⟨r, hsettles, herr⟩ := hdoc.self
  obtain ⟨n, hn⟩ := expand_of_settles hheeds ht hsettles
  refine ⟨n, fun budget hb => ?_⟩
  have hm := hn budget hb
  cases ho : expand ctx budget t with
  | finished t' report => exact Or.inl ⟨t', report, rfl⟩
  | failed t' e =>
    rw [ho] at hm
    exact Or.inr ⟨t', e, rfl, herr e hm.1⟩
  | unfinished s =>
    rw [ho] at hm
    exact hm.elim

/-- In the sample `twice` calls `plain`, which calls nothing. -/
theorem Sample.descending : Descending Sample.registry fun name => if name = "twice" then 1 else 0 where
  block name m h := by
    simp only [Sample.registry, Entries.find?] at h
    split at h
    next hname =>
      cases Option.some.inj h
      intro text htext
      have he : text = "plain" := List.mem_singleton.mp htext
      subst he hname
      exact ⟨by decide, Or.inr (by decide)⟩
    next => simp at h
  record name fields source h := by
    simp only [Sample.registry, Entries.find?] at h
    split at h
    next => simp at h
    next =>
      split at h
      next =>
        cases Option.some.inj h
        exact fun text htext => absurd htext List.not_mem_nil
      next => simp at h
  callback name run h := by
    simp only [Sample.registry, Entries.find?] at h
    split at h
    next => simp at h
    next => split at h <;> simp at h

theorem expand_ends_of_descending_twice :
    (Sample.document.WellFormed ∧ Descending Sample.registry fun name => if name = "twice" then 1 else 0) ∧
      ∃ n, ∀ budget, n ≤ budget →
        (∃ t' report, expand (Sample.context { maxDepth := none }) budget Sample.document = .finished t' report) ∨
          ∃ t' e, expand (Sample.context { maxDepth := none }) budget Sample.document = .failed t' e ∧
            e.IsUnresolved :=
  ⟨⟨Tree.wellFormed_ofElement _, Sample.descending⟩,
    expand_ends_of_descending (Tree.wellFormed_ofElement _) (Sample.context { maxDepth := none }) rfl
      Sample.descending⟩

end Expansion

end StyleMixins
