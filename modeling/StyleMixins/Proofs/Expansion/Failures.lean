import StyleMixins.Proofs.Expansion.Order

namespace StyleMixins.Expansion

variable {ctx : Context} {t t' : Tree} {s s' : State} {f g : Forest NodeId} {c : Site NodeId} {τ τ' : NodeId → Nat}
  {call d : Nat} {rest : List (NodeId × Nat)} {log : List Visit} {e : Error}

/-- What a context makes of a call in some store that has it. -/
def Context.inStores (ctx : Context) : Answers :=
  fun call r => ∃ t id, t.params? id = some call.text ∧ t.source? id = call.source ∧
    t.forest id = call.below.elements ∧ ctx.replacement t id call = r

theorem Standing.inStores (h : Standing ctx s f τ) (hc : f.firstCall? = some c) :
    ctx.inStores (c.map τ) (ctx.replacement s.tree c.mark (c.map τ)) := by
  have hcall := h.hangs.shows.hasCall hc
  refine ⟨s.tree, c.mark, ?_, ?_, ?_, rfl⟩
  · rw [hcall.params?, c.map_text]
  · rw [hcall.source, c.map_source]
  · rw [h.hangs.forest_firstCall h.linked hc, Site.map, Forest.elements_map]

/-- The document has gone through one step for each call handled. -/
structure Followed (ctx : Context) (t : Tree) (log : List Visit) (s : State) (g : Forest Nat)
    (events : List Event) : Prop where
  steps : Steps ctx.inStores (.ofElements 0 (t.forest ctx.root)) events g
  accounts : Accounts ctx.settings.trace s.report events
  log_eq : log.map Visit.expanded = events.map Event.isExpansion
  tree_eq : log = [] → s.tree = t

theorem Reaches.followed (ht : t.WellFormed) (h : Reaches ctx (Expansion.start ctx t) log s) :
    ∃ f τ events, Standing ctx s f τ ∧ Followed ctx t log s (f.map τ) events := by
  induction h with
  | start =>
    obtain ⟨f, hf, he⟩ := standing_start ctx ht
    have hsteps : Steps ctx.inStores (.ofElements 0 (t.forest ctx.root)) [] (f.map fun _ => 0) := by
      rw [Forest.map_const, he]
      exact .refl _
    exact ⟨f, fun _ => 0, [], hf, hsteps, accounts_start _, rfl, fun _ => rfl⟩
  | pass _ hp ha hn ih =>
    obtain ⟨f, τ, events, hs, hfollowed⟩ := ih
    obtain rfl := eq_of_next ha hn
    exact ⟨f, τ, events, hs.pass hp ha, hfollowed.steps, hfollowed.accounts, hfollowed.log_eq, hfollowed.tree_eq⟩
  | @visit log s s' call d rest _ hp ha hn ih =>
    obtain ⟨f, τ, events, hs, hfollowed⟩ := ih
    obtain ⟨c, g, τ', ev, inst, hc, rfl, rfl, he, turn⟩ := hs.exists_turn hp ha hn
    have hstep : Steps ctx.inStores (f.map τ) [ev] ((f.putFirst g).map τ') := by
      refine .cons (by rw [Forest.firstCall?_map, hc]; rfl) (he ▸ hs.inStores hc) ?_
      rw [turn.map_eq]
      exact .refl _
    have haccounts := turn.accounts events hfollowed.accounts
    have hexpanded : decide (s.report.expanded < s'.report.expanded) = ev.isExpansion := by
      rw [hfollowed.accounts.expanded, haccounts.expanded, List.countP_append]
      cases ev <;> simp [Event.isExpansion]
    exact ⟨f.putFirst g, τ', events ++ [ev], turn.standing, hfollowed.steps.trans hstep, haccounts,
      by simp [hfollowed.log_eq, hexpanded], by simp⟩

/-- A run that started from `t` and handled the calls of the log stops at a call, with `t'` before it. -/
structure HaltsAt (ctx : Context) (t : Tree) (log : List Visit) (t' : Tree) (call : NodeId) (depth : Nat)
    (e : Error) : Prop where
  /-- The document is the one that a step for each call handled has left, and the call is its first one. -/
  document : ∃ events g site, Steps ctx.inStores (.ofElements 0 (t.forest ctx.root)) events g ∧
    log.map Visit.expanded = events.map Event.isExpansion ∧ t'.forest ctx.root = g.elements ∧
    g.firstCall? = some site ∧ site.mark = depth ∧ t'.params? call = some site.text ∧
    site.source = t'.source? call ∧ site.below.elements = t'.forest call
  unchanged : log = [] → t' = t
  attached : t'.isAttached call ctx.root = true
  first : t'.firstAtRule ctx.root Keyword.call = some call
  refused : ∀ e', Refused ctx t' call depth e' ↔ e' = e

theorem Reaches.haltsAt (ht : t.WellFormed) (h : Reaches ctx (Expansion.start ctx t) log s)
    (hp : s.pending = (call, d) :: rest) (hn : next ctx s call d rest = (s', some e)) :
    HaltsAt ctx t log s.tree call d e := by
  obtain ⟨f, τ, events, hs, hfollowed⟩ := h.followed ht
  obtain ⟨ha, -, hrefused⟩ := refused_of_next hn
  obtain ⟨c, hc, rfl, rfl⟩ := hs.top hp ha
  have hcall := hs.hangs.shows.hasCall hc
  have hdocument : s.tree.forest ctx.root = (f.map τ).elements := by
    rw [hs.hangs.forest_eq hs.linked, Forest.elements_map]
  refine ⟨⟨events, f.map τ, c.map τ, hfollowed.steps, hfollowed.log_eq, hdocument, ?_, rfl, hcall.params?,
    hcall.source.symm, ?_⟩, hfollowed.tree_eq, ha, ?_, fun e' => ⟨hrefused.unique, fun he => he ▸ hrefused⟩⟩
  · rw [Forest.firstCall?_map, hc, Option.map_some]
  · rw [hs.hangs.forest_firstCall hs.linked hc, Site.map, Forest.elements_map]
  · obtain ⟨later, hold, -⟩ := Forest.atRules_putFirst hc
    rw [Tree.firstAtRule_eq_head?, hs.hangs.atRules hs.linked, hold]
    rfl

/-- A run that fails does so at the turn after a state that it has reached. -/
theorem exists_reaches_of_failed {budget : Nat} (hfail : expand ctx budget t = .failed t' e) :
    ∃ log s s' call depth rest, Reaches ctx (start ctx t) log s ∧ s.pending = (call, depth) :: rest ∧
      next ctx s call depth rest = (s', some e) ∧ s'.tree = t' := by
  obtain ⟨log, s, hreach, hend⟩ := (Reaches.start : Reaches ctx (start ctx t) [] _).exists_end budget
  rw [← expand, hfail] at hend
  obtain ⟨call, depth, rest, s', hp, hn, htree⟩ := hend
  exact ⟨log, s, s', call, depth, rest, hreach, hp, hn, htree⟩

/-- When a run fails, the turn that fails has changed nothing: the document is the one that the calls handled before
have left, the input where there was none. The call that failed is its first one, still in its place and with its
content, and the error is the one reason for which this call is refused. -/
theorem failed_at_first_call (ht : t.WellFormed) {budget : Nat} (hfail : expand ctx budget t = .failed t' e) :
    ∃ log s s' call depth rest, Reaches ctx (start ctx t) log s ∧ s.pending = (call, depth) :: rest ∧
      next ctx s call depth rest = (s', some e) ∧ s'.tree = t' ∧ s.tree = t' ∧ s'.report = s.report ∧
      HaltsAt ctx t log t' call depth e := by
  obtain ⟨log, s, s', call, depth, rest, hreach, hp, hn, rfl⟩ := exists_reaches_of_failed hfail
  have hhalts := hreach.haltsAt ht hp hn
  obtain ⟨-, rfl, -⟩ := refused_of_next hn
  exact ⟨log, s, _, call, depth, rest, hreach, hp, hn, rfl, rfl, rfl, hhalts⟩

/-- The call in the body of the inner block lies too deep, after three calls are done. -/
theorem failed_at_first_call_shallow :
    ∃ t' log s s' call depth rest,
      expand (Sample.context { maxDepth := some 0 }) 9 Sample.document = .failed t' (.tooDeep "plain" 0 none) ∧
      Reaches (Sample.context { maxDepth := some 0 }) (start (Sample.context { maxDepth := some 0 }) Sample.document)
        log s ∧ s.pending = (call, depth) :: rest ∧
      next (Sample.context { maxDepth := some 0 }) s call depth rest = (s', some (.tooDeep "plain" 0 none)) ∧
      s'.tree = t' ∧ s.tree = t' ∧ s'.report = s.report ∧
      HaltsAt (Sample.context { maxDepth := some 0 }) Sample.document log t' call depth (.tooDeep "plain" 0 none) := by
  have herror : (match expand (Sample.context { maxDepth := some 0 }) 9 Sample.document with
      | .failed _ e => some e
      | _ => none) = some (.tooDeep "plain" 0 none) := by decide +kernel
  cases hrun : expand (Sample.context { maxDepth := some 0 }) 9 Sample.document with
  | failed t' e =>
    simp only [hrun, Option.some.injEq] at herror
    subst herror
    obtain ⟨log, s, s', call, depth, rest, h⟩ := failed_at_first_call (Tree.wellFormed_ofElement _) hrun
    exact ⟨t', log, s, s', call, depth, rest, rfl, h⟩
  | finished t' report => simp [hrun] at herror
  | unfinished s => simp [hrun] at herror

end StyleMixins.Expansion
