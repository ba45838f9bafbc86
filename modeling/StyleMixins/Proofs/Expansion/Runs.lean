import StyleMixins.Proofs.Expansion.OneCall
import StyleMixins.Proofs.Expansion.Settling
import StyleMixins.Proofs.Expansion.WorkList

namespace StyleMixins.Expansion

variable {ctx : Context} {s s' : State} {f : Forest NodeId} {τ : NodeId → Nat} {call d : Nat}
  {rest : List (NodeId × Nat)}

/-- The store that a run leaves, whether it finishes, fails or is cut short. -/
def Outcome.tree : Outcome → Tree
  | finished t _ => t
  | failed t _ => t
  | unfinished s => s.tree

theorem run_nil (budget : Nat) (hp : s.pending = []) : run ctx budget s = .finished s.tree s.report := by
  rw [run, hp]

theorem run_cons (budget : Nat) (hp : s.pending = (call, d) :: rest) (hn : next ctx s call d rest = (s', none)) :
    run ctx (budget + 1) s = run ctx budget s' := by
  rw [run, hp]
  simp only [hn]

theorem run_error {e : Error} (budget : Nat) (hp : s.pending = (call, d) :: rest)
    (hn : next ctx s call d rest = (s', some e)) : run ctx (budget + 1) s = .failed s'.tree e := by
  rw [run, hp]
  simp only [hn]

structure Visit where
  call : NodeId
  depth : Nat
  expanded : Bool
  deriving DecidableEq, Repr

/-- The states that a run goes through, each with the calls handled before it. -/
inductive Reaches (ctx : Context) (first : State) : List Visit → State → Prop
  | start : Reaches ctx first [] first
  | pass {log s s' call d rest} : Reaches ctx first log s → s.pending = (call, d) :: rest →
      s.tree.isAttached call ctx.root = false → next ctx s call d rest = (s', none) → Reaches ctx first log s'
  | visit {log s s' call d rest} : Reaches ctx first log s → s.pending = (call, d) :: rest →
      s.tree.isAttached call ctx.root = true → next ctx s call d rest = (s', none) →
      Reaches ctx first (log ++ [⟨call, d, s.report.expanded < s'.report.expanded⟩]) s'

/-- The state in which a run ends; where it fails, the one before the turn that fails. -/
def Outcome.EndsIn (ctx : Context) : Outcome → State → Prop
  | .finished t report, s => s.pending = [] ∧ s.tree = t ∧ s.report = report
  | .failed t e, s =>
    ∃ call d rest s', s.pending = (call, d) :: rest ∧ next ctx s call d rest = (s', some e) ∧ s'.tree = t
  | .unfinished s', s => s = s'

theorem Reaches.exists_end {first : State} {log : List Visit} (h : Reaches ctx first log s) (budget : Nat) :
    ∃ log' s', Reaches ctx first log' s' ∧ (run ctx budget s).EndsIn ctx s' := by
  induction budget generalizing log s with
  | zero =>
    refine ⟨log, s, h, ?_⟩
    rw [run]
    split
    next hp => exact ⟨hp, rfl, rfl⟩
    next => rfl
  | succ budget ih =>
    cases hp : s.pending with
    | nil =>
      rw [run_nil _ hp]
      exact ⟨log, s, h, hp, rfl, rfl⟩
    | cons entry rest =>
      obtain ⟨call, d⟩ := entry
      cases hn : next ctx s call d rest with
      | mk s' error =>
        cases error with
        | some e =>
          rw [run_error budget hp hn]
          exact ⟨log, s, h, call, d, rest, s', hp, hn, rfl⟩
        | none =>
          rw [run_cons budget hp hn]
          cases ha : s.tree.isAttached call ctx.root with
          | false => exact ih (.pass h hp ha hn)
          | true => exact ih (.visit h hp ha hn)

/-- Whether a run finishes, fails or is cut short, it leaves the store of the state in which it ends. -/
theorem Outcome.EndsIn.tree_eq {outcome : Outcome} (h : outcome.EndsIn ctx s) : outcome.tree = s.tree := by
  cases outcome with
  | finished t report => exact h.2.1.symm
  | failed t e =>
    obtain ⟨call, d, rest, s', -, hn, rfl⟩ := h
    obtain ⟨-, rfl, -⟩ := refused_of_next hn
    rfl
  | unfinished s' => exact congrArg State.tree h.symm

/-- What a run has to come to: a document without calls and a report, or the error and the document before it. -/
def Outcome.Matches (ctx : Context) (r : Result) : Outcome → Prop
  | .finished t report =>
    r.error = none ∧ t.forest ctx.root = r.elements ∧ Accounts ctx.settings.trace report r.events
  | .failed t e => r.error = some e ∧ t.forest ctx.root = r.elements
  | .unfinished _ => False

theorem Standing.firstCall?_eq_none (h : Standing ctx s f τ) (hp : s.pending = []) : f.firstCall? = none := by
  have hc := h.stacked.calls
  rw [hp] at hc
  exact f.firstCall?_eq_none_iff.mpr hc.symm

theorem Standing.top (h : Standing ctx s f τ) (hp : s.pending = (call, d) :: rest)
    (ha : s.tree.isAttached call ctx.root = true) :
    ∃ c, f.firstCall? = some c ∧ c.mark = call ∧ τ c.mark = d := by
  have hm : call ∈ f.marks := (h.isAttached_iff (d := d) (by simp [hp])).mp ha
  obtain ⟨c, hc, rfl, hd, _⟩ := (hp ▸ h.stacked).top hm
  exact ⟨c, hc, rfl, hd⟩

/-- A run passes over entries until the first call of the document is on top of the stack. -/
theorem Standing.exists_top (h : Standing ctx s f τ) :
    ∃ k s', Standing ctx s' f τ ∧ s'.report = s.report ∧ (∀ budget, run ctx (budget + k) s = run ctx budget s') ∧
      (s'.pending = [] ∨ ∃ c rest, f.firstCall? = some c ∧ s'.pending = (c.mark, τ c.mark) :: rest) := by
  induction hp : s.pending generalizing s with
  | nil => exact ⟨0, s, h, rfl, fun _ => rfl, Or.inl hp⟩
  | cons entry rest ih =>
    obtain ⟨call, d⟩ := entry
    cases ha : s.tree.isAttached call ctx.root with
    | true =>
      obtain ⟨c, hc, rfl, rfl⟩ := h.top hp ha
      exact ⟨0, s, h, rfl, fun _ => rfl, Or.inr ⟨c, rest, hc, hp⟩⟩
    | false =>
      obtain ⟨k, s', hs, hr, hrun, htop⟩ := ih (h.pass hp ha) rfl
      refine ⟨k + 1, s', hs, hr, fun budget => ?_, htop⟩
      rw [← Nat.add_assoc, run_cons _ hp (next_of_not_attached ha), hrun]

/-- What `ρ` says of a call, the context makes of it wherever it stands. -/
def Context.Heeds (ctx : Context) (ρ : Answers) : Prop :=
  ∀ t id call r, t.source? id = call.source → t.forest id = call.below.elements → ρ call r →
    ctx.replacement t id call = r

theorem Standing.replacement_eq (h : Standing ctx s f τ) {ρ : Answers} (hρ : ctx.Heeds ρ) {c : Site NodeId}
    (hc : f.firstCall? = some c) {r : Except Error (Event × Forest Nat)} (hr : ρ (c.map τ) r) :
    ctx.replacement s.tree c.mark (c.map τ) = r := by
  refine hρ _ _ _ _ ?_ ?_ hr
  · rw [c.map_source, (h.hangs.shows.hasCall hc).source]
  · rw [h.hangs.forest_firstCall h.linked hc, Site.map, Forest.elements_map]

section Following

variable {ρ : Answers} (hρ : ctx.Heeds ρ)

include hρ

theorem Standing.run_of_stops {T : Forest Nat} {error : Option Error} (hstop : Stops ρ T error)
    {events : List Event} (h : Standing ctx s f τ) (hT : f.map τ = T)
    (hacc : Accounts ctx.settings.trace s.report events) :
    ∃ n, ∀ budget, (run ctx (budget + n) s).Matches ctx ⟨events, T.elements, error⟩ := by
  obtain ⟨k, s', hs, hr, hrun, htop⟩ := h.exists_top
  have hforest : s'.tree.forest ctx.root = T.elements := by
    rw [hs.hangs.forest_eq hs.linked, ← hT, Forest.elements_map]
  rcases htop with hp | ⟨c, rest, hc, hp⟩
  · refine ⟨k, fun budget => ?_⟩
    rw [hrun, run_nil _ hp]
    refine ⟨?_, hforest, by rw [hr]; exact hacc⟩
    cases error with
    | none => rfl
    | some e =>
      obtain ⟨c, hc, _⟩ := hstop
      rw [← hT, Forest.firstCall?_map, hs.firstCall?_eq_none hp] at hc
      simp at hc
  · have hcT : T.firstCall? = some (c.map τ) := by rw [← hT, Forest.firstCall?_map, hc, Option.map_some]
    cases error with
    | none => exact absurd (hcT.symm.trans hstop) (by simp)
    | some e =>
      obtain ⟨c', hc', he⟩ := hstop
      cases Option.some.inj (hcT.symm.trans hc')
      refine ⟨k + 1, fun budget => ?_⟩
      rw [Nat.add_comm k, ← Nat.add_assoc, hrun, run_error _ hp (hs.next_error hc (hs.replacement_eq hρ hc he))]
      exact ⟨rfl, hforest⟩

theorem Standing.run_of_steps {T g : Forest Nat} {events : List Event} {error : Option Error}
    (hsteps : Steps ρ T events g) (hstop : Stops ρ g error) {before : List Event}
    (h : Standing ctx s f τ) (hT : f.map τ = T) (hacc : Accounts ctx.settings.trace s.report before) :
    ∃ n, ∀ budget, (run ctx (budget + n) s).Matches ctx ⟨before ++ events, g.elements, error⟩ := by
  induction hsteps generalizing s f τ before with
  | refl T => simpa using h.run_of_stops hρ hstop hT hacc
  | @cons T c₀ event inst events g hc₀ he hsteps ih =>
    obtain ⟨k, s', hs, hr, hrun, htop⟩ := h.exists_top
    rw [← hT, Forest.firstCall?_map] at hc₀
    rcases htop with hp | ⟨c, rest, hc, hp⟩
    · rw [hs.firstCall?_eq_none hp] at hc₀
      simp at hc₀
    · rw [hc, Option.map_some] at hc₀
      cases Option.some.inj hc₀
      obtain ⟨s'', g', τ', hn, turn⟩ := hs.next_ok hp hc (hs.replacement_eq hρ hc he)
      obtain ⟨n, hn'⟩ := ih hstop turn.standing (turn.map_eq.trans (by rw [hT])) (turn.accounts before (hr ▸ hacc))
      refine ⟨n + 1 + k, fun budget => ?_⟩
      rw [← Nat.add_assoc, hrun, ← Nat.add_assoc, run_cons _ hp hn]
      simpa using hn' budget

/-- Where the document settles, every run with enough turns ends with it. -/
theorem Standing.run_of_settles {r : Result} (h : Standing ctx s f τ)
    (hacc : Accounts ctx.settings.trace s.report []) (hr : Settles ρ (f.map τ) r) :
    ∃ n, ∀ budget, n ≤ budget → (run ctx budget s).Matches ctx r := by
  obtain ⟨g, hsteps, he, hstop⟩ := hr
  obtain ⟨n, hn⟩ := h.run_of_steps hρ hsteps hstop rfl hacc
  refine ⟨n, fun budget hb => ?_⟩
  have hm := hn (budget - n)
  rw [Nat.sub_add_cancel hb, he] at hm
  exact hm

/-- A whole expansion comes to what the document settles to. -/
theorem expand_of_settles {t : Tree} {r : Result} (ht : t.WellFormed)
    (hr : Settles ρ (.ofElements 0 (t.forest ctx.root)) r) :
    ∃ n, ∀ budget, n ≤ budget → (expand ctx budget t).Matches ctx r := by
  obtain ⟨f, hs, he⟩ := standing_start ctx ht
  refine hs.run_of_settles hρ (accounts_start _) ?_
  rwa [Forest.map_const, he]

end Following

namespace Sample

/-- Puts what it is called with into two rules, and a call between them. -/
def twice : BlockMixin where
  body := .mk .root none
    [.mk (.rule ".a") none [.mk (.atRule "content" "" false) none []],
      .mk (.atRule "include" "plain" false) none [],
      .mk (.rule ".b") none [.mk (.atRule "content" "" false) none []]]
  parameters := []
  variadic := false
  acceptsContent := true

def registry : Registry :=
  [("twice", .block twice), ("plain", .record [("color", .text "red")])]

def document : Tree :=
  .ofElement (.mk .root none
    [.mk (.atRule "include" "twice" true) none
      [.mk (.atRule "include" "twice" true) none [.mk (.atRule "include" "plain" false) none []]]])

def context (settings : Settings) : Context :=
  ⟨0, registry, settings⟩

/-- Calls itself again, and tells how many calls it sees in the whole document. -/
def watching : Callback := fun site =>
  .ok (some [("@include twice", .null),
    ("calls", .text (toString (site.tree.atRules Tree.root Keyword.call).length))])

def watched : Context :=
  ⟨0, [("twice", .callback watching)], { maxDepth := some 2 }⟩

end Sample

end StyleMixins.Expansion
