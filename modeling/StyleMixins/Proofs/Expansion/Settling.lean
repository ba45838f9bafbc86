import StyleMixins.Proofs.Expansion.Reference

namespace StyleMixins

namespace Forest

variable {α : Type}

theorem firstCall?_append (f g : Forest α) : (f ++ g).firstCall? = f.firstCall?.or g.firstCall? := by
  induction f with
  | nil => rfl
  | cons a k s below rest _ hr =>
    cases hk : k.callText? with
    | some text => simp [firstCall?, hk]
    | none => simp [firstCall?, hk, hr, Option.or_assoc]

theorem putFirst_append_left {f : Forest α} {c : Site α} (h : f.firstCall? = some c) (g inst : Forest α) :
    (f ++ g).putFirst inst = f.putFirst inst ++ g := by
  induction f with
  | nil => simp [firstCall?] at h
  | cons a k s below rest _ hr =>
    cases hk : k.callText? with
    | some text => simp [putFirst, hk, append_assoc]
    | none =>
      simp only [firstCall?, hk] at h
      cases hs : below.firstCall? with
      | some site => simp [putFirst, hk, hs]
      | none => simp [putFirst, hk, hs, hr (by simpa [hs] using h)]

theorem putFirst_append_right {f : Forest α} (h : f.firstCall? = none) (g inst : Forest α) :
    (f ++ g).putFirst inst = f ++ g.putFirst inst := by
  induction f with
  | nil => rfl
  | cons a k s below rest _ hr =>
    cases hk : k.callText? with
    | some text => simp [firstCall?, hk] at h
    | none =>
      simp only [firstCall?, hk, Option.or_eq_none_iff] at h
      simp [putFirst, hk, h.1, hr h.2]

end Forest

namespace Expansion

/-- What a call may come to. -/
abbrev Answers := Site Nat → Except Error (Event × Forest Nat) → Prop

def alone (registry : Registry) (silent : Bool) (maxDepth : Option Nat) : Answers :=
  fun call r => replacementAlone registry silent maxDepth call = r

/-- One call after the other is replaced as `ρ` says. -/
inductive Steps (ρ : Answers) : Forest Nat → List Event → Forest Nat → Prop
  | refl (f) : Steps ρ f [] f
  | cons {f c event inst events g} : f.firstCall? = some c → ρ c (.ok (event, inst)) →
      Steps ρ (f.putFirst inst) events g → Steps ρ f (event :: events) g

/-- No step is left: there is no call, or the first one cannot be replaced. -/
def Stops (ρ : Answers) (f : Forest Nat) : Option Error → Prop
  | none => f.firstCall? = none
  | some e => ∃ c, f.firstCall? = some c ∧ ρ c (.error e)

/-- The steps from a forest come to an end, and this is what they come to. -/
def Settles (ρ : Answers) (f : Forest Nat) (r : Result) : Prop :=
  ∃ g, Steps ρ f r.events g ∧ g.elements = r.elements ∧ Stops ρ g r.error

variable {ρ : Answers} {f f' g g' : Forest Nat} {events more : List Event} {r r' : Result} {d : Nat} {kind : Kind}
  {source : Option Source}

theorem Steps.trans (h : Steps ρ f events f') (h' : Steps ρ f' more g) : Steps ρ f (events ++ more) g := by
  induction h with
  | refl => exact h'
  | cons hc hr _ ih => exact .cons hc hr (ih h')

theorem Steps.append_left (h : Steps ρ f events f') (g : Forest Nat) : Steps ρ (f ++ g) events (f' ++ g) := by
  induction h with
  | refl => exact .refl _
  | cons hc hr _ ih =>
    refine .cons (by rw [Forest.firstCall?_append, hc, Option.some_or]) hr ?_
    rwa [Forest.putFirst_append_left hc]

theorem Steps.append_right (hf : f.firstCall? = none) (h : Steps ρ g events g') :
    Steps ρ (f ++ g) events (f ++ g') := by
  induction h with
  | refl => exact .refl _
  | cons hc hr _ ih =>
    refine .cons (by rw [Forest.firstCall?_append, hf, hc, Option.none_or]) hr ?_
    rwa [Forest.putFirst_append_right hf]

theorem firstCall?_tree (hk : kind.callText? = none) (f : Forest Nat) :
    (Forest.cons d kind source f .nil).firstCall? = f.firstCall? := by
  simp [Forest.firstCall?, hk]

theorem Steps.under (hk : kind.callText? = none) (h : Steps ρ f events g) :
    Steps ρ (.cons d kind source f .nil) events (.cons d kind source g .nil) := by
  induction h with
  | refl => exact .refl _
  | cons hc hr _ ih =>
    refine .cons ((firstCall?_tree hk _).trans hc) hr ?_
    simpa [Forest.putFirst, hk, hc] using ih

theorem settles_nil : Settles ρ .nil {} :=
  ⟨.nil, .refl _, rfl, rfl⟩

theorem Settles.under (hk : kind.callText? = none) (h : Settles ρ f r) :
    Settles ρ (.cons d kind source f .nil) (r.under kind source) := by
  obtain ⟨g, hs, he, hstop⟩ := h
  refine ⟨.cons d kind source g .nil, hs.under hk, by simp [Forest.elements, Result.under, he], ?_⟩
  rw [Result.under]
  cases herr : r.error with
  | none =>
    rw [herr] at hstop
    exact (firstCall?_tree hk g).trans hstop
  | some e =>
    rw [herr] at hstop
    obtain ⟨c, hc, hr⟩ := hstop
    exact ⟨c, (firstCall?_tree hk g).trans hc, hr⟩

/-- A part of a forest settles before what follows it. -/
theorem Settles.append (hf : Settles ρ f r) (hg : Settles ρ g r') : Settles ρ (f ++ g) (r.andThen g r') := by
  obtain ⟨f₁, hs, he, hstop⟩ := hf
  rw [Result.andThen]
  cases herr : r.error with
  | some e =>
    rw [herr] at hstop
    obtain ⟨c, hc, hr⟩ := hstop
    exact ⟨f₁ ++ g, hs.append_left g, by simp [he], c, by rw [Forest.firstCall?_append, hc, Option.some_or], hr⟩
  | none =>
    rw [herr] at hstop
    obtain ⟨g₁, hs', he', hstop'⟩ := hg
    refine ⟨f₁ ++ g₁, (hs.append_left g).trans (hs'.append_right hstop), by simp [he, he'], ?_⟩
    have hfirst : (f₁ ++ g₁).firstCall? = g₁.firstCall? := by
      rw [Forest.firstCall?_append, show f₁.firstCall? = none from hstop, Option.none_or]
    cases herr' : r'.error with
    | none =>
      rw [herr'] at hstop'
      exact hfirst.trans hstop'
    | some e =>
      rw [herr'] at hstop'
      obtain ⟨c, hc, hr⟩ := hstop'
      exact ⟨c, hfirst.trans hc, hr⟩

theorem Settles.after {c : Site Nat} {event : Event} {inst : Forest Nat} (hc : f.firstCall? = some c)
    (hr : ρ c (.ok (event, inst))) (h : Settles ρ (f.putFirst inst) r) : Settles ρ f (r.after event) := by
  obtain ⟨g, hs, he, hstop⟩ := h
  exact ⟨g, .cons hc hr hs, he, hstop⟩

theorem settles_error {c : Site Nat} {e : Error} (hc : f.firstCall? = some c) (hr : ρ c (.error e)) :
    Settles ρ f ⟨[], f.elements, some e⟩ :=
  ⟨f, .refl f, rfl, c, hc, hr⟩

theorem andThen_after (r : Result) (event : Event) (f : Forest Nat) (next : Result) :
    (r.after event).andThen f next = (r.andThen f next).after event := by
  obtain ⟨events, elements, error⟩ := r
  cases error <;> rfl

/-- The recursion says where the steps lead. -/
theorem settles_expandForest (registry : Registry) (silent : Bool) (limit : Nat) (f : Forest Nat) :
    Settles (alone registry silent (some limit)) f (expandForest registry silent limit f) := by
  induction f using expandForest.induct registry silent limit with
  | case1 =>
    rw [expandForest_nil]
    exact settles_nil
  | case2 depth kind source below rest hbelow hinst hrest =>
    cases hk : kind.callText? with
    | none =>
      rw [expandForest_node hk]
      exact ((hbelow hk).under hk).append hrest
    | some text =>
      have hc : (Forest.cons depth kind source below rest).firstCall? = some ⟨depth, text, source, below⟩ := by
        simp [Forest.firstCall?, hk]
      cases h : replacementAlone registry silent (some limit) ⟨depth, text, source, below⟩ with
      | error e =>
        rw [expandForest_error hk h]
        exact settles_error hc h
      | ok result =>
        obtain ⟨event, inst⟩ := result
        rw [expandForest_call hk h, andThen_after]
        refine .after hc h ?_
        simpa [Forest.putFirst, hk] using (hinst text hk event inst h).append hrest

end Expansion

end StyleMixins
