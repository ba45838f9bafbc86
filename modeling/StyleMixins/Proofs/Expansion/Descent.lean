import StyleMixins.Proofs.Expansion.Runs

namespace StyleMixins.Expansion

variable {limit d : Nat} {f f' g inst : Forest Nat} {kind : Kind} {source : Option Source} {text : String}

/-- The first call of `f` is replaced by something that weighs less than it; `f'` is what that leaves. Nothing is said
about what the call says, or about who looks at what to replace it. -/
def Descent (limit : Nat) (f' f : Forest Nat) : Prop :=
  ∃ c inst, f.firstCall? = some c ∧ peak limit inst < weight limit c.mark c.below ∧ f' = f.putFirst inst

theorem acc_of_no_call (h : f.firstCall? = none) : Acc (Descent limit) f := by
  refine ⟨_, ?_⟩
  rintro _ ⟨c, inst, hc, -, -⟩
  simp [h] at hc

/-- Above a descent in a part of a forest there are nodes that no descent touches. -/
theorem acc_under (hk : kind.callText? = none) (h : Acc (Descent limit) f) :
    Acc (Descent limit) (.cons d kind source f .nil) := by
  induction h with
  | intro f _ ih =>
    refine ⟨_, ?_⟩
    rintro _ ⟨c, inst, hc, hlt, rfl⟩
    rw [firstCall?_tree hk] at hc
    have hstep := ih (f.putFirst inst) ⟨c, inst, hc, hlt, rfl⟩
    simpa [Forest.putFirst, hk, hc] using hstep

theorem acc_append_of_no_call (hf : f.firstCall? = none) (h : Acc (Descent limit) g) :
    Acc (Descent limit) (f ++ g) := by
  induction h with
  | intro g _ ih =>
    refine ⟨_, ?_⟩
    rintro _ ⟨c, inst, hc, hlt, rfl⟩
    rw [Forest.firstCall?_append, hf, Option.none_or] at hc
    rw [Forest.putFirst_append_right hf]
    exact ih _ ⟨c, inst, hc, hlt, rfl⟩

/-- A forest descends part after part. -/
theorem acc_append (hf : Acc (Descent limit) f) (hg : Acc (Descent limit) g) : Acc (Descent limit) (f ++ g) := by
  induction hf with
  | intro f _ ih =>
    cases hfirst : f.firstCall? with
    | none => exact acc_append_of_no_call hfirst hg
    | some site =>
      refine ⟨_, ?_⟩
      rintro _ ⟨c, inst, hc, hlt, rfl⟩
      rw [Forest.firstCall?_append, hfirst, Option.some_or, Option.some.injEq] at hc
      subst hc
      rw [Forest.putFirst_append_left hfirst]
      exact ih _ ⟨site, inst, hfirst, hlt, rfl⟩

/-- A call can descend if all that weighs less can. -/
theorem acc_call (hk : kind.callText? = some text)
    (h : ∀ inst, peak limit inst < weight limit d f → Acc (Descent limit) inst) :
    Acc (Descent limit) (.cons d kind source f .nil) := by
  refine ⟨_, ?_⟩
  rintro _ ⟨c, inst, hc, hlt, rfl⟩
  simp only [Forest.firstCall?, hk, Option.some.injEq] at hc
  subst hc
  simpa [Forest.putFirst, hk] using h inst hlt

/-- There is no endless descent. One step may bring in many calls, as heavy as the content of the call was, but each of
them weighs less than the call; so the induction is on the heaviest call, and then on the size of the forest. -/
theorem wellFounded_descent (limit : Nat) : WellFounded (Descent limit) := by
  refine ⟨fun f => ?_⟩
  have hwf : WellFounded fun f g : Forest Nat =>
      toLex (peak limit f, f.marks.length) < toLex (peak limit g, g.marks.length) :=
    InvImage.wf (fun f : Forest Nat => toLex (peak limit f, f.marks.length)) wellFounded_lt
  induction f using hwf.induction with
  | _ f ih =>
    cases f with
    | nil => exact acc_of_no_call rfl
    | cons d kind source below rest =>
      have hrest : Acc (Descent limit) rest := by
        refine ih rest (Prod.Lex.toLex_lt_toLex'.mpr ⟨by simp [peak], fun _ => ?_⟩)
        simp only [Forest.marks, List.length_cons, List.length_append]
        omega
      refine acc_append (f := .cons d kind source below .nil) ?_ hrest
      cases hk : kind.callText? with
      | none =>
        refine acc_under hk (ih below (Prod.Lex.toLex_lt_toLex'.mpr ⟨by simp [peak, hk], fun _ => ?_⟩))
        simp only [Forest.marks, List.length_cons, List.length_append]
        omega
      | some text =>
        refine acc_call hk fun inst hlt => ih inst (Prod.Lex.toLex_lt_toLex.mpr (.inl ?_))
        exact lt_of_lt_of_le hlt (by simp [peak, hk])

/-- Every turn at a call of the document is a descent, so a run with a depth limit ends. -/
theorem Standing.run_ends {ctx : Context} (hlimit : ctx.settings.maxDepth = some limit) {s : State}
    {f : Forest NodeId} {τ : NodeId → Nat} (h : Standing ctx s f τ) :
    ∃ n, ∀ budget, (∃ t report, run ctx (budget + n) s = .finished t report) ∨
      ∃ t e, run ctx (budget + n) s = .failed t e := by
  induction hT : f.map τ using (wellFounded_descent limit).induction generalizing s f τ with
  | _ T ih =>
    obtain ⟨k, s', hs, -, hrun, htop⟩ := h.exists_top
    rcases htop with hp | ⟨c, rest, hc, hp⟩
    · exact ⟨k, fun budget => .inl ⟨_, _, (hrun budget).trans (run_nil _ hp)⟩⟩
    cases he : ctx.replacement s'.tree c.mark (c.map τ) with
    | error e =>
      refine ⟨1 + k, fun budget => .inr ⟨s'.tree, e, ?_⟩⟩
      rw [← Nat.add_assoc, hrun, run_error budget hp (hs.next_error hc he)]
    | ok result =>
      obtain ⟨ev, inst⟩ := result
      obtain ⟨s'', g, τ', hn, turn⟩ := hs.next_ok hp hc he
      have hdescent : Descent limit ((f.putFirst g).map τ') T := by
        refine ⟨c.map τ, inst, ?_, ?_, ?_⟩
        · rw [← hT, Forest.firstCall?_map, hc, Option.map_some]
        · rw [Context.replacement, hlimit] at he
          exact peak_replacement_lt he
        · rw [turn.map_eq, hT]
      obtain ⟨n, hends⟩ := ih _ hdescent turn.standing rfl
      refine ⟨n + 1 + k, fun budget => ?_⟩
      rw [← Nat.add_assoc, hrun, ← Nat.add_assoc, run_cons _ hp hn]
      exact hends budget

end StyleMixins.Expansion
