import StyleMixins.Proofs.Expansion.Runs

namespace StyleMixins.Expansion

variable {ctx : Context} {t : Tree} {s s' : State} {f g : Forest NodeId} {c : Site NodeId} {τ τ' : NodeId → Nat}
  {call d : Nat} {rest : List (NodeId × Nat)} {log : List Visit} {ev : Event} {inst : Forest Nat}

/-- A turn that succeeds replaces the first call of the document. -/
theorem Standing.exists_turn (h : Standing ctx s f τ) (hp : s.pending = (call, d) :: rest)
    (ha : s.tree.isAttached call ctx.root = true) (hn : next ctx s call d rest = (s', none)) :
    ∃ c g τ' ev inst, f.firstCall? = some c ∧ c.mark = call ∧ τ c.mark = d ∧
      ctx.replacement s.tree c.mark (c.map τ) = .ok (ev, inst) ∧ Turn ctx s s' f g c τ τ' ev inst := by
  obtain ⟨c, hc, rfl, rfl⟩ := h.top hp ha
  cases he : ctx.replacement s.tree c.mark (c.map τ) with
  | error e => simp [h.next_error hc he] at hn
  | ok result =>
    obtain ⟨ev, inst⟩ := result
    obtain ⟨s'', g, τ', hs, turn⟩ := h.next_ok hp hc he
    cases hn.symm.trans hs
    exact ⟨c, g, τ', ev, inst, hc, rfl, rfl, he, turn⟩

/-- A node that is outside the document stays outside, and the call goes there. -/
theorem Turn.not_mem (turn : Turn ctx s s' f g c τ τ' ev inst) (h : Standing ctx s f τ)
    (hc : f.firstCall? = some c) {y : Nat} (hy : y < s.tree.size) (hm : y ∉ f.marks ∨ y = c.mark) :
    y ∉ (f.putFirst g).marks := by
  have apart := Forest.apart_of_nodup (h.hangs.nodup h.linked) hc
  have hbelow : y ∉ c.below.marks := by
    rcases hm with hm | rfl
    · exact fun hb => hm ((Forest.mem_marks_of_firstCall? hc y).mpr (Or.inr (Or.inl hb)))
    · exact apart.mark_below
  have haround : y ∉ (f.putFirst .nil).marks := by
    rcases hm with hm | rfl
    · exact fun ho => hm ((Forest.mem_marks_of_firstCall? hc y).mpr (Or.inr (Or.inr ho)))
    · exact apart.mark_around
  rw [Forest.mem_marks_putFirst hc]
  rintro (hg | ho)
  · exact (turn.marks y hg).elim hbelow (Nat.not_le.mpr hy)
  · exact haround ho

/-- The calls handled so far are different nodes, and none is part of the document any more. -/
structure Logged (log : List Visit) (s : State) (f : Forest NodeId) : Prop where
  nodup : (log.map Visit.call).Nodup
  gone : ∀ v ∈ log, v.call < s.tree.size ∧ v.call ∉ f.marks

theorem Logged.visit (h : Logged log s f) (hs : Standing ctx s f τ) (hc : f.firstCall? = some c)
    (turn : Turn ctx s s' f g c τ τ' ev inst) (v : Visit) (hv : v.call = c.mark) :
    Logged (log ++ [v]) s' (f.putFirst g) where
  nodup := by
    rw [List.map_append]
    refine List.nodup_append.mpr ⟨h.nodup, List.nodup_singleton _, ?_⟩
    rintro a ha b hb rfl
    obtain ⟨w, hw, rfl⟩ := List.mem_map.mp ha
    have hwc : w.call = c.mark := (List.mem_singleton.mp hb).trans hv
    exact (h.gone w hw).2 (hwc ▸ Forest.mark_mem_of_firstCall? hc)
  gone w hw := by
    rcases List.mem_append.mp hw with hw | hw
    · obtain ⟨hlt, hm⟩ := h.gone w hw
      exact ⟨Nat.lt_of_lt_of_le hlt turn.grows.size_le, turn.not_mem hs hc hlt (Or.inl hm)⟩
    · rw [List.mem_singleton.mp hw, hv]
      have hlt := hs.hangs.shows.lt_size (Forest.mark_mem_of_firstCall? hc)
      exact ⟨Nat.lt_of_lt_of_le hlt turn.grows.size_le, turn.not_mem hs hc hlt (Or.inr rfl)⟩

theorem Reaches.standing (ht : t.WellFormed) (h : Reaches ctx (Expansion.start ctx t) log s) :
    ∃ f τ, Standing ctx s f τ ∧ Logged log s f := by
  induction h with
  | start =>
    obtain ⟨f, hf, _⟩ := standing_start ctx ht
    exact ⟨f, _, hf, by simp, by simp⟩
  | pass _ hp ha hn ih =>
    obtain ⟨f, τ, hs, hlog⟩ := ih
    obtain rfl := eq_of_next ha hn
    exact ⟨f, τ, hs.pass hp ha, hlog.nodup, hlog.gone⟩
  | visit _ hp ha hn ih =>
    obtain ⟨f, τ, hs, hlog⟩ := ih
    obtain ⟨c, g, τ', ev, inst, hc, hcall, _, _, turn⟩ := hs.exists_turn hp ha hn
    exact ⟨f.putFirst g, τ', turn.standing, hlog.visit hs hc turn _ hcall.symm⟩

theorem Reaches.grows (ht : t.WellFormed) (h : Reaches ctx (Expansion.start ctx t) log s) : t.Grows s.tree := by
  induction h with
  | start => exact .refl t
  | pass _ _ ha hn ih =>
    obtain rfl := eq_of_next ha hn
    exact ih
  | visit hreach hp ha hn ih =>
    obtain ⟨f, τ, hs, -⟩ := hreach.standing ht
    obtain ⟨c, g, τ', ev, inst, -, -, -, -, turn⟩ := hs.exists_turn hp ha hn
    exact ih.trans turn.grows

theorem Standing.attached_pending (h : Standing ctx s f τ) :
    ((s.pending.map Prod.fst).filter fun id => s.tree.isAttached id ctx.root).eraseDups =
      s.tree.atRules ctx.root Keyword.call := by
  rw [h.hangs.atRules h.linked, ← h.stacked.calls]
  congr 1
  refine List.filter_congr fun id hid => ?_
  obtain ⟨entry, he, rfl⟩ := List.mem_map.mp hid
  rw [Bool.eq_iff_iff, h.isAttached_iff he, decide_eq_true_iff]

/-- The calls of what replaces a call stand before all others. -/
theorem Standing.atRules_next (h : Standing ctx s f τ) (hp : s.pending = (call, d) :: rest)
    (ha : s.tree.isAttached call ctx.root = true) (hn : next ctx s call d rest = (s', none)) :
    ∃ inserted later, s.tree.atRules ctx.root Keyword.call = call :: s.tree.atRules call Keyword.call ++ later ∧
      s'.tree.atRules ctx.root Keyword.call = inserted ++ later ∧
      ∀ id ∈ inserted, id ∈ s.tree.atRules call Keyword.call ∨ s.tree.size ≤ id := by
  obtain ⟨c, g, τ', ev, inst, hc, rfl, _, _, turn⟩ := h.exists_turn hp ha hn
  obtain ⟨later, hold, hnew⟩ := Forest.atRules_putFirst hc
  have hcall := h.hangs.shows.hasCall hc
  have apart := Forest.apart_of_nodup (h.hangs.nodup h.linked) hc
  have hbelow : s.tree.atRules c.mark Keyword.call = c.below.atRules Keyword.call :=
    hcall.shows.atRules hcall.children (hcall.shows.length_le apart.nodup) _
  refine ⟨g.atRules Keyword.call, later, ?_, ?_, fun id hid => ?_⟩
  · rw [h.hangs.atRules h.linked, hbelow, hold]
  · rw [turn.standing.hangs.atRules turn.standing.linked, hnew]
  · have hg := turn.standing.hangs.shows.of_putFirst hc
    obtain ⟨hm, hk⟩ := hg.mem_atRules.mp hid
    refine (turn.marks id hm).imp_left fun hb => ?_
    rw [hbelow, hcall.shows.mem_atRules]
    exact ⟨hb, by rwa [← turn.grows.isAtRule (hcall.shows.lt_size hb)]⟩

/-- In every state of every run the attached entries of the stack, read from the top with repetitions dropped,
are the calls below the root in document order. No call is handled twice, the one handled is always the first,
the calls of what replaces it come next, and a run that finishes leaves no call. -/
theorem pending_is_document_order (ht : t.WellFormed) (ctx : Context) :
    (∀ log s, Reaches ctx (start ctx t) log s →
      ((s.pending.map Prod.fst).filter fun id => s.tree.isAttached id ctx.root).eraseDups =
        s.tree.atRules ctx.root Keyword.call ∧
      (log.map Visit.call).Nodup ∧
      ∀ call d rest s', s.pending = (call, d) :: rest → s.tree.isAttached call ctx.root = true →
        next ctx s call d rest = (s', none) →
        ∃ inserted later,
          s.tree.atRules ctx.root Keyword.call = call :: s.tree.atRules call Keyword.call ++ later ∧
          s'.tree.atRules ctx.root Keyword.call = inserted ++ later ∧
          ∀ id ∈ inserted, id ∈ s.tree.atRules call Keyword.call ∨ s.tree.size ≤ id) ∧
    (∀ budget, ∃ log s, Reaches ctx (start ctx t) log s ∧ (expand ctx budget t).EndsIn ctx s) ∧
    ∀ budget t' report, expand ctx budget t = .finished t' report → t'.atRules ctx.root Keyword.call = [] := by
  refine ⟨fun log s h => ?_, fun budget => Reaches.start.exists_end budget, fun budget t' report hfin => ?_⟩
  · obtain ⟨f, τ, hs, hlog⟩ := h.standing ht
    exact ⟨hs.attached_pending, hlog.nodup, fun call d rest s' hp ha hn => hs.atRules_next hp ha hn⟩
  · obtain ⟨log, s, h, hend⟩ := (Reaches.start : Reaches ctx (start ctx t) [] _).exists_end budget
    rw [← expand, hfin] at hend
    obtain ⟨hp, rfl, _⟩ := hend
    obtain ⟨f, τ, hs, _⟩ := h.standing ht
    rw [← hs.attached_pending, hp]
    rfl

theorem pending_is_document_order_twice :
    Sample.document.WellFormed ∧
      (∀ log s, Reaches Sample.watched (start Sample.watched Sample.document) log s →
        ((s.pending.map Prod.fst).filter fun id => s.tree.isAttached id 0).eraseDups = s.tree.atRules 0 Keyword.call ∧
          (log.map Visit.call).Nodup) ∧
      ∀ budget t' report, expand (Sample.context {}) budget Sample.document = .finished t' report →
        t'.atRules 0 Keyword.call = [] := by
  have ht : Sample.document.WellFormed := Tree.wellFormed_ofElement _
  refine ⟨ht, fun log s h => ?_, (pending_is_document_order ht (Sample.context {})).2.2⟩
  obtain ⟨hpending, hnodup, -⟩ := (pending_is_document_order ht Sample.watched).1 log s h
  exact ⟨hpending, hnodup⟩

end StyleMixins.Expansion
