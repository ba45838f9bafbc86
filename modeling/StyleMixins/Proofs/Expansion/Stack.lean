import StyleMixins.Proofs.Forest.FirstCall
import Mathlib.Data.List.Nodup

namespace StyleMixins

theorem eraseDups_filter (p : NodeId → Bool) (l : List NodeId) : (l.filter p).eraseDups = l.eraseDups.filter p := by
  induction hn : l.length using Nat.strongRecOn generalizing l with
  | ind n ih =>
    cases l with
    | nil => rfl
    | cons a l =>
      have hlt : (l.filter fun b => !b == a).length < n := by
        rw [← hn, List.length_cons]
        exact Nat.lt_succ_of_le (List.length_filter_le _ _)
      rw [List.eraseDups_cons, List.filter_cons, List.filter_cons]
      split
      next ha => rw [List.eraseDups_cons, ← ih _ hlt _ rfl, List.filter_comm]
      next ha =>
        rw [← ih _ hlt _ rfl, List.filter_filter]
        congr 1
        refine List.filter_congr fun x _ => ?_
        by_cases hx : x = a
        · simp [hx, ha]
        · simp [hx]

theorem eraseDups_of_nodup {l : List NodeId} (h : l.Nodup) : l.eraseDups = l := by
  induction l with
  | nil => rfl
  | cons a l ih =>
    obtain ⟨ha, hl⟩ := List.nodup_cons.mp h
    have he : (l.filter fun b => !b == a) = l :=
      List.filter_eq_self.mpr fun x hx => by simpa using fun e : x = a => ha (e ▸ hx)
    rw [List.eraseDups_cons, he, ih hl]

theorem lookup_map_pair (φ : NodeId → Nat) (l : List NodeId) (x : NodeId) :
    (l.map fun id => (id, φ id)).lookup x = if x ∈ l then some (φ x) else none := by
  induction l with
  | nil => rfl
  | cons a l ih =>
    by_cases h : x = a
    · simp [h]
    · have hb : (x == a) = false := by simpa using h
      simp [List.lookup_cons, hb, ih, h]

/-- Once entries outside the forest and repetitions are passed over, the stack holds the calls of the forest
in document order; the first entry of each has its depth. -/
structure Stacked (pending : List (NodeId × Nat)) (f : Forest NodeId) (τ : NodeId → Nat) : Prop where
  calls : ((pending.map Prod.fst).filter (· ∈ f.marks)).eraseDups = f.atRules Keyword.call
  depths : ∀ c ∈ f.atRules Keyword.call, pending.lookup c = some (τ c)

variable {rest : List (NodeId × Nat)} {f g : Forest NodeId} {τ τ' : NodeId → Nat} {call d : Nat} {c : Site NodeId}

theorem stacked_start (hf : f.marks.Nodup) (d : Nat) :
    Stacked ((f.atRules Keyword.call).map (·, d)) f fun _ => d where
  calls := by
    have hsub := f.atRules_sublist_marks Keyword.call
    have hids : (((f.atRules Keyword.call).map (·, d)).map Prod.fst) = f.atRules Keyword.call := by
      rw [List.map_map]
      exact List.map_id _
    rw [hids, List.filter_eq_self.mpr fun x hx => by simpa using hsub.subset hx, eraseDups_of_nodup (hsub.nodup hf)]
  depths c hc := by rw [lookup_map_pair (fun _ => d), if_pos hc]

theorem Stacked.pass (h : Stacked ((call, d) :: rest) f τ) (hc : call ∉ f.marks) : Stacked rest f τ where
  calls := by
    have hcalls := h.calls
    rwa [List.map_cons, List.filter_cons, if_neg (by simpa using hc)] at hcalls
  depths x hx := by
    have hne : x ≠ call := fun e => hc (e ▸ (f.atRules_sublist_marks _).subset hx)
    have hb : (x == call) = false := by simpa using hne
    have hd := h.depths x hx
    rwa [List.lookup_cons, hb] at hd

/-- An entry on top that belongs to the forest is its first call. -/
theorem Stacked.top (h : Stacked ((call, d) :: rest) f τ) (hc : call ∈ f.marks) :
    ∃ c, f.firstCall? = some c ∧ c.mark = call ∧ τ call = d ∧
      ∃ later, f.atRules Keyword.call = c.mark :: c.below.atRules Keyword.call ++ later := by
  have hcalls := h.calls
  rw [List.map_cons, List.filter_cons, if_pos (by simpa using hc), List.eraseDups_cons] at hcalls
  cases hf : f.firstCall? with
  | none =>
    rw [(f.firstCall?_eq_none_iff).mp hf] at hcalls
    exact absurd hcalls (List.cons_ne_nil _ _)
  | some c =>
    obtain ⟨later, he, _⟩ := Forest.atRules_putFirst hf
    have hmark : call = c.mark := by
      rw [he, List.cons_append] at hcalls
      exact (List.cons.inj hcalls).1
    have hd := h.depths call (by rw [he, hmark]; simp)
    rw [List.lookup_cons_self] at hd
    exact ⟨c, rfl, hmark.symm, (Option.some.inj hd).symm, later, he⟩

/-- An entry stays if its node is in the new forest and not among the calls put on top. -/
def stays (f g : Forest NodeId) (x : NodeId) : Bool :=
  decide (x ∈ (f.putFirst g).marks) && !(g.atRules Keyword.call).elem x

theorem filter_stays_later {later : List NodeId} (hf' : (f.putFirst g).marks.Nodup)
    (hgc : (f.putFirst g).atRules Keyword.call = g.atRules Keyword.call ++ later) :
    later.filter (stays f g) = later := by
  have hsub := (f.putFirst g).atRules_sublist_marks Keyword.call
  have hnd := hsub.nodup hf'
  rw [hgc] at hsub hnd
  obtain ⟨_, _, hd⟩ := List.nodup_append.mp hnd
  refine List.filter_eq_self.mpr fun x hx => ?_
  have hm : x ∈ (f.putFirst g).marks := hsub.subset (List.mem_append_right _ hx)
  have hn : x ∉ g.atRules Keyword.call := fun hxg => hd x hxg x hx rfl
  simp [stays, hm, hn]

theorem filter_stays_below (hc : f.firstCall? = some c) (hf : f.marks.Nodup)
    (hcalls : ∀ y ∈ c.below.atRules Keyword.call, y ∈ g.marks → y ∈ g.atRules Keyword.call) :
    (c.below.atRules Keyword.call).filter (stays f g) = [] := by
  refine List.filter_eq_nil_iff.mpr fun x hx => ?_
  have hout := (Forest.apart_of_nodup hf hc).below_around x ((c.below.atRules_sublist_marks _).subset hx)
  by_cases hm : x ∈ g.marks
  · simp [stays, hcalls x hx hm]
  · simp [stays, Forest.mem_marks_putFirst hc g x, hm, hout]

/-- Entries that stay were entries of the old forest, and not of the call itself. -/
theorem mem_of_stays (hc : f.firstCall? = some c) (hf : f.marks.Nodup) {x : NodeId}
    (hg : x ∈ g.marks → x ∈ c.below.marks) (hx : x ∈ (f.putFirst g).marks) : x ∈ f.marks ∧ x ≠ c.mark := by
  have apart := Forest.apart_of_nodup hf hc
  rw [Forest.mem_marks_of_firstCall? hc]
  rcases (Forest.mem_marks_putFirst hc g x).mp hx with hx | hx
  · exact ⟨Or.inr (Or.inl (hg hx)), fun e => apart.mark_below (e ▸ hg hx)⟩
  · exact ⟨Or.inr (Or.inr hx), fun e => apart.mark_around (e ▸ hx)⟩

/-- The stack under the first call holds the calls inside it and the later ones. -/
theorem Stacked.calls_under (h : Stacked ((c.mark, d) :: rest) f τ) (hc : f.firstCall? = some c)
    {later : List NodeId} (hl : f.atRules Keyword.call = c.mark :: c.below.atRules Keyword.call ++ later) :
    (((rest.map Prod.fst).filter (· ∈ f.marks)).filter fun b => !b == c.mark).eraseDups =
      c.below.atRules Keyword.call ++ later := by
  have hm := Forest.mark_mem_of_firstCall? hc
  have he := h.calls
  rw [List.map_cons, List.filter_cons, if_pos (by simpa using hm), List.eraseDups_cons, hl, List.cons_append] at he
  exact (List.cons.inj he).2

theorem removeAll_eq_filter_stays (hc : f.firstCall? = some c) (hf : f.marks.Nodup) {ids : List NodeId}
    (hg : ∀ y ∈ g.marks, y ∈ c.below.marks ∨ y ∉ ids) :
    (ids.filter (· ∈ (f.putFirst g).marks)).removeAll (g.atRules Keyword.call) =
      ((ids.filter (· ∈ f.marks)).filter fun b => !b == c.mark).filter (stays f g) := by
  rw [List.removeAll, List.filter_filter, List.filter_filter, List.filter_filter]
  refine List.filter_congr fun x hx => ?_
  by_cases hm : x ∈ (f.putFirst g).marks
  · obtain ⟨hxf, hxc⟩ := mem_of_stays hc hf (fun hxg => (hg x hxg).resolve_right fun hn => hn hx) hm
    simp [stays, hm, hxf, hxc]
  · simp [stays, hm]

/-- The calls of what takes the place of the first call go on top. Those inside the call keep their old entries
too, which are now repetitions or outside the forest. -/
theorem Stacked.replace (h : Stacked ((c.mark, d) :: rest) f τ) (hc : f.firstCall? = some c) (hf : f.marks.Nodup)
    (hf' : (f.putFirst g).marks.Nodup) (hg : ∀ y ∈ g.marks, y ∈ c.below.marks ∨ y ∉ rest.map Prod.fst)
    (hcalls : ∀ y ∈ c.below.atRules Keyword.call, y ∈ g.marks → y ∈ g.atRules Keyword.call)
    (hτ : ∀ y ∈ (f.putFirst .nil).marks, τ' y = τ y) :
    Stacked ((g.atRules Keyword.call).map (fun id => (id, τ' id)) ++ rest) (f.putFirst g) τ' := by
  obtain ⟨later, hfc, hgc⟩ := Forest.atRules_putFirst hc
  have hsub := (f.putFirst g).atRules_sublist_marks Keyword.call
  have hng := (hsub.nodup hf')
  rw [hgc g] at hsub hng
  constructor
  · have hids : ((g.atRules Keyword.call).map fun id => (id, τ' id)).map Prod.fst = g.atRules Keyword.call := by
      rw [List.map_map]
      exact List.map_id _
    have hin : (g.atRules Keyword.call).filter (· ∈ (f.putFirst g).marks) = g.atRules Keyword.call :=
      List.filter_eq_self.mpr fun x hx => by simpa using hsub.subset (List.mem_append_left _ hx)
    rw [List.map_append, hids, List.filter_append, hin, List.eraseDups_append,
      eraseDups_of_nodup (List.nodup_append.mp hng).1, removeAll_eq_filter_stays hc hf hg, eraseDups_filter,
      h.calls_under hc hfc, List.filter_append,
      filter_stays_below hc hf hcalls, filter_stays_later hf' (hgc g), hgc g, List.nil_append]
  · intro x hx
    rw [hgc g, List.mem_append] at hx
    rw [List.lookup_append, lookup_map_pair]
    by_cases hxg : x ∈ g.atRules Keyword.call
    · simp [hxg]
    · have hxl := hx.resolve_left hxg
      have hxm : x ∈ (f.putFirst .nil).marks := by
        have hm := (f.putFirst .nil).atRules_sublist_marks Keyword.call
        rw [hgc .nil] at hm
        exact hm.subset (List.mem_append_right _ hxl)
      have hxc : x ≠ c.mark := fun e => (Forest.apart_of_nodup hf hc).mark_around (e ▸ hxm)
      have hb : (x == c.mark) = false := by simpa using hxc
      have hd := h.depths x (by rw [hfc]; exact List.mem_append_right _ hxl)
      rw [List.lookup_cons, hb] at hd
      simpa [hxg, hτ x hxm] using hd

end StyleMixins
