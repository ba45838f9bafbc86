import StyleMixins.Proofs.Forest.Edit

namespace StyleMixins

structure Site (α : Type) where
  mark : α
  text : String
  source : Option Source
  below : Forest α

def Site.map {α β : Type} (φ : α → β) (c : Site α) : Site β :=
  ⟨φ c.mark, c.text, c.source, c.below.map φ⟩

section

variable {α β : Type} (φ : α → β) (c : Site α)

theorem Site.map_mark : (c.map φ).mark = φ c.mark := rfl

theorem Site.map_text : (c.map φ).text = c.text := rfl

theorem Site.map_source : (c.map φ).source = c.source := rfl

end

namespace Forest

variable {α β : Type}

def firstCall? : Forest α → Option (Site α)
  | nil => none
  | cons a k s below rest =>
    match k.callText? with
    | some text => some ⟨a, text, s, below⟩
    | none => below.firstCall?.or rest.firstCall?

def putFirst : Forest α → (g : Forest α) → Forest α
  | nil, _ => nil
  | cons a k s below rest, g =>
    match k.callText? with
    | some _ => g ++ rest
    | none =>
      if below.firstCall?.isSome then cons a k s (below.putFirst g) rest
      else cons a k s below (rest.putFirst g)

theorem firstCall?_map (φ : α → β) (f : Forest α) : (f.map φ).firstCall? = f.firstCall?.map (Site.map φ) := by
  induction f with
  | nil => rfl
  | cons a k s below rest hb hr =>
    cases hk : k.callText? with
    | some text => simp [map, firstCall?, hk, Site.map]
    | none => cases h : below.firstCall? <;> simp [map, firstCall?, hk, hb, hr, h]

theorem firstCall?_eq_none_iff (f : Forest α) :
    f.firstCall? = none ↔ f.atRules Keyword.call = [] := by
  induction f with
  | nil => simp [firstCall?, atRules]
  | cons a k s below rest hb hr =>
    cases hk : k.callText? <;> simp [firstCall?, atRules, Kind.isAtRule_call, hk, hb, hr]

/-- The first call with what is inside it stands before all other calls, and what is put in its place takes
over from both. -/
theorem atRules_putFirst {f : Forest α} {c : Site α} (h : f.firstCall? = some c) :
    ∃ later, f.atRules Keyword.call = c.mark :: c.below.atRules Keyword.call ++ later ∧
      ∀ g : Forest α, (f.putFirst g).atRules Keyword.call = g.atRules Keyword.call ++ later := by
  induction f with
  | nil => simp [firstCall?] at h
  | cons a k s below rest hb hr =>
    cases hk : k.callText? with
    | some text =>
      simp only [firstCall?, hk, Option.some.injEq] at h
      subst h
      exact ⟨rest.atRules Keyword.call, by simp [atRules, Kind.isAtRule_call, hk], by simp [putFirst, hk]⟩
    | none =>
      simp only [firstCall?, hk] at h
      cases hf : below.firstCall? with
      | some site =>
        obtain ⟨later, he, hg⟩ := hb (by simpa [hf] using h)
        exact ⟨later ++ rest.atRules Keyword.call, by simp [atRules, Kind.isAtRule_call, hk, he],
          by simp [putFirst, hk, hf, atRules, Kind.isAtRule_call, hg]⟩
      | none =>
        obtain ⟨later, he, hg⟩ := hr (by simpa [hf] using h)
        have hn := (firstCall?_eq_none_iff below).mp hf
        exact ⟨later, by simp [atRules, Kind.isAtRule_call, hk, he, hn],
          by simp [putFirst, hk, hf, atRules, Kind.isAtRule_call, hg, hn]⟩

/-- The nodes around the first call stay where they are. -/
theorem marks_putFirst {f : Forest α} {c : Site α} (h : f.firstCall? = some c) :
    ∃ before after, f.marks = before ++ (c.mark :: c.below.marks) ++ after ∧
      ∀ g : Forest α, (f.putFirst g).marks = before ++ g.marks ++ after := by
  induction f with
  | nil => simp [firstCall?] at h
  | cons a k s below rest hb hr =>
    cases hk : k.callText? with
    | some text =>
      simp only [firstCall?, hk, Option.some.injEq] at h
      subst h
      exact ⟨[], rest.marks, by simp [marks], by simp [putFirst, hk]⟩
    | none =>
      simp only [firstCall?, hk] at h
      cases hf : below.firstCall? with
      | some site =>
        obtain ⟨before, after, he, hg⟩ := hb (by simpa [hf] using h)
        exact ⟨a :: before, after ++ rest.marks, by simp [marks, he],
          by simp [putFirst, hk, hf, marks, hg]⟩
      | none =>
        obtain ⟨before, after, he, hg⟩ := hr (by simpa [hf] using h)
        exact ⟨a :: below.marks ++ before, after, by simp [marks, he],
          by simp [putFirst, hk, hf, marks, hg]⟩

theorem mem_marks_of_firstCall? {f : Forest α} {c : Site α} (h : f.firstCall? = some c) (x : α) :
    x ∈ f.marks ↔ x = c.mark ∨ x ∈ c.below.marks ∨ x ∈ (f.putFirst nil).marks := by
  obtain ⟨before, after, he, hg⟩ := marks_putFirst h
  simp only [he, hg nil, marks, List.mem_append, List.mem_cons]
  tauto

theorem mark_mem_of_firstCall? {f : Forest α} {c : Site α} (h : f.firstCall? = some c) : c.mark ∈ f.marks :=
  (mem_marks_of_firstCall? h c.mark).mpr (Or.inl rfl)

theorem mem_marks_putFirst {f : Forest α} {c : Site α} (h : f.firstCall? = some c) (g : Forest α) (x : α) :
    x ∈ (f.putFirst g).marks ↔ x ∈ g.marks ∨ x ∈ (f.putFirst nil).marks := by
  obtain ⟨before, after, _, hg⟩ := marks_putFirst h
  simp only [hg g, hg nil, marks, List.mem_append]
  tauto

/-- A call, what is inside it and the rest of the forest have no mark in common. -/
structure Apart (f : Forest α) (c : Site α) : Prop where
  nodup : c.below.marks.Nodup
  mark_below : c.mark ∉ c.below.marks
  mark_around : c.mark ∉ (f.putFirst nil).marks
  below_around : ∀ x ∈ c.below.marks, x ∉ (f.putFirst nil).marks

theorem apart_of_nodup {f : Forest α} {c : Site α} (hf : f.marks.Nodup) (h : f.firstCall? = some c) : f.Apart c := by
  obtain ⟨before, after, he, hg⟩ := marks_putFirst h
  have haround : (f.putFirst nil).marks = before ++ after := by simp [hg nil, marks]
  rw [he, List.append_assoc] at hf
  obtain ⟨_, hright, hleft⟩ := List.nodup_append.mp hf
  obtain ⟨hcall, _, hcross⟩ := List.nodup_append.mp hright
  obtain ⟨hmark, hbelow⟩ := List.nodup_cons.mp hcall
  have hout : ∀ x ∈ c.mark :: c.below.marks, x ∉ (f.putFirst nil).marks := by
    intro x hx hm
    rw [haround, List.mem_append] at hm
    rcases hm with hm | hm
    · exact hleft x hm x (List.mem_append_left _ hx) rfl
    · exact hcross x hx x hm rfl
  exact ⟨hbelow, hmark, hout _ (List.mem_cons_self ..), fun x hx => hout x (List.mem_cons_of_mem _ hx)⟩

/-- What is put in place of the first call has no mark in common with the rest of the forest. -/
theorem not_mem_around_of_nodup {f : Forest α} {c : Site α} (h : f.firstCall? = some c) {g : Forest α}
    (hg : (f.putFirst g).marks.Nodup) : ∀ x ∈ (f.putFirst nil).marks, x ∉ g.marks := by
  obtain ⟨before, after, _, hm⟩ := marks_putFirst h
  rw [hm g] at hg
  obtain ⟨hleft, _, hcross⟩ := List.nodup_append.mp hg
  obtain ⟨_, _, hbefore⟩ := List.nodup_append.mp hleft
  intro x hx hxg
  simp only [hm nil, marks, List.append_nil, List.mem_append] at hx
  rcases hx with hx | hx
  · exact hbefore x hx x hxg rfl
  · exact hcross x (List.mem_append_right _ hxg) x hx rfl

theorem putFirst_eq_replace [DecidableEq α] {f : Forest α} {c : Site α} (hf : f.marks.Nodup)
    (h : f.firstCall? = some c) (g : Forest α) : f.putFirst g = f.replace c.mark g := by
  induction f with
  | nil => rfl
  | cons a k s below rest hb hr =>
    obtain ⟨ha, hf⟩ := List.nodup_cons.mp hf
    obtain ⟨hnb, hnr, hd⟩ := List.nodup_append.mp hf
    rw [List.mem_append, not_or] at ha
    cases hk : k.callText? with
    | some text =>
      simp only [firstCall?, hk, Option.some.injEq] at h
      subst h
      simp [putFirst, hk, replace, replace_of_not_mem g ha.2]
    | none =>
      simp only [firstCall?, hk] at h
      cases hs : below.firstCall? with
      | some site =>
        have hc : below.firstCall? = some c := by simpa [hs] using h
        have hm := mark_mem_of_firstCall? hc
        have hn : c.mark ∉ rest.marks := fun m => hd _ hm _ m rfl
        have hac : a ≠ c.mark := fun e => ha.1 (e ▸ hm)
        simp [putFirst, hk, hs, replace, hac, hb hnb hc, replace_of_not_mem g hn]
      | none =>
        have hc : rest.firstCall? = some c := by simpa [hs] using h
        have hm := mark_mem_of_firstCall? hc
        have hn : c.mark ∉ below.marks := fun m => hd _ m _ hm rfl
        have hac : a ≠ c.mark := fun e => ha.2 (e ▸ hm)
        simp [putFirst, hk, hs, replace, hac, hr hnr hc, replace_of_not_mem g hn]

/-- Marks that change only inside the first call can be changed after it is replaced. -/
theorem map_putFirst_congr {φ ψ : α → β} {f : Forest α} (g : Forest α)
    (h : ∀ a ∈ (f.putFirst nil).marks, φ a = ψ a) :
    (f.putFirst g).map φ = (f.map ψ).putFirst (g.map φ) := by
  induction f with
  | nil => rfl
  | cons a k s below rest hb hr =>
    cases hk : k.callText? with
    | some text =>
      simp only [putFirst, hk, nil_append] at h
      simp [map, putFirst, hk, map_congr h]
    | none =>
      by_cases hs : below.firstCall?.isSome
      · simp only [putFirst, hk, hs, if_true, marks, List.mem_cons, List.mem_append] at h
        simp [map, putFirst, hk, firstCall?_map, hs, h a (Or.inl rfl),
          hb fun x hx => h x (Or.inr (Or.inl hx)), map_congr fun x hx => h x (Or.inr (Or.inr hx))]
      · simp only [putFirst, hk, hs, Bool.false_eq_true, if_false, marks, List.mem_cons, List.mem_append] at h
        simp [map, putFirst, hk, firstCall?_map, hs, h a (Or.inl rfl),
          hr fun x hx => h x (Or.inr (Or.inr hx)), map_congr fun x hx => h x (Or.inr (Or.inl hx))]

end Forest

end StyleMixins
