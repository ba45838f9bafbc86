import StyleMixins.Proofs.Forest.Edit

namespace StyleMixins

namespace Element

mutual

def consFilled (content : List Element) : Element → List Element → List Element
  | mk kind source children, rest =>
    if kind.isAtRule Keyword.placeholder then content ++ rest else mk kind source (filled content children) :: rest

def filled (content : List Element) : List Element → List Element
  | [] => []
  | e :: rest => consFilled content e (filled content rest)

end

theorem filled_cons (content : List Element) (kind : Kind) (source : Option Source) (children rest : List Element) :
    filled content (mk kind source children :: rest) =
      if kind.isAtRule Keyword.placeholder then content ++ filled content rest
      else mk kind source (filled content children) :: filled content rest := rfl

end Element

namespace Forest

variable {α β : Type}

def fill : Forest α → (content : Forest α) → Forest α
  | nil, _ => nil
  | cons a k s below rest, content =>
    if k.isAtRule Keyword.placeholder then content ++ rest.fill content
    else cons a k s (below.fill content) (rest.fill content)

theorem fill_of_atRules_eq_nil {f : Forest α} (h : f.atRules Keyword.placeholder = []) (content : Forest α) :
    f.fill content = f := by
  induction f with
  | nil => rfl
  | cons a k s below rest hb hr =>
    simp only [atRules, List.append_eq_nil_iff] at h
    have hk : k.isAtRule Keyword.placeholder = false := by simpa using h.1.1
    simp [fill, hk, hb h.1.2, hr h.2]

theorem elements_fill (f content : Forest α) :
    (f.fill content).elements = Element.filled content.elements f.elements := by
  induction f with
  | nil => rfl
  | cons a k s below rest hb hr =>
    by_cases hk : k.isAtRule Keyword.placeholder <;> simp [fill, elements, Element.filled_cons, hk, hb, hr]

/-- The content in place of the outermost of the nodes `ps`, new marks elsewhere. -/
def fillAt [DecidableEq α] :
    Forest α → (ps : List α) → (content : Forest β) → (φ : α → β) → Forest β
  | nil, _, _, _ => nil
  | cons a k s below rest, ps, content, φ =>
    if a ∈ ps then content ++ rest.fillAt ps content φ
    else cons (φ a) k s (below.fillAt ps content φ) (rest.fillAt ps content φ)

section FillAt

variable [DecidableEq α] {content : Forest β} {φ : α → β}

theorem fillAt_congr {ps qs : List α} {f : Forest α} (h : ∀ x ∈ f.marks, x ∈ ps ↔ x ∈ qs) :
    f.fillAt ps content φ = f.fillAt qs content φ := by
  induction f with
  | nil => rfl
  | cons a k s below rest hb hr =>
    simp only [marks, List.mem_cons, List.mem_append] at h
    simp only [fillAt, h a (Or.inl rfl), hb fun x hx => h x (Or.inr (Or.inl hx)),
      hr fun x hx => h x (Or.inr (Or.inr hx))]

theorem fillAt_append (ps : List α) (f g : Forest α) :
    (f ++ g).fillAt ps content φ = f.fillAt ps content φ ++ g.fillAt ps content φ := by
  induction f with
  | nil => rfl
  | cons a k s below rest _ hr => by_cases h : a ∈ ps <;> simp [fillAt, h, hr, append_assoc]

theorem fillAt_of_disjoint {ps : List α} {f : Forest α} (h : ∀ x ∈ f.marks, x ∉ ps) :
    f.fillAt ps content φ = f.map φ := by
  induction f with
  | nil => rfl
  | cons a k s below rest hb hr =>
    simp only [marks, List.mem_cons, List.mem_append] at h
    rw [fillAt, if_neg (h a (Or.inl rfl)), map, hb fun x hx => h x (Or.inr (Or.inl hx)),
      hr fun x hx => h x (Or.inr (Or.inr hx))]

/-- One placeholder after the other can be replaced, each by a forest that reads like the content. -/
theorem fillAt_replace {p : α} {ps : List α} {n : Forest α} (f : Forest α) (hn : n.map φ = content)
    (hps : ∀ x ∈ n.marks, x ∉ ps) :
    (f.replace p n).fillAt ps content φ = f.fillAt (p :: ps) content φ := by
  induction f with
  | nil => rfl
  | cons a k s below rest hb hr =>
    by_cases e : a = p
    · simp [replace, fillAt, e, fillAt_append, fillAt_of_disjoint hps, hn, hr]
    · by_cases h : a ∈ ps <;> simp [replace, fillAt, e, h, hb, hr]

theorem fillAt_of_mem_iff {ps : List α} {f : Forest α} (hf : f.marks.Nodup)
    (h : ∀ x ∈ f.marks, x ∈ ps ↔ x ∈ f.atRules Keyword.placeholder) :
    f.fillAt ps content φ = (f.map φ).fill content := by
  induction f with
  | nil => rfl
  | cons a k s below rest hb hr =>
    obtain ⟨ha, hf⟩ := List.nodup_cons.mp hf
    obtain ⟨hnb, hnr, hd⟩ := List.nodup_append.mp hf
    have hbelow := (below.atRules_sublist_marks Keyword.placeholder).subset
    have hrest := (rest.atRules_sublist_marks Keyword.placeholder).subset
    simp only [marks, atRules, List.mem_cons, List.mem_append] at h ha
    have hhead : a ∈ ps ↔ k.isAtRule Keyword.placeholder := by
      rw [h a (Or.inl rfl)]
      have hn : a ∉ below.atRules Keyword.placeholder ∧ a ∉ rest.atRules Keyword.placeholder :=
        ⟨fun m => ha (Or.inl (hbelow m)), fun m => ha (Or.inr (hrest m))⟩
      by_cases hk : k.isAtRule Keyword.placeholder <;> simp [hk, hn]
    have hb := hb hnb fun x hx => by
      rw [h x (Or.inr (Or.inl hx))]
      constructor
      · rintro ((hm | hm) | hm)
        · split at hm
          · exact absurd (Or.inl ((List.mem_singleton.mp hm) ▸ hx)) ha
          · simp at hm
        · exact hm
        · exact absurd rfl (hd x hx x (hrest hm))
      · exact fun hm => Or.inl (Or.inr hm)
    have hr := hr hnr fun x hx => by
      rw [h x (Or.inr (Or.inr hx))]
      constructor
      · rintro ((hm | hm) | hm)
        · split at hm
          · exact absurd (Or.inr ((List.mem_singleton.mp hm) ▸ hx)) ha
          · simp at hm
        · exact absurd rfl (hd x (hbelow hm) x hx)
        · exact hm
      · exact Or.inr
    by_cases hk : k.isAtRule Keyword.placeholder
    · rw [fillAt, if_pos (hhead.mpr hk), map, fill, if_pos hk, hr]
    · rw [fillAt, if_neg (mt hhead.mp hk), map, fill, if_neg hk, hb, hr]

end FillAt

/-- One forest in place of the first placeholder, another in place of every further outermost one. -/
def fillFirst : Forest α → (first others : Forest α) → Forest α
  | nil, _, _ => nil
  | cons a k s below rest, first, others =>
    if k.isAtRule Keyword.placeholder then first ++ rest.fill others
    else if (below.atRules Keyword.placeholder).isEmpty then cons a k s below (rest.fillFirst first others)
    else cons a k s (below.fillFirst first others) (rest.fill others)

theorem fillFirst_of_atRules_eq_nil {f : Forest α} (h : f.atRules Keyword.placeholder = []) (first others : Forest α) :
    f.fillFirst first others = f := by
  induction f with
  | nil => rfl
  | cons a k s below rest _ hr =>
    simp only [atRules, List.append_eq_nil_iff] at h
    have hk : k.isAtRule Keyword.placeholder = false := by simpa using h.1.1
    simp [fillFirst, hk, h.1.2, hr h.2]

theorem elements_fillFirst {first others : Forest α} (h : first.elements = others.elements) (f : Forest α) :
    (f.fillFirst first others).elements = Element.filled others.elements f.elements := by
  induction f with
  | nil => rfl
  | cons a k s below rest hb hr =>
    by_cases hk : k.isAtRule Keyword.placeholder
    · simp [fillFirst, elements, Element.filled_cons, hk, h, elements_fill]
    · by_cases hB : below.atRules Keyword.placeholder = []
      · have hbelow := elements_fill below others
        rw [fill_of_atRules_eq_nil hB] at hbelow
        simp [fillFirst, elements, Element.filled_cons, hk, hB, hr, ← hbelow]
      · simp [fillFirst, elements, Element.filled_cons, hk, hB, hb, elements_fill]

/-- Putting a forest in place of the first placeholder and then another in place of the further ones. -/
theorem fillAt_replace_first [DecidableEq α] {p : α} {ps : List α} {n : Forest α} {content : Forest β} {φ : α → β}
    {f : Forest α} (hf : f.marks.Nodup) (hps : f.atRules Keyword.placeholder = p :: ps) (hn : ∀ x ∈ n.marks, x ∉ ps) :
    (f.replace p n).fillAt ps content φ = (f.map φ).fillFirst (n.map φ) content := by
  induction f generalizing ps with
  | nil => simp [atRules] at hps
  | cons a k s below rest hb hr =>
    obtain ⟨ha, hf⟩ := List.nodup_cons.mp hf
    obtain ⟨hnb, hnr, hd⟩ := List.nodup_append.mp hf
    simp only [List.mem_append, not_or] at ha
    have hbelow := (below.atRules_sublist_marks Keyword.placeholder).subset
    have hrest := (rest.atRules_sublist_marks Keyword.placeholder).subset
    -- Behind the first placeholder the others are filled as if it were not there.
    have hfill : ∀ qs, (∀ x ∈ qs, x ∈ below.marks) → p ∉ rest.marks →
        (rest.replace p n).fillAt (qs ++ rest.atRules Keyword.placeholder) content φ = (rest.map φ).fill content := by
      intro qs hqs hp
      rw [replace_of_not_mem _ hp]
      refine fillAt_of_mem_iff hnr fun x hx => ?_
      rw [List.mem_append, or_iff_right fun hm => hd x (hqs x hm) x hx rfl]
    by_cases hk : k.isAtRule Keyword.placeholder
    · obtain ⟨rfl, rfl⟩ : a = p ∧ below.atRules Keyword.placeholder ++ rest.atRules Keyword.placeholder = ps := by
        simpa [atRules, hk] using hps
      rw [replace, if_pos rfl, fillAt_append, fillAt_of_disjoint hn, hfill _ (fun x => @hbelow x) ha.2, map, fillFirst,
        if_pos hk]
    · cases hB : below.atRules Keyword.placeholder with
      | nil =>
        have hps : rest.atRules Keyword.placeholder = p :: ps := by simpa [atRules, hk, hB] using hps
        have hmem : ∀ x ∈ p :: ps, x ∈ rest.marks := fun x hx => hrest (hps ▸ hx)
        have hap : a ≠ p := fun e => ha.2 (e ▸ hmem p (by simp))
        have hnot : p ∉ below.marks := fun hm => hd p hm p (hmem p (by simp)) rfl
        rw [replace, if_neg hap, fillAt, if_neg fun hm => ha.2 (hmem a (by simp [hm])), replace_of_not_mem _ hnot,
          fillAt_of_disjoint fun x hx hm => hd x hx x (hmem x (by simp [hm])) rfl, hr hnr hps hn, map, fillFirst, if_neg hk,
          atRules_map, hB, List.map_nil, if_pos List.isEmpty_nil]
      | cons q qs =>
        obtain ⟨rfl, rfl⟩ : q = p ∧ qs ++ rest.atRules Keyword.placeholder = ps := by
          simpa [atRules, hk, hB] using hps
        have hmem : ∀ x ∈ q :: qs, x ∈ below.marks := fun x hx => hbelow (hB ▸ hx)
        have haq : a ≠ q := fun e => ha.1 (e ▸ hmem q (by simp))
        have hat : a ∉ qs ++ rest.atRules Keyword.placeholder := by
          rw [List.mem_append]
          exact fun hm => hm.elim (fun hm => ha.1 (hmem a (by simp [hm]))) fun hm => ha.2 (hrest hm)
        have hinner : (below.replace q n).fillAt (qs ++ rest.atRules Keyword.placeholder) content φ =
            (below.replace q n).fillAt qs content φ := by
          refine fillAt_congr fun x hx => ?_
          rw [List.mem_append, or_iff_left fun hm => ?_]
          rcases mem_marks_of_replace hx with hx | hx
          · exact hd x hx.1 x (hrest hm) rfl
          · exact hn x hx (by simp [hm])
        rw [replace, if_neg haq, fillAt, if_neg hat, hinner, hb hnb hB fun x hx hm => hn x hx (by simp [hm]),
          hfill qs (fun x hx => hmem x (by simp [hx])) fun hm => hd q (hmem q (by simp)) q hm rfl, map, fillFirst, if_neg hk,
          atRules_map, hB, List.map_cons, if_neg (by simp)]

/-- Only what was put in still has placeholders. -/
theorem mem_atRules_fill {f content : Forest α} {x : α} (h : x ∈ (f.fill content).atRules Keyword.placeholder) :
    x ∈ content.atRules Keyword.placeholder := by
  induction f with
  | nil => simp [fill, atRules] at h
  | cons a k s below rest hb hr =>
    by_cases hk : k.isAtRule Keyword.placeholder
    · simp only [fill, hk, if_true, atRules_append, List.mem_append] at h
      exact h.elim id hr
    · simp only [fill, hk, Bool.false_eq_true, if_false, atRules, List.nil_append, List.mem_append] at h
      exact h.elim hb hr

theorem mem_atRules_fillFirst {f first others : Forest α} {x : α}
    (h : x ∈ (f.fillFirst first others).atRules Keyword.placeholder) :
    x ∈ first.atRules Keyword.placeholder ∨ x ∈ others.atRules Keyword.placeholder := by
  induction f with
  | nil => simp [fillFirst, atRules] at h
  | cons a k s below rest hb hr =>
    by_cases hk : k.isAtRule Keyword.placeholder
    · simp only [fillFirst, hk, if_true, atRules_append, List.mem_append] at h
      exact h.imp_right mem_atRules_fill
    · by_cases hB : below.atRules Keyword.placeholder = []
      · simp only [fillFirst, hk, Bool.false_eq_true, if_false, hB, List.isEmpty_nil, if_true, atRules, List.nil_append] at h
        exact hr h
      · simp only [fillFirst, hk, Bool.false_eq_true, if_false, List.isEmpty_iff, hB, atRules, List.nil_append,
          List.mem_append] at h
        exact h.elim hb fun h => Or.inr (mem_atRules_fill h)

end Forest

end StyleMixins
