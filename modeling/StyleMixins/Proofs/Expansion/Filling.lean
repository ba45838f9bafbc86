import StyleMixins.Proofs.Expansion.Placement
import StyleMixins.Proofs.Forest.Fill

namespace StyleMixins.Tree

variable {t u : Tree} {proxy p : Nat} {region ps : List NodeId} {content placed before after : Forest NodeId}

/-- Placeholders `ps` were filled with copies of the content, in what hangs from `proxy`. Only the child lists
of a region changed. -/
structure FilledByCopies (t : Tree) (proxy : Nat) (region ps : List NodeId)
    (content before placed after : Forest NodeId) (u : Tree) : Prop where
  linked : u.Linked
  grows : t.Grows u
  hangs : u.Hangs proxy after
  shows : u.Shows placed
  fresh : ∀ y ∈ placed.marks, t.size ≤ y
  nodup : placed.marks.Nodup
  marks : ∀ y ∈ after.marks, y ∈ before.marks ∨ y ∈ placed.marks
  map_eq : ∀ {α : Type} (φ : NodeId → α) (b : α), (∀ y, t.size ≤ y → φ y = b) →
    after.map φ = before.fillAt ps (Forest.ofElements b content.elements) φ
  children : ∀ y < t.size, y ∉ region → u.children y = t.children y
  parent? : ∀ y < t.size, y ∉ ps → u.parent? y = t.parent? y
  elsewhere : ∀ root f, root < t.size → t.Hangs root f → (∀ p ∈ ps, p ∉ f.marks) → u.Hangs root f

theorem fillPlaceholders_cons (t : Tree) (ids : List NodeId) (own : Bool) (p : NodeId) (ps : List NodeId) :
    t.fillPlaceholders ids own (p :: ps) =
      ((((t.placeContent p own ids).1.detach p).fillPlaceholders ids false ps).1,
        (t.placeContent p own ids).2 ++
          (((t.placeContent p own ids).1.detach p).fillPlaceholders ids false ps).2) := rfl

section Copies

variable {z root y : Nat} {new f : Forest NodeId}

theorem Copied.children_detach (cp : t.Copied p z content new u) (hp : t.parent? p = some z) (hy : y < t.size)
    (hyz : y ≠ z) : (u.detach p).children y = t.children y := by
  have hpu : u.parent? p = some z := (cp.parent? p (lt_size_of_parent? hp)).trans hp
  rw [cp.linked.children_detach_of_ne (by rw [hpu]; simpa using Ne.symm hyz), cp.children y hy hyz]

theorem Copied.parent?_detach (cp : t.Copied p z content new u) (hy : y < t.size) (hyp : y ≠ p) :
    (u.detach p).parent? y = t.parent? y := by
  rw [Tree.parent?_detach, if_neg hyp, cp.parent? y hy]

theorem Copied.not_mem (cp : t.Copied p z content new u) (hp : t.parent? p = some z) : p ∉ new.marks :=
  fun hm => absurd (cp.fresh p hm) (Nat.not_le.mpr (lt_size_of_parent? hp))

theorem Copied.shows_detach (cp : t.Copied p z content new u) (hp : t.parent? p = some z) :
    (u.detach p).Shows new := by
  have h := cp.shows.detach cp.linked p
  rwa [Forest.replace_of_not_mem _ (cp.not_mem hp)] at h

theorem Copied.hangs_detach (cp : t.Copied p z content new u) (hp : t.parent? p = some z) (hr : root < t.size)
    (hf : t.Hangs root f) : (u.detach p).Hangs root (f.replace p new) := by
  have h := (cp.put root f hr hf).detach cp.linked p
  rwa [Forest.replace_putBefore _ _ (cp.not_mem hp), Forest.append_nil] at h

theorem filledByCopies_nil (hl : t.Linked) (hh : t.Hangs proxy before) :
    t.FilledByCopies proxy region [] content before .nil before t where
  linked := hl
  grows := .refl t
  hangs := hh
  shows := trivial
  fresh := by simp [Forest.marks]
  nodup := by simp [Forest.marks]
  marks _ hy := Or.inl hy
  map_eq φ b _ := by rw [Forest.fillAt_of_disjoint (by simp)]
  children _ _ _ := rfl
  parent? _ _ _ := rfl
  elsewhere _ _ _ hf _ := hf

/-- The first placeholder, and then the others. -/
theorem FilledByCopies.cons {v : Tree} (cp : t.Copied p z content new u) (hp : t.parent? p = some z)
    (hz : z ∈ region) (hreg : ∀ z ∈ region, z < t.size) (hps : ∀ q ∈ ps, q < t.size)
    (fl : (u.detach p).FilledByCopies proxy region ps content (before.replace p new) placed after v) :
    t.FilledByCopies proxy region (p :: ps) content before (new ++ placed) after v := by
  have hg : t.Grows (u.detach p) := cp.grows.trans (grows_detach u p)
  have hle := hg.size_le
  have hnew := cp.shows_detach hp
  refine ⟨fl.linked, hg.trans fl.grows, fl.hangs, shows_append.mpr ⟨?_, fl.shows⟩, ?_, ?_, ?_, ?_, ?_, ?_, ?_⟩
  · refine hnew.grows fl.grows fun y hy => fl.children y (hnew.lt_size hy) fun hm => ?_
    exact absurd (cp.fresh y hy) (Nat.not_le.mpr (hreg y hm))
  · intro y hy
    rcases List.mem_append.mp (Forest.marks_append _ _ ▸ hy) with hy | hy
    · exact cp.fresh y hy
    · exact Nat.le_trans hle (fl.fresh y hy)
  · rw [Forest.marks_append]
    refine List.nodup_append.mpr ⟨cp.nodup, fl.nodup, ?_⟩
    rintro y hy w hw rfl
    exact absurd (fl.fresh y hw) (Nat.not_le.mpr (hnew.lt_size hy))
  · intro y hy
    rw [Forest.marks_append, List.mem_append]
    rcases fl.marks y hy with hy | hy
    · rcases Forest.mem_marks_of_replace hy with hy | hy
      · exact Or.inl hy.1
      · exact Or.inr (Or.inl hy)
    · exact Or.inr (Or.inr hy)
  · intro α φ b hfresh
    have hcopy : new.map φ = Forest.ofElements b content.elements := by
      rw [← cp.elements_eq]
      exact Forest.map_eq_ofElements fun y hy => hfresh y (cp.fresh y hy)
    rw [fl.map_eq φ b (fun y hy => hfresh y (Nat.le_trans hle hy))]
    refine Forest.fillAt_replace before hcopy fun y hy hm => ?_
    exact absurd (cp.fresh y hy) (Nat.not_le.mpr (hps y hm))
  · intro y hy hyr
    rw [fl.children y (Nat.lt_of_lt_of_le hy hle) hyr, cp.children_detach hp hy fun e => hyr (e ▸ hz)]
  · intro y hy hyp
    simp only [List.mem_cons, not_or] at hyp
    rw [fl.parent? y (Nat.lt_of_lt_of_le hy hle) hyp.2, cp.parent?_detach hy hyp.1]
  · intro root f hr hf hpf
    have h := cp.hangs_detach hp hr hf
    rw [Forest.replace_of_not_mem _ (hpf p (by simp))] at h
    exact fl.elsewhere root f (Nat.lt_of_lt_of_le hr hle) h fun q hq => hpf q (by simp [hq])

end Copies

theorem fillPlaceholders_copies (hl : t.Linked) (hs : t.Shows content) (hn : content.marks.Nodup)
    (hproxy : proxy < t.size) (hh : t.Hangs proxy before) (hps : ps.Nodup)
    (hpar : ∀ p ∈ ps, ∃ z ∈ region, t.parent? p = some z)
    (hreg : ∀ z ∈ region, z < t.size ∧ z ∉ content.marks) :
    ∃ u placed after, t.fillPlaceholders content.tops false ps = (u, placed.tops) ∧
      t.FilledByCopies proxy region ps content before placed after u := by
  induction ps generalizing t before with
  | nil => exact ⟨t, .nil, before, rfl, filledByCopies_nil hl hh⟩
  | cons p ps ih =>
    obtain ⟨hpps, hps⟩ := List.nodup_cons.mp hps
    obtain ⟨z, hz, hp⟩ := hpar p (by simp)
    obtain ⟨t₁, new, h₁, cp⟩ := placeContent_copies hl hs hn (hreg z hz).2 hp
    have hg : t.Grows (t₁.detach p) := cp.grows.trans (grows_detach t₁ p)
    have hlt : ∀ q ∈ ps, q < t.size := by
      intro q hq
      obtain ⟨w, _, hqw⟩ := hpar q (by simp [hq])
      exact lt_size_of_parent? hqw
    have hcontent : (t₁.detach p).Shows content := hs.grows hg fun y hy =>
      cp.children_detach hp (hs.lt_size hy) fun e => (hreg z hz).2 (e ▸ hy)
    obtain ⟨u, placed, after, hu, fl⟩ := ih (cp.linked.detach p) hcontent
      (Nat.lt_of_lt_of_le hproxy hg.size_le) (cp.hangs_detach hp hproxy hh) hps
      (fun q hq => by
        obtain ⟨w, hw, hqw⟩ := hpar q (by simp [hq])
        exact ⟨w, hw, by rw [cp.parent?_detach (hlt q hq) fun e => hpps (e ▸ hq), hqw]⟩)
      (fun w hw => ⟨Nat.lt_of_lt_of_le (hreg w hw).1 hg.size_le, (hreg w hw).2⟩)
    refine ⟨u, new ++ placed, after, ?_, .cons cp hp hz (fun w hw => (hreg w hw).1) hlt fl⟩
    rw [fillPlaceholders_cons, h₁, hu, Forest.tops_append]

/-- Placeholders `ps` were filled with the children of the call `c`: the first with the nodes themselves, the
others with copies. Around the call nothing has changed. -/
structure FilledByContent (t : Tree) (root proxy c : Nat) (ps : List NodeId)
    (f content before f' placed after : Forest NodeId) (u : Tree) : Prop where
  linked : u.Linked
  grows : t.Grows u
  hangs : u.Hangs proxy after
  shows : u.Shows placed
  nodup : placed.marks.Nodup
  placed_marks : ∀ y ∈ placed.marks, y ∈ content.marks ∨ t.size ≤ y
  marks : ∀ y ∈ after.marks, y ∈ before.marks ∨ y ∈ placed.marks
  map_eq : ∀ (φ : NodeId → Nat) (b : Nat), (∀ y, t.size ≤ y → φ y = b) → (∀ y ∈ content.marks, φ y = b) →
    after.map φ = before.fillAt ps (content.map φ) φ
  call_hangs : u.Hangs root f'
  around : ∀ g, f'.replace c g = f.replace c g
  subset : f'.marks ⊆ f.marks
  parent? : u.parent? c = t.parent? c

theorem filledByContent_nil {root c : Nat} {f : Forest NodeId} (hl : t.Linked) (hh : t.Hangs proxy before)
    (hf : t.Hangs root f) : t.FilledByContent root proxy c [] f content before f .nil before t where
  linked := hl
  grows := .refl t
  hangs := hh
  shows := trivial
  nodup := by simp [Forest.marks]
  placed_marks := by simp [Forest.marks]
  marks _ hy := Or.inl hy
  map_eq φ b _ _ := by rw [Forest.fillAt_of_disjoint (by simp)]
  call_hangs := hf
  around _ := rfl
  subset := List.Subset.refl _
  parent? := rfl

section Content

variable {z root c : Nat} {f : Forest NodeId}

theorem Moved.shows_detach (mv : t.Moved p z content u) (hp : t.parent? p = some z) (hpc : p ∉ content.marks)
    (hz : z ∉ content.marks) : (u.detach p).Shows content := by
  have hpu : u.parent? p = some z := (mv.parent? p fun hm => hpc (content.tops_subset_marks hm)).trans hp
  refine mv.shows.grows (grows_detach u p) fun y hy => mv.linked.children_detach_of_ne ?_
  rw [hpu]
  exact fun e => hz (Option.some.inj e ▸ hy)

theorem Moved.hangs_detach (mv : t.Moved p z content u) (hpc : p ∉ content.marks) (hh : t.Hangs proxy before)
    (hproxy : proxy ∉ content.marks) (hbefore : ∀ y ∈ content.marks, y ∉ before.marks) :
    (u.detach p).Hangs proxy (before.replace p content) := by
  have h := (mv.put proxy before hh hproxy hbefore).detach mv.linked p
  rwa [Forest.replace_putBefore _ _ hpc, Forest.append_nil] at h

theorem Moved.parent?_detach {y : Nat} (mv : t.Moved p z content u) (hy : y ∉ content.marks) (hyp : y ≠ p) :
    (u.detach p).parent? y = t.parent? y := by
  rw [Tree.parent?_detach, if_neg hyp, mv.parent? y fun hm => hy (content.tops_subset_marks hm)]

theorem FilledByCopies.after_content {v : Tree} {f' : Forest NodeId}
    (fl : u.FilledByCopies proxy region ps content (before.replace p content) placed after v)
    (hg : t.Grows u) (hsize : u.size = t.size) (hs : u.Shows content) (hn : content.marks.Nodup)
    (hreg : ∀ z ∈ region, z ∉ content.marks) (hpc : ∀ q ∈ ps, q ∉ content.marks)
    (hf : v.Hangs root f') (haround : ∀ g, f'.replace c g = f.replace c g) (hsub : f'.marks ⊆ f.marks)
    (hc : v.parent? c = t.parent? c) :
    t.FilledByContent root proxy c (p :: ps) f content before f' (content ++ placed) after v := by
  have hcontent : v.Shows content := hs.grows fl.grows fun y hy =>
    fl.children y (hs.lt_size hy) fun hm => hreg y hm hy
  refine ⟨fl.linked, hg.trans fl.grows, fl.hangs, shows_append.mpr ⟨hcontent, fl.shows⟩, ?_, ?_, ?_, ?_, hf, haround,
    hsub, hc⟩
  · rw [Forest.marks_append]
    refine List.nodup_append.mpr ⟨hn, fl.nodup, ?_⟩
    rintro y hy w hw rfl
    exact absurd (fl.fresh y hw) (Nat.not_le.mpr (hs.lt_size hy))
  · intro y hy
    rcases List.mem_append.mp (Forest.marks_append _ _ ▸ hy) with hy | hy
    · exact Or.inl hy
    · exact Or.inr (hsize ▸ fl.fresh y hy)
  · intro y hy
    rw [Forest.marks_append, List.mem_append]
    rcases fl.marks y hy with hy | hy
    · rcases Forest.mem_marks_of_replace hy with hy | hy
      · exact Or.inl hy.1
      · exact Or.inr (Or.inl hy)
    · exact Or.inr (Or.inr hy)
  · intro φ b hfresh hb
    rw [fl.map_eq φ b (fun y hy => hfresh y (hsize ▸ hy)), ← Forest.map_eq_ofElements hb]
    exact Forest.fillAt_replace before rfl fun y hy hm => hpc y hm hy

/-- The content moves to the first placeholder, and the others get copies of it. -/
theorem fillPlaceholders_own (hl : t.Linked) (hs : t.Shows content) (hn : content.marks.Nodup) (hproxy : proxy < t.size)
    (hh : t.Hangs proxy before) (hps : (p :: ps).Nodup) (hpar : ∀ q ∈ p :: ps, ∃ z ∈ region, t.parent? q = some z)
    (hreg : ∀ z ∈ region, z < t.size ∧ z ∉ content.marks) (hpc : ∀ q ∈ p :: ps, q ∉ content.marks)
    (hproxyc : proxy ∉ content.marks) (hbefore : ∀ y ∈ content.marks, y ∉ before.marks) :
    ∃ t₁ u z placed after, t.fillPlaceholders content.tops true (p :: ps) = (u, (content ++ placed).tops) ∧
      t.Moved p z content t₁ ∧ (t₁.detach p).Shows content ∧
      (t₁.detach p).FilledByCopies proxy region ps content (before.replace p content) placed after u := by
  obtain ⟨hpps, hps⟩ := List.nodup_cons.mp hps
  obtain ⟨z, hz, hp⟩ := hpar p (by simp)
  have hpK := hpc p (by simp)
  obtain ⟨t₁, h₁, mv⟩ := placeContent_own hl hs hn hpK hp
  have hsize : (t₁.detach p).size = t.size := (size_detach t₁ p).trans mv.size_eq
  have hcontent := mv.shows_detach hp hpK (hreg z hz).2
  obtain ⟨u, placed, after, hu, fl⟩ := fillPlaceholders_copies (mv.linked.detach p) hcontent hn
    (hsize ▸ hproxy) (mv.hangs_detach hpK hh hproxyc hbefore) hps
    (fun q hq => by
      obtain ⟨w, hw, hqw⟩ := hpar q (by simp [hq])
      exact ⟨w, hw, by rw [mv.parent?_detach (hpc q (by simp [hq])) fun e => hpps (e ▸ hq), hqw]⟩)
    (fun w hw => ⟨hsize ▸ (hreg w hw).1, (hreg w hw).2⟩)
  refine ⟨t₁, u, z, placed, after, ?_, mv, hcontent, fl⟩
  rw [fillPlaceholders_cons, h₁, hu, Forest.tops_append]

theorem fillPlaceholders_content (hl : t.Linked) (hs : t.Shows content)
    (hn : content.marks.Nodup) (hproxy : proxy < t.size) (hh : t.Hangs proxy before) (hps : ps.Nodup)
    (hpar : ∀ p ∈ ps, ∃ z ∈ region, t.parent? p = some z)
    (hreg : ∀ z ∈ region, z < t.size ∧ z ∉ content.marks) (hpc : ∀ p ∈ ps, p ∉ content.marks)
    (hproxyc : proxy ∉ content.marks) (hbefore : ∀ y ∈ content.marks, y ∉ before.marks)
    (hroot : root < t.size) (hf : t.Hangs root f) (hpf : ∀ p ∈ ps, p ∉ f.marks) (hrc : root ∉ content.marks)
    (hc : c ∈ f.marks) (hcc : c ∉ content.marks)
    (houtside : ∀ y ∈ content.marks, y ∉ (f.replace c .nil).marks) :
    ∃ u f' placed after, t.fillPlaceholders content.tops true ps = (u, placed.tops) ∧
      t.FilledByContent root proxy c ps f content before f' placed after u := by
  cases ps with
  | nil => exact ⟨t, f, .nil, before, rfl, filledByContent_nil hl hh hf⟩
  | cons p ps =>
    obtain ⟨t₁, u, z, placed, after, hu, mv, hcontent, fl⟩ :=
      fillPlaceholders_own hl hs hn hproxy hh hps hpar hreg hpc hproxyc hbefore
    have hsize : (t₁.detach p).size = t.size := (size_detach t₁ p).trans mv.size_eq
    obtain ⟨f', hf₁, haround, hsub⟩ := mv.take root f c hf hrc (hpf p (by simp)) fun x hx =>
      ⟨fun e => hcc (e ▸ content.tops_subset_marks hx), houtside x (content.tops_subset_marks hx)⟩
    have hf₂ : (t₁.detach p).Hangs root f' := by
      have h := hf₁.detach mv.linked p
      rwa [Forest.replace_of_not_mem _ fun hm => hpf p (by simp) (hsub hm)] at h
    have hcp : ∀ q ∈ p :: ps, c ≠ q := fun q hq e => hpf q hq (e ▸ hc)
    refine ⟨u, f', content ++ placed, after, hu, fl.after_content (mv.grows.trans (grows_detach t₁ p)) hsize hcontent hn
      (fun w hw => (hreg w hw).2) (fun q hq => hpc q (by simp [hq])) ?_ haround hsub ?_⟩
    · exact fl.elsewhere root f' (hsize ▸ hroot) hf₂ fun q hq hm => hpf q (by simp [hq]) (hsub hm)
    · rw [fl.parent? c (hsize ▸ hf.shows.lt_size hc) fun hm => hcp c (by simp [hm]) rfl,
        mv.parent?_detach hcc (hcp p (by simp))]

end Content

end StyleMixins.Tree
