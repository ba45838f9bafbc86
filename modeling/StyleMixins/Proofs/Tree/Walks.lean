import StyleMixins.Proofs.Tree.Layout

namespace StyleMixins.Tree

variable {t : Tree} {root x y : Nat} {f : Forest NodeId}

theorem walk_nil (t : Tree) (fuel : Nat) : t.walk fuel [] = [] := by
  cases fuel <;> rfl

theorem Shows.walk (h : t.Shows f) {fuel : Nat} (hf : f.marks.length ≤ fuel) (stack : List NodeId) :
    t.walk fuel (f.tops ++ stack) = f.marks ++ t.walk (fuel - f.marks.length) stack := by
  induction f generalizing fuel stack with
  | nil => simp [Forest.tops, Forest.marks]
  | cons id k s below rest hb hr =>
    obtain ⟨⟨_, _, hc⟩, h4, h5⟩ := h
    simp only [Forest.marks, List.length_cons, List.length_append] at hf ⊢
    obtain ⟨n, rfl⟩ : ∃ n, fuel = n + 1 := ⟨fuel - 1, by omega⟩
    have e : n + 1 - (below.marks.length + rest.marks.length + 1) =
        n - below.marks.length - rest.marks.length := by omega
    rw [Forest.tops, List.cons_append, Tree.walk, hc, hb h4 (by omega), hr h5 (by omega), e,
      List.cons_append, List.append_assoc]

theorem Shows.descendants (h : t.Shows f) (hc : t.children x = f.tops) (hf : f.marks.length ≤ t.size) :
    t.descendants x = f.marks := by
  have hw := h.walk hf []
  rw [List.append_nil, walk_nil, List.append_nil] at hw
  rw [Tree.descendants, hc, hw]

theorem isAtRule_of_kind? {k : Kind} (h : t.kind? y = some k) (name : String) :
    t.isAtRule y name = k.isAtRule name := by
  obtain ⟨n, hn, rfl⟩ := Option.map_eq_some_iff.mp h
  simp [isAtRule, hn]

theorem Shows.filter_isAtRule (h : t.Shows f) (name : String) :
    (f.marks.filter fun y => t.isAtRule y name) = f.atRules name := by
  induction f with
  | nil => rfl
  | cons id k s below rest hb hr =>
    obtain ⟨⟨hk, _, _⟩, h4, h5⟩ := h
    rw [Forest.marks, List.filter_cons, List.filter_append, hb h4, hr h5, isAtRule_of_kind? hk, Forest.atRules]
    by_cases hn : k.isAtRule name <;> simp [hn]

theorem Shows.mem_atRules (h : t.Shows f) {name : String} :
    y ∈ f.atRules name ↔ y ∈ f.marks ∧ t.isAtRule y name := by
  rw [← h.filter_isAtRule, List.mem_filter]

theorem Shows.atRules (h : t.Shows f) (hc : t.children x = f.tops) (hf : f.marks.length ≤ t.size)
    (name : String) : t.atRules x name = f.atRules name := by
  rw [Tree.atRules, h.descendants hc hf, h.filter_isAtRule]

theorem Hangs.length_le (h : t.Hangs root f) (hl : t.Linked) : f.marks.length ≤ t.size :=
  h.shows.length_le (h.nodup hl)

theorem Hangs.descendants (h : t.Hangs root f) (hl : t.Linked) : t.descendants root = f.marks :=
  h.shows.descendants h.children_eq (h.length_le hl)

theorem Hangs.atRules (h : t.Hangs root f) (hl : t.Linked) (name : String) :
    t.atRules root name = f.atRules name :=
  h.shows.atRules h.children_eq (h.length_le hl) name

theorem Hangs.mem_atRules (h : t.Hangs root f) (hl : t.Linked) {name : String} :
    y ∈ t.atRules root name ↔ y ∈ f.marks ∧ t.isAtRule y name := by
  rw [h.atRules hl, h.shows.mem_atRules]

theorem search_eq_find? (t : Tree) (name : String) (fuel : Nat) (stack : List NodeId) :
    t.search name fuel stack = (t.walk fuel stack).find? fun id => t.isAtRule id name := by
  induction fuel generalizing stack with
  | zero => rfl
  | succ fuel ih =>
    cases stack with
    | nil => rfl
    | cons id stack =>
      rw [search, walk, List.find?_cons]
      cases hid : t.isAtRule id name with
      | true => rfl
      | false => simpa using ih _

/-- The search that stops at the first hit finds the first at-rule of all. -/
theorem firstAtRule_eq_head? (t : Tree) (id : NodeId) (name : String) :
    t.firstAtRule id name = (t.atRules id name).head? := by
  rw [firstAtRule, search_eq_find?, atRules, descendants, List.head?_filter]

theorem climb_mono {n m : Nat} (h : n ≤ m) (hc : t.climb root n y = true) : t.climb root m y = true := by
  induction n generalizing m y with
  | zero =>
    have e : y = root := by simpa [climb] using hc
    cases m <;> simp [climb, e]
  | succ n ih =>
    obtain ⟨m, rfl⟩ : ∃ k, m = k + 1 := ⟨m - 1, by omega⟩
    simp only [climb, Bool.or_eq_true, beq_iff_eq] at hc ⊢
    refine hc.imp_right fun hc => ?_
    split at hc
    next p hp => simpa [hp] using ih (by omega) hc
    next => simp at hc

theorem Shows.climb (h : t.Shows f) (hl : t.Linked) {q : NodeId} {n : Nat}
    (htop : ∀ y ∈ f.tops, t.parent? y = some q) (hq : t.climb root n q = true) :
    ∀ y ∈ f.marks, t.climb root (n + f.marks.length) y = true := by
  induction f generalizing q n with
  | nil => simp [Forest.marks]
  | cons id k s below rest hb hr =>
    obtain ⟨⟨_, _, hc⟩, h4, h5⟩ := h
    simp only [Forest.marks, Forest.tops, List.mem_cons, List.mem_append, List.length_cons,
      List.length_append] at htop ⊢
    have hid : t.climb root (n + 1) id = true := by
      simp [Tree.climb, htop id (Or.inl rfl), hq]
    rintro y (rfl | hy | hy)
    · exact climb_mono (by omega) hid
    · exact climb_mono (by omega)
        (hb h4 (fun z hz => (hl.mem_children id z).mp (hc ▸ hz)) hid y hy)
    · exact climb_mono (by omega) (hr h5 (fun z hz => htop z (Or.inr hz)) hq y hy)

theorem Hangs.mem_of_climb (h : t.Hangs root f) (hl : t.Linked) {n : Nat} (hc : t.climb root n y = true) :
    y ∈ root :: f.marks := by
  induction n generalizing y with
  | zero =>
    have e : y = root := by simpa [climb] using hc
    simp [e]
  | succ n ih =>
    simp only [climb, Bool.or_eq_true, beq_iff_eq] at hc
    rcases hc with rfl | hc
    · simp
    · split at hc
      next p hp => exact List.mem_cons_of_mem _ (h.child_mem (ih hc) ((hl.mem_children p y).mpr hp))
      next => simp at hc

theorem Hangs.isAttached_iff (h : t.Hangs root f) (hl : t.Linked) :
    t.isAttached y root = true ↔ y ∈ root :: f.marks := by
  constructor
  · exact h.mem_of_climb hl
  · intro hy
    rcases List.mem_cons.mp hy with rfl | hy
    · exact climb_mono (Nat.zero_le _) (by simp [climb])
    · have htop : ∀ z ∈ f.tops, t.parent? z = some root := fun z hz =>
        (hl.mem_children root z).mp (h.children_eq ▸ hz)
      have hroot : t.climb root 0 root = true := by simp [climb]
      have hc := h.shows.climb hl htop hroot y hy
      exact climb_mono (by simpa using h.length_le hl) hc

theorem Shows.filterMap_elementTo (h : t.Shows f) {fuel : Nat} (hf : f.marks.length ≤ fuel) :
    f.tops.filterMap (t.elementTo fuel) = f.elements := by
  induction f generalizing fuel with
  | nil => rfl
  | cons id k s below rest hb hr =>
    obtain ⟨⟨hk, hs, hc⟩, h4, h5⟩ := h
    simp only [Forest.marks, List.length_cons, List.length_append] at hf
    obtain ⟨m, rfl⟩ : ∃ m, fuel = m + 1 := ⟨fuel - 1, by omega⟩
    obtain ⟨n, hn, rfl⟩ := Option.map_eq_some_iff.mp hk
    have hsource : n.source = s := by simpa [source?, hn] using hs
    have hchildren : n.children = below.tops := by simpa [children, hn] using hc
    have hid : t.elementTo (m + 1) id = some (.mk n.kind s below.elements) := by
      simp [elementTo, hn, hsource, hchildren, hb h4 (show below.marks.length ≤ m by omega)]
    rw [Forest.tops, Forest.elements, List.filterMap_cons_some hid, hr h5 (by omega)]

theorem Shows.element?_eq {k : Kind} {s : Option Source} {below rest : Forest NodeId}
    (h : t.Shows (.cons x k s below rest)) (hf : below.marks.length < t.size) :
    t.element? x = some (.mk k s below.elements) := by
  have hs : t.Shows (.cons x k s below .nil) := ⟨h.1, h.2.1, trivial⟩
  have hlen : (Forest.cons x k s below .nil).marks.length ≤ t.size := by
    simp only [Forest.marks, List.append_nil, List.length_cons]
    omega
  have he := hs.filterMap_elementTo hlen
  simp only [Forest.tops, Forest.elements] at he
  rw [Tree.element?]
  cases hx : t.elementTo t.size x with
  | none => simp [hx] at he
  | some e => simpa [List.filterMap_cons_some hx] using he

theorem Shows.forest_eq (h : t.Shows f) (hc : t.children x = f.tops) (hf : f.marks.length ≤ t.size) :
    t.forest x = f.elements := by
  rw [Tree.forest, hc]
  exact h.filterMap_elementTo hf

theorem Hangs.forest_eq (h : t.Hangs root f) (hl : t.Linked) : t.forest root = f.elements :=
  h.shows.forest_eq h.children_eq (h.length_le hl)

end StyleMixins.Tree
