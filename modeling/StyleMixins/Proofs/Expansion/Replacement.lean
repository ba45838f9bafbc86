import StyleMixins.Proofs.Expansion.Filling
import StyleMixins.Proofs.Expansion.InPlace
import StyleMixins.Proofs.Expansion.Reference
import StyleMixins.Proofs.Substitution.Subtree

namespace StyleMixins.Tree

variable {t u : Tree} {root proxy : Nat} {f f' g placed : Forest NodeId} {c : Site NodeId}

/-- The call `c`, the first below `root`, was replaced by `g`, in which the trees of `placed` came from inside
the call. -/
structure Replaced (t : Tree) (root : Nat) (f : Forest NodeId) (c : Site NodeId) (r : Tree × Inserted)
    (g placed : Forest NodeId) : Prop where
  linked : r.1.Linked
  grows : t.Grows r.1
  hangs : r.1.Hangs root (f.putFirst g)
  nodes : r.2.nodes = g.tops
  content : r.2.content = placed.tops
  shows : r.1.Shows placed
  nodup : placed.marks.Nodup
  marks : ∀ y ∈ g.marks, y ∈ c.below.marks ∨ t.size ≤ y
  old : ∀ y ∈ g.marks, y < t.size → y ∈ placed.marks

def depthIn (placed : Forest NodeId) (depth : Nat) (y : NodeId) : Nat :=
  if y ∈ placed.marks then depth else depth + 1

theorem Ready.replaced (h : u.Ready root proxy f f' g c.mark) (placed : Forest NodeId) (hg : t.Grows u)
    (hc : f.firstCall? = some c) (hn : f.marks.Nodup) (hs : u.Shows placed) (hproxy : proxy ∉ placed.marks)
    (hpar : ∀ y ∈ placed.marks, u.parent? c.mark ≠ some y) (hp : placed.marks.Nodup)
    (hmarks : ∀ y ∈ g.marks, y ∈ c.below.marks ∨ t.size ≤ y) (hold : ∀ y ∈ g.marks, y < t.size → y ∈ placed.marks) :
    t.Replaced root f c ((u.insertInPlace c.mark proxy).detach c.mark, ⟨u.children proxy, placed.tops⟩)
      g placed := by
  obtain ⟨hl, hgrows, hhangs, hshows⟩ := h.insertInPlace
  rw [← Forest.putFirst_eq_replace hn hc] at hhangs
  exact ⟨hl, hg.trans hgrows, hhangs, h.hangs.children_eq, rfl, hshows placed hs hproxy hpar, hp, hmarks, hold⟩

section Instances

variable {kind : Kind} {source : Option Source} {B : Forest NodeId}

theorem Grafted.bounds (h : t.Grafted kind source B u) {y : Nat} (hy : y ∈ t.size :: B.marks) :
    y < u.size ∧ t.size ≤ y := by
  rcases List.mem_cons.mp hy with rfl | hy
  · exact ⟨h.shows.lt_size (by simp [Forest.marks]), Nat.le_refl _⟩
  · exact ⟨h.hangs.shows.lt_size hy, Nat.le_of_lt (h.fresh y hy)⟩

theorem Grafted.hangs_before (h : t.Grafted kind source B u) (hf : t.Hangs root f) (hr : root < t.size) :
    u.Hangs root f := by
  refine hf.grows h.grows fun y hy => h.children y ?_
  rcases List.mem_cons.mp hy with rfl | hy
  · exact hr
  · exact hf.shows.lt_size hy

theorem Hangs.root_lt (h : t.Hangs root f) (hl : t.Linked) {y : Nat} (hy : y ∈ f.marks) : root < t.size := by
  cases f with
  | nil => simp [Forest.marks] at hy
  | cons id k s below rest =>
    have hid : id ∈ t.children root := by simp [h.children_eq, Forest.tops]
    exact hl.parent_lt ((hl.mem_children root id).mp hid)

/-- A grafted instance takes the place of the call as it is. -/
theorem Grafted.replaced (h : t.Grafted kind source B u) (hl : t.Linked) (hf : t.Hangs root f)
    (hc : f.firstCall? = some c) :
    t.Replaced root f c ((u.insertInPlace c.mark t.size).detach c.mark, ⟨u.children t.size, []⟩) B .nil := by
  have sep := hf.separate hl hc
  have hr := hf.root_lt hl sep.mem
  have ready : u.Ready root t.size f f B c.mark :=
    { linked := h.linked
      hangs := h.hangs
      call_hangs := h.hangs_before hf hr
      around := fun _ => rfl
      mem := sep.mem
      root_ne := Nat.ne_of_lt hr
      root_not_mem := fun hm => Nat.lt_asymm hr (h.fresh _ hm)
      proxy_not_mem := fun hm => Nat.lt_irrefl _ (hf.shows.lt_size hm) }
  exact ready.replaced .nil h.grows hc (hf.nodup hl) trivial (by simp [Forest.marks])
    (by simp [Forest.marks]) (by simp [Forest.marks]) (fun y hy => Or.inr (Nat.le_of_lt (h.fresh y hy)))
    fun y hy hlt => absurd (h.fresh y hy) (Nat.lt_asymm hlt)

theorem map_depthIn_nil (B : Forest NodeId) (d : Nat) :
    B.map (depthIn .nil d) = Forest.ofElements (d + 1) B.elements := by
  rw [← Forest.map_const]
  exact Forest.map_congr fun y _ => by simp [depthIn, Forest.marks]

theorem replaceByRecord_replaced (hl : t.Linked) (hf : t.Hangs root f) (hc : f.firstCall? = some c)
    (fields : Record) (τ : NodeId → Nat) :
    ∃ g placed, t.Replaced root f c (t.replaceByRecord c.mark fields) g placed ∧
      g.map (depthIn placed (τ c.mark)) = fields.laidOut (c.map τ) := by
  have call := hf.shows.hasCall hc
  obtain ⟨u, B, hu, he, h⟩ := hl.graft .root (t.source? c.mark) (Record.fieldElements (t.source? c.mark) fields)
  refine ⟨B, .nil, ?_, ?_⟩
  · rw [replaceByRecord, Record.fragment, hu]
    exact h.replaced hl hf hc
  · rw [map_depthIn_nil, he, call.source]
    rfl

/-- Placeholders lie in the instance, the content lies elsewhere. -/
theorem Grafted.fillPlaceholders (h : t.Grafted kind source B u) (hl : t.Linked) (hf : t.Hangs root f)
    (hc : f.firstCall? = some c) :
    ∃ v f' placed after, u.fillPlaceholders c.below.tops true (B.atRules Keyword.placeholder) = (v, placed.tops) ∧
      u.FilledByContent root t.size c.mark (B.atRules Keyword.placeholder) f c.below B f' placed after v := by
  have sep := hf.separate hl hc
  have hr := hf.root_lt hl sep.mem
  have call := hf.shows.hasCall hc
  have hold : ∀ y ∈ c.below.marks, y < t.size := fun y hy => call.shows.lt_size hy
  have hps := (B.atRules_sublist_marks Keyword.placeholder).subset
  have hproxy : t.size < u.size := (h.bounds (by simp)).1
  have hapart : ∀ y ∈ t.size :: B.marks, y ∉ c.below.marks := fun y hy hm =>
    absurd (hold y hm) (Nat.not_lt.mpr (h.bounds hy).2)
  refine fillPlaceholders_content h.linked ?_ sep.nodup hproxy h.hangs
    ((B.atRules_sublist_marks _).nodup h.nodup) (fun p hp => h.hangs.parent_mem h.linked (hps hp))
    (fun z hz => ⟨(h.bounds hz).1, hapart z hz⟩) (fun p hp => hapart p (by simp [hps hp])) (hapart _ (by simp))
    (fun y hy hm => hapart y (by simp [hm]) hy) (Nat.lt_trans hr hproxy) (h.hangs_before hf hr) ?_
    sep.root_not_mem sep.mem sep.not_mem sep.outside
  · exact call.shows.grows h.grows fun y hy => h.children y (hold y hy)
  · exact fun p hp hm => absurd (hf.shows.lt_size hm) (Nat.not_lt.mpr (Nat.le_of_lt (h.fresh p (hps hp))))

theorem FilledByContent.mem {ps : List NodeId} {after v : Forest NodeId} {w : Tree} {call : Nat}
    (h : u.FilledByContent root proxy call ps f v B f' placed after w) (hc : call ∈ f.marks) : call ∈ f'.marks := by
  by_contra hn
  have he := h.around (.cons call .root none .nil .nil)
  rw [Forest.replace_of_not_mem _ hn] at he
  exact hn (he ▸ Forest.mem_marks_replace hc (by simp [Forest.marks]))

theorem FilledByContent.replaced {v : Tree} {ps : List NodeId} {after : Forest NodeId}
    (fl : u.FilledByContent root t.size c.mark ps f c.below B f' placed after v)
    (h : t.Grafted kind source B u) (hl : t.Linked) (hf : t.Hangs root f) (hc : f.firstCall? = some c) :
    t.Replaced root f c ((v.insertInPlace c.mark t.size).detach c.mark, ⟨v.children t.size, placed.tops⟩)
      after placed := by
  have sep := hf.separate hl hc
  have hr := hf.root_lt hl sep.mem
  have call := hf.shows.hasCall hc
  have hproxy : t.size < u.size := h.shows.lt_size (by simp [Forest.marks])
  have hplaced : ∀ y ∈ placed.marks, y ∈ c.below.marks ∨ t.size < y := fun y hy =>
    (fl.placed_marks y hy).imp_right (Nat.lt_of_lt_of_le hproxy)
  have hafter : ∀ y ∈ after.marks, y ∈ c.below.marks ∨ t.size < y := by
    intro y hy
    rcases fl.marks y hy with hy | hy
    · exact Or.inr (h.fresh y hy)
    · exact hplaced y hy
  have ready : v.Ready root t.size f f' after c.mark :=
    { linked := fl.linked
      hangs := fl.hangs
      call_hangs := fl.call_hangs
      around := fl.around
      mem := fl.mem sep.mem
      root_ne := Nat.ne_of_lt hr
      root_not_mem := fun hm => (hafter root hm).elim sep.root_not_mem (Nat.lt_asymm hr)
      proxy_not_mem := fun hm => Nat.lt_irrefl _ (hf.shows.lt_size (fl.subset hm)) }
  refine ready.replaced placed (h.grows.trans fl.grows) hc (hf.nodup hl) fl.shows ?_ ?_ fl.nodup
    (fun y hy => (hafter y hy).imp_right Nat.le_of_lt)
    fun y hy hlt => (fl.marks y hy).resolve_left fun hm => Nat.lt_asymm hlt (h.fresh y hm)
  · intro hm
    rcases hplaced _ hm with hm | hm
    · exact Nat.lt_irrefl _ (call.shows.lt_size hm)
    · exact Nat.lt_irrefl _ hm
  · -- The parent of the call is no node of the instance, and no node inside the call.
    intro y hy hp
    have hp : t.parent? c.mark = some y := by
      rw [← h.parent? c.mark (hf.shows.lt_size sep.mem), ← fl.parent?, hp]
    rcases hplaced y hy with hm | hm
    · exact sep.not_mem (call.shows.child_mem hm ((hl.mem_children y c.mark).mpr hp))
    · exact absurd (hl.parent_lt hp) (Nat.lt_asymm hm)

theorem FilledByContent.map_depthIn {v : Tree} {after : Forest NodeId}
    (fl : u.FilledByContent root t.size c.mark (B.atRules Keyword.placeholder) f c.below B f' placed after v)
    (h : t.Grafted kind source B u) (hold : ∀ y ∈ c.below.marks, y < t.size) (d : Nat) :
    after.map (depthIn placed d) = (Forest.ofElements (d + 1) B.elements).fill (c.below.map fun _ => d) := by
  have hbelow : ∀ y ∈ c.below.marks, y ∉ B.marks := fun y hy hm => Nat.lt_asymm (hold y hy) (h.fresh y hm)
  have hnew : ∀ y, u.size ≤ y → y ∉ B.marks := fun y hy hm =>
    absurd (h.hangs.shows.lt_size hm) (Nat.not_lt.mpr hy)
  -- What was placed is what is not part of the body.
  have hdepth : after.map (depthIn placed d) = after.map fun y => if y ∈ B.marks then d + 1 else d := by
    refine Forest.map_congr fun y hy => ?_
    by_cases hm : y ∈ placed.marks
    · have hB : y ∉ B.marks := (fl.placed_marks y hm).elim (hbelow y) (hnew y)
      rw [depthIn, if_pos hm, if_neg hB]
    · rw [depthIn, if_neg hm, if_pos ((fl.marks y hy).resolve_right hm)]
  rw [hdepth, fl.map_eq _ d (fun y hy => if_neg (hnew y hy)) fun y hy => if_neg (hbelow y hy),
    Forest.fillAt_of_mem_iff h.nodup fun _ _ => Iff.rfl, Forest.map_congr fun y hy => if_pos hy, Forest.map_const,
    Forest.map_congr fun y hy => if_neg (hbelow y hy)]

/-- To put the arguments in the texts of a new body is to add the body with them in its texts. -/
theorem Linked.bindBelow_graft (hl : t.Linked) (m : BlockMixin) (arguments : List Call.Argument) :
    (t.graft m.body).1.bindBelow t.size m arguments = (t.graft (m.instantiate arguments)).1 := by
  rw [bindBelow, BlockMixin.instantiate]
  split
  next => rfl
  next => rw [substituteBelow_eq, hl.mapTextsBelow_graft]

/-- An instance is the body with the arguments in its texts, and then with the content at its placeholders. -/
theorem Linked.materialize_eq (hl : t.Linked) (m : BlockMixin) (call : NodeId) (arguments : List Call.Argument)
    (hu : (t.graft (m.instantiate arguments)).1 = u) :
    t.materialize m call arguments =
      if m.acceptsContent then
        let r := u.fillPlaceholders (u.children call) true (u.atRules t.size Keyword.placeholder)
        (r.1, t.size, r.2)
      else (u, t.size, []) := by
  rw [← hu, ← hl.bindBelow_graft, materialize, ← graft_snd t m.body]

theorem replaceByBlock_replaced (hl : t.Linked) (hf : t.Hangs root f) (hc : f.firstCall? = some c)
    (m : BlockMixin) (arguments : List Call.Argument) (τ : NodeId → Nat) :
    ∃ g placed, t.Replaced root f c (t.replaceByBlock c.mark m arguments) g placed ∧
      g.map (depthIn placed (τ c.mark)) = m.filled arguments (c.map τ) := by
  have call := hf.shows.hasCall hc
  have sep := hf.separate hl hc
  cases hi : m.instantiate arguments with
  | mk kind source es =>
  obtain ⟨u, B, hu, he, h⟩ := hl.graft kind source es
  cases ha : m.acceptsContent with
  | false =>
    refine ⟨B, .nil, ?_, ?_⟩
    · rw [replaceByBlock, hl.materialize_eq m c.mark arguments (hi ▸ congrArg Prod.fst hu), ha]
      exact h.replaced hl hf hc
    · rw [map_depthIn_nil, he]
      simp [BlockMixin.filled, hi, ha, Site.map, Element.children]
  | true =>
    obtain ⟨v, f', placed, after, hv, fl⟩ := h.fillPlaceholders hl hf hc
    refine ⟨after, placed, ?_, ?_⟩
    · have hkids : u.children c.mark = c.below.tops := by
        rw [h.children _ (hf.shows.lt_size sep.mem), call.children]
      rw [replaceByBlock, hl.materialize_eq m c.mark arguments (hi ▸ congrArg Prod.fst hu), ha, hkids,
        h.hangs.atRules h.linked Keyword.placeholder, hv]
      exact fl.replaced h hl hf hc
    · rw [fl.map_depthIn h (fun y hy => call.shows.lt_size hy), he]
      simp [BlockMixin.filled, hi, ha, Site.map, Element.children, Forest.map_map]

theorem detach_replaced (hl : t.Linked) (hf : t.Hangs root f) (hc : f.firstCall? = some c) :
    t.Replaced root f c (t.detach c.mark, {}) .nil .nil := by
  have h := hf.detach hl c.mark
  rw [← Forest.putFirst_eq_replace (hf.nodup hl) hc] at h
  exact ⟨hl.detach c.mark, grows_detach t c.mark, h, rfl, rfl, trivial, by simp [Forest.marks],
    by simp [Forest.marks], by simp [Forest.marks]⟩

theorem Hangs.forest_firstCall (hf : t.Hangs root f) (hl : t.Linked) (hc : f.firstCall? = some c) :
    t.forest c.mark = c.below.elements := by
  have call := hf.shows.hasCall hc
  exact call.shows.forest_eq call.children (call.shows.length_le (hf.separate hl hc).nodup)

/-- Replacing a call puts its instance in its place. -/
theorem replaceCall_replaced (hl : t.Linked) (hf : t.Hangs root f) (hc : f.firstCall? = some c)
    {name : String} {arguments : List Call.Argument} {d : Definition} {τ : NodeId → Nat} {inst : Forest Nat}
    (h : d.instanceAt ⟨t, c.mark, name, arguments⟩ (c.map τ) = .ok inst) :
    ∃ r g placed, t.replaceCall c.mark name arguments d = (r.1, .ok r.2) ∧ t.Replaced root f c r g placed ∧
      g.map (depthIn placed (τ c.mark)) = inst := by
  cases d with
  | block m =>
    obtain ⟨g, placed, hr, he⟩ := replaceByBlock_replaced hl hf hc m arguments τ
    exact ⟨_, g, placed, rfl, hr, he.trans (Except.ok.inj h)⟩
  | record fields =>
    obtain ⟨g, placed, hr, he⟩ := replaceByRecord_replaced hl hf hc fields τ
    exact ⟨_, g, placed, rfl, hr, he.trans (Except.ok.inj h)⟩
  | callback run =>
    rw [replaceCall]
    rw [Definition.instanceAt] at h
    cases hrun : run ⟨t, c.mark, name, arguments⟩ with
    | error e => simp [hrun] at h
    | ok given =>
      rw [hrun] at h
      cases given with
      | none => exact ⟨(_, {}), .nil, .nil, rfl, detach_replaced hl hf hc, Except.ok.inj h⟩
      | some fields =>
        obtain ⟨g, placed, hr, hg⟩ := replaceByRecord_replaced hl hf hc fields τ
        exact ⟨_, g, placed, rfl, hr, hg.trans (Except.ok.inj h)⟩

end Instances

end StyleMixins.Tree
