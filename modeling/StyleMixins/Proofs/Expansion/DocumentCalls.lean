import StyleMixins.Proofs.Expansion.Order
import StyleMixins.Proofs.Forest.Texts

namespace StyleMixins

namespace Forest

variable {α β : Type}

/-- What is put at the placeholders comes to stand inside a call. -/
def forwards : Forest α → Bool
  | nil => false
  | cons _ k _ below rest =>
    (if k.isAtRule Keyword.placeholder then false
      else if k.isAtRule Keyword.call then !(below.atRules Keyword.placeholder).isEmpty
      else below.forwards) || rest.forwards

theorem forwards_map (φ : α → β) (f : Forest α) : (f.map φ).forwards = f.forwards := by
  induction f with
  | nil => rfl
  | cons a k s below rest hb hr => simp [map, forwards, atRules_map, hb, hr]

theorem forwards_ofElements (a : α) (b : β) (es : List Element) :
    (ofElements a es).forwards = (ofElements b es).forwards := by
  have h := map_const (ofElements b es) a
  rw [elements_ofElements] at h
  rw [← h, forwards_map]

theorem forwards_mapTextsAll (a : α) (f : String → String) (es : List Element) :
    (ofElements a (Element.mapTextsAll f es)).forwards = (ofElements a es).forwards := by
  induction es using Element.forest_induction with
  | nil => rfl
  | cons kind source children rest hc hr =>
    simp [Element.mapTextsAll_cons, forwards, Kind.isAtRule_mapTexts, atRules_mapTextsAll, hc, hr]

end Forest

/-- The body puts what it is called with inside a call. -/
def BlockMixin.Forwards (m : BlockMixin) : Prop :=
  m.acceptsContent = true ∧ (Forest.ofElements () m.body.children).forwards = true

theorem BlockMixin.forwards_instantiate {m : BlockMixin} (h : ¬m.Forwards) (ha : m.acceptsContent = true)
    (arguments : List Call.Argument) (d : Nat) :
    (Forest.ofElements d (m.instantiate arguments).children).forwards = false := by
  have hbody : (Forest.ofElements d m.body.children).forwards = false := by
    rw [Forest.forwards_ofElements d ()]
    by_contra hf
    exact h ⟨ha, by simpa using hf⟩
  rcases m.children_instantiate arguments with he | ⟨values, he⟩
  · rwa [he]
  · rwa [he, Forest.forwards_mapTextsAll]

namespace Expansion

variable {ctx : Context} {t : Tree} {s s' : State} {f g : Forest NodeId} {c : Site NodeId} {τ τ' : NodeId → Nat}
  {x call d : Nat} {rest : List (NodeId × Nat)} {ev : Event} {inst : Forest Nat}

/-- A call with its depth, and the state in which it was handled. -/
structure Handled where
  state : State
  call : NodeId
  depth : Nat

/-- The states that a run goes through, each with all that was handled before it. -/
inductive Trail (ctx : Context) (first : State) : List Handled → State → Prop
  | start : Trail ctx first [] first
  | pass {trail s s' call d rest} : Trail ctx first trail s → s.pending = (call, d) :: rest →
      s.tree.isAttached call ctx.root = false → next ctx s call d rest = (s', none) → Trail ctx first trail s'
  | visit {trail s s' call d rest} : Trail ctx first trail s → s.pending = (call, d) :: rest →
      s.tree.isAttached call ctx.root = true → next ctx s call d rest = (s', none) →
      Trail ctx first (trail ++ [⟨s, call, d⟩]) s'

/-- The depths of the calls that were handled while `x` stood inside them, in order. -/
def depthsAround (x : NodeId) (trail : List Handled) : List Nat :=
  (trail.filter fun v => x ∈ v.state.tree.atRules v.call Keyword.call).map Handled.depth

theorem depthsAround_append (trail : List Handled) (v : Handled) :
    depthsAround x (trail ++ [v]) =
      depthsAround x trail ++ if x ∈ v.state.tree.atRules v.call Keyword.call then [v.depth] else [] := by
  rw [depthsAround, List.filter_append, List.map_append]
  by_cases hx : x ∈ v.state.tree.atRules v.call Keyword.call <;> simp [depthsAround, hx]

/-- A call of the document counts as the last call that was handled around it. -/
structure Dated (t : Tree) (trail : List Handled) (s : State) (f : Forest NodeId) (τ : NodeId → Nat) : Prop where
  grows : t.Grows s.tree
  depth : ∀ x ∈ f.marks, x < t.size → t.isAtRule x Keyword.call = true → τ x = (depthsAround x trail).getLastD 0

theorem Standing.mem_atRules_iff (h : Standing ctx s f τ) (hc : f.firstCall? = some c)
    (hx : s.tree.isAtRule x Keyword.call = true) :
    x ∈ s.tree.atRules c.mark Keyword.call ↔ x ∈ c.below.marks := by
  have hcall := h.hangs.shows.hasCall hc
  have apart := Forest.apart_of_nodup (h.hangs.nodup h.linked) hc
  rw [hcall.shows.atRules hcall.children (hcall.shows.length_le apart.nodup), hcall.shows.mem_atRules]
  exact and_iff_left hx

theorem Dated.visit {trail : List Handled} (hd : Dated t trail s f τ) (h : Standing ctx s f τ)
    (hc : f.firstCall? = some c) (turn : Turn ctx s s' f g c τ τ' ev inst) :
    Dated t (trail ++ [⟨s, c.mark, τ c.mark⟩]) s' (f.putFirst g) τ' where
  grows := hd.grows.trans turn.grows
  depth x hx hlt hcall := by
    have hsize : x < s.tree.size := Nat.lt_of_lt_of_le hlt hd.grows.size_le
    have hinside := h.mem_atRules_iff hc ((hd.grows.isAtRule hlt _).trans hcall)
    have apart := Forest.apart_of_nodup (h.hangs.nodup h.linked) hc
    rw [depthsAround_append]
    rcases (Forest.mem_marks_putFirst hc g x).mp hx with hx | hx
    · have hbelow : x ∈ c.below.marks := (turn.marks x hx).resolve_right (Nat.not_le.mpr hsize)
      rw [if_pos (hinside.mpr hbelow), List.getLastD_concat]
      exact turn.depth_inside x hx hsize
    · have hbelow : x ∉ c.below.marks := fun hb => apart.below_around x hb hx
      rw [if_neg (mt hinside.mp hbelow), List.append_nil, turn.depth_around x hx]
      exact hd.depth x ((Forest.mem_marks_of_firstCall? hc x).mpr (Or.inr (Or.inr hx))) hlt hcall

/-- Below a call that counts there is nothing of the document. -/
def Guarded (size : Nat) (τ : NodeId → Nat) : Forest NodeId → Prop
  | .nil => True
  | .cons a k _ below rest =>
    (k.callText?.isSome = true → 0 < τ a → ∀ y ∈ below.marks, size ≤ y) ∧ Guarded size τ below ∧ Guarded size τ rest

/-- Below what counts everything counts. -/
def Sealed : Forest Nat → Prop
  | .nil => True
  | .cons a k _ below rest =>
    (k.callText?.isSome = true → 0 < a → ∀ y ∈ below.marks, 0 < y) ∧ Sealed below ∧ Sealed rest

section

variable {size : Nat} {h : Forest Nat}

theorem sealed_append {h' : Forest Nat} (hh : Sealed h) (hh' : Sealed h') : Sealed (h ++ h') := by
  induction h with
  | nil => exact hh'
  | cons a k s below rest _ hr => exact ⟨hh.1, hh.2.1, hr hh.2.2⟩

theorem sealed_of_pos (hp : ∀ a ∈ h.marks, 0 < a) : Sealed h := by
  induction h with
  | nil => trivial
  | cons a k s below rest hb hr =>
    simp only [Forest.marks, List.mem_cons, List.mem_append] at hp
    exact ⟨fun _ _ y hy => hp y (Or.inr (Or.inl hy)), hb fun y hy => hp y (Or.inr (Or.inl hy)),
      hr fun y hy => hp y (Or.inr (Or.inr hy))⟩

theorem sealed_of_zero (hz : ∀ a ∈ h.marks, a = 0) : Sealed h := by
  induction h with
  | nil => trivial
  | cons a k s below rest hb hr =>
    simp only [Forest.marks, List.mem_cons, List.mem_append] at hz
    refine ⟨fun _ hpos => ?_, hb fun y hy => hz y (Or.inr (Or.inl hy)), hr fun y hy => hz y (Or.inr (Or.inr hy))⟩
    have := hz a (Or.inl rfl)
    omega

theorem sealed_fill {content : Forest Nat} (hf : h.forwards = false) (hp : ∀ a ∈ h.marks, 0 < a)
    (hz : ∀ a ∈ content.marks, a = 0) : Sealed (h.fill content) := by
  induction h with
  | nil => trivial
  | cons a k s below rest hb hr =>
    simp only [Forest.marks, List.mem_cons, List.mem_append] at hp
    simp only [Forest.forwards, Bool.or_eq_false_iff] at hf
    have hr := hr hf.2 fun y hy => hp y (Or.inr (Or.inr hy))
    have hbelow : ∀ y ∈ below.marks, 0 < y := fun y hy => hp y (Or.inr (Or.inl hy))
    rw [Forest.fill]
    by_cases hk : k.isAtRule Keyword.placeholder = true
    · rw [if_pos hk]
      exact sealed_append (sealed_of_zero hz) hr
    · rw [if_neg hk]
      have hf := hf.1
      rw [if_neg hk] at hf
      by_cases hcall : k.isAtRule Keyword.call = true
      · -- A call of the body has no placeholder inside, so it is left as it is.
        rw [if_pos hcall] at hf
        have hempty : below.atRules Keyword.placeholder = [] := by simpa using hf
        rw [Forest.fill_of_atRules_eq_nil hempty]
        exact ⟨fun _ _ => hbelow, sealed_of_pos hbelow, hr⟩
      · rw [if_neg hcall] at hf
        refine ⟨fun hsome => ?_, hb hf hbelow, hr⟩
        rw [Kind.isAtRule_call] at hcall
        exact absurd hsome hcall

theorem sealed_instanceAt {definition : Definition} {place : CallSite} {site : Site Nat} (hzero : site.mark = 0)
    (hblock : ∀ m, definition = .block m → ¬m.Forwards)
    (hinst : definition.instanceAt place site = .ok inst) : Sealed inst := by
  have hbody : ∀ es, Sealed (Forest.ofElements (site.mark + 1) es) := fun es =>
    sealed_of_pos fun a ha => by rw [mem_marks_ofElements ha]; omega
  cases definition with
  | block m =>
    cases Except.ok.inj hinst
    rw [BlockMixin.filled]
    split
    next ha =>
      refine sealed_fill (BlockMixin.forwards_instantiate (hblock m rfl) ha place.arguments _) ?_ ?_
      · intro a ha
        rw [mem_marks_ofElements ha]
        omega
      · intro a ha
        rw [Forest.map_const] at ha
        rw [mem_marks_ofElements ha, hzero]
    next => exact hbody _
  | record fields =>
    cases Except.ok.inj hinst
    exact hbody _
  | callback run =>
    simp only [Definition.instanceAt] at hinst
    split at hinst
    next => simp at hinst
    next =>
      cases Except.ok.inj hinst
      trivial
    next =>
      cases Except.ok.inj hinst
      exact hbody _

theorem sealed_replacement {id : NodeId} {site : Site Nat} (hzero : site.mark = 0)
    (hregistry : ∀ name m, ctx.registry.find? name = some (.block m) → ¬m.Forwards)
    (hinst : ctx.replacement t id site = .ok (ev, inst)) : Sealed inst := by
  rw [Context.replacement, replacement] at hinst
  split at hinst
  next => simp at hinst
  next head _ =>
    split at hinst
    next =>
      split at hinst
      next =>
        cases Except.ok.inj hinst
        trivial
      next => simp at hinst
    next definition hfind =>
      split at hinst
      next => simp at hinst
      next =>
        split at hinst
        next => simp at hinst
        next inst' hinst' =>
          cases Except.ok.inj hinst
          exact sealed_instanceAt hzero (fun m hm => hregistry head.name m (hm ▸ hfind)) hinst'

theorem guarded_of_sealed (hs : Sealed (f.map τ)) (hnew : ∀ y ∈ f.marks, 0 < τ y → size ≤ y) : Guarded size τ f := by
  induction f with
  | nil => trivial
  | cons a k s below rest hb hr =>
    obtain ⟨h1, h2, h3⟩ := hs
    simp only [Forest.marks, List.mem_cons, List.mem_append] at hnew
    refine ⟨fun hk hpos y hy => ?_, hb h2 fun y hy => hnew y (Or.inr (Or.inl hy)),
      hr h3 fun y hy => hnew y (Or.inr (Or.inr hy))⟩
    refine hnew y (Or.inr (Or.inl hy)) (h1 hk hpos (τ y) ?_)
    rw [Forest.marks_map]
    exact List.mem_map_of_mem hy

theorem guarded_of_new (hnew : ∀ y ∈ f.marks, size ≤ y) : Guarded size τ f := by
  induction f with
  | nil => trivial
  | cons a k s below rest hb hr =>
    simp only [Forest.marks, List.mem_cons, List.mem_append] at hnew
    exact ⟨fun _ _ y hy => hnew y (Or.inr (Or.inl hy)), hb fun y hy => hnew y (Or.inr (Or.inl hy)),
      hr fun y hy => hnew y (Or.inr (Or.inr hy))⟩

theorem Guarded.below (hg : Guarded size τ f) (hc : f.firstCall? = some c) (hpos : 0 < τ c.mark) :
    ∀ y ∈ c.below.marks, size ≤ y := by
  induction f with
  | nil => simp [Forest.firstCall?] at hc
  | cons a k s below rest hb hr =>
    obtain ⟨h1, h2, h3⟩ := hg
    rw [Forest.firstCall?] at hc
    split at hc
    next text hk =>
      cases Option.some.inj hc
      exact h1 (by simp [hk]) hpos
    next =>
      rcases Option.or_eq_some_iff.mp hc with hc | ⟨-, hc⟩
      · exact hb h2 hc
      · exact hr h3 hc

theorem Guarded.congr (hg : Guarded size τ f) (heq : ∀ y ∈ f.marks, τ' y = τ y) : Guarded size τ' f := by
  induction f with
  | nil => trivial
  | cons a k s below rest hb hr =>
    obtain ⟨h1, h2, h3⟩ := hg
    simp only [Forest.marks, List.mem_cons, List.mem_append] at heq
    refine ⟨fun hk hpos => h1 hk ?_, hb h2 fun y hy => heq y (Or.inr (Or.inl hy)),
      hr h3 fun y hy => heq y (Or.inr (Or.inr hy))⟩
    rwa [heq a (Or.inl rfl)] at hpos

theorem guarded_append (hf : Guarded size τ f) (hg : Guarded size τ g) : Guarded size τ (f ++ g) := by
  induction f with
  | nil => exact hg
  | cons a k s below rest _ hr => exact ⟨hf.1, hf.2.1, hr hf.2.2⟩

theorem Guarded.putFirst (hf : Guarded size τ f) (hg : Guarded size τ' g) (hc : f.firstCall? = some c)
    (heq : ∀ y ∈ (f.putFirst .nil).marks, τ' y = τ y) : Guarded size τ' (f.putFirst g) := by
  induction f with
  | nil => trivial
  | cons a k s below rest hb hr =>
    obtain ⟨h1, h2, h3⟩ := hf
    cases hk : k.callText? with
    | some text =>
      simp only [Forest.putFirst, hk, Forest.nil_append] at heq ⊢
      exact guarded_append hg (h3.congr heq)
    | none =>
      simp only [Forest.firstCall?, hk] at hc
      cases hs : below.firstCall? with
      | some site =>
        simp only [Forest.putFirst, hk, hs, Option.isSome_some, if_true, Forest.marks, List.mem_cons,
          List.mem_append] at heq ⊢
        exact ⟨by simp [hk], hb h2 (by simpa [hs] using hc) fun y hy => heq y (Or.inr (Or.inl hy)),
          h3.congr fun y hy => heq y (Or.inr (Or.inr hy))⟩
      | none =>
        simp only [Forest.putFirst, hk, hs, Option.isSome_none, Bool.false_eq_true, if_false, Forest.marks,
          List.mem_cons, List.mem_append] at heq ⊢
        exact ⟨by simp [hk], h2.congr fun y hy => heq y (Or.inr (Or.inl hy)),
          hr h3 (by simpa [hs] using hc) fun y hy => heq y (Or.inr (Or.inr hy))⟩

end

/-- Calls of the document do not count. -/
structure Shallow (size : Nat) (f : Forest NodeId) (τ : NodeId → Nat) : Prop where
  zero : ∀ x ∈ f.marks, x < size → τ x = 0
  guarded : Guarded size τ f

theorem Shallow.visit {size : Nat} (hs : Shallow size f τ) (hsize : size ≤ s.tree.size)
    (hregistry : ∀ name m, ctx.registry.find? name = some (.block m) → ¬m.Forwards)
    (hc : f.firstCall? = some c) (he : ctx.replacement s.tree c.mark (c.map τ) = .ok (ev, inst))
    (turn : Turn ctx s s' f g c τ τ' ev inst) : Shallow size (f.putFirst g) τ' := by
  have hzero : ∀ y ∈ g.marks, y < size → τ' y = 0 := by
    intro y hy hlt
    have hold : y < s.tree.size := Nat.lt_of_lt_of_le hlt hsize
    have hbelow := (turn.marks y hy).resolve_right (Nat.not_le.mpr hold)
    rw [turn.depth_inside y hy hold]
    by_contra hpos
    exact absurd hlt (Nat.not_lt.mpr (hs.guarded.below hc (Nat.pos_of_ne_zero hpos) y hbelow))
  refine ⟨fun x hx hlt => ?_, hs.guarded.putFirst ?_ hc turn.depth_around⟩
  · rcases (Forest.mem_marks_putFirst hc g x).mp hx with hx | hx
    · exact hzero x hx hlt
    · rw [turn.depth_around x hx]
      exact hs.zero x ((Forest.mem_marks_of_firstCall? hc x).mpr (Or.inr (Or.inr hx))) hlt
  · by_cases hpos : 0 < τ c.mark
    · -- Nothing of the document is inside a call that counts, and so nothing of it is in what replaces it.
      refine guarded_of_new fun y hy => ?_
      rcases turn.marks y hy with hb | hnew
      · exact hs.guarded.below hc hpos y hb
      · exact Nat.le_trans hsize hnew
    · have hmark : (c.map τ).mark = 0 := by
        rw [c.map_mark]
        omega
      have hsealed := sealed_replacement hmark hregistry he
      rw [← turn.inst_eq] at hsealed
      refine guarded_of_sealed hsealed fun y hy hy' => ?_
      by_contra hlt
      have hy0 := hzero y hy (Nat.not_le.mp hlt)
      omega

theorem Trail.standing {trail : List Handled} (ht : t.WellFormed) (h : Trail ctx (Expansion.start ctx t) trail s) :
    ∃ f τ, Standing ctx s f τ ∧ Dated t trail s f τ ∧
      ((∀ name m, ctx.registry.find? name = some (.block m) → ¬m.Forwards) → Shallow t.size f τ) := by
  induction h with
  | start =>
    obtain ⟨f, hf, _⟩ := standing_start ctx ht
    have hsealed : Sealed (f.map fun _ => 0) := by
      refine sealed_of_zero fun a ha => ?_
      rw [Forest.map_const] at ha
      exact mem_marks_ofElements ha
    refine ⟨f, _, hf, ⟨.refl t, fun _ _ _ _ => rfl⟩, fun _ => ⟨fun _ _ _ => rfl, guarded_of_sealed hsealed ?_⟩⟩
    intro y _ hpos
    exact absurd hpos (Nat.lt_irrefl 0)
  | pass _ hp ha hn ih =>
    obtain ⟨f, τ, hs, hd, hshallow⟩ := ih
    obtain rfl := eq_of_next ha hn
    exact ⟨f, τ, hs.pass hp ha, ⟨hd.grows, hd.depth⟩, hshallow⟩
  | visit _ hp ha hn ih =>
    obtain ⟨f, τ, hs, hd, hshallow⟩ := ih
    obtain ⟨c, g, τ', ev, inst, hc, rfl, rfl, he, turn⟩ := hs.exists_turn hp ha hn
    refine ⟨f.putFirst g, τ', turn.standing, hd.visit hs hc turn, fun hregistry => ?_⟩
    exact (hshallow hregistry).visit hd.grows.size_le hregistry hc he turn

theorem Reaches.exists_trail {first : State} {log : List Visit} (h : Reaches ctx first log s) :
    ∃ trail, Trail ctx first trail s ∧
      trail.map (fun v => (v.call, v.depth)) = log.map fun v => (v.call, v.depth) := by
  induction h with
  | start => exact ⟨[], .start, rfl⟩
  | pass _ hp ha hn ih =>
    obtain ⟨trail, htrail, hlog⟩ := ih
    exact ⟨trail, .pass htrail hp ha hn, hlog⟩
  | visit _ hp ha hn ih =>
    obtain ⟨trail, htrail, hlog⟩ := ih
    exact ⟨_, .visit htrail hp ha hn, by rw [List.map_append, List.map_append, hlog]; rfl⟩

/-- A call that stands in the document from the start counts, when its turn comes, as deep as the call that was
last handled around it, and not at all if there was none. Where no body puts what it is called with inside a call,
no call of the document counts. -/
theorem depth_of_document_call (ht : t.WellFormed) (ctx : Context) :
    (∀ log s, Reaches ctx (start ctx t) log s → ∃ trail, Trail ctx (start ctx t) trail s ∧
      trail.map (fun v => (v.call, v.depth)) = log.map fun v => (v.call, v.depth)) ∧
    ∀ trail s, Trail ctx (start ctx t) trail s →
      ∀ x ∈ t.atRules ctx.root Keyword.call, ∀ d rest, s.pending = (x, d) :: rest →
        s.tree.isAttached x ctx.root = true →
          d = (depthsAround x trail).getLastD 0 ∧
          ((∀ name m, ctx.registry.find? name = some (.block m) → ¬m.Forwards) → d = 0) := by
  refine ⟨fun log s h => h.exists_trail, ?_⟩
  intro trail s h x hx d rest hp ha
  obtain ⟨f, τ, hs, hd, hshallow⟩ := h.standing ht
  obtain ⟨c, hc, rfl, rfl⟩ := hs.top hp ha
  obtain ⟨f₀, hf₀⟩ := ht.exists_hangs ctx.root
  rw [hf₀.atRules ht.toLinked] at hx
  obtain ⟨hm, hcall⟩ := hf₀.shows.mem_atRules.mp hx
  have hlt := hf₀.shows.lt_size hm
  have hmem := Forest.mark_mem_of_firstCall? hc
  exact ⟨hd.depth c.mark hmem hlt hcall, fun hregistry => (hshallow hregistry).zero c.mark hmem hlt⟩

namespace Sample

theorem not_forwards (name : String) (m : BlockMixin) (h : registry.find? name = some (.block m)) : ¬m.Forwards := by
  simp only [registry, Entries.find?] at h
  split at h
  · cases Option.some.inj h
    rintro ⟨-, hf⟩
    exact absurd hf (by decide)
  · simp at h

end Sample

theorem depth_of_document_call_twice : Sample.document.WellFormed ∧
    ∀ trail s, Trail (Sample.context {}) (start (Sample.context {}) Sample.document) trail s →
      ∀ x ∈ Sample.document.atRules 0 Keyword.call, ∀ d rest, s.pending = (x, d) :: rest →
        s.tree.isAttached x 0 = true → d = 0 :=
  ⟨Tree.wellFormed_ofElement _, fun trail s h x hx d rest hp ha =>
    ((depth_of_document_call (Tree.wellFormed_ofElement _) (Sample.context {})).2 trail s h x hx d rest hp ha).2
      Sample.not_forwards⟩

namespace Sample

def inner : BlockMixin where
  body := .mk .root none [.mk (.atRule "content" "" false) none []]
  parameters := []
  variadic := false
  acceptsContent := true

def outer : BlockMixin where
  body := .mk .root none
    [.mk (.atRule "include" "inner" true) none [.mk (.atRule "content" "" false) none []]]
  parameters := []
  variadic := false
  acceptsContent := true

def forwarding : Context :=
  ⟨0, [("outer", .block outer), ("inner", .block inner), ("plain", .record [("color", .text "red")])], {}⟩

def enclosed : Tree :=
  .ofElement (.mk .root none
    [.mk (.atRule "include" "outer" true) none [.mk (.atRule "include" "plain" false) none []]])

end Sample

/-- A call of the document that is forwarded counts like one of a body. -/
theorem forwarded_call_counts : 2 ∈ Sample.enclosed.atRules 0 Keyword.call ∧
    ∃ trail s rest, Trail Sample.forwarding (start Sample.forwarding Sample.enclosed) trail s ∧
      s.pending = (2, 1) :: rest ∧ s.tree.isAttached 2 0 = true := by
  refine ⟨by decide +kernel, ?_⟩
  have hrun : (match expand Sample.forwarding 2 Sample.enclosed with
      | .unfinished s => (s.pending, s.tree.isAttached 2 0)
      | _ => ([], false)) = ([(2, 1), (2, 0), (2, 0)], true) := by
    decide +kernel
  have hstart : Reaches Sample.forwarding (start Sample.forwarding Sample.enclosed) [] _ := .start
  obtain ⟨log, s, h, hend⟩ := hstart.exists_end 2
  obtain ⟨trail, htrail, -⟩ := h.exists_trail
  rw [← expand] at hend
  cases hres : expand Sample.forwarding 2 Sample.enclosed with
  | finished t report => simp [hres] at hrun
  | failed t e => simp [hres] at hrun
  | unfinished s' =>
    rw [hres] at hend hrun
    obtain rfl : s = s' := hend
    obtain ⟨hp, ha⟩ := Prod.mk.inj hrun
    exact ⟨trail, s, _, htrail, hp, ha⟩

end Expansion

end StyleMixins
