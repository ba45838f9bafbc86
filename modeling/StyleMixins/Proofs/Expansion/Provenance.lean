import StyleMixins.Proofs.Expansion.Failures
import StyleMixins.Proofs.Forest.Texts
import StyleMixins.Proofs.Mixin.Blocks
import StyleMixins.Proofs.Record.Depiction

namespace StyleMixins

open Element

namespace Forest

variable {α β : Type} {f g : Forest α} {c : Site α}

def callSources : Forest α → List (Option Source)
  | nil => []
  | cons _ k s below rest =>
    (if k.isAtRule Keyword.call then [s] else []) ++ below.callSources ++ rest.callSources

theorem callSources_append (f g : Forest α) : (f ++ g).callSources = f.callSources ++ g.callSources := by
  induction f with
  | nil => rfl
  | cons a k s below rest _ hr => simp [callSources, hr]

theorem callSources_map (φ : α → β) (f : Forest α) : (f.map φ).callSources = f.callSources := by
  induction f with
  | nil => rfl
  | cons a k s below rest hb hr => simp [map, callSources, hb, hr]

theorem callSources_ofElements (a : α) (es : List Element) :
    (ofElements a es).callSources = (atRulesAll Keyword.call es).map Element.source := by
  induction es using forest_induction with
  | nil => rfl
  | cons kind source children rest hc hr =>
    rw [ofElements_cons, callSources, atRulesAll_cons, hc, hr]
    by_cases h : kind.isAtRule Keyword.call <;> simp [h, Element.source]

theorem callSources_mapTextsAll (a : α) (φ : String → String) (es : List Element) :
    (ofElements a (mapTextsAll φ es)).callSources = (ofElements a es).callSources := by
  induction es using forest_induction with
  | nil => rfl
  | cons kind source children rest hc hr =>
    simp [mapTextsAll_cons, callSources, Kind.isAtRule_mapTexts, hc, hr]

theorem callSources_of_firstCall? (h : f.firstCall? = some c) :
    c.source ∈ f.callSources ∧ c.below.callSources ⊆ f.callSources := by
  induction f with
  | nil => simp [firstCall?] at h
  | cons a k s below rest hb hr =>
    cases hk : k.callText? with
    | some text =>
      simp only [firstCall?, hk, Option.some.injEq] at h
      subst h
      refine ⟨by simp [callSources, Kind.isAtRule_call, hk], fun x hx => ?_⟩
      simp [callSources, hx]
    | none =>
      simp only [firstCall?, hk] at h
      simp only [callSources, Kind.isAtRule_call, hk, Option.isSome_none, Bool.false_eq_true, if_false, List.nil_append]
      cases hs : below.firstCall? with
      | some site =>
        obtain ⟨hsource, hbelow⟩ := hb (by simpa [hs] using h)
        exact ⟨List.mem_append_left _ hsource, List.Subset.trans hbelow (List.subset_append_left _ _)⟩
      | none =>
        obtain ⟨hsource, hbelow⟩ := hr (by simpa [hs] using h)
        exact ⟨List.mem_append_right _ hsource, List.Subset.trans hbelow (List.subset_append_right _ _)⟩

theorem callSources_putFirst (f g : Forest α) : (f.putFirst g).callSources ⊆ f.callSources ++ g.callSources := by
  induction f with
  | nil => simp [putFirst, callSources]
  | cons a k s below rest hb hr =>
    intro x hx
    have hb := @hb x
    have hr := @hr x
    rw [putFirst] at hx
    split at hx
    next =>
      rw [callSources_append] at hx
      simp only [callSources, List.mem_append] at hx ⊢
      tauto
    next =>
      split at hx <;>
        simp only [callSources, List.mem_append] at hx hb hr ⊢ <;> tauto

theorem callSources_fill (f content : Forest α) :
    (f.fill content).callSources ⊆ f.callSources ++ content.callSources := by
  induction f with
  | nil => simp [fill, callSources]
  | cons a k s below rest hb hr =>
    intro x hx
    have hb := @hb x
    have hr := @hr x
    rw [fill] at hx
    split at hx
    next =>
      rw [callSources_append] at hx
      simp only [callSources, List.mem_append] at hx hr ⊢
      tauto
    next =>
      simp only [callSources, List.mem_append] at hx hb hr ⊢
      tauto

end Forest

namespace Expansion

variable {ctx : Context} {f g inst : Forest Nat} {events : List Event} {ev : Event} {site : Site Nat}
  {P : Option Source → Prop}

/-- The calls in all registered bodies have sources of a kind. -/
def BodiesFrom (P : Option Source → Prop) (registry : Registry) : Prop :=
  ∀ name m, registry.find? name = some (.block m) → ∀ x ∈ atRulesAll Keyword.call m.body.children, P x.source

theorem callSources_laidOut (fields : Record) (site : Site Nat) :
    ∀ s ∈ (fields.laidOut site).callSources, s = site.source := by
  intro s hs
  rw [Record.laidOut, Forest.callSources_ofElements] at hs
  obtain ⟨x, hx, rfl⟩ := List.mem_map.mp hs
  exact Record.source_fieldElements site.source fields x (List.mem_of_mem_filter hx)

theorem callSources_filled {m : BlockMixin} (hbody : ∀ x ∈ atRulesAll Keyword.call m.body.children, P x.source)
    (arguments : List Call.Argument) (hbelow : ∀ s ∈ site.below.callSources, P s) :
    ∀ s ∈ (m.filled arguments site).callSources, P s := by
  have hinstance : ∀ s ∈ (Forest.ofElements (site.mark + 1) (m.instantiate arguments).children).callSources, P s := by
    intro s hs
    have hs : s ∈ (Forest.ofElements (site.mark + 1) m.body.children).callSources := by
      rcases m.children_instantiate arguments with he | ⟨values, he⟩
      · rwa [he] at hs
      · rwa [he, Forest.callSources_mapTextsAll] at hs
    rw [Forest.callSources_ofElements] at hs
    obtain ⟨x, hx, rfl⟩ := List.mem_map.mp hs
    exact hbody x hx
  intro s hs
  rw [BlockMixin.filled] at hs
  split at hs
  next =>
    rcases List.mem_append.mp (Forest.callSources_fill _ _ hs) with hs | hs
    · exact hinstance s hs
    · rw [Forest.callSources_map] at hs
      exact hbelow s hs
  next => exact hinstance s hs

theorem callSources_instanceAt {definition : Definition} {place : CallSite}
    (hbody : ∀ m, definition = .block m → ∀ x ∈ atRulesAll Keyword.call m.body.children, P x.source)
    (hsource : P site.source) (hbelow : ∀ s ∈ site.below.callSources, P s)
    (h : definition.instanceAt place site = .ok inst) : ∀ s ∈ inst.callSources, P s := by
  have hrecord : ∀ fields : Record, ∀ s ∈ (fields.laidOut site).callSources, P s :=
    fun fields s hs => callSources_laidOut fields site s hs ▸ hsource
  cases definition with
  | block m =>
    cases Except.ok.inj h
    exact callSources_filled (hbody m rfl) _ hbelow
  | record fields =>
    cases Except.ok.inj h
    exact hrecord fields
  | callback run =>
    simp only [Definition.instanceAt] at h
    split at h
    next => simp at h
    next =>
      cases Except.ok.inj h
      simp [Forest.callSources]
    next fields _ =>
      cases Except.ok.inj h
      exact hrecord fields

theorem callSources_replacement {t : Tree} {id : NodeId} (hbodies : BodiesFrom P ctx.registry)
    (hsource : P site.source) (hbelow : ∀ s ∈ site.below.callSources, P s)
    (h : ctx.replacement t id site = .ok (ev, inst)) :
    ∀ s ∈ inst.callSources, P s := by
  rw [Context.replacement, replacement] at h
  split at h
  next => simp at h
  next head _ =>
    split at h
    next =>
      split at h
      next =>
        cases Except.ok.inj h
        simp [Forest.callSources]
      next => simp at h
    next definition hfind =>
      split at h
      next => simp at h
      next =>
        split at h
        next => simp at h
        next inst' hinstance =>
          cases Except.ok.inj h
          refine callSources_instanceAt (fun m hm => ?_) hsource hbelow hinstance
          exact hbodies head.name m (hm ▸ hfind)

theorem Steps.callSources (hbodies : BodiesFrom P ctx.registry) (h : Steps ctx.inStores f events g)
    (hf : ∀ s ∈ f.callSources, P s) : ∀ s ∈ g.callSources, P s := by
  induction h with
  | refl => exact hf
  | cons hc hr _ ih =>
    obtain ⟨hsource, hbelow⟩ := Forest.callSources_of_firstCall? hc
    obtain ⟨t, id, -, -, -, hr⟩ := hr
    refine ih fun s hs => ?_
    rcases List.mem_append.mp (Forest.callSources_putFirst _ _ hs) with hs | hs
    · exact hf s hs
    · exact callSources_replacement hbodies (hf _ hsource) (fun s hs => hf s (hbelow hs)) hr s hs

end Expansion

end StyleMixins
