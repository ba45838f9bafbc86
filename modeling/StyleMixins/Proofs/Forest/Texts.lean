import StyleMixins.Expansion.Instance
import StyleMixins.Proofs.Forest.Basic

namespace StyleMixins

mutual

def Element.mapTexts (f : String → String) : Element → Element
  | .mk kind source children => .mk (kind.mapTexts f) source (mapTextsAll f children)

def Element.mapTextsAll (f : String → String) : List Element → List Element
  | [] => []
  | e :: rest => e.mapTexts f :: mapTextsAll f rest

end

/-- The body with the arguments in place of the parameters. -/
def BlockMixin.instantiate (m : BlockMixin) (arguments : List Call.Argument) : Element :=
  if m.parameters.isEmpty then m.body
  else m.body.mapTexts (Substitution.substitute (Call.bindArguments m.parameters m.variadic arguments))

theorem Kind.isAtRule_mapTexts (f : String → String) (kind : Kind) (name : String) :
    (kind.mapTexts f).isAtRule name = kind.isAtRule name := by
  cases kind <;> rfl

theorem Kind.callText?_mapTexts (f : String → String) (kind : Kind) :
    (kind.mapTexts f).callText? = kind.callText?.map f := by
  cases kind with
  | atRule name params hasBlock => by_cases h : name = Keyword.call <;> simp [mapTexts, callText?, h]
  | _ => rfl

theorem Element.mapTextsAll_cons (f : String → String) (kind : Kind) (source : Option Source)
    (children rest : List Element) :
    mapTextsAll f (.mk kind source children :: rest) =
      .mk (kind.mapTexts f) source (mapTextsAll f children) :: mapTextsAll f rest := rfl

theorem BlockMixin.children_instantiate (m : BlockMixin) (arguments : List Call.Argument) :
    (m.instantiate arguments).children = m.body.children ∨
      ∃ values, (m.instantiate arguments).children =
        Element.mapTextsAll (Substitution.substitute values) m.body.children := by
  rw [instantiate]
  split
  · exact Or.inl rfl
  · refine Or.inr ⟨Call.bindArguments m.parameters m.variadic arguments, ?_⟩
    cases m.body
    rfl

namespace Forest

variable {α β : Type}

def callTexts : Forest α → List String
  | nil => []
  | cons _ k _ below rest => k.callText?.toList ++ below.callTexts ++ rest.callTexts

theorem callTexts_map (φ : α → β) (f : Forest α) : (f.map φ).callTexts = f.callTexts := by
  induction f with
  | nil => rfl
  | cons a k s below rest hb hr => simp [map, callTexts, hb, hr]

theorem callTexts_ofElements (a : α) (b : β) (es : List Element) :
    (ofElements a es).callTexts = (ofElements b es).callTexts := by
  rw [← map_const_ofElements b a, callTexts_map]

theorem callTexts_mapTextsAll (a : α) (f : String → String) (es : List Element) :
    (ofElements a (Element.mapTextsAll f es)).callTexts = (ofElements a es).callTexts.map f := by
  induction es using Element.forest_induction with
  | nil => rfl
  | cons kind source children rest hc hr =>
    have ht : (kind.mapTexts f).callText?.toList = kind.callText?.toList.map f := by
      rw [Kind.callText?_mapTexts]
      cases kind.callText? <;> rfl
    simp [Element.mapTextsAll_cons, callTexts, hc, hr, ht]

theorem atRules_mapTextsAll (a : α) (f : String → String) (name : String) (es : List Element) :
    (ofElements a (Element.mapTextsAll f es)).atRules name = (ofElements a es).atRules name := by
  induction es using Element.forest_induction with
  | nil => rfl
  | cons kind source children rest hc hr =>
    simp [Element.mapTextsAll_cons, atRules, Kind.isAtRule_mapTexts, hc, hr]

end Forest

end StyleMixins
