import StyleMixins.Proofs.Sheet.Bare

namespace StyleMixins

def Kind.params : Kind → String
  | .atRule _ params _ => params
  | _ => ""

namespace Element

mutual

/-- An element in front of others, unless it is an at-rule of the name. -/
def consWithout (name : String) : Element → List Element → List Element
  | mk kind source children, rest =>
    if kind.isAtRule name then rest else mk kind source (without name children) :: rest

/-- Elements without the at-rules of a name and what is below these. -/
def without (name : String) : List Element → List Element
  | [] => []
  | e :: rest => consWithout name e (without name rest)

end

theorem without_cons (name : String) (kind : Kind) (source : Option Source) (children rest : List Element) :
    without name (mk kind source children :: rest) =
      if kind.isAtRule name then without name rest
      else mk kind source (without name children) :: without name rest := rfl

def atRulesAll (name : String) (es : List Element) : List Element :=
  (partsAll es).filter fun e => e.kind.isAtRule name

theorem atRulesAll_cons (name : String) (kind : Kind) (source : Option Source) (children rest : List Element) :
    atRulesAll name (mk kind source children :: rest) =
      (if kind.isAtRule name then [mk kind source children] else []) ++ atRulesAll name children ++
        atRulesAll name rest := by
  by_cases h : kind.isAtRule name <;> simp [atRulesAll, Element.kind, h]

theorem atRulesAll_without (name : String) (es : List Element) : atRulesAll name (without name es) = [] := by
  induction es using forest_induction with
  | nil => rfl
  | cons kind source children rest hc hr =>
    by_cases h : kind.isAtRule name <;> simp [without_cons, atRulesAll_cons, h, hc, hr]

/-- What holds of the sources of some at-rules still does when others are left out. -/
theorem source_without {P : Option Source → Prop} {word name : String} {es : List Element}
    (h : ∀ x ∈ atRulesAll word es, P x.source) : ∀ x ∈ atRulesAll word (without name es), P x.source := by
  induction es using forest_induction with
  | nil => exact h
  | cons kind source children rest hc hr =>
    simp only [atRulesAll_cons, List.forall_mem_append] at h
    rw [without_cons]
    split
    next => exact hr h.2
    next =>
      simp only [atRulesAll_cons, List.forall_mem_append]
      refine ⟨⟨fun x hx => ?_, hc h.1.2⟩, hr h.2⟩
      by_cases hw : kind.isAtRule word
      · rw [if_pos hw, List.mem_singleton] at hx
        subst hx
        exact h.1.1 (.mk kind source children) (by simp [hw])
      · simp [hw] at hx

theorem partsAll_children_subset {b : Element} {es : List Element} (h : b ∈ partsAll es) :
    partsAll b.children ⊆ partsAll es := by
  induction es using forest_induction with
  | nil => simp at h
  | cons kind source children rest hc hr =>
    intro x hx
    simp only [partsAll_cons, List.mem_cons, List.mem_append] at h ⊢
    rcases h with rfl | h | h
    · exact Or.inr (Or.inl hx)
    · exact Or.inr (Or.inl (hc h hx))
    · exact Or.inr (Or.inr (hr h hx))

theorem atRulesAll_children_subset {b : Element} {es : List Element} (h : b ∈ partsAll es) (name : String) :
    atRulesAll name b.children ⊆ atRulesAll name es := by
  intro x hx
  obtain ⟨hx, hk⟩ := List.mem_filter.mp hx
  exact List.mem_filter.mpr ⟨partsAll_children_subset h hx, hk⟩

/-- The name and the mixin that a block defines; `none` if its text is malformed. The body has no definitions in
it, and takes content if it has a place for it. -/
def definition? (block : Element) : Option (String × Definition) :=
  (Call.Invocation.read block.kind.params).map fun head =>
    let list := (head.list.map Call.readParameters).getD ⟨[], false⟩
    let body := without Keyword.definition block.children
    (head.name, .block {
      body := .mk .root block.source body
      parameters := list.parameters
      variadic := list.variadic
      acceptsContent := !(atRulesAll Keyword.placeholder body).isEmpty })

def refusal (block : Element) : Error :=
  .malformedList ("@" ++ Keyword.definition ++ " " ++ block.kind.params) block.source

/-- What reading a block for its definition gives. -/
def definition (block : Element) : Except Error (String × Definition) :=
  block.definition?.elim (.error block.refusal) .ok

/-- What the last of the blocks with a name defines. -/
def lastDefinition? (name : String) (blocks : List Element) : Option Definition :=
  (((blocks.filterMap definition?).filter fun d => d.1 = name).getLast?).map Prod.snd

theorem readable_or_refused (blocks : List Element) :
    (∀ b ∈ blocks, b.definition?.isSome) ∨ ∃ before b after, blocks = before ++ b :: after ∧
      (∀ d ∈ before, d.definition?.isSome) ∧ b.definition? = none := by
  induction blocks with
  | nil => simp
  | cons b blocks ih =>
    cases hb : b.definition? with
    | none => exact Or.inr ⟨[], b, blocks, rfl, by simp, hb⟩
    | some d =>
      have hfirst : b.definition?.isSome := by simp [hb]
      rcases ih with hall | ⟨before, b', after, rfl, hbefore, hb'⟩
      · exact Or.inl (List.forall_mem_cons.mpr ⟨hfirst, hall⟩)
      · exact Or.inr ⟨b :: before, b', after, rfl, List.forall_mem_cons.mpr ⟨hfirst, hbefore⟩, hb'⟩

theorem map_definition_of_isSome {blocks : List Element} (h : ∀ b ∈ blocks, b.definition?.isSome) :
    blocks.map definition = (blocks.filterMap definition?).map .ok := by
  induction blocks with
  | nil => rfl
  | cons b blocks ih =>
    obtain ⟨d, hd⟩ := Option.isSome_iff_exists.mp (h b (by simp))
    rw [List.map_cons, ih fun b' hb => h b' (by simp [hb]), List.filterMap_cons_some hd, definition, hd]
    rfl

end Element

end StyleMixins
