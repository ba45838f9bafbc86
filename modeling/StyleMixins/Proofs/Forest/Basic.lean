import StyleMixins.Mixin.Harvest

/-!
Ordered forests with marked nodes. Read with node numbers as marks they say where a tree lies in a store;
read with depths they say how deep the calls in it count.
-/

namespace StyleMixins

/-- Ordered trees side by side: the first tree, given by its root and what is below it, and the others. -/
inductive Forest (α : Type) where
  | nil
  | cons (mark : α) (kind : Kind) (source : Option Source) (below rest : Forest α)

def Kind.callText? : Kind → Option String
  | .atRule name params _ => if name = Keyword.call then some params else none
  | _ => none

theorem Kind.isAtRule_call (kind : Kind) : kind.isAtRule Keyword.call = kind.callText?.isSome := by
  cases kind with
  | atRule name params hasBlock =>
    by_cases h : name = Keyword.call <;> simp [isAtRule, callText?, h]
  | _ => rfl

namespace Forest

variable {α β γ : Type}

def append : Forest α → Forest α → Forest α
  | nil, g => g
  | cons a k s below rest, g => cons a k s below (rest.append g)

instance : Append (Forest α) := ⟨append⟩

@[simp] theorem nil_append (g : Forest α) : nil ++ g = g := rfl

@[simp] theorem cons_append (a : α) (k : Kind) (s : Option Source) (below rest g : Forest α) :
    cons a k s below rest ++ g = cons a k s below (rest ++ g) := rfl

@[simp] theorem append_nil (f : Forest α) : f ++ nil = f := by
  induction f with
  | nil => rfl
  | cons a k s below rest _ ih => simp [ih]

theorem append_assoc (f g h : Forest α) : f ++ g ++ h = f ++ (g ++ h) := by
  induction f with
  | nil => rfl
  | cons a k s below rest _ ih => simp [ih]

def map (φ : α → β) : Forest α → Forest β
  | nil => nil
  | cons a k s below rest => cons (φ a) k s (below.map φ) (rest.map φ)

def tops : Forest α → List α
  | nil => []
  | cons a _ _ _ rest => a :: rest.tops

/-- All marks, each before those below it. -/
def marks : Forest α → List α
  | nil => []
  | cons a _ _ below rest => a :: (below.marks ++ rest.marks)

def atRules (name : String) : Forest α → List α
  | nil => []
  | cons a k _ below rest =>
    (if k.isAtRule name then [a] else []) ++ below.atRules name ++ rest.atRules name

def elements : Forest α → List Element
  | nil => []
  | cons _ k s below rest => .mk k s below.elements :: rest.elements

@[simp] theorem map_append (φ : α → β) (f g : Forest α) : (f ++ g).map φ = f.map φ ++ g.map φ := by
  induction f with
  | nil => rfl
  | cons a k s below rest _ ih => simp [map, ih]

@[simp] theorem tops_append (f g : Forest α) : (f ++ g).tops = f.tops ++ g.tops := by
  induction f with
  | nil => rfl
  | cons a k s below rest _ ih => simp [tops, ih]

@[simp] theorem marks_append (f g : Forest α) : (f ++ g).marks = f.marks ++ g.marks := by
  induction f with
  | nil => rfl
  | cons a k s below rest _ ih => simp [marks, ih]

@[simp] theorem atRules_append (name : String) (f g : Forest α) :
    (f ++ g).atRules name = f.atRules name ++ g.atRules name := by
  induction f with
  | nil => rfl
  | cons a k s below rest _ ih => simp [atRules, ih]

@[simp] theorem elements_append (f g : Forest α) :
    (f ++ g).elements = f.elements ++ g.elements := by
  induction f with
  | nil => rfl
  | cons a k s below rest _ ih => simp [elements, ih]

theorem map_map (φ : α → β) (ψ : β → γ) (f : Forest α) :
    (f.map φ).map ψ = f.map fun a => ψ (φ a) := by
  induction f with
  | nil => rfl
  | cons a k s below rest hb hr => simp [map, hb, hr]

theorem map_id (f : Forest α) : (f.map fun a => a) = f := by
  induction f with
  | nil => rfl
  | cons a k s below rest hb hr => simp [map, hb, hr]

theorem map_congr {φ ψ : α → β} {f : Forest α} (h : ∀ a ∈ f.marks, φ a = ψ a) :
    f.map φ = f.map ψ := by
  induction f with
  | nil => rfl
  | cons a k s below rest hb hr =>
    simp only [marks, List.mem_cons, List.mem_append] at h
    rw [map, map, h a (Or.inl rfl), hb fun x hx => h x (Or.inr (Or.inl hx)),
      hr fun x hx => h x (Or.inr (Or.inr hx))]

@[simp] theorem elements_map (φ : α → β) (f : Forest α) : (f.map φ).elements = f.elements := by
  induction f with
  | nil => rfl
  | cons a k s below rest hb hr => simp [map, elements, hb, hr]

theorem tops_subset_marks (f : Forest α) : f.tops ⊆ f.marks := by
  induction f with
  | nil => simp [tops]
  | cons a k s below rest _ hr =>
    intro x hx
    simp only [tops, marks, List.mem_cons, List.mem_append] at hx ⊢
    exact hx.imp_right fun h => Or.inr (hr h)

theorem atRules_sublist_marks (name : String) (f : Forest α) : (f.atRules name).Sublist f.marks := by
  induction f with
  | nil => exact .slnil
  | cons a k s below rest hb hr =>
    have h := hb.append hr
    by_cases hk : k.isAtRule name
    · simpa [atRules, marks, hk] using h
    · simpa [atRules, marks, hk] using h.cons a

theorem marks_map (φ : α → β) (f : Forest α) : (f.map φ).marks = f.marks.map φ := by
  induction f with
  | nil => rfl
  | cons a k s below rest hb hr => simp [map, marks, hb, hr]

theorem atRules_map (φ : α → β) (name : String) (f : Forest α) : (f.map φ).atRules name = (f.atRules name).map φ := by
  induction f with
  | nil => rfl
  | cons a k s below rest hb hr => by_cases hk : k.isAtRule name <;> simp [map, atRules, hk, hb, hr]

theorem length_marks (f : Forest α) (φ : α → β) : (f.map φ).marks.length = f.marks.length := by
  induction f with
  | nil => rfl
  | cons a k s below rest hb hr => simp [map, marks, hb, hr]

end Forest

/-- Induction over lists of elements that also goes down into the first element. -/
theorem Element.forest_induction {motive : List Element → Prop} (nil : motive [])
    (cons : ∀ kind source children rest, motive children → motive rest →
      motive (.mk kind source children :: rest)) (es : List Element) : motive es :=
  @Element.rec_1 (fun e => ∀ rest, motive rest → motive (e :: rest)) motive
    (fun kind source children hc rest hr => cons kind source children rest hc hr)
    nil (fun _ rest he hr => he rest hr) es

namespace Forest

variable {α β : Type}

mutual

/-- An element in front of a forest, every node with the same mark. -/
def consElement (a : α) : Element → Forest α → Forest α
  | .mk kind source children, rest => cons a kind source (ofElements a children) rest

def ofElements (a : α) : List Element → Forest α
  | [] => nil
  | e :: rest => consElement a e (ofElements a rest)

end

@[simp] theorem ofElements_nil (a : α) : ofElements a [] = nil := rfl

@[simp] theorem ofElements_cons (a : α) (kind : Kind) (source : Option Source)
    (children rest : List Element) :
    ofElements a (.mk kind source children :: rest) =
      cons a kind source (ofElements a children) (ofElements a rest) := rfl

@[simp] theorem elements_ofElements (a : α) (es : List Element) : (ofElements a es).elements = es := by
  induction es using Element.forest_induction with
  | nil => rfl
  | cons kind source children rest hc hr => simp [elements, hc, hr]

theorem map_const (f : Forest α) (b : β) : (f.map fun _ => b) = ofElements b f.elements := by
  induction f with
  | nil => rfl
  | cons a k s below rest hb hr => simp [map, elements, hb, hr]

theorem map_const_ofElements (a : α) (b : β) (es : List Element) : ((ofElements a es).map fun _ => b) = ofElements b es := by
  rw [map_const, elements_ofElements]

theorem map_eq_ofElements {φ : α → β} {b : β} {f : Forest α} (h : ∀ a ∈ f.marks, φ a = b) :
    f.map φ = ofElements b f.elements :=
  (map_congr h).trans (map_const f b)

end Forest

end StyleMixins
