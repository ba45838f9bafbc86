import StyleMixins.Element.Printer
import StyleMixins.Proofs.Forest.Basic

namespace StyleMixins.Element

mutual

def bare : Element → Element
  | mk kind _ children => mk kind none (bareAll children)

def bareAll : List Element → List Element
  | [] => []
  | e :: rest => e.bare :: bareAll rest

end

mutual

def parts : Element → List Element
  | mk kind source children => mk kind source children :: partsAll children

def partsAll : List Element → List Element
  | [] => []
  | e :: rest => e.parts ++ partsAll rest

end

@[simp] theorem bareAll_nil : bareAll [] = [] := rfl

@[simp] theorem bareAll_cons (kind : Kind) (source : Option Source) (children rest : List Element) :
    bareAll (mk kind source children :: rest) = mk kind none (bareAll children) :: bareAll rest := rfl

@[simp] theorem partsAll_nil : partsAll [] = [] := rfl

@[simp] theorem partsAll_cons (kind : Kind) (source : Option Source) (children rest : List Element) :
    partsAll (mk kind source children :: rest) =
      mk kind source children :: (partsAll children ++ partsAll rest) := rfl

theorem bareAll_append (es more : List Element) : bareAll (es ++ more) = bareAll es ++ bareAll more := by
  induction es with
  | nil => rfl
  | cons e es ih => rw [List.cons_append, bareAll, bareAll, ih, List.cons_append]

theorem bare_children (e : Element) : e.bare = mk e.kind none (bareAll e.children) := by
  cases e
  rfl

theorem bareAll_eq_nil {es : List Element} : bareAll es = [] ↔ es = [] := by
  cases es with
  | nil => simp
  | cons e es => simp [bareAll]

theorem bareAll_eq_cons {found children more : List Element} {kind : Kind}
    (h : bareAll found = mk kind none children :: more) : ∃ source children' found',
      found = mk kind source children' :: found' ∧ bareAll children' = children ∧ bareAll found' = more := by
  match found, h with
  | mk kind' source children' :: found', h =>
    simp only [bareAll_cons, List.cons.injEq, Element.mk.injEq] at h
    obtain ⟨⟨rfl, -, hchildren⟩, hfound⟩ := h
    exact ⟨source, children', found', rfl, hchildren, hfound⟩

/-- Printing looks at no source. -/
theorem writeAll_bareAll (depth : Nat) (es : List Element) : writeAll depth (bareAll es) = writeAll depth es := by
  induction es using forest_induction generalizing depth with
  | nil => rfl
  | cons kind source children rest hc hr =>
    have hempty : (bareAll children).isEmpty = children.isEmpty := by
      rw [Bool.eq_iff_iff, List.isEmpty_iff, List.isEmpty_iff, bareAll_eq_nil]
    cases kind <;> simp [writeAll, write, hc, hr, hempty]

theorem write_bare (depth : Nat) (e : Element) : e.bare.write depth = e.write depth := by
  simpa [writeAll, bareAll] using writeAll_bareAll depth [e]

theorem print_eq_of_bare_eq {e e' : Element} (h : e.bare = e'.bare) : e.print = e'.print := by
  rw [print, print, ← write_bare, h, write_bare]

end StyleMixins.Element
