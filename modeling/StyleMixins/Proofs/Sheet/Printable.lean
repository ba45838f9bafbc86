import StyleMixins.Proofs.Sheet.Bare
import StyleMixins.Proofs.Sheet.Cursors

namespace StyleMixins

/-- A text that can stand before a brace or a semicolon and is found there again. -/
def HeadText (s : String) : Prop :=
  Text.Trimmed s.toList ∧ ∀ x ∈ s.toList, Sheet.isHeadChar x = true

instance (s : String) : Decidable (HeadText s) :=
  inferInstanceAs (Decidable (_ ∧ _))

namespace Kind

def texts : Kind → List String
  | root => []
  | rule selector => [selector]
  | atRule name params _ => [name, params]
  | declaration property value => [property, value]

/-- What the texts of a statement are made of, and which statements have children. -/
def Shaped (children : List Element) : Kind → Prop
  | root => False
  | rule selector => HeadText selector
  | atRule name params hasBlock =>
    (name ≠ "" ∧ ∀ x ∈ name.toList, Sheet.isKeywordChar x = true) ∧ HeadText params ∧
      (children.isEmpty || hasBlock) = true
  | declaration property value =>
    (Text.Trimmed property.toList ∧ ∀ x ∈ property.toList, Sheet.isPropertyChar x = true) ∧ HeadText value ∧
      children.isEmpty = true

instance (children : List Element) : (kind : Kind) → Decidable (kind.Shaped children)
  | root => inferInstanceAs (Decidable False)
  | rule selector => inferInstanceAs (Decidable (HeadText selector))
  | atRule _ _ _ => inferInstanceAs (Decidable (_ ∧ _ ∧ _))
  | declaration _ _ => inferInstanceAs (Decidable (_ ∧ _ ∧ _))

/-- A rule or declaration starts with some text, and not with that of an at-rule. -/
def Headed : Kind → Prop
  | rule selector => selector ≠ "" ∧ Sheet.beginsAtRule selector.toList = false
  | declaration property _ => property ≠ "" ∧ Sheet.beginsAtRule property.toList = false
  | _ => True

instance : (kind : Kind) → Decidable kind.Headed
  | root => inferInstanceAs (Decidable True)
  | rule _ => inferInstanceAs (Decidable (_ ∧ _))
  | atRule _ _ _ => inferInstanceAs (Decidable True)
  | declaration _ _ => inferInstanceAs (Decidable (_ ∧ _))

end Kind

namespace Element

/-- A root over statements that are shaped and headed as they should be, with no text that holds the start of
a comment. -/
def Printable (e : Element) : Prop :=
  e.kind = .root ∧ ∀ x ∈ partsAll e.children,
    x.kind.Shaped x.children ∧ x.kind.Headed ∧ ∀ s ∈ x.kind.texts, ¬['/', '*'] <:+: s.toList

instance (e : Element) : Decidable e.Printable :=
  inferInstanceAs (Decidable (_ ∧ _))

/-- A statement that is told from the others by its head. -/
structure Legible (x : Element) : Prop where
  shaped : x.kind.Shaped x.children
  headed : x.kind.Headed

end Element

namespace Sheet

variable {a b cs : List Char} {s : String}

theorem not_isGapChar_head (ht : Text.Trimmed a) (hne : a ≠ []) : ∀ x ∈ (a ++ b).head?, isGapChar x = false := by
  intro x hx
  have hhead : x ∈ a.head? := by
    cases a with
    | nil => exact absurd rfl hne
    | cons y a => simpa using hx
  have hblank := (Text.trimmed_iff.mp ht).1 x hhead
  by_contra hgap
  simp [isBlank_of_isGapChar (by simpa using hgap)] at hblank

theorem solid_append (ht : Text.Trimmed a) (hne : a ≠ []) (h : comment? (a ++ b) = none) : Solid (a ++ b) :=
  solid_of_comment? (not_isGapChar_head ht hne) h

theorem toList_ne_nil (h : s ≠ "") : s.toList ≠ [] :=
  mt String.toList_eq_nil_iff.mp h

end Sheet

end StyleMixins
