import StyleMixins.Source

namespace StyleMixins

/-- What stands at a node: the root, a rule such as `a { .. }`, an at-rule such as `@media print { .. }`
or `@charset "x";`, or a declaration such as `color: red;`. -/
inductive Kind where
  | root
  | rule (selector : String)
  | atRule (name params : String) (hasBlock : Bool)
  | declaration (property value : String)
  deriving DecidableEq, Repr

namespace Kind

def isAtRule (kind : Kind) (name : String) : Bool :=
  match kind with
  | atRule n _ _ => n == name
  | _ => false

/-- The kind with `f` applied to each of its texts, an at-rule's name apart. -/
def mapTexts (f : String → String) : Kind → Kind
  | root => root
  | rule selector => rule (f selector)
  | atRule name params hasBlock => atRule name (f params) hasBlock
  | declaration property value => declaration (f property) (f value)

end Kind

inductive Element where
  | mk (kind : Kind) (source : Option Source) (children : List Element)
  deriving Repr

namespace Element

def kind : Element → Kind
  | mk kind _ _ => kind

def source : Element → Option Source
  | mk _ source _ => source

def children : Element → List Element
  | mk _ _ children => children

mutual

def size : Element → Nat
  | mk _ _ children => sizeAll children + 1

def sizeAll : List Element → Nat
  | [] => 0
  | e :: rest => e.size + sizeAll rest

end

mutual

def outline (depth : Nat) : Element → List (Nat × Kind × Option Source)
  | mk kind source children => (depth, kind, source) :: outlineAll (depth + 1) children

def outlineAll (depth : Nat) : List Element → List (Nat × Kind × Option Source)
  | [] => []
  | e :: rest => e.outline depth ++ outlineAll depth rest

end

end Element

end StyleMixins
