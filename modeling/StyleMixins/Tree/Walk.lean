import StyleMixins.Tree.Basic

namespace StyleMixins.Tree

/-- The nodes on a stack and all below them, each before its children, at most `fuel` of them. -/
def walk (t : Tree) : (fuel : Nat) → (stack : List NodeId) → List NodeId
  | 0, _ => []
  | _ + 1, [] => []
  | fuel + 1, id :: stack => id :: t.walk fuel (t.children id ++ stack)

def descendants (t : Tree) (id : NodeId) : List NodeId :=
  t.walk t.size (t.children id)

def atRules (t : Tree) (id : NodeId) (name : String) : List NodeId :=
  (t.descendants id).filter fun n => t.isAtRule n name

/-- The first node on the way of `walk` that is an at-rule of the name. -/
def search (t : Tree) (name : String) : (fuel : Nat) → (stack : List NodeId) → Option NodeId
  | 0, _ => none
  | _ + 1, [] => none
  | fuel + 1, id :: stack =>
    if t.isAtRule id name then some id else t.search name fuel (t.children id ++ stack)

def firstAtRule (t : Tree) (id : NodeId) (name : String) : Option NodeId :=
  t.search name t.size (t.children id)

/-- Whether at most `fuel` steps up from a node lead to `ancestor`. -/
def climb (t : Tree) (ancestor : NodeId) : (fuel : Nat) → NodeId → Bool
  | 0, id => id == ancestor
  | fuel + 1, id =>
    id == ancestor ||
      match t.parent? id with
      | some p => t.climb ancestor fuel p
      | none => false

def isAttached (t : Tree) (id ancestor : NodeId) : Bool :=
  t.climb ancestor t.size id

def length (t : Tree) : Nat :=
  (t.descendants root).length + 1

def follow (t : Tree) (id : NodeId) : List Nat → Option NodeId
  | [] => some id
  | i :: rest => ((t.children id)[i]?).bind fun child => t.follow child rest

end StyleMixins.Tree
