import StyleMixins.Element

/-!
A store of numbered nodes with links to parents and children. A node keeps its number for good: moving it
changes links only, and a node that nothing links to stays in the store. Node 0 is the root.
-/

namespace StyleMixins

abbrev NodeId := Nat

structure Node where
  kind : Kind
  source : Option Source
  parent : Option NodeId
  children : List NodeId
  deriving DecidableEq, Repr

structure Tree where
  nodes : Array Node
  deriving DecidableEq, Repr

namespace Tree

def root : NodeId := 0

def size (t : Tree) : Nat :=
  t.nodes.size

def node? (t : Tree) (id : NodeId) : Option Node :=
  t.nodes[id]?

def kind? (t : Tree) (id : NodeId) : Option Kind :=
  (t.node? id).map Node.kind

def source? (t : Tree) (id : NodeId) : Option Source :=
  (t.node? id).bind Node.source

def parent? (t : Tree) (id : NodeId) : Option NodeId :=
  (t.node? id).bind Node.parent

def children (t : Tree) (id : NodeId) : List NodeId :=
  match t.node? id with
  | some n => n.children
  | none => []

def isAtRule (t : Tree) (id : NodeId) (name : String) : Bool :=
  match t.node? id with
  | some n => n.kind.isAtRule name
  | none => false

def modify (t : Tree) (id : NodeId) (f : Node → Node) : Tree :=
  ⟨t.nodes.modify id f⟩

/-- Adds a node without links; its number is the size before. -/
def create (t : Tree) (kind : Kind) (source : Option Source) : Tree × NodeId :=
  (⟨t.nodes.push ⟨kind, source, none, []⟩⟩, t.size)

def setKind (t : Tree) (id : NodeId) (kind : Kind) : Tree :=
  t.modify id fun n => { n with kind := kind }

def isEmpty (t : Tree) : Bool :=
  (t.children root).isEmpty

theorem node?_modify (t : Tree) (id other : NodeId) (f : Node → Node) :
    (t.modify id f).node? other = if id = other then (t.node? other).map f else t.node? other := by
  simp [modify, node?, Array.getElem?_modify]

theorem size_modify (t : Tree) (id : NodeId) (f : Node → Node) : (t.modify id f).size = t.size := by
  simp [modify, size]

end Tree

end StyleMixins
