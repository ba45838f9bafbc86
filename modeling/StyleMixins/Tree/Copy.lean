import StyleMixins.Tree.Relink
import StyleMixins.Tree.Walk

namespace StyleMixins.Tree

/-- What hangs from a node, down to a depth of `fuel`. -/
def elementTo (t : Tree) : (fuel : Nat) → NodeId → Option Element
  | 0, _ => none
  | fuel + 1, id =>
    match t.node? id with
    | none => none
    | some n => some (.mk n.kind n.source (n.children.filterMap (t.elementTo fuel)))

/-- A node with all that hangs from it; `none` if there is no such node. -/
def element? (t : Tree) (id : NodeId) : Option Element :=
  t.elementTo t.size id

def forest (t : Tree) (id : NodeId) : List Element :=
  (t.children id).filterMap t.element?

mutual

/-- Adds an ordered tree as new nodes, numbered in document order, that hang from nothing. -/
def graft (t : Tree) : Element → Tree × NodeId
  | .mk kind source children =>
    match t.create kind source with
    | (t, id) => (t.graftAll id children, id)

def graftAll (t : Tree) (parent : NodeId) : List Element → Tree
  | [] => t
  | e :: rest =>
    match t.graft e with
    | (t, id) => (t.append parent id).graftAll parent rest

end

/-- The store that holds an ordered tree and nothing else. -/
def ofElement (e : Element) : Tree :=
  ((⟨#[]⟩ : Tree).graft e).1

def empty : Tree :=
  ofElement (.mk .root none [])

/-- Copies nodes one after the other, each as `copy` does it, and makes the copies the last children of a node. -/
def copyEach (copy : Tree → NodeId → Option (Tree × NodeId)) (parent : NodeId) (t : Tree) :
    List NodeId → Option Tree
  | [] => some t
  | id :: rest =>
    match copy t id with
    | none => none
    | some (t, copied) => copyEach copy parent (t.append parent copied) rest

/-- Copies a node into a store and then what is below it, each node looked up in what `view` makes of the store as it
is by then. There is no copy if a node is missing or the way down is longer than `fuel`. -/
def copyTo (view : Tree → Tree) : (fuel : Nat) → Tree → NodeId → Option (Tree × NodeId)
  | 0, _, _ => none
  | fuel + 1, t, id =>
    match (view t).node? id with
    | none => none
    | some n =>
      match t.create n.kind n.source with
      | (t, copied) => (copyEach (copyTo view fuel) copied t n.children).map (·, copied)

/-- Copies a node within a store, which is read while it grows. -/
def copy? (t : Tree) (id : NodeId) : Option (Tree × NodeId) :=
  copyTo (fun t => t) t.size t id

def copyFrom? (t other : Tree) (id : NodeId) : Option (Tree × NodeId) :=
  copyTo (fun _ => other) other.size t id

/-- What hangs below a node in a store of its own, whose root has the node's source. -/
def extract? (t : Tree) (id : NodeId) : Option Tree :=
  match t.node? id with
  | none => none
  | some n =>
    match (⟨#[]⟩ : Tree).create .root n.source with
    | (u, root) => copyEach (fun u child => u.copyFrom? t child) root u n.children

/-- The store with only what hangs from the root, numbered in document order. -/
def compact (t : Tree) : Tree :=
  (t.extract? root).getD t

/-- What hangs below a node as a style sheet of its own, whose root has the node's source. -/
def fragment (t : Tree) (id : NodeId) : Element :=
  .mk .root (t.source? id) (t.forest id)

end StyleMixins.Tree
