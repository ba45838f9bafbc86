import StyleMixins.Tree.Basic

namespace StyleMixins.Tree

/-- Puts `node` right before `anchor`, or last when `anchor` is not there. -/
def placeBefore (anchor node : NodeId) : List NodeId → List NodeId
  | [] => [node]
  | id :: rest => if id = anchor then node :: id :: rest else id :: placeBefore anchor node rest

/-- Takes a node from its parent. What is below it stays with it. -/
def detach (t : Tree) (id : NodeId) : Tree :=
  match t.parent? id with
  | none => t
  | some p =>
    (t.modify id fun n => { n with parent := none }).modify p fun n =>
      { n with children := n.children.filter (· ≠ id) }

def append (t : Tree) (parent child : NodeId) : Tree :=
  ((t.detach child).modify child fun n => { n with parent := some parent }).modify parent fun n =>
    { n with children := n.children ++ [child] }

/-- Moves `node` in front of `anchor`. Nothing happens, and the answer is false, if the two are the same
or `anchor` has no parent. -/
def insertBefore (t : Tree) (anchor node : NodeId) : Tree × Bool :=
  if anchor = node || (t.parent? anchor).isNone then (t, false)
  else
    let t := t.detach node
    -- The parent is looked up once more, behind the change.
    match t.parent? anchor with
    | none => (t, false)
    | some p =>
      ((t.modify p fun n => { n with children := placeBefore anchor node n.children }).modify node fun n =>
        { n with parent := some p }, true)

def addChild (t : Tree) (parent : NodeId) (kind : Kind) (source : Option Source) : Tree × NodeId :=
  match t.create kind source with
  | (t, id) => (t.append parent id, id)

end StyleMixins.Tree
