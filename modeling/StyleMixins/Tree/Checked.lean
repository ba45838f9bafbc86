import StyleMixins.Tree.Copy

namespace StyleMixins.Tree

/-- Callers may name nodes that do not exist. The operations here give `none` where such a node would have to be
looked at. -/
def has (t : Tree) (id : NodeId) : Bool :=
  id < t.size

def detach? (t : Tree) (id : NodeId) : Option Tree :=
  if t.has id then some (t.detach id) else none

def append? (t : Tree) (parent child : NodeId) : Option Tree :=
  if t.has child && t.has parent then some (t.append parent child) else none

/-- Two equal numbers need no look, and an anchor without parent needs none at `node`. -/
def insertBefore? (t : Tree) (anchor node : NodeId) : Option (Tree × Bool) :=
  if anchor = node then some (t, false)
  else if !t.has anchor then none
  else if (t.parent? anchor).isNone || t.has node then some (t.insertBefore anchor node)
  else none

def setKind? (t : Tree) (id : NodeId) (kind : Kind) : Option Tree :=
  if t.has id then some (t.setKind id kind) else none

def descendants? (t : Tree) (id : NodeId) : Option (List NodeId) :=
  if t.has id then some (t.descendants id) else none

def atRules? (t : Tree) (id : NodeId) (name : String) : Option (List NodeId) :=
  if t.has id then some (t.atRules id name) else none

def firstAtRule? (t : Tree) (id : NodeId) (name : String) : Option (Option NodeId) :=
  if t.has id then some (t.firstAtRule id name) else none

/-- Every number is attached to itself. -/
def isAttached? (t : Tree) (id ancestor : NodeId) : Option Bool :=
  if id = ancestor then some true
  else if t.has id then some (t.isAttached id ancestor)
  else none

end StyleMixins.Tree
