import StyleMixins.Record.Fragment
import StyleMixins.Tree.Relink

namespace StyleMixins

namespace Tree

mutual

def addEntry (t : Tree) (parent : NodeId) (source : Option Source) (key : String) : Value → Tree
  | .null => (t.addChild parent (Record.containerKind key) source).1
  | .bool b => (t.addChild parent (.declaration key (if b then "true" else "false")) source).1
  | .number n => (t.addChild parent (.declaration key n.text) source).1
  | .text s => (t.addChild parent (.declaration key s) source).1
  | .list items =>
    match t.addChild parent (Record.containerKind key) source with
    | (t, id) => t.addItems id source 0 items
  | .record fields =>
    match t.addChild parent (Record.containerKind key) source with
    | (t, id) => t.addFields id source fields

def addItems (t : Tree) (parent : NodeId) (source : Option Source) (index : Nat) : List Value → Tree
  | [] => t
  | v :: rest => (t.addEntry parent source (toString index) v).addItems parent source (index + 1) rest

def addFields (t : Tree) (parent : NodeId) (source : Option Source) : List (String × Value) → Tree
  | [] => t
  | (key, v) :: rest => (t.addEntry parent source key v).addFields parent source rest

end

end Tree

def Record.store (fields : Record) (source : Option Source) : Tree :=
  match (⟨#[]⟩ : Tree).create .root source with
  | (t, id) => t.addFields id source fields

end StyleMixins
