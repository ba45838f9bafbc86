import StyleMixins.Yaml.Scalar
import StyleMixins.Yaml.Tag

namespace StyleMixins.Yaml

inductive Node where
  | scalar (text : String) (style : Style) (tag : Option Tag)
  | sequence (tag : Option Tag) (items : List Node)
  | mapping (tag : Option Tag) (pairs : List (Node × Node))
  | alias (number : Nat)
  deriving Repr

namespace Node

def absent : Node :=
  .scalar "" .plain none

mutual

/-- How many steps it takes to walk over a node: one for a scalar or an alias, two for the ends of a
collection. -/
def size : Node → Nat
  | .scalar _ _ _ | .alias _ => 1
  | .sequence _ items => 2 + itemsSize items
  | .mapping _ pairs => 2 + pairsSize pairs

def itemsSize : List Node → Nat
  | [] => 0
  | n :: rest => n.size + itemsSize rest

def pairsSize : List (Node × Node) → Nat
  | [] => 0
  | (k, v) :: rest => k.size + v.size + pairsSize rest

end

end Node

structure Document where
  root : Node
  /-- The nodes that aliases stand for, by number. -/
  targets : List (Nat × Node)

/-- Reading values, with a number of aliases that may still be followed. -/
abbrev Reading := StateT Nat Option

namespace Document

def follow (doc : Document) : Node → Reading Node
  | .alias number => fun left =>
    match left, doc.targets.lookup number with
    | left + 1, some n => some (n, left)
    | _, _ => none
  | n => pure n

/-- Aliases are followed at most a hundred times as often as the document has steps. -/
def run {α : Type} (doc : Document) (reading : Reading α) : Option α :=
  reading.run' (100 * doc.root.size)

end Document

end StyleMixins.Yaml
