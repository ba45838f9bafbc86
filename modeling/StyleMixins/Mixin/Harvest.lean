import StyleMixins.Call.Invocation
import StyleMixins.Mixin.Definition
import StyleMixins.Tree.Copy

namespace StyleMixins

namespace Keyword

/-- At-rules of this name define mixins. -/
def definition : String := "mixin"

/-- At-rules of this name are calls. -/
def call : String := "include"

/-- At-rules of this name, in the body of a mixin, are places for what stands inside a call. -/
def placeholder : String := "content"

end Keyword

namespace Tree

def params? (t : Tree) (id : NodeId) : Option String :=
  match t.kind? id with
  | some (.atRule _ text _) => some text
  | _ => none

def params (t : Tree) (id : NodeId) : String :=
  (t.params? id).getD ""

def definition (t : Tree) (block : NodeId) : Except Error (String × Definition) :=
  let text := t.params block
  match Call.Invocation.read text with
  | none => .error (.malformedList ("@" ++ Keyword.definition ++ " " ++ text) (t.source? block))
  | some head =>
    let list := (head.list.map Call.readParameters).getD ⟨[], false⟩
    .ok (head.name, .block {
      body := t.fragment block
      parameters := list.parameters
      variadic := list.variadic
      acceptsContent := (t.firstAtRule block Keyword.placeholder).isSome })

/-- Registers the definitions of the blocks up to the first malformed one. -/
def defineAll (t : Tree) (registry : Registry) : List NodeId → Registry × Option Error
  | [] => (registry, none)
  | block :: rest =>
    match t.definition block with
    | .error e => (registry, some e)
    | .ok (name, d) => t.defineAll (registry.put name d) rest

structure Harvest where
  tree : Tree
  registry : Registry
  outcome : Except Error Nat

/-- Detaches every definition below a node, inner ones from outer ones too, and then registers them in
document order. The outcome is their number. -/
def harvest (t : Tree) (id : NodeId) (registry : Registry) : Harvest :=
  let blocks := t.atRules id Keyword.definition
  let bare := blocks.foldl detach t
  match bare.defineAll registry blocks with
  | (registry, none) => ⟨bare, registry, .ok blocks.length⟩
  | (registry, some e) => ⟨bare, registry, .error e⟩

end Tree

end StyleMixins
