import StyleMixins.Call.Parameter
import StyleMixins.Error
import StyleMixins.Record.Value
import StyleMixins.Tree.Basic

namespace StyleMixins

/-- What a callback may look at: the store, the node of the call in it, and what was read from the call. -/
structure CallSite where
  tree : Tree
  node : NodeId
  name : String
  arguments : List Call.Argument

def CallSite.source? (site : CallSite) : Option Source :=
  site.tree.source? site.node

/-- Gives the record to put in place of a call, or nothing. -/
abbrev Callback := CallSite → Except Error (Option Record)

structure BlockMixin where
  body : Element
  parameters : List Call.Parameter
  variadic : Bool
  acceptsContent : Bool

inductive Definition where
  | block (mixin : BlockMixin)
  | record (fields : Record)
  | callback (run : Callback)

namespace Definition

def label : Definition → String
  | block _ => "tree"
  | record _ => "record"
  | callback _ => "callback"

def parameterText (p : Call.Parameter) : String :=
  if p.fallback.isEmpty then "$" ++ p.name else "$" ++ p.name ++ ": " ++ p.fallback

def signature (name : String) : Definition → String
  | block m =>
    name ++ "(" ++ ", ".intercalate (m.parameters.map parameterText) ++
      (if m.variadic then "..." else "") ++ ")"
  | _ => name

end Definition

/-- Definitions by name; a later one takes the place of an earlier one of its name. -/
abbrev Registry := Entries Definition

end StyleMixins
