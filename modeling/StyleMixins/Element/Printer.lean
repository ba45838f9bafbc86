import StyleMixins.Element

namespace StyleMixins.Element

def indent (depth : Nat) : List Char :=
  List.replicate (2 * depth) ' '

def atHead (name params : String) : List Char :=
  '@' :: name.toList ++ if params.isEmpty then [] else ' ' :: params.toList

mutual

def write (depth : Nat) : Element → List Char
  | mk kind _ children =>
    match kind with
    | .root => writeAll depth children
    | .declaration property value =>
      indent depth ++ property.toList ++ ':' :: ' ' :: value.toList ++ [';', '\n']
    | .rule selector =>
      indent depth ++ selector.toList ++ ' ' :: '{' :: '\n' :: writeAll (depth + 1) children ++
        indent depth ++ ['}', '\n']
    | .atRule name params hasBlock =>
      if hasBlock || !children.isEmpty then
        indent depth ++ atHead name params ++ ' ' :: '{' :: '\n' :: writeAll (depth + 1) children ++
          indent depth ++ ['}', '\n']
      else indent depth ++ atHead name params ++ [';', '\n']

def writeAll (depth : Nat) : List Element → List Char
  | [] => []
  | e :: rest => e.write depth ++ writeAll depth rest

end

/-- The printed style sheet; of a root, its children. -/
def print (e : Element) : String :=
  String.ofList (e.write 0)

end StyleMixins.Element
