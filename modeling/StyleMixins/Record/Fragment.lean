import StyleMixins.Element
import StyleMixins.Record.Value
import StyleMixins.Text.Blank

/-!
Records as style sheets. A scalar is a declaration; a record, a list or null is a rule with its key as
selector, or an at-rule if the key starts with `@`. The items of a list have their positions as keys.
-/

namespace StyleMixins.Record

/-- What a key with something below it stands for. -/
def containerKind (key : String) : Kind :=
  match key.toList with
  | '@' :: rest =>
    let head := Text.trim rest
    .atRule (String.ofList (head.takeWhile (!Text.isBlank ·)))
      (String.ofList (Text.trim (head.dropWhile (!Text.isBlank ·)))) true
  | _ => .rule key

mutual

def entryElement (source : Option Source) (key : String) : Value → Element
  | .null => .mk (containerKind key) source []
  | .bool b => .mk (.declaration key (if b then "true" else "false")) source []
  | .number n => .mk (.declaration key n.text) source []
  | .text s => .mk (.declaration key s) source []
  | .list items => .mk (containerKind key) source (itemElements source 0 items)
  | .record fields => .mk (containerKind key) source (fieldElements source fields)

def itemElements (source : Option Source) (index : Nat) : List Value → List Element
  | [] => []
  | v :: rest => entryElement source (toString index) v :: itemElements source (index + 1) rest

def fieldElements (source : Option Source) : List (String × Value) → List Element
  | [] => []
  | (key, v) :: rest => entryElement source key v :: fieldElements source rest

end

/-- The record as a style sheet; every node has the given source. -/
def fragment (fields : Record) (source : Option Source) : Element :=
  .mk .root source (fieldElements source fields)

end StyleMixins.Record
