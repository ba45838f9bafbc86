import StyleMixins.Text.Blank

namespace StyleMixins.Call

/-- A name with the raw text between its parentheses, if it has any. -/
structure Invocation where
  name : String
  list : Option String
  deriving DecidableEq, Repr

namespace Invocation

/-- Reads `name` or `name(list)`. `none` when the text from the first `(` on, trimmed, does not end in
`)`. -/
def read (text : String) : Option Invocation :=
  let cs := text.toList
  let name := String.ofList (Text.trim (cs.takeWhile (· ≠ '(')))
  match Text.trim (cs.dropWhile (· ≠ '(')) with
  | [] => some ⟨name, none⟩
  | first :: rest =>
    if first = '(' ∧ rest.getLast? = some ')' then some ⟨name, some (String.ofList rest.dropLast)⟩
    else none

def malformed : String :=
  "argument list must start with `(` and end with `)`"

end Invocation

end StyleMixins.Call
