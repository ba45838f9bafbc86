import StyleMixins.Error
import StyleMixins.Sheet.Expectation
import StyleMixins.Sheet.Reader

namespace StyleMixins.Sheet

/-- A failure at or behind the last character that is no blank is one for want of more text. -/
def failure (file : SourceText) : Error :=
  let x := expectation file.content
  let readable := (String.ofList (Text.trimEnd file.content.toList)).utf8ByteSize
  let reason :=
    if readable ≤ x.offset then "Unexpected end of input (missing closing brace?)" else x.message
  .unparsable reason file ⟨x.offset, x.offset⟩

/-- The style sheet as a root with the top-level statements below it. A text of blanks alone is an empty
one. -/
def parse (file : SourceText) : Except Error Element :=
  let root := fun children =>
    Element.mk .root (some ⟨file, ⟨0, file.content.utf8ByteSize⟩, 1, 1⟩) children
  if (Text.trim file.content.toList).isEmpty then .ok (root [])
  else
    match document? file with
    | some children => .ok (root children)
    | none => .error (failure file)

def inlineName : String := "<inline>"

end StyleMixins.Sheet
