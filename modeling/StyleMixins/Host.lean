import StyleMixins.Record.Value

namespace StyleMixins

/-- A path that lies in a directory or matches a pattern. Its stem and its extension are known where they are
text. -/
structure Found where
  path : String
  stem : Option String
  extension : Option String
  isFile : Bool
  text : Except String String

/-- What a run asks of the machine that it runs on; a refusal comes with its cause. As it stands by default,
there are no files. -/
structure Host where
  isDirectory : String → Bool := fun _ => false
  /-- What lies directly in a directory, by rising names. The reading may fail at any entry. -/
  entries : String → List (Except String Found) := fun _ => []
  /-- What matches a pattern. The reading may fail at any match. -/
  glob : String → Except String (List (Except String Found)) := fun _ => .ok []
  read : String → Except String String := fun _ => .error "No such file or directory (os error 2)"
  json : String → Except String Value := fun _ => .error "expected value"
  yaml : String → Except String Value := fun _ => .error "expected value"

end StyleMixins
