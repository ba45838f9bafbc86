import StyleMixins.Element
import StyleMixins.Sheet.Head
import StyleMixins.Text.Blank

namespace StyleMixins.Sheet

def element (file : SourceText) (first last : Cursor) (kind : Kind) (children : List Element) : Element :=
  .mk kind
    (some ⟨file, ⟨first.place.offset, last.place.offset⟩, first.place.line, first.place.column⟩) children

def trimmedText (cs : List Char) : String :=
  String.ofList (Text.trim cs)

def declaration? (file : SourceText) (c : Cursor) : Option (Element × Cursor) :=
  match c.declaration? with
  | none => none
  | some (property, value, d) =>
    some (element file c d (.declaration (trimmedText property) (trimmedText value)) [], d)

mutual

def block? (file : SourceText) (c : Cursor) : Option (List Element × Cursor) :=
  match _opened : c.char? '{' with
  | none => none
  | some d =>
    match statements file d.skip with
    | (children, e) =>
      match e.char? '}' with
      | none => none
      | some f => some (children, f)
termination_by 4 * c.rest.length
decreasing_by
  have h1 := Cursor.length_char?_lt _opened
  have h2 := Cursor.length_skip_le d
  omega

/-- As many statements as there are, and the place where none starts. -/
def statements (file : SourceText) (c : Cursor) : List Element × Cursor :=
  match statement? file c with
  | none => ([], c)
  | some (found, d) =>
    if d.skip.rest.length < c.rest.length then
      match statements file d.skip with
      | (more, e) => (found.toList ++ more, e)
    else (found.toList, d.skip)
termination_by 4 * c.rest.length + 3
decreasing_by all_goals omega

/-- One statement: an at-rule, else a rule, else a declaration, else a semicolon alone, for which there is no
node. -/
def statement? (file : SourceText) (c : Cursor) : Option (Option Element × Cursor) :=
  match atRule? file c with
  | some (e, d) => some (some e, d)
  | none =>
    match rule? file c with
    | some (e, d) => some (some e, d)
    | none =>
      match declaration? file c with
      | some (e, d) => some (some e, d)
      | none =>
        match c.char? ';' with
        | some d => some (none, d)
        | none => none
termination_by 4 * c.rest.length + 2

def atRule? (file : SourceText) (c : Cursor) : Option (Element × Cursor) :=
  match _head : c.atHead? with
  | none => none
  | some (name, params, d) =>
    match block? file d with
    | some (children, e) =>
      some (element file c e (.atRule (String.ofList name) (trimmedText params) true) children, e)
    | none =>
      match d.close? with
      | some e =>
        some (element file c e (.atRule (String.ofList name) (trimmedText params) false) [], e)
      | none => none
termination_by 4 * c.rest.length + 1
decreasing_by
  have := Cursor.length_atHead?_le _head
  omega

def rule? (file : SourceText) (c : Cursor) : Option (Element × Cursor) :=
  match _head : c.selector? with
  | none => none
  | some (selector, d) =>
    match block? file d with
    | some (children, e) => some (element file c e (.rule (trimmedText selector)) children, e)
    | none => none
termination_by 4 * c.rest.length + 1
decreasing_by
  have := Cursor.length_selector?_le _head
  omega

end

def document? (file : SourceText) : Option (List Element) :=
  match statements file (Cursor.ofText file.content).skip with
  | (found, c) => if c.rest.isEmpty then some found else none

end StyleMixins.Sheet
