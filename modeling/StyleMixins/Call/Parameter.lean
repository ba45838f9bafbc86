import StyleMixins.Call.Split
import StyleMixins.Text.Word

namespace StyleMixins.Call

structure Parameter where
  name : String
  fallback : String
  deriving DecidableEq, Repr

structure Argument where
  key : Option String
  value : String
  deriving DecidableEq, Repr

structure ParameterList where
  parameters : List Parameter
  variadic : Bool
  deriving DecidableEq, Repr

def bareName (cs : List Char) : List Char :=
  match Text.trim cs with
  | '$' :: rest => Text.trim rest
  | name => name

def splitColon : List Char → Option (List Char × List Char)
  | [] => none
  | ':' :: rest => some ([], rest)
  | c :: rest => (splitColon rest).map fun (before, after) => (c :: before, after)

/-- Letters, numerals, `-` and `_`, at least one, after an optional `$`. -/
def isKey (cs : List Char) : Bool :=
  let name := match cs with
    | '$' :: rest => rest
    | _ => cs
  !name.isEmpty && name.all fun c => Text.isAlphanumeric c || c == '-' || c == '_'

def withoutEllipsis : List Char → List Char × Bool
  | '.' :: '.' :: '.' :: rest => ((withoutEllipsis rest).1, true)
  | [] => ([], false)
  | c :: rest => (c :: (withoutEllipsis rest).1, (withoutEllipsis rest).2)

def Parameter.ofEntry (entry : List Char) : Parameter :=
  match splitColon entry with
  | some (name, fallback) => ⟨String.ofList (bareName name), String.ofList (Text.trim fallback)⟩
  | none => ⟨String.ofList (bareName entry), ""⟩

/-- A colon makes an argument keyed only behind a key; `url(http://x)` is a value. -/
def Argument.ofEntry (entry : List Char) : Argument :=
  match splitColon entry with
  | some (key, value) =>
    if isKey (Text.trim key) then
      ⟨some (String.ofList (bareName key)), String.ofList (Text.trim value)⟩
    else ⟨none, String.ofList entry⟩
  | none => ⟨none, String.ofList entry⟩

/-- A marker `...` anywhere makes the list variadic and is otherwise ignored. -/
def readParameters (text : String) : ParameterList :=
  let (cleaned, variadic) := withoutEllipsis text.toList
  ⟨(entries cleaned).map Parameter.ofEntry, variadic⟩

def readArguments (text : String) : List Argument :=
  (entries text.toList).map Argument.ofEntry

end StyleMixins.Call
