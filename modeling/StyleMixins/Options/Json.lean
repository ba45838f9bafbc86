import StyleMixins.Options
import StyleMixins.Record.Json
import StyleMixins.Text.Quoted

namespace StyleMixins.Options.Json

open StyleMixins.Json (Result skipSpace word textRest number nextItem nextKey colon)

inductive Fault where
  | text (fault : StyleMixins.Json.Fault)
  | unknownField (name : String)
  | repeatedField (field : Field)
  /-- Neither a text nor a list of texts. -/
  | notTexts
  | wrongType (found expected : String)
  | negative (n : Int)
  /-- A mixin that is no record. -/
  | notRecord (name : String) (found : Value)

namespace Fault

def fieldNames : String :=
  ", ".intercalate (Field.all.map fun f => "`" ++ f.name ++ "`")

def message : Fault → String
  | text fault => fault.message
  | unknownField name => "unknown field `" ++ name ++ "`, expected one of " ++ fieldNames
  | repeatedField f => "duplicate field `" ++ f.name ++ "`"
  | notTexts => "data did not match any variant of untagged enum OneOrMany"
  | wrongType found expected => "invalid type: " ++ found ++ ", expected " ++ expected
  | negative n => "invalid value: integer `" ++ toString n ++ "`, expected usize"
  | notRecord name found =>
    "mixin `" ++ name ++ "` must be a mapping, found " ++ found.typeName

end Fault

def lift {α : Type} : Except StyleMixins.Json.Fault α → Except Fault α
  | .ok a => .ok a
  | .error e => .error (.text e)

def numberType : Number → String
  | .integer z => "integer `" ++ toString z ++ "`"
  | .double d => "floating point `" ++ d.text ++ "`"

/-- The type of what stands at a place, which is read as far as that needs. -/
def typeAt (cs : List Char) : Except Fault String :=
  match skipSpace cs with
  | [] => .error (.text .endInValue)
  | c :: rest =>
    if c = 'n' then (lift (word ['u', 'l', 'l'] rest)).map fun _ => "null"
    else if c = 't' then (lift (word ['r', 'u', 'e'] rest)).map fun _ => "boolean `true`"
    else if c = 'f' then (lift (word ['a', 'l', 's', 'e'] rest)).map fun _ => "boolean `false`"
    else if c = '-' then (lift (number true rest)).map fun (n, _) => numberType n
    else if c.isDigit then (lift (number false (c :: rest))).map fun (n, _) => numberType n
    else if c = '"' then
      (lift (textRest rest)).map fun (s, _) => "string " ++ Text.quoted (String.ofList s)
    else if c = '[' then .ok "sequence"
    else if c = '{' then .ok "map"
    else .error (.text .expectedValue)

/-- Something else stands where `expected` should. -/
def mismatch {α : Type} (expected : String) (cs : List Char) : Except Fault α :=
  match typeAt cs with
  | .error e => .error e
  | .ok found => .error (.wrongType found expected)

/-- How deep the values of fields may be nested: the options themselves are one level. -/
def fieldDepth : Nat :=
  StyleMixins.Json.maxDepth - 1

def texts (cs : List Char) : Except Fault (List String × List Char) := do
  let (v, left) ← lift (StyleMixins.Json.value fieldDepth cs)
  match texts? v with
  | some ss => return (ss, left)
  | none => .error .notTexts

def mixins (cs : List Char) : Except Fault (List (String × Definition) × List Char) :=
  match skipSpace cs with
  | '{' :: rest => do
    let (fields, left) ← lift (StyleMixins.Json.fields (fieldDepth - 1) true rest)
    match recordMixins (Entries.ofPairs fields) with
    | .ok ms => return (ms, left)
    | .error (name, found) => .error (.notRecord name found)
  | cs => mismatch "a map" cs

def flag (cs : List Char) : Except Fault (Bool × List Char) :=
  match skipSpace cs with
  | 't' :: rest => (lift (word ['r', 'u', 'e'] rest)).map (true, ·)
  | 'f' :: rest => (lift (word ['a', 'l', 's', 'e'] rest)).map (false, ·)
  | cs => mismatch "a boolean" cs

def natural : Number → Except Fault Nat
  | .integer z => if z < 0 then .error (.negative z) else .ok z.toNat
  | .double d => .error (.wrongType (numberType (.double d)) "usize")

def depth (cs : List Char) : Except Fault (Option Nat × List Char) :=
  let read := fun (negative : Bool) (cs : List Char) => do
    let (n, left) ← lift (number negative cs)
    return (some (← natural n), left)
  match skipSpace cs with
  | 'n' :: rest => (lift (word ['u', 'l', 'l'] rest)).map (none, ·)
  | '-' :: rest => read true rest
  | c :: rest => if c.isDigit then read false (c :: rest) else mismatch "usize" (c :: rest)
  | [] => mismatch "usize" []

def field (o : Options) (f : Field) (cs : List Char) : Except Fault (Options × List Char) :=
  match f with
  | .directories => (texts cs).map fun (ss, left) => ({ o with directories := ss }, left)
  | .patterns => (texts cs).map fun (ss, left) => ({ o with patterns := ss }, left)
  | .mixins => (mixins cs).map fun (ms, left) => ({ o with mixins := ms }, left)
  | .silent => (flag cs).map fun (b, left) => ({ o with silent := b }, left)
  | .maxDepth => (depth cs).map fun (n, left) => ({ o with maxDepth := n }, left)

/-- The fields of an object, each at most once; `left` are those that have not come yet. -/
def object (o : Options) (first : Bool) : (left : List Field) → List Char →
    Except Fault (Options × List Char)
  | left, cs =>
    match lift (nextKey first cs) with
    | .error e => .error e
    | .ok (.inr rest) => .ok (o, rest)
    | .ok (.inl (name, rest)) =>
      match Field.ofName? name with
      | none => .error (.unknownField name)
      | some f =>
        if _present : f ∈ left then
          match lift (colon rest) with
          | .error e => .error e
          | .ok rest =>
            match field o f rest with
            | .error e => .error e
            | .ok (o, rest) => object o false (left.erase f) rest
        else .error (.repeatedField f)
termination_by left => left.length
decreasing_by
  rw [List.length_erase_of_mem _present]
  have := List.length_pos_of_mem _present
  omega

def listEnd (cs : List Char) : Except Fault (List Char) :=
  match skipSpace cs with
  | [] => .error (.text .endInList)
  | ']' :: rest => .ok rest
  | ',' :: rest =>
    match skipSpace rest with
    | ']' :: _ => .error (.text .trailingComma)
    | _ => .error (.text .trailingCharacters)
  | _ => .error (.text .trailingCharacters)

/-- The fields of a list, in order; later ones may be missing. -/
def list (o : Options) (first : Bool) : List Field → List Char → Except Fault (Options × List Char)
  | [], cs => (listEnd cs).map (o, ·)
  | f :: fields, cs =>
    match lift (nextItem first cs) with
    | .error e => .error e
    | .ok (.inr rest) => .ok (o, rest)
    | .ok (.inl here) =>
      match field o f here with
      | .error e => .error e
      | .ok (o, rest) => list o false fields rest

def read (text : String) : Except Fault Options := do
  let (o, left) ← match skipSpace text.toList with
    | '{' :: rest => object {} true Field.all rest
    | '[' :: rest => list {} true Field.all rest
    | cs => mismatch "struct MixinOptions" cs
  if (skipSpace left).isEmpty then return o else .error (.text .trailingCharacters)

end StyleMixins.Options.Json
