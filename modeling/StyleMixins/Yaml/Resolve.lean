import StyleMixins.Record.Value
import StyleMixins.Yaml.Document

namespace StyleMixins.Yaml

def isNull (s : String) : Bool :=
  s == "null" || s == "Null" || s == "NULL" || s == "~"

def bool? (s : String) : Option Bool :=
  if s == "true" || s == "True" || s == "TRUE" then some true
  else if s == "false" || s == "False" || s == "FALSE" then some false
  else none

def digit? (base : Nat) (c : Char) : Option Nat :=
  (hexDigit? c).bind fun d => if d < base then some d else none

def digits? (base : Nat) : List Char → Option Nat
  | [] => none
  | cs => (cs.mapM (digit? base)).map fun ds => ds.foldl (fun n d => n * base + d) 0

/-- Digits after a needless zero are no number. -/
def isPadded (cs : List Char) : Bool :=
  let digits := match cs with
    | '-' :: rest | '+' :: rest => rest
    | _ => cs
  match digits with
  | '0' :: d :: rest => (d :: rest).all Char.isDigit
  | _ => false

/-- A number without sign, in the base that its first characters name. -/
def magnitude? : List Char → Option Nat
  | '0' :: 'x' :: rest => digits? 16 rest
  | '0' :: 'o' :: rest => digits? 8 rest
  | '0' :: 'b' :: rest => digits? 2 rest
  | cs => digits? 10 cs

def natural? (cs : List Char) : Option Nat :=
  if isPadded cs then none
  else
    match cs with
    | '+' :: rest => magnitude? rest
    | _ => magnitude? cs

def integer? (cs : List Char) : Option Int :=
  match cs with
  | '-' :: rest =>
    if isPadded cs then none
    else (magnitude? rest).bind fun n => if n ≤ Nat.pow 2 127 then some (-n) else none
  | _ => (natural? cs).bind fun n => if n < Nat.pow 2 128 then some n else none

/-- The digits before and behind a point, at least one of them, and the power of ten behind an `e`. -/
def decimal? (cs : List Char) : Option (Nat × Int) :=
  let whole := cs.takeWhile Char.isDigit
  let (places, left) := match cs.dropWhile Char.isDigit with
    | '.' :: rest => (rest.takeWhile Char.isDigit, rest.dropWhile Char.isDigit)
    | rest => ([], rest)
  if whole.isEmpty && places.isEmpty then none
  else
    let power : Option Int := match left with
      | [] => some 0
      | e :: rest =>
        if e == 'e' || e == 'E' then
          match rest with
          | '-' :: digits => (digits? 10 digits).map fun n => -(n : Int)
          | '+' :: digits => (digits? 10 digits).map fun n => (n : Int)
          | digits => (digits? 10 digits).map fun n => (n : Int)
        else none
    match power, digits? 10 (whole ++ places) with
    | some power, some digits => some (digits, power - places.length)
    | _, _ => none

/-- What a float spells: infinity or no number at all, for which there is no value, or a finite double. -/
inductive FloatScalar where
  | special
  | finite (value : Decimal.Double)

def float? (s : String) : Option FloatScalar :=
  let cs := s.toList
  let (negative, unsigned) := match cs with
    | '-' :: rest => (true, rest)
    | '+' :: rest => (false, rest)
    | _ => (false, cs)
  let name := String.ofList unsigned
  if name == ".inf" || name == ".Inf" || name == ".INF" then some .special
  else if s == ".nan" || s == ".NaN" || s == ".NAN" then some .special
  else
    match decimal? unsigned with
    | none => none
    | some (digits, exponent) => (Decimal.Double.ofDecimal negative digits exponent).map .finite

/-- A whole number must fit 64 bits. -/
def integerValue (z : Int) : Option Value :=
  if -(Nat.pow 2 63 : Nat) ≤ z ∧ z < (Nat.pow 2 64 : Nat) then some (.number (.integer z)) else none

def floatValue : FloatScalar → Value
  | .special => .null
  | .finite d => .number (.double d)

def plainValue (s : String) : Option Value :=
  if s.isEmpty || isNull s then some .null
  else
    match bool? s with
    | some b => some (.bool b)
    | none =>
      match integer? s.toList with
      | some z => integerValue z
      | none =>
        if isPadded s.toList then some (.text s)
        else
          match float? s with
          | some f => some (floatValue f)
          | none => some (.text s)

def taggedValue (tag : Tag) (s : String) : Option Value :=
  if tag.isLocal then none
  else if tag == Tag.core "bool" then (bool? s).map .bool
  else if tag == Tag.core "int" then (integer? s.toList).bind integerValue
  else if tag == Tag.core "float" then (float? s).map floatValue
  else if tag == Tag.core "null" then if isNull s then some .null else none
  else some (.text s)

def scalarValue (text : String) (style : Style) : Option Tag → Option Value
  | some tag => taggedValue tag text
  | none => if style == .plain then plainValue text else some (.text text)

/-- Only scalars can be keys; their text is the key. -/
def keyText (doc : Document) (n : Node) : Reading String := do
  match ← doc.follow n with
  | .scalar text _ _ => return text
  | _ => failure

def fields (doc : Document) (read : Node → Reading Value) (pairs : List (Node × Node)) :
    Reading (Entries Value) := do
  let fields ← pairs.mapM fun (k, v) => return (← keyText doc k, ← read v)
  return Entries.ofPairs fields

/-- The value of a node with collections nested `depth` deep at most. -/
def value (doc : Document) (depth : Nat) (n : Node) : Reading Value := do
  match ← doc.follow n, depth with
  | .scalar text style tag, _ => scalarValue text style tag
  | .sequence tag items, depth + 1 =>
    if tag.any Tag.isLocal then failure
    else return .list (← items.mapM (value doc depth))
  | .mapping tag pairs, depth + 1 =>
    if tag.any Tag.isLocal then failure
    else return .record (← fields doc (value doc depth) pairs)
  | _, _ => failure

def maxDepth : Nat := 128

def read (text : String) : Option Value :=
  match document text with
  | none => none
  | some none => some .null
  | some (some doc) => doc.run (value doc maxDepth doc.root)

end StyleMixins.Yaml
