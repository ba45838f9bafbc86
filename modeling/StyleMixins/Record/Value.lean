import StyleMixins.Decimal.Shortest
import StyleMixins.Entries

namespace StyleMixins

inductive Number where
  | integer (value : Int)
  | double (value : Decimal.Double)
  deriving DecidableEq, Repr

def Number.text : Number → String
  | integer value => toString value
  | double value => value.text

inductive Value where
  | null
  | bool (value : Bool)
  | number (value : Number)
  | text (value : String)
  | list (items : List Value)
  | record (fields : List (String × Value))
  deriving Repr

/-- Fields in the order in which they were written. -/
abbrev Record := Entries Value

def Value.typeName : Value → String
  | null => "null"
  | bool _ => "a boolean"
  | number _ => "a number"
  | text _ => "a string"
  | list _ => "a list"
  | record _ => "a mapping"

end StyleMixins
