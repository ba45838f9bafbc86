import StyleMixins.Call.Parameter
import StyleMixins.Entries

namespace StyleMixins.Call

/-- A binding under construction: the values so far, the names that an argument has set, and the
parameters that positional arguments have not passed yet. -/
structure Slots where
  values : Entries String
  filled : List String
  waiting : List Parameter

namespace Slots

def start (parameters : List Parameter) : Slots where
  values := parameters.foldl (fun values p => values.put p.name p.fallback) []
  filled := []
  waiting := parameters

/-- A keyed argument sets its name. A positional one goes to the next parameter that is not set, and is
dropped when there is none. -/
def give (s : Slots) (a : Argument) : Slots :=
  match a.key with
  | some key => { s with values := s.values.put key a.value, filled := key :: s.filled }
  | none =>
    match s.waiting.dropWhile fun p => s.filled.contains p.name with
    | [] => { s with waiting := [] }
    | p :: waiting =>
      { values := s.values.put p.name a.value, filled := p.name :: s.filled, waiting := waiting }

end Slots

def positionalValues (arguments : List Argument) : List String :=
  (arguments.filter (·.key.isNone)).map (·.value)

/-- The value of each name inside the body. In a variadic definition the first parameter holds all
positional values. -/
def bindArguments (parameters : List Parameter) (variadic : Bool) (arguments : List Argument) :
    Entries String :=
  let values := (arguments.foldl Slots.give (Slots.start parameters)).values
  match variadic, parameters with
  | true, first :: _ => values.put first.name (" ".intercalate (positionalValues arguments))
  | _, _ => values

end StyleMixins.Call
