import StyleMixins.Text.Blank

namespace StyleMixins.Call

/-- Where a left-to-right scan stands: inside which quote, whether a backslash has just been read there,
and how many brackets are open. A bracket that closes nothing is ignored. -/
structure Nesting where
  quote : Option Char := none
  escaped : Bool := false
  depth : Nat := 0
  deriving DecidableEq, Repr

namespace Nesting

def start : Nesting := {}

def isTop (s : Nesting) : Bool :=
  s.quote.isNone && s.depth == 0

def step (s : Nesting) (c : Char) : Nesting :=
  match s.quote with
  | some q =>
    if s.escaped then { s with escaped := false }
    else if c = '\\' then { s with escaped := true }
    else if c = q then { s with quote := none }
    else s
  | none =>
    if c = '"' ∨ c = '\'' then { s with quote := some c }
    else if c = '(' ∨ c = '[' then { s with depth := s.depth + 1 }
    else if c = ')' ∨ c = ']' then { s with depth := s.depth - 1 }
    else s

end Nesting

/-- The raw segments between separating commas, from a scan that stands at `s`; there is always at least
one. -/
def segmentsFrom (s : Nesting) : List Char → List (List Char)
  | [] => [[]]
  | c :: rest =>
    if c = ',' ∧ s.isTop then [] :: segmentsFrom s rest
    else
      match segmentsFrom (s.step c) rest with
      | [] => [[c]]
      | segment :: more => (c :: segment) :: more

def segments (cs : List Char) : List (List Char) :=
  segmentsFrom Nesting.start cs

/-- The entries of a list: the segments trimmed, empty ones left out. -/
def entries (cs : List Char) : List (List Char) :=
  ((segments cs).map Text.trim).filter (!·.isEmpty)

def splitTopLevel (text : String) : List String :=
  (entries text.toList).map String.ofList

end StyleMixins.Call
