import StyleMixins.Expansion.Run
import StyleMixins.LineDiff

namespace StyleMixins.CommandLine

inductive Tone where
  | heading
  | label
  | added
  | removed
  deriving DecidableEq, Repr

def sequence (code : String) : String :=
  "\x1b[" ++ code ++ "m"

namespace Tone

/-- Headings are bold and yellow, labels cyan, added lines green and removed lines red. -/
def codes : Tone → List String
  | heading => ["1", "33"]
  | label => ["36"]
  | added => ["32"]
  | removed => ["31"]

end Tone

def reset (colored : Bool) : String :=
  if colored then sequence "0" else ""

def start (colored : Bool) (tone : Tone) : String :=
  if colored then String.join (("0" :: tone.codes).map sequence) else ""

def heading (colored : Bool) (text : String) : String :=
  start colored .heading ++ text ++ "\n" ++ reset colored

def pieceText (colored : Bool) : LineDiff.Piece → String
  | .same text => reset colored ++ " " ++ text ++ "\n"
  | .added text => start colored .added ++ "+" ++ text ++ "\n"
  | .removed text => start colored .removed ++ "-" ++ text ++ "\n"

def stepHeading (n : Nat) (s : Expansion.Step) : String :=
  "--- Step " ++ toString n ++ ": " ++ s.mixin ++ " (" ++ s.label ++ ", depth " ++ toString s.depth ++
    ") ---"

def stepsText (colored : Bool) (n : Nat) (before : String) : List Expansion.Step → String
  | [] => ""
  | s :: rest =>
    heading colored (stepHeading n s) ++
      String.join ((LineDiff.diff before s.snapshot).map (pieceText colored)) ++ reset colored ++ "\n" ++
      stepsText colored (n + 1) s.snapshot rest

def traceText (colored : Bool) (initial : String) (steps : List Expansion.Step) : String :=
  heading colored "--- Initial ---" ++ initial ++ "\n" ++ stepsText colored 1 initial steps

def padRight (width : Nat) (text : String) : String :=
  text ++ String.ofList (List.replicate (width - text.length) ' ')

def labelWidth : Nat := 9

/-- One line for each definition, by rising names. -/
def listing (colored : Bool) (registry : Registry) : String :=
  String.join (registry.sorted.map fun (name, d) =>
    start colored .label ++ padRight labelWidth d.label ++ reset colored ++ d.signature name ++ "\n")

end StyleMixins.CommandLine
