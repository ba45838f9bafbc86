/-!
Patterns for file names: `?` is any character, `*` any run of characters, `[..]` and `[!..]` are classes,
and `**` is any run of directories. Every other character is itself.
-/

namespace StyleMixins.Files

inductive CharSpec where
  | one (c : Char)
  | range (first last : Char)
  deriving DecidableEq, Repr

inductive Token where
  | char (c : Char)
  | anyChar
  | anyRun
  | anyDirectories
  | oneOf (specs : List CharSpec)
  | noneOf (specs : List CharSpec)
  deriving DecidableEq, Repr

inductive PatternFault where
  /-- Three stars or more; the place of the third. -/
  | wildcards (position : Nat)
  /-- Two stars that are no whole part of a path. -/
  | directories (position : Nat)
  /-- A class without end; the place of its bracket. -/
  | charClass (position : Nat)
  deriving DecidableEq, Repr

def PatternFault.message : PatternFault → String
  | wildcards n => said n "wildcards are either regular `*` or recursive `**`"
  | directories n => said n "recursive wildcards must form a single path component"
  | charClass n => said n "invalid range pattern"
where
  said (position : Nat) (reason : String) : String :=
    "Pattern syntax error near position " ++ toString position ++ ": " ++ reason

abbrev Pattern := List Token

def CharSpec.admits (c : Char) : CharSpec → Bool
  | .one a => a == c
  | .range a b => a ≤ c && c ≤ b

def Token.admits (c : Char) : Token → Bool
  | .char a => a == c
  | .anyChar => true
  | .oneOf specs => specs.any (CharSpec.admits c)
  | .noneOf specs => !specs.any (CharSpec.admits c)
  | .anyRun | .anyDirectories => false

namespace Pattern

def charSpecs : List Char → List CharSpec
  | a :: '-' :: b :: rest => .range a b :: charSpecs rest
  | a :: rest => .one a :: charSpecs rest
  | [] => []

def upToBracket : List Char → Option (List Char × List Char)
  | [] => none
  | ']' :: rest => some ([], rest)
  | c :: rest => (upToBracket rest).map fun (inner, left) => (c :: inner, left)

/-- The class behind an opening bracket. Its first character belongs to it even if it is a bracket. -/
def charClass? : List Char → Option (Token × List Char)
  | '!' :: first :: rest =>
    (upToBracket rest).map fun (inner, left) => (.noneOf (charSpecs (first :: inner)), left)
  | '!' :: [] => none
  | first :: rest =>
    (upToBracket rest).map fun (inner, left) => (.oneOf (charSpecs (first :: inner)), left)
  | [] => none

/-- Reads a pattern from the place `position` on; `before` is the character in front of it. -/
def readFrom (before : Option Char) (position : Nat) (cs : List Char) : Except PatternFault Pattern :=
  match cs with
  | [] => .ok []
  | c :: rest =>
    if c = '?' then (readFrom (some c) (position + 1) rest).map (.anyChar :: ·)
    else if c = '*' then
      match rest with
      | '*' :: '*' :: _ => .error (.wildcards (position + 2))
      | '*' :: left =>
        if before.isNone || before == some '/' then
          match left with
          | [] => .ok [.anyDirectories]
          | '/' :: left => (readFrom (some '/') (position + 3) left).map (.anyDirectories :: ·)
          | _ => .error (.directories (position + 2))
        else .error (.directories (position - 1))
      | left => (readFrom (some c) (position + 1) left).map (.anyRun :: ·)
    else if c = '[' then
      match charClass? rest with
      | none => .error (.charClass position)
      | some (token, left) =>
        if left.length ≤ rest.length then
          (readFrom (some ']') (position + 1 + (rest.length - left.length)) left).map (token :: ·)
        else .error (.charClass position)
    else (readFrom (some c) (position + 1) rest).map (.char c :: ·)
termination_by cs.length
decreasing_by all_goals simp_all only [List.length_cons]; omega

def read (text : String) : Except PatternFault Pattern :=
  readFrom none 0 text.toList

/-- The only name that fits, if no token leaves a choice. -/
def literal? : Pattern → Option (List Char)
  | [] => some []
  | .char c :: rest => (literal? rest).map (c :: ·)
  | _ => none

def isRecursive (p : Pattern) : Bool :=
  p.contains .anyDirectories

def anySuffix (fits : List Char → Bool) : List Char → Bool
  | [] => fits []
  | c :: rest => fits (c :: rest) || anySuffix fits rest

def fits : Pattern → List Char → Bool
  | [], name => name.isEmpty
  | .anyRun :: rest, name => anySuffix (fits rest) name
  | .anyDirectories :: rest, name => anySuffix (fits rest) name
  | token :: rest, name =>
    match name with
    | [] => false
    | c :: name => Token.admits c token && fits rest name

end Pattern

end StyleMixins.Files
