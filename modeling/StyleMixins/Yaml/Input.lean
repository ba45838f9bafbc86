namespace StyleMixins.Yaml

def isSpaceOrTab (c : Char) : Bool :=
  c == ' ' || c == '\t'

/-- Line feed, carriage return, next line, line and paragraph separator. -/
def isBreak (c : Char) : Bool :=
  c == '\n' || c == '\r' || c.toNat == 0x85 || c.toNat == 0x2028 || c.toNat == 0x2029

def isBlankOrEnd : Option Char → Bool
  | none => true
  | some c => isSpaceOrTab c || isBreak c

def isBreakOrEnd : Option Char → Bool
  | none => true
  | some c => isBreak c

def isAllowed (c : Char) : Bool :=
  let n := c.toNat
  n == 0x09 || n == 0x0A || n == 0x0D || (0x20 ≤ n && n ≤ 0x7E) || n == 0x85 ||
    (0xA0 ≤ n && n ≤ 0xD7FF) || (0xE000 ≤ n && n ≤ 0xFFFD) || 0x10000 ≤ n

def isNameChar (c : Char) : Bool :=
  c.isAlphanum || c == '-' || c == '_'

def hexDigit? (c : Char) : Option Nat :=
  if c.isDigit then some (c.toNat - 48)
  else if 'a' ≤ c ∧ c ≤ 'f' then some (c.toNat - 87)
  else if 'A' ≤ c ∧ c ≤ 'F' then some (c.toNat - 55)
  else none

/-- The text from a place on. The index counts octets in UTF-8, the column characters. -/
structure Input where
  rest : List Char
  index : Nat := 0
  line : Nat := 0
  column : Nat := 0

namespace Input

def peek (i : Input) : Option Char :=
  i.rest.head?

def peekAt (i : Input) (n : Nat) : Option Char :=
  i.rest[n]?

def isAt (i : Input) (c : Char) : Bool :=
  i.peek == some c

def atEnd (i : Input) : Bool :=
  i.rest.isEmpty

def skip (i : Input) : Input :=
  match i.rest with
  | [] => i
  | c :: rest => { i with rest := rest, index := i.index + c.utf8Size, column := i.column + 1 }

def skipMany (i : Input) : Nat → Input
  | 0 => i
  | n + 1 => i.skip.skipMany n

/-- Moves over a line break, and gives it in its normal form. Elsewhere nothing happens. -/
def takeBreak (i : Input) : List Char × Input :=
  match i.rest with
  | [] => ([], i)
  | c :: rest =>
    if !isBreak c then ([], i)
    else
      match c, rest with
      | '\r', '\n' :: rest =>
        (['\n'], { rest := rest, index := i.index + 2, line := i.line + 1, column := 0 })
      | _, _ =>
        let text := if c.toNat == 0x2028 || c.toNat == 0x2029 then [c] else ['\n']
        (text, { rest := rest, index := i.index + c.utf8Size, line := i.line + 1, column := 0 })

def skipBreak (i : Input) : Input :=
  i.takeBreak.2

/-- Three times the same character at the start of a line, with nothing joined to them. -/
def isMarker (i : Input) (c : Char) : Bool :=
  i.column == 0 && i.peekAt 0 == some c && i.peekAt 1 == some c && i.peekAt 2 == some c &&
    isBlankOrEnd (i.peekAt 3)

def isDocumentMarker (i : Input) : Bool :=
  i.isMarker '-' || i.isMarker '.'

def takeWhile (i : Input) (p : Char → Bool) : List Char × Input :=
  let taken := i.rest.takeWhile p
  (taken, i.skipMany taken.length)

def skipBlanks (i : Input) : Input :=
  (i.takeWhile isSpaceOrTab).2

/-- Moves to the next line if nothing but blanks and a comment are left on this one. -/
def endLine (i : Input) : Option Input :=
  let i := i.skipBlanks
  let i := if i.isAt '#' then (i.takeWhile (!isBreak ·)).2 else i
  if isBreakOrEnd i.peek then some i.skipBreak else none

end Input

end StyleMixins.Yaml
