import StyleMixins.Record.Value

namespace StyleMixins.Json

inductive Fault where
  | endInValue
  | endInObject
  | endInList
  | endInText
  | expectedValue
  | expectedWord
  | expectedColon
  | expectedCommaOrBrace
  | expectedCommaOrBracket
  | keyIsNoText
  | trailingComma
  | trailingCharacters
  | invalidNumber
  | numberOutOfRange
  | invalidEscape
  | unfinishedPair
  | loneSurrogate
  | controlCharacter
  | tooDeep
  deriving DecidableEq, Repr

def Fault.message : Fault → String
  | endInValue => "EOF while parsing a value"
  | endInObject => "EOF while parsing an object"
  | endInList => "EOF while parsing a list"
  | endInText => "EOF while parsing a string"
  | expectedValue => "expected value"
  | expectedWord => "expected ident"
  | expectedColon => "expected `:`"
  | expectedCommaOrBrace => "expected `,` or `\x7d`"
  | expectedCommaOrBracket => "expected `,` or `]`"
  | keyIsNoText => "key must be a string"
  | trailingComma => "trailing comma"
  | trailingCharacters => "trailing characters"
  | invalidNumber => "invalid number"
  | numberOutOfRange => "number out of range"
  | invalidEscape => "invalid escape"
  | unfinishedPair => "unexpected end of hex escape"
  | loneSurrogate => "lone leading surrogate in hex escape"
  | controlCharacter => "control character (\\u0000-\\u001F) found while parsing a string"
  | tooDeep => "recursion limit exceeded"

/-- A part that has been read, and the text after it. -/
abbrev Result (α : Type) := Except Fault (α × List Char)

def isSpace (c : Char) : Bool :=
  c == ' ' || c == '\n' || c == '\t' || c == '\r'

def skipSpace (cs : List Char) : List Char :=
  cs.dropWhile isSpace

def word : (letters cs : List Char) → Except Fault (List Char)
  | [], cs => .ok cs
  | _ :: _, [] => .error .endInValue
  | l :: letters, c :: cs => if l = c then word letters cs else .error .expectedWord

def hexValue? (c : Char) : Option Nat :=
  if c.isDigit then some (c.toNat - 48)
  else if 'a' ≤ c ∧ c ≤ 'f' then some (c.toNat - 87)
  else if 'A' ≤ c ∧ c ≤ 'F' then some (c.toNat - 55)
  else none

/-- Four hexadecimal digits. The text has ended if fewer than four bytes are left. -/
def hexUnit : List Char → Result Nat
  | a :: b :: c :: d :: rest =>
    match hexValue? a, hexValue? b, hexValue? c, hexValue? d with
    | some a, some b, some c, some d => .ok (((a * 16 + b) * 16 + c) * 16 + d, rest)
    | _, _, _, _ => .error .invalidEscape
  | short =>
    if short.foldl (fun n c => n + c.utf8Size) 0 < 4 then .error .endInText else .error .invalidEscape

def isLeading (unit : Nat) : Bool :=
  0xD800 ≤ unit && unit ≤ 0xDBFF

def isTrailing (unit : Nat) : Bool :=
  0xDC00 ≤ unit && unit ≤ 0xDFFF

/-- The character of an escape `\u`, whose units come in pairs beyond the basic plane. -/
def unicodeEscape (cs : List Char) : Result Char :=
  match hexUnit cs with
  | .error e => .error e
  | .ok (unit, rest) =>
    if isTrailing unit then .error .loneSurrogate
    else if isLeading unit then
      match rest with
      | [] => .error .endInText
      | ['\\'] => .error .endInText
      | '\\' :: 'u' :: rest =>
        match hexUnit rest with
        | .error e => .error e
        | .ok (second, rest) =>
          if isTrailing second then
            .ok (Char.ofNat (0x10000 + (unit - 0xD800) * 0x400 + (second - 0xDC00)), rest)
          else .error .loneSurrogate
      | _ => .error .unfinishedPair
    else .ok (Char.ofNat unit, rest)

def escape : List Char → Result Char
  | [] => .error .endInText
  | c :: rest =>
    if c = '"' ∨ c = '\\' ∨ c = '/' then .ok (c, rest)
    else if c = 'b' then .ok ('\x08', rest)
    else if c = 'f' then .ok ('\x0c', rest)
    else if c = 'n' then .ok ('\n', rest)
    else if c = 'r' then .ok ('\r', rest)
    else if c = 't' then .ok ('\t', rest)
    else if c = 'u' then unicodeEscape rest
    else .error .invalidEscape

def textRest (cs : List Char) : Result (List Char) :=
  match cs with
  | [] => .error .endInText
  | c :: rest =>
    if c = '"' then .ok ([], rest)
    else if c.toNat < 0x20 then .error .controlCharacter
    else
      let one := if c = '\\' then escape rest else .ok (c, rest)
      match one with
      | .error e => .error e
      | .ok (c, left) =>
        if left.length ≤ rest.length then
          match textRest left with
          | .error e => .error e
          | .ok (more, left) => .ok (c :: more, left)
        else .error .invalidEscape
termination_by cs.length

def digitsValue (cs : List Char) : Nat :=
  cs.foldl (fun n c => n * 10 + (c.toNat - 48)) 0

def digitRun (cs : List Char) : Result (List Char) :=
  match cs.takeWhile Char.isDigit, cs with
  | [], [] => .error .endInValue
  | [], _ => .error .invalidNumber
  | digits, _ => .ok (digits, cs.dropWhile Char.isDigit)

/-- A whole number of 64 bits stays one, minus zero apart; every other number is a double. -/
def wholeNumber (negative : Bool) (n : Nat) : Except Fault Number :=
  if !negative && n < Nat.pow 2 64 then .ok (.integer n)
  else if negative && 0 < n && n ≤ Nat.pow 2 63 then .ok (.integer (-n))
  else
    match Decimal.Double.ofDecimal negative n 0 with
    | some d => .ok (.double d)
    | none => .error .numberOutOfRange

def exponentPart : List Char → Result (Option Int)
  | [] => .ok (none, [])
  | c :: rest =>
    if c = 'e' ∨ c = 'E' then
      let (negative, digits) := match rest with
        | '+' :: rest => (false, rest)
        | '-' :: rest => (true, rest)
        | rest => (false, rest)
      match digitRun digits with
      | .error e => .error e
      | .ok (digits, left) =>
        let n : Int := digitsValue digits
        .ok (some (if negative then -n else n), left)
    else .ok (none, c :: rest)

def fractionPart : List Char → Result (Option (List Char))
  | '.' :: rest =>
    match digitRun rest with
    | .error e => .error e
    | .ok (digits, left) => .ok (some digits, left)
  | cs => .ok (none, cs)

/-- A number behind its sign. A leading zero stands alone. -/
def number (negative : Bool) (cs : List Char) : Result Number :=
  match digitRun cs with
  | .error e => .error e
  | .ok (whole, left) =>
    match whole with
    | '0' :: _ :: _ => .error .invalidNumber
    | _ =>
      match fractionPart left with
      | .error e => .error e
      | .ok (fraction, left) =>
        match exponentPart left with
        | .error e => .error e
        | .ok (exponent, left) =>
          if fraction.isNone && exponent.isNone then
            (wholeNumber negative (digitsValue whole)).map (·, left)
          else
            let places := fraction.getD []
            match Decimal.Double.ofDecimal negative (digitsValue (whole ++ places))
                (exponent.getD 0 - places.length) with
            | some d => .ok (.double d, left)
            | none => .error .numberOutOfRange

def nextItem (first : Bool) (cs : List Char) : Except Fault (List Char ⊕ List Char) :=
  match skipSpace cs with
  | [] => .error .endInList
  | c :: rest =>
    if c = ']' then .ok (.inr rest)
    else if first then .ok (.inl (c :: rest))
    else if c = ',' then
      match skipSpace rest with
      | [] => .error .endInValue
      | d :: rest => if d = ']' then .error .trailingComma else .ok (.inl (d :: rest))
    else .error .expectedCommaOrBracket

/-- The next key of an object, or the text after the object. The colon is not read. -/
def nextKey (first : Bool) (cs : List Char) : Except Fault ((String × List Char) ⊕ List Char) :=
  let key := fun (cs : List Char) => match cs with
    | '"' :: rest =>
      match textRest rest with
      | .error e => .error e
      | .ok (key, left) => .ok (.inl (String.ofList key, left))
    | _ => .error .keyIsNoText
  match skipSpace cs with
  | [] => .error .endInObject
  | c :: rest =>
    if c = '}' then .ok (.inr rest)
    else if first then key (c :: rest)
    else if c = ',' then
      match skipSpace rest with
      | [] => .error .endInValue
      | d :: rest => if d = '}' then .error .trailingComma else key (d :: rest)
    else .error .expectedCommaOrBrace

def colon (cs : List Char) : Except Fault (List Char) :=
  match skipSpace cs with
  | [] => .error .endInObject
  | c :: rest => if c = ':' then .ok rest else .error .expectedColon

mutual

/-- A value, which may hold lists and objects nested `depth` deep. -/
def value (depth : Nat) (cs : List Char) : Result Value :=
  match skipSpace cs with
  | [] => .error .endInValue
  | c :: rest =>
    if c = 'n' then (word ['u', 'l', 'l'] rest).map (.null, ·)
    else if c = 't' then (word ['r', 'u', 'e'] rest).map (.bool true, ·)
    else if c = 'f' then (word ['a', 'l', 's', 'e'] rest).map (.bool false, ·)
    else if c = '-' then (number true rest).map fun (n, left) => (.number n, left)
    else if c.isDigit then (number false (c :: rest)).map fun (n, left) => (.number n, left)
    else if c = '"' then (textRest rest).map fun (s, left) => (.text (String.ofList s), left)
    else if c = '[' then
      match depth with
      | 0 => .error .tooDeep
      | depth + 1 => (items depth true rest).map fun (vs, left) => (.list vs, left)
    else if c = '{' then
      match depth with
      | 0 => .error .tooDeep
      | depth + 1 =>
        (fields depth true rest).map fun (fs, left) => (.record (Entries.ofPairs fs), left)
    else .error .expectedValue
termination_by (2 * depth, 0)

def items (depth : Nat) (first : Bool) (cs : List Char) : Result (List Value) :=
  match nextItem first cs with
  | .error e => .error e
  | .ok (.inr left) => .ok ([], left)
  | .ok (.inl here) =>
    match value depth here with
    | .error e => .error e
    | .ok (v, left) =>
      if left.length < cs.length then
        match items depth false left with
        | .error e => .error e
        | .ok (vs, left) => .ok (v :: vs, left)
      else .error .expectedValue
termination_by (2 * depth + 1, cs.length)

def fields (depth : Nat) (first : Bool) (cs : List Char) : Result (List (String × Value)) :=
  match nextKey first cs with
  | .error e => .error e
  | .ok (.inr left) => .ok ([], left)
  | .ok (.inl (key, here)) =>
    match colon here with
    | .error e => .error e
    | .ok here =>
      match value depth here with
      | .error e => .error e
      | .ok (v, left) =>
        if left.length < cs.length then
          match fields depth false left with
          | .error e => .error e
          | .ok (fs, left) => .ok ((key, v) :: fs, left)
        else .error .expectedValue
termination_by (2 * depth + 1, cs.length)

end

def maxDepth : Nat := 127

def read (text : String) : Except Fault Value :=
  match value maxDepth text.toList with
  | .error e => .error e
  | .ok (v, left) => if (skipSpace left).isEmpty then .ok v else .error .trailingCharacters

end StyleMixins.Json
