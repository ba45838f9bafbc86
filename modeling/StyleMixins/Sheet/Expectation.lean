import StyleMixins.Sheet.Head

/-!
What a text that is no style sheet lacks. Every attempt to read a part of a style sheet that fails is
noted at the place where it started; only the attempts at the furthest such place are kept. An attempt
that failed because exactly one part was missing at its own start is spoken for by that part.
-/

namespace StyleMixins.Sheet

inductive Part where
  | endOfInput
  | stylesheet
  | atRule
  | atKeyword
  | atParams
  | rule
  | selector
  | declaration
  | property
  | value
  | block
  deriving DecidableEq, Repr

def Part.name : Part → String
  | endOfInput => "EOI"
  | stylesheet => "stylesheet"
  | atRule => "at_rule"
  | atKeyword => "at_keyword"
  | atParams => "at_params"
  | rule => "rule"
  | selector => "selector"
  | declaration => "declaration"
  | property => "property"
  | value => "value"
  | block => "block"

def Part.all : List Part :=
  [endOfInput, stylesheet, atRule, atKeyword, atParams, rule, selector, declaration, property, value,
    block]

/-- The furthest place at which an attempt failed, and the parts that were tried there. -/
structure Expectation where
  offset : Nat := 0
  parts : List Part := []
  deriving DecidableEq, Repr

namespace Expectation

def countAt (x : Expectation) (offset : Nat) : Nat :=
  if x.offset = offset then x.parts.length else 0

/-- Notes a failed attempt at `offset`. `before` is what was known when the attempt began; the attempts
made within it at the same place give way to it, unless there was just one. -/
def miss (before after : Expectation) (part : Part) (offset : Nat) : Expectation :=
  if after.countAt offset = before.countAt offset + 1 then after
  else if offset = after.offset then
    { after with parts := after.parts.take (before.countAt offset) ++ [part] }
  else if after.offset < offset then ⟨offset, [part]⟩
  else after

/-- `a`, `a or b`, `a, b, or c`. -/
def enumerate : List String → String
  | [] => ""
  | [a] => a
  | [a, b] => a ++ " or " ++ b
  | names => ", ".intercalate names.dropLast ++ ", or " ++ names.getLast?.getD ""

def message (x : Expectation) : String :=
  "expected " ++ enumerate ((Part.all.filter x.parts.contains).map Part.name)

end Expectation

/-- An attempt: where it ended, if it succeeded, and what is expected then. -/
abbrev Attempt := Option Cursor × Expectation

def Attempt.named (part : Part) (c : Cursor) (before : Expectation) : Attempt → Attempt
  | (some d, after) => (some d, after)
  | (none, after) => (none, before.miss after part c.place.offset)

/-- A failed attempt at a part that holds no other part. -/
def Expectation.lack (x : Expectation) (part : Part) (c : Cursor) : Expectation :=
  x.miss x part c.place.offset

/-- A run of characters that need not be there, noted if it is not. -/
def Expectation.offer (x : Expectation) (part : Part) (c : Cursor) (run : List Char) : Expectation :=
  if run.isEmpty then x.lack part c else x

def tryClose (c : Cursor) (x : Expectation) : Attempt :=
  match c.close? with
  | some d => (some d, x)
  | none => (none, x.lack .endOfInput c)

def tryDeclaration (c : Cursor) (x : Expectation) : Attempt :=
  Attempt.named .declaration c x <|
    match c.property? with
    | none => (none, x.offer .property c (c.run isPropertyChar).1)
    | some (_, d) =>
      match d.run isHeadChar with
      | (value, e) => tryClose e.skip (x.offer .value d value)

mutual

def tryBlock (c : Cursor) (x : Expectation) : Attempt :=
  Attempt.named .block c x <|
    match _opened : c.char? '{' with
    | none => (none, x)
    | some d =>
      match tryStatements d.skip x with
      | (e, x) => (e.char? '}', x)
termination_by 4 * c.rest.length
decreasing_by
  have h1 := Cursor.length_char?_lt _opened
  have h2 := Cursor.length_skip_le d
  omega

def tryStatements (c : Cursor) (x : Expectation) : Cursor × Expectation :=
  match tryStatement c x with
  | (none, x) => (c, x)
  | (some d, x) => if d.skip.rest.length < c.rest.length then tryStatements d.skip x else (d.skip, x)
termination_by 4 * c.rest.length + 3
decreasing_by all_goals omega

def tryStatement (c : Cursor) (x : Expectation) : Attempt :=
  match tryAtRule c x with
  | (some d, x) => (some d, x)
  | (none, x) =>
    match tryRule c x with
    | (some d, x) => (some d, x)
    | (none, x) =>
      match tryDeclaration c x with
      | (some d, x) => (some d, x)
      | (none, x) => (c.char? ';', x)
termination_by 4 * c.rest.length + 2

def tryAtRule (c : Cursor) (x : Expectation) : Attempt :=
  Attempt.named .atRule c x <|
    match _head : c.atHead? with
    | none => (none, x.lack .atKeyword c)
    | some (_, params, d) =>
      match tryBlock d (x.offer .atParams d params) with
      | (some e, x) => (some e, x)
      | (none, x) => tryClose d x
termination_by 4 * c.rest.length + 1
decreasing_by
  have := Cursor.length_atHead?_le _head
  omega

def tryRule (c : Cursor) (x : Expectation) : Attempt :=
  Attempt.named .rule c x <|
    match _head : c.selector? with
    | none => (none, x.lack .selector c)
    | some (_, d) => tryBlock d x
termination_by 4 * c.rest.length + 1
decreasing_by
  have := Cursor.length_selector?_le _head
  omega

end

/-- What is expected, at the furthest place reached, in a text that is no style sheet. -/
def expectation (text : String) : Expectation :=
  let start := Cursor.ofText text
  match tryStatements start.skip {} with
  | (c, x) => (Attempt.named .stylesheet start {} (none, x.lack .endOfInput c)).2

end StyleMixins.Sheet
