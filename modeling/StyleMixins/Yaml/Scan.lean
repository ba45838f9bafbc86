import StyleMixins.Yaml.Directive
import StyleMixins.Yaml.Scalar

namespace StyleMixins.Yaml

inductive Token where
  | directive (directive : Directive)
  | documentStart
  | documentEnd
  | blockSequence
  | blockMapping
  | blockEnd
  | flowSequence
  | flowSequenceEnd
  | flowMapping
  | flowMappingEnd
  | blockEntry
  | flowEntry
  | key
  | value
  | alias (name : String)
  | anchor (name : String)
  | tag (spelling : TagSpelling)
  | scalar (text : String) (style : Style)
  deriving DecidableEq, Repr

/-- A token that may be a key, if a colon follows on its line. -/
structure PossibleKey where
  possible : Bool := false
  /-- It stands where nothing but a key can stand. -/
  required : Bool := false
  /-- How many tokens stand before it. -/
  token : Nat := 0
  index : Nat := 0
  line : Nat := 0
  column : Nat := 0

structure Scanner where
  input : Input
  tokens : Array Token := #[]
  /-- How many flow collections are open. -/
  flow : Nat := 0
  indent : Int := -1
  indents : List Int := []
  keyAllowed : Bool := true
  /-- The possible key of each open flow collection, innermost first, and of the blocks around them. -/
  keys : List PossibleKey := [{}]

namespace Scanner

def emit (s : Scanner) (t : Token) : Scanner :=
  { s with tokens := s.tokens.push t }

def inFlow (s : Scanner) : Bool :=
  0 < s.flow

def currentKey (s : Scanner) : PossibleKey :=
  s.keys.head?.getD {}

def setKey (s : Scanner) (k : PossibleKey) : Scanner :=
  { s with keys := k :: s.keys.drop 1 }

/-- Gives up the possible key, which is an error if there must be one. -/
def dropKey (s : Scanner) : Option Scanner :=
  let k := s.currentKey
  if k.possible && k.required then none else some (s.setKey { k with possible := false })

def noteKey (s : Scanner) : Option Scanner :=
  if s.keyAllowed then
    s.dropKey.map fun s => s.setKey {
      possible := true
      required := !s.inFlow && s.indent == (s.input.column : Int)
      token := s.tokens.size
      index := s.input.index
      line := s.input.line
      column := s.input.column }
  else some s

/-- A key ends on its own line, within 1024 octets. -/
def checkKeys (s : Scanner) : Option Scanner :=
  let stale := fun (k : PossibleKey) =>
    k.possible && (k.line < s.input.line || k.index + 1024 < s.input.index)
  if s.keys.any fun k => stale k && k.required then none
  else some { s with keys := s.keys.map fun k => if stale k then { k with possible := false } else k }

/-- Opens a block at a column further right, its token at the given place. -/
def rollIndent (s : Scanner) (column : Nat) (place : Nat) (t : Token) : Scanner :=
  if !s.inFlow && s.indent < (column : Int) then
    { s with
      indents := s.indent :: s.indents
      indent := column
      tokens := s.tokens.insertIdxIfInBounds place t }
  else s

def unrollIndent (column : Int) : (indents : List Int) → Scanner → Scanner
  | [], s => s
  | outer :: rest, s =>
    if column < s.indent then
      unrollIndent column rest { s.emit .blockEnd with indent := outer, indents := rest }
    else s

def unroll (s : Scanner) (column : Int) : Scanner :=
  if s.inFlow then s else unrollIndent column s.indents s

/-- Moves over blanks, comments, line breaks and a byte order mark that starts a line. A tab may not
indent a key. -/
def skipToToken : (fuel : Nat) → Scanner → Scanner
  | 0, s => s
  | fuel + 1, s =>
    let i := s.input
    match i.peek with
    | none => s
    | some c =>
      if c == ' ' || (c == '\t' && (s.inFlow || !s.keyAllowed)) || (c == '\ufeff' && i.column == 0) then
        skipToToken fuel { s with input := i.skip }
      else if c == '#' then
        skipToToken fuel { s with input := (i.takeWhile (!isBreak ·)).2 }
      else if isBreak c then
        skipToToken fuel { s with input := i.skipBreak, keyAllowed := s.keyAllowed || !s.inFlow }
      else s

def advance (s : Scanner) (n : Nat) (t : Token) : Scanner :=
  { s with input := s.input.skipMany n }.emit t

def documentMarker (s : Scanner) (t : Token) : Option Scanner :=
  (s.unroll (-1)).dropKey.map fun s => { s with keyAllowed := false }.advance 3 t

def openFlow (s : Scanner) (t : Token) : Option Scanner :=
  s.noteKey.map fun s =>
    { s with flow := s.flow + 1, keys := {} :: s.keys, keyAllowed := true }.advance 1 t

def closeFlow (s : Scanner) (t : Token) : Option Scanner :=
  s.dropKey.map fun s =>
    let s := if s.inFlow then { s with flow := s.flow - 1, keys := s.keys.drop 1 } else s
    { s with keyAllowed := false }.advance 1 t

def flowEntry (s : Scanner) : Option Scanner :=
  s.dropKey.map fun s => { s with keyAllowed := true }.advance 1 .flowEntry

/-- An entry or key indicator may open a block where a key could stand. -/
def openBlock (s : Scanner) (t : Token) : Option Scanner :=
  if s.inFlow then some s
  else if s.keyAllowed then some (s.rollIndent s.input.column s.tokens.size t)
  else none

def blockEntry (s : Scanner) : Option Scanner := do
  let s ← s.openBlock .blockSequence
  let s ← s.dropKey
  return { s with keyAllowed := true }.advance 1 .blockEntry

def explicitKey (s : Scanner) : Option Scanner := do
  let s ← s.openBlock .blockMapping
  let s ← s.dropKey
  return { s with keyAllowed := !s.inFlow }.advance 1 .key

/-- A colon makes a key of the token before it, if that can be one. -/
def colon (s : Scanner) : Option Scanner :=
  let k := s.currentKey
  if k.possible then
    let s := { s with tokens := s.tokens.insertIdxIfInBounds k.token .key }
    let s := (s.rollIndent k.column k.token .blockMapping).setKey { k with possible := false }
    some ({ s with keyAllowed := false }.advance 1 .value)
  else
    (s.openBlock .blockMapping).map fun s => { s with keyAllowed := !s.inFlow }.advance 1 .value

def anchor (s : Scanner) (t : String → Token) : Option Scanner := do
  let s ← s.noteKey
  let (name, i) := s.input.skip.takeWhile isNameChar
  let ended := isBlankOrEnd i.peek || i.peek.any fun c => "?:,]\x7d%@`".toList.contains c
  if name.isEmpty || !ended then none
  else return { s with input := i, keyAllowed := false }.emit (t (String.ofList name))

def tag (s : Scanner) : Option Scanner := do
  let s ← s.noteKey
  let (spelling, i) ← TagSpelling.scan s.input
  if !(isBlankOrEnd i.peek || (s.inFlow && i.isAt ',')) then none
  else return { s with input := i, keyAllowed := false }.emit (.tag spelling)

def block (s : Scanner) (literal : Bool) : Option Scanner := do
  let s ← s.dropKey
  let (text, i) ← blockScalar literal s.indent s.input.skip
  let style := if literal then .literal else .folded
  return { s with input := i, keyAllowed := true }.emit (.scalar (String.ofList text.reverse) style)

def quoted (s : Scanner) (single : Bool) : Option Scanner := do
  let s ← s.noteKey
  let (text, i) ← quotedScalar single (s.input.rest.length + 1) [] s.input.skip
  return { s with input := i, keyAllowed := false }.emit (.scalar (String.ofList text.reverse) .quoted)

def plain (s : Scanner) : Option Scanner := do
  let s ← s.noteKey
  let (text, broken, i) ←
    plainScalar s.inFlow (s.indent + 1) (s.input.rest.length + 2) [] {} s.input
  return { s with input := i, keyAllowed := broken }.emit (.scalar (String.ofList text.reverse) .plain)

def directive (s : Scanner) : Option Scanner := do
  let s ← (s.unroll (-1)).dropKey
  let (directive, i) ← Directive.scan s.input.skip
  return { s with input := i, keyAllowed := false }.emit (.directive directive)

/-- A plain scalar may start with any character that is no indicator, and with some indicators that are
joined to what follows. -/
def startsPlain (s : Scanner) (c : Char) : Bool :=
  let next := s.input.peekAt 1
  (!isBlankOrEnd (some c) && !"-?:,[]\x7b\x7d#&*!|>'\"%@`".toList.contains c) ||
    (c == '-' && !next.any isSpaceOrTab) ||
    (!s.inFlow && (c == '?' || c == ':') && !isBlankOrEnd next)

def token (s : Scanner) (c : Char) : Option Scanner :=
  let i := s.input
  let next := i.peekAt 1
  if i.column == 0 && c == '%' then s.directive
  else if i.isMarker '-' then s.documentMarker .documentStart
  else if i.isMarker '.' then s.documentMarker .documentEnd
  else if c == '[' then s.openFlow .flowSequence
  else if c == '{' then s.openFlow .flowMapping
  else if c == ']' then s.closeFlow .flowSequenceEnd
  else if c == '}' then s.closeFlow .flowMappingEnd
  else if c == ',' then s.flowEntry
  else if c == '-' && isBlankOrEnd next then s.blockEntry
  else if c == '?' && (s.inFlow || isBlankOrEnd next) then s.explicitKey
  else if c == ':' && (s.inFlow || isBlankOrEnd next) then s.colon
  else if c == '*' then s.anchor .alias
  else if c == '&' then s.anchor .anchor
  else if c == '!' then s.tag
  else if c == '|' && !s.inFlow then s.block true
  else if c == '>' && !s.inFlow then s.block false
  else if c == '\'' then s.quoted true
  else if c == '"' then s.quoted false
  else if s.startsPlain c then s.plain
  else none

def finish (s : Scanner) : Option Scanner :=
  (s.unroll (-1)).dropKey

def run : (fuel : Nat) → Scanner → Option Scanner
  | 0, _ => none
  | fuel + 1, s =>
    match (skipToToken (s.input.rest.length + 1) s).checkKeys with
    | none => none
    | some s =>
      let s := s.unroll s.input.column
      match s.input.peek with
      | none => s.finish
      | some c =>
        match s.token c with
        | none => none
        | some s => run fuel s

end Scanner

def tokens (text : String) : Option (List Token) :=
  let cs := text.toList
  if cs.all isAllowed then
    (Scanner.run (cs.length + 1) { input := { rest := cs } }).map (·.tokens.toList)
  else none

end StyleMixins.Yaml
