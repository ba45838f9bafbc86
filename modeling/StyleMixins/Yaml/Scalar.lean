import StyleMixins.Yaml.Input

namespace StyleMixins.Yaml

inductive Style where
  | plain
  | quoted
  | literal
  | folded
  deriving DecidableEq, Repr

structure Gap where
  spaces : List Char := []
  firstBreak : List Char := []
  moreBreaks : List Char := []
  broken : Bool := false

def Gap.folded (g : Gap) : List Char :=
  if !g.broken then g.spaces
  else if g.firstBreak.head? == some '\n' then
    if g.moreBreaks.isEmpty then [' '] else g.moreBreaks
  else g.firstBreak ++ g.moreBreaks

/-- Moves over blanks and line breaks. A tab before column `tabLimit` at the start of a line is an
error. -/
def scanGap (tabLimit : Int) : (fuel : Nat) → Gap → Input → Option (Gap × Input)
  | 0, _, _ => none
  | fuel + 1, g, i =>
    match i.peek with
    | none => some (g, i)
    | some c =>
      if isSpaceOrTab c then
        if g.broken then
          if c == '\t' && (i.column : Int) < tabLimit then none else scanGap tabLimit fuel g i.skip
        else scanGap tabLimit fuel { g with spaces := g.spaces ++ [c] } i.skip
      else if isBreak c then
        let (text, i) := i.takeBreak
        if g.broken then scanGap tabLimit fuel { g with moreBreaks := g.moreBreaks ++ text } i
        else scanGap tabLimit fuel { spaces := [], firstBreak := text, broken := true } i
      else some (g, i)

def isFlowIndicator (c : Char) : Bool :=
  c == ',' || c == '[' || c == ']' || c == '{' || c == '}'

/-- The characters up to a blank or to an indicator that ends a plain scalar. -/
def plainWord (flow : Bool) : (fuel : Nat) → Input → Option (List Char × Input)
  | 0, _ => none
  | fuel + 1, i =>
    match i.peek with
    | none => some ([], i)
    | some c =>
      let next := i.peekAt 1
      if isBlankOrEnd (some c) then some ([], i)
      else if flow && c == ':' && next.any (fun d => isFlowIndicator d || d == '?') then none
      else if c == ':' && isBlankOrEnd next then some ([], i)
      else if flow && isFlowIndicator c then some ([], i)
      else
        match plainWord flow fuel i.skip with
        | none => none
        | some (word, i) => some (c :: word, i)

/-- A plain scalar, whose further lines are indented at least to `indent` outside flow collections. The
flag says whether the scan ended behind a line break. -/
def plainScalar (flow : Bool) (indent : Int) :
    (fuel : Nat) → (text : List Char) → Gap → Input → Option (List Char × Bool × Input)
  | 0, _, _, _ => none
  | fuel + 1, text, g, i =>
    if i.isDocumentMarker || i.isAt '#' then some (text, g.broken, i)
    else
      match plainWord flow fuel i with
      | none => none
      | some (word, i) =>
        let text := if word.isEmpty then text else word.reverse ++ (g.folded.reverse ++ text)
        let g := if word.isEmpty then g else {}
        match i.peek with
        | none => some (text, g.broken, i)
        | some c =>
          if !(isSpaceOrTab c || isBreak c) then some (text, g.broken, i)
          else
            match scanGap indent fuel g i with
            | none => none
            | some (g, i) =>
              if !flow && (i.column : Int) < indent then some (text, g.broken, i)
              else plainScalar flow indent fuel text g i

def codePoint (digits : Nat) (i : Input) : Option (Char × Input) :=
  let code := i.rest.take digits
  match code.mapM hexDigit? with
  | none => none
  | some values =>
    let n := values.foldl (fun n d => n * 16 + d) 0
    if code.length < digits || (0xD800 ≤ n && n ≤ 0xDFFF) || 0x10FFFF < n then none
    else some (Char.ofNat n, i.skipMany digits)

def escape (i : Input) : Option (Char × Input) :=
  match i.peek with
  | none => none
  | some c =>
    let i := i.skip
    match c with
    | '0' => some ('\x00', i)
    | 'a' => some ('\x07', i)
    | 'b' => some ('\x08', i)
    | 't' | '\t' => some ('\t', i)
    | 'n' => some ('\n', i)
    | 'v' => some ('\x0b', i)
    | 'f' => some ('\x0c', i)
    | 'r' => some ('\r', i)
    | 'e' => some ('\x1b', i)
    | ' ' | '"' | '/' | '\\' => some (c, i)
    | 'N' => some ('\u0085', i)
    | '_' => some ('\u00a0', i)
    | 'L' => some ('\u2028', i)
    | 'P' => some ('\u2029', i)
    | 'x' => codePoint 2 i
    | 'u' => codePoint 4 i
    | 'U' => codePoint 8 i
    | _ => none

/-- The characters up to a blank or to the closing quote. The flag says whether they ended with an
escaped line break. -/
def quotedWord (single : Bool) : (fuel : Nat) → Input → Option (List Char × Bool × Input)
  | 0, _ => none
  | fuel + 1, i =>
    let more := fun (c : Char) (i : Input) =>
      match quotedWord single fuel i with
      | none => none
      | some (word, escaped, i) => some (c :: word, escaped, i)
    match i.peek with
    | none => some ([], false, i)
    | some c =>
      if isBlankOrEnd (some c) then some ([], false, i)
      else if single && c == '\'' then
        if i.peekAt 1 == some '\'' then more c i.skip.skip else some ([], false, i)
      else if !single && c == '"' then some ([], false, i)
      else if !single && c == '\\' then
        if (i.peekAt 1).any isBreak then some ([], true, i.skip.skipBreak)
        else
          match escape i.skip with
          | none => none
          | some (c, i) => more c i
      else more c i.skip

def quotedScalar (single : Bool) :
    (fuel : Nat) → (text : List Char) → Input → Option (List Char × Input)
  | 0, _, _ => none
  | fuel + 1, text, i =>
    if i.isDocumentMarker || i.atEnd then none
    else
      match quotedWord single fuel i with
      | none => none
      | some (word, escaped, i) =>
        let text := word.reverse ++ text
        if i.isAt (if single then '\'' else '"') then some (text, i.skip)
        else
          match scanGap (-1) fuel { broken := escaped } i with
          | none => none
          | some (g, i) => quotedScalar single fuel (g.folded.reverse ++ text) i

/-- What becomes of the line breaks at the end of a block. -/
inductive Chomping where
  | strip
  | clip
  | keep
  deriving DecidableEq

def chomping? : Option Char → Option Chomping
  | some '-' => some .strip
  | some '+' => some .keep
  | _ => none

/-- Moves over indentation and empty lines in front of a line of a block, whose indentation is `indent`
if it is known. Gives the line breaks and the greatest column seen. -/
def blockBreaks (indent : Option Nat) :
    (fuel : Nat) → (breaks : List Char) → (widest : Nat) → Input → Option (List Char × Nat × Input)
  | 0, _, _, _ => none
  | fuel + 1, breaks, widest, i =>
    let inside := indent.all (i.column < ·)
    if inside && i.isAt ' ' then blockBreaks indent fuel breaks widest i.skip
    else
      let widest := max widest i.column
      if inside && i.isAt '\t' then none
      else if i.peek.any isBreak then
        let (text, i) := i.takeBreak
        blockBreaks indent fuel (breaks ++ text) widest i
      else some (breaks, widest, i)

/-- The lines of a block. `held` is the break behind the last line, `breaks` are those of the empty lines
after it. -/
def blockLines (literal : Bool) (chomping : Chomping) (indent : Nat) :
    (fuel : Nat) → (text held breaks : List Char) → (afterBlank : Bool) → Input →
      Option (List Char × Input)
  | 0, _, _, _, _, _ => none
  | fuel + 1, text, held, breaks, afterBlank, i =>
    if i.column == indent && !i.atEnd then
      let blank := i.peek.any isSpaceOrTab
      let joint :=
        if !literal && held.head? == some '\n' && !afterBlank && !blank then
          if breaks.isEmpty then [' '] else []
        else held
      let (line, i) := i.takeWhile (!isBreak ·)
      let text := line.reverse ++ (breaks.reverse ++ (joint.reverse ++ text))
      let (held, i) := i.takeBreak
      match blockBreaks (some indent) fuel [] 0 i with
      | none => none
      | some (breaks, _, i) => blockLines literal chomping indent fuel text held breaks blank i
    else
      some (match chomping with
        | .strip => text
        | .clip => held.reverse ++ text
        | .keep => breaks.reverse ++ (held.reverse ++ text), i)

/-- The indicators behind `|` or `>`: chomping and an indentation step, in either order. -/
def blockHeader (i : Input) : Option (Chomping × Option Nat × Input) :=
  let digit? := fun (i : Input) => i.peek.bind fun c => if c.isDigit then some (c.toNat - 48) else none
  let (chomping, i) := match chomping? i.peek with
    | some chomping => (some chomping, i.skip)
    | none => (none, i)
  let (step, i) := match digit? i with
    | some n => (some n, i.skip)
    | none => (none, i)
  let (chomping, i) := match chomping, step, chomping? i.peek with
    | none, some _, some chomping => (some chomping, i.skip)
    | chomping, _, _ => (chomping, i)
  if step == some 0 then none else some (chomping.getD .clip, step, i)

/-- A block scalar from behind its `|` or `>`; `outer` is the indentation around it. -/
def blockScalar (literal : Bool) (outer : Int) (i : Input) : Option (List Char × Input) :=
  match blockHeader i with
  | none => none
  | some (chomping, step, i) =>
    match i.endLine with
    | none => none
    | some i =>
      let fuel := i.rest.length + 2
      let fixed := step.map fun n => (max outer 0).toNat + n
      match blockBreaks fixed fuel [] 0 i with
      | none => none
      | some (breaks, widest, i) =>
        let indent := fixed.getD (max widest (max (outer + 1).toNat 1))
        blockLines literal chomping indent fuel [] [] breaks false i

end StyleMixins.Yaml
