import StyleMixins.Yaml.Tag

namespace StyleMixins.Yaml

inductive Directive where
  | version (major minor : Nat)
  | handle (name : String) (start : Tag)
  deriving DecidableEq, Repr

namespace Directive

def scanNumber (i : Input) : Option (Nat × Input) :=
  let (digits, i) := i.takeWhile Char.isDigit
  if digits.isEmpty || 9 < digits.length then none
  else some (digits.foldl (fun n d => n * 10 + (d.toNat - 48)) 0, i)

def scanVersion (i : Input) : Option (Directive × Input) := do
  let (major, i) ← scanNumber i
  if !i.isAt '.' then none
  let (minor, i) ← scanNumber i.skip
  return (.version major minor, i)

def scanHandle (i : Input) : Option (Directive × Input) := do
  let (name, closed, i) ← Yaml.scanHandle i
  if !(closed || name.isEmpty) || !i.peek.any isSpaceOrTab then none
  let (octets, i) ← scanTagText true i.skipBlanks
  if octets.isEmpty || !isBlankOrEnd i.peek then none
  return (.handle ("!" ++ name ++ if closed then "!" else "") (Tag.ofOctets octets), i)

def scan (i : Input) : Option (Directive × Input) := do
  let (name, i) := i.takeWhile isNameChar
  if !isBlankOrEnd i.peek then none
  let i := i.skipBlanks
  let (directive, i) ←
    if name == "YAML".toList then scanVersion i
    else if name == "TAG".toList then scanHandle i
    else none
  return (directive, ← i.endLine)

/-- What handles stand for where no directive says otherwise. -/
def standardHandles : Entries Tag :=
  [("!", Tag.unspecific), ("!!", Tag.core "")]

/-- The handles that directives leave. There may be one version, 1.1 or 1.2, and no handle twice. -/
def handles? (versioned : Bool) (handles : Entries Tag) : List Directive → Option (Entries Tag)
  | [] => some (handles ++ standardHandles)
  | .version major minor :: rest =>
    if versioned || major != 1 || !(minor == 1 || minor == 2) then none else handles? true handles rest
  | .handle name start :: rest =>
    if (handles.find? name).isSome then none else handles? versioned (handles.put name start) rest

end Directive

end StyleMixins.Yaml
