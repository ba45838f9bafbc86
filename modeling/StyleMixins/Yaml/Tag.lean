import StyleMixins.Entries
import StyleMixins.Yaml.Input

namespace StyleMixins.Yaml

/-- A tag in UTF-8. Escapes in it may write octets that are no text. -/
structure Tag where
  octets : List UInt8
  deriving DecidableEq, Repr

namespace Tag

def ofString (s : String) : Tag :=
  ⟨s.toUTF8.toList⟩

/-- A tag ends in front of an octet zero. -/
def ofOctets (octets : List UInt8) : Tag :=
  ⟨octets.takeWhile (· != 0)⟩

def append (start rest : Tag) : Tag :=
  ⟨start.octets ++ rest.octets⟩

def core (name : String) : Tag :=
  ofString ("tag:yaml.org,2002:" ++ name)

/-- A lone exclamation mark: no type is named. -/
def unspecific : Tag :=
  ofString "!"

/-- A type of the program that wrote the text, with a name behind the exclamation mark. -/
def isLocal (t : Tag) : Bool :=
  match t.octets with
  | 0x21 :: name => (String.fromUTF8? ⟨name.toArray⟩).isSome
  | _ => false

end Tag

/-- An octet, written as a percent sign and two hexadecimal digits. -/
def escapedOctet (i : Input) : Option (UInt8 × Input) :=
  match i.rest with
  | '%' :: a :: b :: _ => do
    let high ← hexDigit? a
    let low ← hexDigit? b
    return (UInt8.ofNat (high * 16 + low), i.skipMany 3)
  | _ => none

def followers? (octet : UInt8) : Option Nat :=
  if octet < 0x80 then some 0
  else if octet < 0xC0 then none
  else if octet < 0xE0 then some 1
  else if octet < 0xF0 then some 2
  else if octet < 0xF8 then some 3
  else none

def escapedFollowers : Nat → Input → Option (List UInt8 × Input)
  | 0, i => some ([], i)
  | n + 1, i => do
    let (octet, i) ← escapedOctet i
    if octet < 0x80 || 0xC0 ≤ octet then none
    let (octets, i) ← escapedFollowers n i
    return (octet :: octets, i)

def escapedChar (i : Input) : Option (List UInt8 × Input) := do
  let (octet, i) ← escapedOctet i
  let (octets, i) ← escapedFollowers (← followers? octet) i
  return (octet :: octets, i)

/-- The characters of a tag. A comma and square brackets are among them where no flow collection can be
meant. -/
def isTagChar (wide : Bool) (c : Char) : Bool :=
  isNameChar c || ";/?:@&=+$.%!~*'()".toList.contains c || (wide && (c == ',' || c == '[' || c == ']'))

def tagOctets (wide : Bool) : (fuel : Nat) → Input → Option (List UInt8 × Input)
  | 0, _ => none
  | fuel + 1, i =>
    match i.peek with
    | none => some ([], i)
    | some c =>
      if isTagChar wide c then do
        let (octets, i) ← if c == '%' then escapedChar i else some ([c.toUInt8], i.skip)
        let (more, i) ← tagOctets wide fuel i
        return (octets ++ more, i)
      else some ([], i)

def scanTagText (wide : Bool) (i : Input) : Option (List UInt8 × Input) :=
  tagOctets wide (i.rest.length + 1) i

/-- An exclamation mark, a name that may be empty, and whether a second exclamation mark ends it. -/
def scanHandle (i : Input) : Option (String × Bool × Input) :=
  if i.isAt '!' then
    let (name, i) := i.skip.takeWhile isNameChar
    if i.isAt '!' then some (String.ofList name, true, i.skip) else some (String.ofList name, false, i)
  else none

/-- A tag as it is written: without handle it is complete. -/
structure TagSpelling where
  handle : Option String
  rest : Tag
  deriving DecidableEq, Repr

namespace TagSpelling

def scanVerbatim (i : Input) : Option (TagSpelling × Input) := do
  let (octets, i) ← scanTagText true i
  if octets.isEmpty || !i.isAt '>' then none
  return (⟨none, Tag.ofOctets octets⟩, i.skip)

def scanShort (i : Input) : Option (TagSpelling × Input) := do
  let (name, closed, i) ← scanHandle i
  let (octets, i) ← scanTagText false i
  if closed then
    if octets.isEmpty then none
    return (⟨some ("!" ++ name ++ "!"), Tag.ofOctets octets⟩, i)
  else
    let rest := (Tag.ofString name).append (Tag.ofOctets octets)
    return (if rest.octets.isEmpty then ⟨none, Tag.unspecific⟩ else ⟨some "!", rest⟩, i)

def scan (i : Input) : Option (TagSpelling × Input) :=
  if i.peekAt 1 == some '<' then scanVerbatim (i.skipMany 2) else scanShort i

def resolve? (s : TagSpelling) (handles : Entries Tag) : Option Tag :=
  match s.handle with
  | none => some s.rest
  | some handle => (handles.find? handle).map (·.append s.rest)

end TagSpelling

end StyleMixins.Yaml
