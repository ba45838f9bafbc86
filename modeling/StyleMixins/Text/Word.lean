import StyleMixins.Text.Alphabetic
import StyleMixins.Text.Mark
import StyleMixins.Text.Numeric

namespace StyleMixins.Text

/-- How many of the rising `bounds`, of those with an index in `low ..< low + width`, are at most `n`,
plus `low`. The width halves at each step, so `fuel` of 32 serves every table. -/
def countUpTo (bounds : Array Nat) (n : Nat) : (fuel low width : Nat) → Nat
  | 0, low, _ => low
  | _ + 1, low, 0 => low
  | fuel + 1, low, width + 1 =>
    let half := (width + 1) / 2
    match bounds[low + half]? with
    | some b =>
      if b ≤ n then countUpTo bounds n fuel (low + half + 1) (width - half)
      else countUpTo bounds n fuel low half
    | none => countUpTo bounds n fuel low half

/-- Membership in the set whose sorted list of changes is `bounds`: an odd number of changes lies at or
before the code point. -/
def within (bounds : Array Nat) (c : Char) : Bool :=
  countUpTo bounds c.toNat 32 0 bounds.size % 2 == 1

def isAlphanumeric (c : Char) : Bool :=
  if c.toNat < 128 then c.isAlphanum
  else within alphabeticBounds c || within digitBounds c || within otherNumeralBounds c

/-- Connector punctuation such as `_` (general category Pc). -/
def isConnector (c : Char) : Bool :=
  let n := c.toNat
  n == 0x5F || n == 0x203F || n == 0x2040 || n == 0x2054 || n == 0xFE33 || n == 0xFE34 ||
    (0xFE4D ≤ n && n ≤ 0xFE4F) || n == 0xFF3F

def isJoiner (c : Char) : Bool :=
  c.toNat == 0x200C || c.toNat == 0x200D

/-- Characters that words are made of: letters, marks, decimal digits, connectors and joiners. -/
def isWord (c : Char) : Bool :=
  if c.toNat < 128 then c.isAlphanum || c == '_'
  else within alphabeticBounds c || within markBounds c || within digitBounds c || isConnector c ||
    isJoiner c

end StyleMixins.Text
