import StyleMixins.Text.Unprinted
import StyleMixins.Text.Word

namespace StyleMixins.Text

def hexDigits (n : Nat) : String :=
  String.ofList (Nat.toDigits 16 n)

def isUnprinted (c : Char) : Bool :=
  if c.toNat < 0x80 then c.toNat < 0x20 || c.toNat == 0x7F else within unprintedBounds c

def quotedChar (c : Char) : String :=
  if c == '\x00' then "\\0"
  else if c == '\t' then "\\t"
  else if c == '\r' then "\\r"
  else if c == '\n' then "\\n"
  else if c == '"' || c == '\\' then String.ofList ['\\', c]
  else if isUnprinted c then "\\u\x7b" ++ hexDigits c.toNat ++ "\x7d"
  else String.ofList [c]

def quoted (s : String) : String :=
  "\"" ++ String.join (s.toList.map quotedChar) ++ "\""

end StyleMixins.Text
