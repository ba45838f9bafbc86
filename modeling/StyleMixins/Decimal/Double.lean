namespace StyleMixins.Decimal

/-- The finite double with the value `significand * 2 ^ exponent`, negated if `negative`. The significand
has 53 bits, fewer only where the exponent has its least value -1074. -/
structure Double where
  negative : Bool
  significand : Nat
  exponent : Int
  deriving DecidableEq, Repr

/-- The quotient rounded to the nearest whole number, a half to the even neighbour. -/
def roundDiv (num den : Nat) : Nat :=
  let q := num / den
  let r := num % den
  if den < 2 * r || (2 * r == den && q % 2 == 1) then q + 1 else q

def scale (base num den : Nat) (exponent : Int) : Nat × Nat :=
  if 0 ≤ exponent then (num * Nat.pow base exponent.toNat, den) else (num, den * Nat.pow base (-exponent).toNat)

/-- The greatest `l` with `2 ^ l ≤ num / den`, for a positive quotient. -/
def floorLog2 (num den : Nat) : Int :=
  let l : Int := (num.log2 : Int) - den.log2
  let (a, b) := scale 2 num den (-l)
  if b ≤ a then l else l - 1

namespace Double

def zero (negative : Bool) : Double :=
  ⟨negative, 0, -1074⟩

/-- The double nearest to `num / den`; `none` beyond the greatest one. -/
def nearest (negative : Bool) (num den : Nat) : Option Double :=
  if num = 0 then some (zero negative)
  else
    let exponent := max (floorLog2 num den - 52) (-1074)
    let (a, b) := scale 2 num den (-exponent)
    let m := roundDiv a b
    let (m, exponent) := if m = Nat.pow 2 53 then (Nat.pow 2 52, exponent + 1) else (m, exponent)
    if 971 < exponent then none else some ⟨negative, m, exponent⟩

/-- The double nearest to `digits * 10 ^ exponent`. Exponents out of reach are settled without building
the power. -/
def ofDecimal (negative : Bool) (digits : Nat) (exponent : Int) : Option Double :=
  if digits = 0 then some (zero negative)
  else
    let leading : Int := (Nat.toDigits 10 digits).length + exponent
    if 310 < leading then none
    else if leading < -330 then some (zero negative)
    else
      let (a, b) := scale 10 digits 1 exponent
      nearest negative a b

end Double

end StyleMixins.Decimal
