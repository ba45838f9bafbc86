import StyleMixins.Decimal.Double

namespace StyleMixins.Decimal

structure Digits where
  digits : Nat
  exponent : Int
  deriving DecidableEq, Repr

namespace Digits

/-- Without trailing zeros, of which there are at most `fuel`. -/
def strip : (fuel : Nat) → Digits → Digits
  | 0, d => d
  | fuel + 1, d => if d.digits % 10 = 0 then strip fuel ⟨d.digits / 10, d.exponent + 1⟩ else d

end Digits

/-- The greatest `e` with `10 ^ e ≤ num / den`, for a positive quotient between `10 ^ -fuel` and one, or
at least one. -/
def floorLog10 (fuel num den : Nat) : Int :=
  if den ≤ num then ((Nat.toDigits 10 (num / den)).length : Int) - 1
  else
    match fuel with
    | 0 => -1
    | fuel + 1 => floorLog10 fuel (num * 10) den - 1

namespace Double

/-- The reals that round to a positive double lie between `low / scale` and `high / scale`, where its own
value is `middle / scale`. The ends belong to it if its significand is even. -/
structure Interval where
  low : Nat
  middle : Nat
  high : Nat
  scale : Nat
  closed : Bool

/-- Below a power of two the neighbours lie half as far apart. -/
def interval (d : Double) : Interval :=
  let m := d.significand
  let below := if m = Nat.pow 2 52 ∧ -1074 < d.exponent then 1 else 2
  let (unit, scale) := scale 2 1 4 d.exponent
  ⟨(4 * m - below) * unit, 4 * m * unit, (4 * m + 2) * unit, scale, m % 2 == 0⟩

def Interval.contains (i : Interval) (d : Digits) : Bool :=
  let (a, b) := Decimal.scale 10 d.digits 1 d.exponent
  let x := a * i.scale
  if i.closed then i.low * b ≤ x && x ≤ i.high * b else i.low * b < x && x < i.high * b

/-- The decimal of the interval, with digits down to `10 ^ exponent`, that is nearest to the middle; of
two equally near ones, the even one. -/
def Interval.pick (i : Interval) (exponent : Int) : Option Digits :=
  let (a, b) := Decimal.scale 10 i.middle i.scale (-exponent)
  let down := a / b
  let nearer := roundDiv a b
  let further := if nearer = down then down + 1 else down
  if i.contains ⟨nearer, exponent⟩ then some ⟨nearer, exponent⟩
  else if i.contains ⟨further, exponent⟩ then some ⟨further, exponent⟩
  else none

def Interval.search (i : Interval) : (fuel : Nat) → (exponent : Int) → Digits
  | 0, exponent => ⟨i.middle / i.scale, exponent⟩
  | fuel + 1, exponent =>
    match i.pick exponent with
    | some d => d
    | none => i.search fuel (exponent - 1)

def shortest (d : Double) : Digits :=
  let i := d.interval
  (i.search 20 (floorLog10 400 i.middle i.scale)).strip 20

end Double

def digitText (n : Nat) : List Char :=
  Nat.toDigits 10 n

/-- Positional from `10 ^ -5` up to below `10 ^ 16`, with at least one place behind the point; otherwise
with a signed exponent. -/
def Digits.text (d : Digits) : List Char :=
  let digits := digitText d.digits
  let leading : Int := d.exponent + digits.length - 1
  if 0 ≤ leading ∧ leading ≤ 15 then
    let whole := leading.toNat + 1
    if digits.length ≤ whole then
      digits ++ List.replicate (whole - digits.length) '0' ++ ['.', '0']
    else digits.take whole ++ '.' :: digits.drop whole
  else if -5 ≤ leading ∧ leading < 0 then
    '0' :: '.' :: List.replicate ((-leading).toNat - 1) '0' ++ digits
  else
    let mantissa := match digits with
      | [] => []
      | [first] => [first]
      | first :: rest => first :: '.' :: rest
    mantissa ++ 'e' :: (if 0 ≤ leading then '+' else '-') :: digitText leading.natAbs

def Double.text (d : Double) : String :=
  let magnitude := if d.significand = 0 then ['0', '.', '0'] else d.shortest.text
  String.ofList (if d.negative then '-' :: magnitude else magnitude)

end StyleMixins.Decimal
