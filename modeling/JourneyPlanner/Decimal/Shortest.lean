import JourneyPlanner.Decimal.Binary
import JourneyPlanner.Text.Numeral

/-!
The shortest decimal text that reads back to a given binary floating point number, in two layouts:
plain digits whatever the size of the number, or a layout that shows that the number is a real one
and has an exponent when the number is very small or very large.

A decimal reads back to the number when it lies between the two midpoints to the neighbouring
numbers, the midpoints included when the mantissa is even. On the grid of the decimals with a given
count of digits only the two neighbours of the number can be the nearest ones that read back, so
the counts are tried in turn.
-/

namespace JourneyPlanner.Decimal

/-- The decimal `digits * 10 ^ exponent`. -/
structure Scientific where
  digits : Nat
  exponent : Int

/-- The decimals that read back to one positive number, with the common factor `2 ^ exponent`. -/
structure Interval where
  low : Nat
  centre : Nat
  high : Nat
  exponent : Int
  closed : Bool

/-- Below a power of two the neighbour is half as far as above it, unless both are subnormal. -/
def Interval.around (mantissa : Nat) (exponent : Int) : Interval where
  low := if mantissa = fractionRange ∧ exponent ≠ -1074 then 4 * mantissa - 1 else 4 * mantissa - 2
  centre := 4 * mantissa
  high := 4 * mantissa + 2
  exponent := exponent - 2
  closed := mantissa % 2 == 0

/-- Both sides of the comparison of a decimal with `bound * 2 ^ exponent`, as natural numbers. -/
def Interval.sides (i : Interval) (bound : Nat) (d : Scientific) : Nat × Nat :=
  let (up, down) := powerOfTwo i.exponent
  let (grow, shrink) := powerOfTen d.exponent
  (bound * up * shrink, d.digits * grow * down)

def Interval.contains (i : Interval) (d : Scientific) : Bool :=
  let low := i.sides i.low d
  let high := i.sides i.high d
  if i.closed then low.1 ≤ low.2 && high.2 ≤ high.1 else low.1 < low.2 && high.2 < high.1

/-- The power of ten of the first digit of the centre: ten to the power 340 brings every positive
number above one. -/
def Interval.magnitude (i : Interval) : Int :=
  let (up, down) := powerOfTwo i.exponent
  (Text.digits (i.centre * up * Nat.pow 10 340 / down)).length - 1 - 340

/-- The shortest decimal among those of `count` digits or more, at most `left` counts tried. Of the
two neighbours the nearer one is taken, the greater one when they are equally near. -/
def Interval.shortestFrom (i : Interval) : (left count : Nat) → Scientific
  | 0, count => ⟨i.centre, count⟩
  | left + 1, count =>
      let exponent := i.magnitude - count + 1
      let (up, down) := powerOfTwo i.exponent
      let (grow, shrink) := powerOfTen exponent
      let numerator := i.centre * up * shrink
      let denominator := down * grow
      let below : Scientific := ⟨numerator / denominator, exponent⟩
      let above : Scientific := ⟨numerator / denominator + 1, exponent⟩
      let nearBelow := 2 * (numerator % denominator) < denominator
      if i.contains below && (nearBelow || !i.contains above) then below
      else if i.contains above then above
      else i.shortestFrom left (count + 1)

/-- The same decimal without the zeros that end its digits. -/
def Scientific.stripZeros (d : Scientific) : Scientific :=
  if h : d.digits ≠ 0 ∧ d.digits % 10 = 0 then
    Scientific.stripZeros ⟨d.digits / 10, d.exponent + 1⟩
  else d
termination_by d.digits
decreasing_by exact Nat.div_lt_self (by omega) (by omega)

/-- Seventeen digits always read back. -/
def shortest (mantissa : Nat) (exponent : Int) : Scientific :=
  if mantissa = 0 then ⟨0, 0⟩
  else ((Interval.around mantissa exponent).shortestFrom 17 1).stripZeros

/-- Every digit in its place, with zeros up to the point on either side. -/
def Scientific.positional (d : Scientific) : String :=
  let text := Text.digits d.digits
  if 0 ≤ d.exponent then String.ofList (text ++ List.replicate d.exponent.toNat '0')
  else
    let places := (-d.exponent).toNat
    let padded := List.replicate (places + 1 - text.length) '0' ++ text
    let whole := padded.length - places
    String.ofList (padded.take whole ++ '.' :: padded.drop whole)

/-- The power of ten of the first digit. -/
def Scientific.order (d : Scientific) : Int :=
  d.exponent + (Text.digits d.digits).length - 1

/-- One digit before the point, no point when there is no other digit, and the power of ten. -/
def Scientific.exponential (d : Scientific) : String :=
  let fraction := match Text.digits d.digits with
    | first :: [] => [first]
    | first :: rest => first :: '.' :: rest
    | [] => []
  let power := if d.order < 0 then '-' :: Text.digits (-d.order).toNat
    else Text.digits d.order.toNat
  String.ofList (fraction ++ 'e' :: power)

/-- Never an exponent, and no point for a whole number. -/
def plain (x : Float) : String :=
  (Binary.ofFloat x).render fun mantissa exponent => (shortest mantissa exponent).positional

/-- Numbers below `10 ^ -4` and from `10 ^ 16` on have an exponent, the other whole numbers a zero
after the point. -/
def marked (x : Float) : String :=
  (Binary.ofFloat x).render fun mantissa exponent =>
    let d := shortest mantissa exponent
    if mantissa = 0 then "0.0"
    else if d.order < -4 ∨ 16 ≤ d.order then d.exponential
    else if 0 ≤ d.exponent then d.positional ++ ".0"
    else d.positional

end JourneyPlanner.Decimal
