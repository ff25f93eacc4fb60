/-!
The exact value of a binary floating point number. A finite one is a natural number times a power
of two, with a sign; zero keeps its sign.
-/

namespace JourneyPlanner.Decimal

inductive Binary where
  | finite (negative : Bool) (mantissa : Nat) (exponent : Int)
  | infinite (negative : Bool)
  | notANumber

/-- Two to the power of 52, the width of a fraction. -/
def fractionRange : Nat := 4503599627370496

/-- Bit 63 is the sign, the next 11 bits the exponent and the last 52 the fraction. -/
def Binary.ofFloat (x : Float) : Binary :=
  let bits := x.toBits.toNat
  let negative := bits.testBit 63
  let exponent : Nat := bits / fractionRange % 2048
  let fraction : Nat := bits % fractionRange
  if exponent = 2047 then
    if fraction = 0 then .infinite negative else .notANumber
  else if exponent = 0 then .finite negative fraction (-1074)
  else .finite negative (fractionRange + fraction) ((exponent : Int) - 1075)

/-- The names of the values that are no number of the real line, and the sign of the others. -/
def Binary.render (finite : Nat → Int → String) : Binary → String
  | .finite negative mantissa exponent =>
      (if negative then "-" else "") ++ finite mantissa exponent
  | .infinite negative => if negative then "-inf" else "inf"
  | .notANumber => "NaN"

/-- Two to the power of an integer, as a quotient of natural numbers. -/
def powerOfTwo (e : Int) : Nat × Nat :=
  (Nat.pow 2 e.toNat, Nat.pow 2 (-e).toNat)

/-- Ten to the power of an integer, as a quotient of natural numbers. -/
def powerOfTen (e : Int) : Nat × Nat :=
  (Nat.pow 10 e.toNat, Nat.pow 10 (-e).toNat)

end JourneyPlanner.Decimal
