/-!
The floating point number nearest to a decimal. Of two numbers at the same distance it is the one
with the even mantissa. A decimal beyond the largest finite number has none.
-/

namespace JourneyPlanner.Decimal

/-- The number nearest to `significand * 10 ^ exponent`, or to its opposite; zero keeps its sign. -/
def nearest? (negative : Bool) (significand : Nat) (exponent : Int) : Option Float :=
  let x := Float.ofScientific significand (exponent < 0) exponent.natAbs
  if x.isInf then none else some (if negative then -x else x)

end JourneyPlanner.Decimal
