import JourneyPlanner.Decimal.Binary
import JourneyPlanner.Text.Numeral

/-!
Numbers written with a fixed count of decimals, rounded from the exact value; a value halfway
between two texts takes the one with the even last digit.
-/

namespace JourneyPlanner.Decimal

/-- The natural number nearest to a quotient, the even one of two at the same distance. -/
def roundHalfEven (numerator denominator : Nat) : Nat :=
  let quotient := numerator / denominator
  let twice := 2 * (numerator % denominator)
  if twice < denominator then quotient
  else if denominator < twice then quotient + 1
  else quotient + quotient % 2

theorem roundHalfEven_near (n d : Nat) (h : 0 < d) :
    2 * n ≤ 2 * (d * roundHalfEven n d) + d ∧ 2 * (d * roundHalfEven n d) ≤ 2 * n + d := by
  have split := Nat.div_add_mod n d
  have rest := Nat.mod_lt n h
  have succ : d * (n / d + 1) = d * (n / d) + d := by rw [Nat.mul_add, Nat.mul_one]
  simp only [roundHalfEven]
  split
  · omega
  · split
    · omega
    · have parity : n / d % 2 = 0 ∨ n / d % 2 = 1 := by omega
      rcases parity with even | odd
      · simp only [even, Nat.add_zero]; omega
      · simp only [odd]; omega

/-- A scaled natural number with a point before its last `places` digits. -/
def pointBefore (places scaled : Nat) : String :=
  let text := Text.padded (places + 1) scaled
  let whole := text.length - places
  String.ofList (text.take whole ++ '.' :: text.drop whole)

def fixed (places : Nat) (x : Float) : String :=
  (Binary.ofFloat x).render fun mantissa exponent =>
    let (up, down) := powerOfTwo exponent
    pointBefore places (roundHalfEven (mantissa * up * Nat.pow 10 places) down)

end JourneyPlanner.Decimal
