import CurveMarket.Fixed.Logarithm

/-!
# The exponential

The fraction of the exponent goes through the Taylor series, summed until its terms vanish; the
whole part is put on by squaring `e`. A negative exponent takes the reciprocal. Exponents above
`maxExponent` count as that, and those below `-minExponentMagnitude` give zero, so results stay
within 256 bits.
-/

namespace CurveMarket.Fixed

theorem mul_div_mul_lt {x num den k : Nat} (hx : 0 < x) (h : num < den) :
    x * num / (den * k) < x := by
  rw [← Nat.div_div_eq_div_mul]
  exact Nat.lt_of_le_of_lt (Nat.div_le_self _ _) (mul_div_lt hx h)

/-- Sum of the Taylor terms after `term`, the next of which is divided by `k`. -/
def taylorTail (scale fraction term k : Nat) : Nat :=
  if _h : 0 < term ∧ fraction < scale then
    let next := term * fraction / (scale * k)
    next + taylorTail scale fraction next (k + 1)
  else 0
termination_by term
decreasing_by exact mul_div_mul_lt (by omega) (by omega)

/-- `e` to the power of a fraction below one. -/
def expFraction (fraction : Nat) : Nat := work + taylorTail work fraction work 1

/-- `result * base ^ power`, each product taken at a scale and rounded down. -/
def mulPower (scale result base power : Nat) : Nat :=
  if _h : power = 0 then result
  else mulPower scale (if power % 2 = 1 then result * base / scale else result)
    (base * base / scale) (power / 2)
termination_by power
decreasing_by omega

def expWorkNat (y : Nat) : Nat :=
  mulPower work (expFraction (y % work)) eWork (y / work)

def expWork (y : Int) : Nat :=
  if y < 0 then work * work / expWorkNat y.natAbs else expWorkNat y.natAbs

/-- `e` to the power of any number, rounded to the nearest unit. -/
def exp (x : Int) : Nat :=
  if x = 0 then one
  else if x < -(minExponentMagnitude : Int) then 0
  else roundUnits (expWork (min x maxExponent * guard))

end CurveMarket.Fixed
