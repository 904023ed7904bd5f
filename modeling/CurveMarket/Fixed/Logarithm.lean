import CurveMarket.Fixed.Basic

/-!
# The natural logarithm

A positive working-scale number is brought into `[1/3, 3]` by powers of `e`. On that range
`ln y = 2 * atanh ((y - 1) / (y + 1))`, whose argument is at most a half in magnitude, and the
series is summed until its terms vanish.

The loops take their scale and bounds as arguments. Each tests the facts that make it end next to
the condition it runs on; at the market's scale those facts always hold.
-/

namespace CurveMarket.Fixed

theorem mul_div_lt {x num den : Nat} (hx : 0 < x) (h : num < den) : x * num / den < x := by
  apply Nat.div_lt_of_lt_mul
  rw [Nat.mul_comm den x]
  exact Nat.mul_lt_mul_of_pos_left h hx

theorem lt_mul_div {x num den : Nat} (hx : 0 < x) (hd : 0 < den) (h : 2 * den ≤ num) :
    x < x * num / den := by
  apply Nat.lt_of_lt_of_le (Nat.lt_succ_self x)
  rw [Nat.le_div_iff_mul_le hd]
  calc (x + 1) * den ≤ (x + x) * den := Nat.mul_le_mul_right _ (by omega)
    _ = x * (2 * den) := by rw [← Nat.two_mul, Nat.mul_comm 2 x, Nat.mul_assoc]
    _ ≤ x * num := Nat.mul_le_mul_left _ h

/-- Multiplies by `num / den` while the number is above a bound; returns it with the number of
steps. -/
def scaleDownBy (num den bound x : Nat) : Nat × Nat :=
  if _h : bound < x ∧ num < den then
    let r := scaleDownBy num den bound (x * num / den)
    (r.1, r.2 + 1)
  else (x, 0)
termination_by x
decreasing_by exact mul_div_lt (by omega) (by omega)

/-- Multiplies by `num / den` while a positive number is below a bound; returns it with the number
of steps. -/
def scaleUpBy (num den bound x : Nat) : Nat × Nat :=
  if _h : (0 < x ∧ x < bound) ∧ 0 < den ∧ 2 * den ≤ num then
    let r := scaleUpBy num den bound (x * num / den)
    (r.1, r.2 + 1)
  else (x, 0)
termination_by bound - x
decreasing_by
  have : x < x * num / den := lt_mul_div (by omega) (by omega) (by omega)
  omega

/-- Sum of `term / k`, `term * square / (k + 2)`, `term * square² / (k + 4)` and so on, until a term
vanishes; products are taken at a scale and every quotient is rounded down. -/
def atanhSeries (scale square term k : Nat) : Nat :=
  if _h : 0 < term ∧ square < scale then
    term / k + atanhSeries scale square (term * square / scale) (k + 2)
  else 0
termination_by term
decreasing_by exact mul_div_lt (by omega) (by omega)

def scaleDown (x : Nat) : Nat × Nat := scaleDownBy work eWork threeWork x

def scaleUp (x : Nat) : Nat × Nat := scaleUpBy eWork work thirdWork x

/-- Magnitude of `(y - 1) / (y + 1)`. -/
def atanhArgument (y : Nat) : Nat :=
  (if work ≤ y then y - work else work - y) * work / (y + work)

def reducedLn (y : Nat) : Int :=
  let z := atanhArgument y
  let series : Nat := 2 * atanhSeries work (z * z / work) z 1
  if work ≤ y then series else -(series : Int)

def lnWork (x : Nat) : Int :=
  let down := scaleDown x
  let up := scaleUp down.1
  reducedLn up.1 + ((down.2 : Int) - up.2) * work

/-- Natural logarithm of a positive number, rounded to the nearest unit. -/
def ln (x : Int) : Except Error Int :=
  if x ≤ 0 then .error (.lnUndefined x)
  else if x = one then .ok 0
  else .ok (roundUnitsSigned (lnWork (x.toNat * guard)))

end CurveMarket.Fixed
