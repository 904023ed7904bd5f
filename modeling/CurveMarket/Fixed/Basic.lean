import CurveMarket.Error.Basic

/-!
# Fixed-point numbers

A fixed-point number is an integer that counts units of `10 ^ -18`. The kernels work with eighteen
guard digits more, at the working scale, and round back to units on return.
-/

namespace CurveMarket.Fixed

/-- One whole. -/
def one : Nat := 1000000000000000000

/-- Working-scale units in one unit. -/
def guard : Nat := 1000000000000000000

/-- One whole at the working scale. -/
def work : Nat := 1000000000000000000000000000000000000

/-- Euler's number at the working scale, rounded up. -/
def eWork : Nat := 2718281828459045235360287471352662498

/-- Third of a whole at the working scale, rounded down. -/
def thirdWork : Nat := 333333333333333333333333333333333333

def threeWork : Nat := 3000000000000000000000000000000000000

/-- The largest exponent that is not cut, 130 wholes. -/
def maxExponent : Nat := 130000000000000000000

/-- Magnitude of the smallest exponent that does not flush to zero, 42 wholes. -/
def minExponentMagnitude : Nat := 42000000000000000000

theorem work_eq_one_mul_guard : work = one * guard := rfl

theorem thirdWork_eq : thirdWork = work / 3 := rfl

theorem threeWork_eq : threeWork = 3 * work := rfl

theorem work_lt_eWork : work < eWork := by decide

def mulDown (a b : Int) : Int := (a * b).tdiv one

def divDown (a b : Int) : Except Error Int :=
  if b = 0 then .error .divisionByZero else .ok ((a * one).tdiv b)

def divUp (a b : Int) : Except Error Int :=
  if b ≤ 0 ∨ a < 0 then .error .roundingUpDomain else .ok ((a * one + b - 1) / b)

/-- A working-scale number rounded to the nearest unit, a half upwards. -/
def roundUnits (v : Nat) : Nat := (v + guard / 2) / guard

/-- A signed working-scale number rounded to the nearest unit, a half away from zero. -/
def roundUnitsSigned (v : Int) : Int :=
  if 0 ≤ v then (roundUnits v.natAbs : Int) else -(roundUnits v.natAbs : Int)

end CurveMarket.Fixed
