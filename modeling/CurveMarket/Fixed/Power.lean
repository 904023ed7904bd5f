import CurveMarket.Fixed.Exponential

/-!
# Powers

`power`, `powerDown` and `powerUp` raise a non-negative base to a non-negative exponent and round
to nearest, down and up. Anything to the power zero, zero to a positive power and one to any power
are exact; every other power goes through the logarithm.
-/

namespace CurveMarket.Fixed

def exactPower? (base exponent : Nat) : Option Nat :=
  if exponent = 0 then some one
  else if base = 0 then some 0
  else if base = one then some one
  else none

def powerLn (base exponent : Nat) : Int :=
  ((exponent : Int) * lnWork (base * guard)).tdiv one

/-- A power at the working scale; zero when it lies below one unit. -/
def powerWork (base exponent : Nat) : Nat :=
  let y := powerLn base exponent
  if y < -((minExponentMagnitude * guard : Nat) : Int) then 0
  else expWork (min y ((maxExponent * guard : Nat) : Int))

def power (base exponent : Nat) : Nat :=
  (exactPower? base exponent).getD (roundUnits (powerWork base exponent))

def powerDown (base exponent : Nat) : Nat :=
  (exactPower? base exponent).getD (powerWork base exponent / guard)

/-- Rounded up, and never zero for a positive base. -/
def powerUp (base exponent : Nat) : Nat :=
  (exactPower? base exponent).getD (max 1 ((powerWork base exponent + guard - 1) / guard))

/-- Applies a power to operands that may be negative, which have none. -/
def checked (f : Nat → Nat → Nat) (base exponent : Int) : Except Error Nat :=
  if base < 0 ∨ exponent < 0 then .error (.powerDomain base exponent)
  else .ok (f base.toNat exponent.toNat)

end CurveMarket.Fixed
