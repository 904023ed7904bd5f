import CurveMarket.Argument

/-!
# Fees

Rates are in basis points and fees are rounded down, so a fee never exceeds its exact share and the
fee and the net amount add up to what was charged.
-/

namespace CurveMarket

def bpsWhole : Nat := 10000

/-- An amount parted into a fee and the rest. -/
structure Charge where
  net : Nat
  fee : Nat
deriving DecidableEq

def feeOn (amount bps : Nat) : Nat := amount * bps / bpsWhole

theorem feeOn_le {amount bps : Nat} (h : bps ≤ bpsWhole) : feeOn amount bps ≤ amount := by
  have hb : 0 < bpsWhole := by decide
  calc feeOn amount bps ≤ amount * bpsWhole / bpsWhole :=
        Nat.div_le_div_right (Nat.mul_le_mul_left amount h)
    _ = amount := Nat.mul_div_cancel amount hb

def requireRate (what : Text) (rate : Option Int) : Except Error Nat := do
  let r ← requireNonNegative what rate
  if bpsWhole < r then throw (.feeTooHigh r bpsWhole none)
  pure r

def fee (amount rate : Option Int) : Except Error Nat := do
  let a ← requireNonNegative "amount" amount
  let r ← requireRate "fee_bps" rate
  pure (feeOn a r)

def charge (amount rate : Option Int) : Except Error Charge := do
  let a ← requireNonNegative "amount" amount
  let r ← requireRate "fee_bps" rate
  pure ⟨a - feeOn a r, feeOn a r⟩

/-- A charge from its two parts, neither of which may be negative. -/
def Charge.ofParts (net fee : Option Int) : Except Error Charge := do
  let n ← requireInt "net_amount" net
  if n < 0 then throw (.negativeFeePart "net_amount" n)
  let f ← requireInt "fee" fee
  if f < 0 then throw (.negativeFeePart "fee" f)
  pure ⟨n.toNat, f.toNat⟩

def requireFeeWithin (fee limit : Int) (reason : Option Text) : Except Error Unit :=
  if limit < fee then .error (.feeTooHigh fee limit reason) else .ok ()

end CurveMarket
