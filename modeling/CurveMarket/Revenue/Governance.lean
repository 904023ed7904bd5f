import CurveMarket.Argument
import CurveMarket.Ledger.Action

/-!
# Governance

The share of a model's revenue that goes to infrastructure: a default rate in basis points and
overrides for single models.
-/

namespace CurveMarket

def minAccrualRate : Nat := 5000

def maxAccrualRate : Nat := 10000

def defaultAccrualRate : Nat := 8000

structure Governance where
  defaultRate : Nat
  overrides : List (Text × Nat)
deriving DecidableEq

def checkAccrualRate (rate : Option Int) : Except Error Nat := do
  let r ← requireInt "infra_accrual_bps" rate
  if ¬ ((minAccrualRate : Int) ≤ r ∧ r ≤ maxAccrualRate) then throw .accrualOutOfBounds
  pure r.toNat

namespace Governance

instance : Inhabited Governance := ⟨⟨defaultAccrualRate, []⟩⟩

def rate (g : Governance) (model : Text) : Nat := (g.overrides.lookup model).getD g.defaultRate

/-- The rate of whatever was passed as a model; what is no text has the default. -/
def rate? (g : Governance) : Option Text → Nat
  | some model => g.rate model
  | none => g.defaultRate

def putOverride (model : Text) (rate : Nat) : List (Text × Nat) → List (Text × Nat)
  | [] => [(model, rate)]
  | o :: rest => if o.1 = model then (model, rate) :: rest else o :: putOverride model rate rest

def setDefault (rate : Option Int) : Action Governance Unit := do
  let r ← checkAccrualRate rate
  modify fun g => { g with defaultRate := r }

def setRate (model : Option Text) (rate : Option Int) : Action Governance Unit := do
  let m ← requireModel model
  let r ← checkAccrualRate rate
  modify fun g => { g with overrides := putOverride m r g.overrides }

def clearOverride (model : Option Text) : Action Governance Unit :=
  modify fun g => { g with overrides := g.overrides.filter fun o => some o.1 ≠ model }

def setRates : List (Option Text × Option Int) → Action Governance Unit
  | [] => pure ()
  | (model, rate) :: rest => do
    setRate model rate
    setRates rest

/-- Governance from a default rate and overrides, taken in order. -/
def make (rate : Option Int) (overrides : List (Option Text × Option Int)) :
    Except Error Governance := do
  let r ← checkAccrualRate rate
  match setRates overrides ⟨r, []⟩ with
  | .ok _ g => pure g
  | .error e _ => throw e

end Governance

end CurveMarket
