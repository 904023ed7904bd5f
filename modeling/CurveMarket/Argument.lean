import CurveMarket.Error.Basic

/-!
# Arguments

An argument is `none` when the caller passed something of another kind than the one asked for.
Each check returns what it has established.
-/

namespace CurveMarket

def requireInt (what : Text) : Option Int → Except Error Int
  | none => .error (.notAnInteger what)
  | some v => .ok v

def requireNonNegative (what : Text) (value : Option Int) : Except Error Nat := do
  let v ← requireInt what value
  if v < 0 then throw (.negative what v)
  pure v.toNat

def requirePositive (reason : Text) (amount : Option Int) : Except Error Int := do
  let v ← requireInt "amount" amount
  if v ≤ 0 then throw (.amountRefused reason)
  pure v

/-- An account is any text but the empty one. -/
def requireAccount (reason : Text) : Option Text → Except Error Text
  | none => .error (.accountMissing reason)
  | some a => if a.isEmpty then .error (.accountMissing reason) else .ok a

def requireModel : Option Text → Except Error Text
  | none => .error .emptyIdentifier
  | some m => if m.isEmpty then .error .emptyIdentifier else .ok m

end CurveMarket
