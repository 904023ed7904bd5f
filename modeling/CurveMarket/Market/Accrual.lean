import CurveMarket.Market.Effect

/-!
# Accruing and paying infrastructure costs

The mutating calls of an infrastructure reserve. Deposits raise what a model has accrued, payments
lower it, and the asset stands in one account of the reserve.
-/

namespace CurveMarket.Market

/-- What a call on a reserve does once its checks have passed. -/
structure ReservePlan (α : Type) where
  effects : List Effect := []
  update : InfraReserve → InfraReserve
  result : α

def ReservePlan.plan {α : Type} (i : Nat) (d : ReservePlan α) : Plan α :=
  ⟨d.effects, modify (updateReserve i d.update), d.result⟩

def inReserve {α : Type} (i : Nat) (action : Text) (body : Journaled α) : Action Market α :=
  guarded (.reserve i) InfraReserve.ownerName action body

def planInReserve {α : Type} (run : Executor) (i : Nat) (action : Text)
    (plan : Market → Except Error (ReservePlan α)) : Action Market α :=
  inReserve i action (Journaled.follow run fun m => (plan m).map (ReservePlan.plan i))

def openReserve (i : Nat) (m : Market) : Except Error InfraReserve :=
  if (m.reserve i).paused then .error .paused else .ok (m.reserve i)

def requirePooledModel (i : Nat) (m : Market) (model : Option Text) : Except Error Text := do
  let name ← requireModel model
  if !m.hasPool (m.reserve i).directory model then
    throw (.poolNotFound "Model pool does not exist")
  return name

def decideAccrual (i : Nat) (model : Option Text) (amount : Option Int) (sender : Option Text)
    (m : Market) : Except Error (ReservePlan Unit) := do
  let r ← openReserve i m
  let name ← requirePooledModel i m model
  let a ← requirePositive "Amount must be > 0" amount
  let payer ← requireAccount "Invalid sender" sender
  return { effects := Effect.moves payer r.account a, update := (·.credit name a), result := () }

def checkEntries (i : Nat) (m : Market) :
    List (Option Text × Option Int) → Except Error (List (Text × Int))
  | [] => pure []
  | (model, amount) :: rest => do
    let name ← requirePooledModel i m model
    let a ← requirePositive "Amount must be > 0" amount
    let checked ← checkEntries i m rest
    return (name, a) :: checked

/-- Pairs the two lists of a batch, which have to be of one length and not empty. -/
def pairEntries (models : List (Option Text)) (amounts : List (Option Int)) :
    Except Error (List (Option Text × Option Int)) :=
  if models.length ≠ amounts.length then .error (.amountRefused "Array length mismatch")
  else if models.isEmpty then .error (.amountRefused "Empty arrays")
  else .ok (models.zip amounts)

/-- Deposits for several models in one transfer, after all entries are checked; the result is the
total. -/
def decideBatchAccrual (i : Nat) (models : List (Option Text)) (amounts : List (Option Int))
    (sender : Option Text) (m : Market) : Except Error (ReservePlan Int) := do
  let r ← openReserve i m
  let pairs ← pairEntries models amounts
  let payer ← requireAccount "Invalid sender" sender
  let entries ← checkEntries i m pairs
  let total := (entries.map (·.2)).foldr (· + ·) 0
  return {
    effects := Effect.moves payer r.account total
    update := fun r => entries.foldl (fun r e => r.credit e.1 e.2) r
    result := total }

def requireAccrued (r : InfraReserve) (model : Text) (amount : Int) : Except Error Unit :=
  if r.accrued.get model < amount then .error .exceedsAccrued else .ok ()

/-- Takes a deposit back, also while the reserve is paused. -/
def decideReversal (i : Nat) (model : Option Text) (amount : Option Int) (recipient : Option Text)
    (m : Market) : Except Error (ReservePlan Unit) := do
  let name ← requireModel model
  let a ← requirePositive "Amount must be > 0" amount
  requireAccrued (m.reserve i) name a
  return {
    effects := Effect.moves (m.reserve i).account recipient a
    update := (·.debit name a)
    result := () }

/-- Sends held asset to the treasury and leaves the accruals as they are. -/
def decideEmergency (i : Nat) (amount : Option Int) (m : Market) :
    Except Error (ReservePlan Unit) := do
  let a ← requirePositive "Amount must be > 0" amount
  let r := m.reserve i
  if m.held r.account < a then throw .exceedsHeld
  return { effects := Effect.moves r.account r.treasury a, update := id, result := () }

def decidePausing (i : Nat) (m : Market) : Except Error (ReservePlan Unit) := do
  if (m.reserve i).paused then throw .alreadyPaused
  return { update := fun r => { r with paused := true }, result := () }

def decideUnpausing (i : Nat) (m : Market) : Except Error (ReservePlan Unit) := do
  if !(m.reserve i).paused then throw .notPaused
  return { update := fun r => { r with paused := false }, result := () }

def deposit (run : Executor) (i : Nat) (model : Option Text) (amount : Option Int)
    (sender : Option Text) : Action Market Unit :=
  planInReserve run i "deposit" (decideAccrual i model amount sender)

def batchDeposit (run : Executor) (i : Nat) (models : List (Option Text))
    (amounts : List (Option Int)) (sender : Option Text) : Action Market Int :=
  planInReserve run i "batch_deposit" (decideBatchAccrual i models amounts sender)

def revertDeposit (run : Executor) (i : Nat) (model : Option Text) (amount : Option Int)
    (recipient : Option Text) : Action Market Unit :=
  planInReserve run i "revert_deposit" (decideReversal i model amount recipient)

def emergencyWithdraw (run : Executor) (i : Nat) (amount : Option Int) : Action Market Unit :=
  planInReserve run i "emergency_withdraw" (decideEmergency i amount)

def pauseReserve (run : Executor) (i : Nat) : Action Market Unit :=
  planInReserve run i "pause" (decidePausing i)

def unpauseReserve (run : Executor) (i : Nat) : Action Market Unit :=
  planInReserve run i "unpause" (decideUnpausing i)

def setProvider (run : Executor) (i : Nat) (model provider : Option Text) : Action Market Unit := do
  let name ← requireModel model
  let p ← requireAccount "Invalid provider" provider
  planInReserve run i "set_provider" fun _ => pure {
    update := fun r => { r with providers := InfraReserve.putProvider name p r.providers }
    result := () }

def setTreasury (run : Executor) (i : Nat) (treasury : Option Text) : Action Market Unit := do
  let t ← requireAccount "Invalid treasury" treasury
  planInReserve run i "set_treasury" fun _ => pure {
    update := fun r => { r with treasury := t }
    result := () }

/-- Pays one invoice and returns its amount and the effect that takes the transfer back. The
journal gets no step of it. -/
def settle (run : Executor) (i : Nat) (payment : Payment) : Journaled (Int × Effect) := do
  let name ← requireModel payment.model
  let payee ← requireAccount "Invalid payee" payment.payee
  let a ← requirePositive "Amount must be > 0" payment.amount
  let r := (← Journaled.market).reserve i
  requireAccrued r name a
  let effect := Effect.transfer r.account payee (some a)
  Journaled.lift (run effect)
  Journaled.change (updateReserve i fun r => (r.debit name a).recordPaid name a)
  return (a, effect.inverse)

def pay (run : Executor) (i : Nat) (payment : Payment) : Action Market Payment :=
  inReserve i "pay_infrastructure_cost" do
    let _ ← openReserve i (← Journaled.market)
    let _ ← settle run i payment
    return payment

/-- Pays invoices in order, recording how to take each transfer back; returns the sum. -/
def settleAll (run : Executor) (i : Nat) : List Payment → Journaled Int
  | [] => pure 0
  | payment :: rest => do
    let (a, inverse) ← settle run i payment
    Journaled.record (run inverse)
    return a + (← settleAll run i rest)

def batchPay (run : Executor) (i : Nat) (payments : List Payment) : Action Market Int :=
  inReserve i "batch_pay" do
    let old ← openReserve i (← Journaled.market)
    if payments.isEmpty then throw (.amountRefused "Empty payments array")
    Journaled.record (modify (updateReserve i (·.restoreAccounts old)))
    settleAll run i payments

end CurveMarket.Market
