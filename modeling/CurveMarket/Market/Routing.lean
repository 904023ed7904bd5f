import CurveMarket.Market.Accrual
import CurveMarket.Market.Trading

/-!
# Routing revenue

The mutating calls of a splitter. The infrastructure share of a deposit goes to the reserve and the
rest to the pool of the model. A deposit with a pool cannot be taken back, so whatever could refuse
one is checked before the first.
-/

namespace CurveMarket.Market

def inSplitter {α : Type} (i : Nat) (action : Text) (body : Journaled α) : Action Market α :=
  guarded (.splitter i) Splitter.ownerName action body

def splitNow (m : Market) (i : Nat) (model : Option Text) (amount : Option Int) :
    Except Error FeeSplit := do
  let rate := (m.governance (m.splitter i).governance).rate? model
  let share ← charge amount (some (rate : Int))
  let a ← requireInt "amount" amount
  FeeSplit.make (model.getD default) a share.fee share.net

def feeSplit (m : Market) (i : Nat) (model : Option Text) (amount : Option Int) :
    Except Error FeeSplit :=
  if m.hasPool (m.splitter i).directory model then m.splitNow i model amount
  else .error (.poolNotFound "Pool not found")

def checkDeposit (m : Market) (i : Nat) (model : Option Text) (amount : Option Int) :
    Except Error Unit := do
  let _ ← requireModel model
  let _ ← requirePositive "Amount must be > 0" amount
  if !m.hasPool (m.splitter i).directory model then throw (.poolNotFound "Pool does not exist")

/-- Refuses a batch that could fail on the way: without a sender, beyond the sender's means, or with
a share for a reserve that is paused. -/
def preflight (m : Market) (i : Nat) (splits : List FeeSplit) (sender : Option Text) :
    Except Error Text := do
  let payer ← requireAccount "Invalid sender" sender
  let total := (splits.map FeeSplit.amount).foldr (· + ·) 0
  requireBalance "balance" (m.held payer) total
  if (m.reserve (m.splitter i).reserve).paused && splits.any (fun s => 0 < s.infra) then
    throw .paused
  return payer

/-- Enters splits in the splitter's statistics, to be restored if the call fails. -/
def account (i : Nat) (splits : List FeeSplit) : Journaled Unit := do
  let old := (← Journaled.market).splitter i
  Journaled.record
    (modify (updateSplitter i fun s => { s with fees := old.fees, total := old.total }))
  Journaled.change (updateSplitter i fun s => splits.foldl Splitter.record s)

/-- Hands the infrastructure share of a split to the reserve, to be taken back if the call fails. -/
def routeInfra (run : Executor) (s : Splitter) (payer : Text) (split : FeeSplit) :
    Journaled Unit :=
  if 0 < split.infra then do
    Journaled.lift (deposit run s.reserve (some split.model) (some split.infra) (some payer))
    Journaled.record
      (revertDeposit run s.reserve (some split.model) (some split.infra) (some payer))
  else pure ()

/-- Hands the rest of a split to the pool of the model, for good. -/
def routeProfit (run : Executor) (s : Splitter) (payer : Text) (split : FeeSplit) :
    Journaled Unit :=
  if 0 < split.profit then do
    match ((← Journaled.market).directory s.directory).pools.lookup split.model with
    | some p => Journaled.lift (depositFees run p (some split.profit) (some payer))
    | none => throw (.poolNotFound "Pool does not exist")
  else pure ()

def route (run : Executor) (i : Nat) (payer : Text) (split : FeeSplit) : Journaled Unit := do
  let s := (← Journaled.market).splitter i
  routeInfra run s payer split
  routeProfit run s payer split

def routeAll (run : Executor) (i : Nat) (payer : Text) : List FeeSplit → Journaled Unit
  | [] => pure ()
  | split :: rest => do
    route run i payer split
    routeAll run i payer rest

def disburse (run : Executor) (i : Nat) (payer : Text) (splits : List FeeSplit) :
    Journaled Unit := do
  account i splits
  routeAll run i payer splits

def decideSplit (i : Nat) (model : Option Text) (amount : Option Int) (sender : Option Text)
    (m : Market) : Except Error (Text × FeeSplit) := do
  m.checkDeposit i model amount
  let split ← m.splitNow i model amount
  let payer ← m.preflight i [split] sender
  return (payer, split)

/-- The splits of several deposits and who pays for them. All deposits are checked before the first
is split. -/
def decideSplits (i : Nat) (models : List (Option Text)) (amounts : List (Option Int))
    (sender : Option Text) (m : Market) : Except Error (Text × List FeeSplit) := do
  let entries ← pairEntries models amounts
  entries.forM fun e => m.checkDeposit i e.1 e.2
  let splits ← entries.mapM fun e => m.splitNow i e.1 e.2
  let payer ← m.preflight i splits sender
  return (payer, splits)

def depositFee (run : Executor) (i : Nat) (model : Option Text) (amount : Option Int)
    (sender : Option Text) : Action Market FeeSplit :=
  inSplitter i "deposit_fee" do
    let (payer, split) ← decideSplit i model amount sender (← Journaled.market)
    disburse run i payer [split]
    return split

def batchDepositFees (run : Executor) (i : Nat) (models : List (Option Text))
    (amounts : List (Option Int)) (sender : Option Text) : Action Market BatchDeposit :=
  inSplitter i "batch_deposit_fees" do
    let (payer, splits) ← decideSplits i models amounts sender (← Journaled.market)
    disburse run i payer splits
    return BatchDeposit.ofSplits splits

end CurveMarket.Market
