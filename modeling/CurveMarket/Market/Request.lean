import CurveMarket.Pool.State
import CurveMarket.Revenue.Record

/-!
# Requests

What can be asked of a market. A request names the object it is for, and may give the result a
name under which later requests find it. Some requests carry further ones, to be run from inside a
later call: those of a callback and those of an undo step.
-/

namespace CurveMarket

/-- Calls that the reserve asset, tokens and capabilities have in common. -/
inductive AssetCall where
  | transfer (sender recipient : Option Text) (amount : Option Int)
  | credit (account : Option Text) (amount : Option Int)
  | balanceOf (account : Option Text)
  | totalSupply
  | symbol

inductive TableCall where
  | get (account asset : Text)
  | set (account asset : Text) (amount : Int)
  | add (account asset : Text) (change : Int)
  | subtract (account asset : Text) (amount : Int)
  | move (asset sender recipient : Text) (amount : Int)
  | total (asset : Text)
  | allBalances
  | balancesOf (asset : Text)

/-- Calls on a token that concern its capabilities, which are given by name, and calls on a
capability. -/
inductive CapabilityCall where
  | revoke (capability : Text)
  | isAuthorized (capability : Text)
  | mint (account : Option Text) (amount : Option Int)
  | burn (account : Option Text) (amount : Option Int)
  | isRevoked

inductive PoolCall where
  | buy (amount minimum : Option Int) (recipient : Option Text) (deadline : Int)
      (sender : Option Text)
  | sell (tokens minimum : Option Int) (recipient : Option Text) (deadline : Int)
      (sender : Option Text)
  | depositFees (amount : Option Int) (sender : Option Text)
  | setParameters (ratio fee : Option Int)
  | setTradeCap (cap : Option Int)
  | pause
  | unpause
  | withdrawTreasury (amount : Option Int)
  | state
  | terms
  | reserve
  | events
  | supply
  | spotPrice
  | buyQuote (amount : Option Int)
  | sellQuote (tokens : Option Int)
  | sellsEnabled
  | phase
  | phaseInfo
  | stats
  | tradeInfo
  | buyImpact (amount : Option Int)
  | sellImpact (tokens : Option Int)
  | surplus
  | model
  | treasury
  | account

/-- What a pool is made from. The capability is given by name. -/
structure PoolRequest where
  model : Option Text
  capability : Text
  terms : Option Terms := none
  state : Option PoolState := none

inductive DirectoryCall where
  | createPool (request : PoolRequest)
  | hasPool (model : Option Text)
  | lookUp (model : Option Text)
  | models
  | size

inductive GovernanceCall where
  | rate (model : Option Text)
  | defaultRate
  | setDefault (rate : Option Int)
  | setRate (model : Option Text) (rate : Option Int)
  | clearOverride (model : Option Text)

inductive ReserveCall where
  | deposit (model : Option Text) (amount : Option Int) (sender : Option Text)
  | batchDeposit (models : List (Option Text)) (amounts : List (Option Int))
      (sender : Option Text)
  | revertDeposit (model : Option Text) (amount : Option Int) (recipient : Option Text)
  | pay (payment : Payment)
  | batchPay (payments : List Payment)
  | setProvider (model provider : Option Text)
  | setTreasury (treasury : Option Text)
  | emergencyWithdraw (amount : Option Int)
  | pause
  | unpause
  | isPaused
  | accrued (model : Option Text)
  | paid (model : Option Text)
  | provider (model : Option Text)
  | runway (model : Option Text) (dailyBurn : Int)
  | accounting (model : Option Text)
  | balance
  | totalAccrued
  | totalPaid
  | treasury
  | account

inductive SplitterCall where
  | depositFee (model : Option Text) (amount : Option Int) (sender : Option Text)
  | batchDepositFees (models : List (Option Text)) (amounts : List (Option Int))
      (sender : Option Text)
  | feeSplit (model : Option Text) (amount : Option Int)
  | modelFees (model : Option Text)
  | totalFees

/-- Calls that several kinds of objects understand. -/
inductive SharedCall where
  | pause
  | unpause
  | treasury
  | account
  | inspect

/-- Whether the steps of a callback run right before the effect they wait for or right after it. -/
inductive Moment where
  | before
  | after
deriving DecidableEq

mutual

inductive Request where
  | mk (target : Text) (operation : Operation) (name : Option Text)

inductive Operation where
  | setNow (now : Int)
  | tick (seconds : Int)
  | newAsset (symbol : Option Text)
  | newToken (id : Option Text) (shared : Bool)
  | newCapability (token : Text) (holder : Value)
  | newPool (request : PoolRequest) (treasury account : Option Text)
  | newDirectory (treasury : Option Text)
  | newGovernance (rate : Option Int) (overrides : List (Option Text × Option Int))
  | newReserve (treasury account : Option Text)
  | newSplitter
  | armCallback (target : Text) (steps : List Request) (moment : Moment) (skip : Nat)
      (propagate : Bool)
  | runJournal (effects : List JournalEntry) (rollback : Bool)
  | runGuarded (owner action : Text) (inner : Option Text)
  | asset (call : AssetCall)
  | table (call : TableCall)
  | capability (call : CapabilityCall)
  | pool (call : PoolCall)
  | directory (call : DirectoryCall)
  | governance (call : GovernanceCall)
  | reserve (call : ReserveCall)
  | splitter (call : SplitterCall)
  | shared (call : SharedCall)
  /-- A request whose arguments could not be built. -/
  | malformed (error : Error)

/-- An effect of a journal that is kept by hand. A record adds nothing but an undo step. -/
inductive JournalEntry where
  | transfer (sender recipient : Option Text) (amount : Value)
  | mint (capability : Text) (account : Option Text) (amount : Option Int)
  | burn (capability : Text) (account : Option Text) (amount : Option Int)
  | record (step : Request)

end

def Request.target : Request → Text
  | .mk target _ _ => target

def Request.operation : Request → Operation
  | .mk _ operation _ => operation

mutual

/-- The number of requests that a request carries, at any depth. -/
def Request.carried : Request → Nat
  | .mk _ operation _ => operation.carried

def Operation.carried : Operation → Nat
  | .armCallback _ steps _ _ _ => carriedSteps steps
  | .runJournal effects _ => carriedEntries effects
  | _ => 0

def carriedSteps : List Request → Nat
  | [] => 0
  | r :: rest => r.carried + 1 + carriedSteps rest

def carriedEntries : List JournalEntry → Nat
  | [] => 0
  | e :: rest => e.carried + carriedEntries rest

def JournalEntry.carried : JournalEntry → Nat
  | .record step => step.carried + 1
  | _ => 0

end

def PoolCall.isMutating : PoolCall → Bool
  | buy .. | sell .. | depositFees .. | setParameters .. | setTradeCap .. | pause | unpause
  | withdrawTreasury .. => true
  | _ => false

def ReserveCall.isMutating : ReserveCall → Bool
  | deposit .. | batchDeposit .. | revertDeposit .. | pay .. | batchPay .. | setProvider ..
  | setTreasury .. | emergencyWithdraw .. | pause | unpause => true
  | _ => false

def SplitterCall.isMutating : SplitterCall → Bool
  | depositFee .. | batchDepositFees .. => true
  | _ => false

end CurveMarket
