import CurveMarket.Pool.Rule

/-!
# Pools

A pool is a state that is replaced as a whole whenever a call commits, together with the token
supply seen at that moment and the events of all commits. Reads use the committed pair only.
-/

namespace CurveMarket

inductive PoolEvent where
  | bought (sender recipient : Text) (amountIn fee tokensOut : Int)
  | sold (sender recipient : Text) (tokensIn reserveOut fee netOut : Int)
  | feesDeposited (sender : Text) (amount : Int)
  | phaseChanged (reserve : Int)
  | parametersUpdated (ratio fee : Int)
  | tradeCapUpdated (old new : Int)
  | paused
  | unpaused
  | treasuryWithdrawn (treasury : Text) (amount : Int)
deriving DecidableEq

structure Pool where
  model : Text
  treasury : Text
  /-- The account that holds the reserve. -/
  account : Text
  /-- Index of the capability through which the pool mints and burns. -/
  capability : Nat
  /-- State as of the last commit. -/
  state : PoolState
  /-- Token supply as of the last commit. -/
  supply : Int
  events : List PoolEvent

structure PoolStats where
  reserve : Int
  supply : Int
  spotPrice : Nat
  ratio : Nat
  tradeFee : Nat
deriving DecidableEq

structure TradeInfo where
  sellsEnabled : Bool
  buyOnlyUntil : Int
  paused : Switch

instance : Inhabited Terms where
  default := {
    ratio := minRatio, tradeFee := 0, threshold := 1, flatPrice := 1, buyOnlySeconds := 0,
    tradeCap := 1, minRatio_le := by decide, ratio_le := by decide, tradeFee_le := by decide,
    threshold_pos := by decide, flatPrice_pos := by decide, tradeCap_pos := by decide,
    tradeCap_le := by decide }

instance : Inhabited PoolState := ⟨{ terms := default }⟩

namespace Pool

instance : Inhabited Pool := ⟨⟨default, default, default, 0, default, 0, []⟩⟩

/-- The account of a pool that was given none. -/
def defaultAccount (model : Text) : Text := "pool:" ++ model

def ownerName (p : Pool) : Text := "pool " ++ p.model

def spotPrice (p : Pool) : Except Error Nat := p.state.spotPrice (some p.supply)

/-- Tokens that a buy would mint now. -/
def buyQuote (p : Pool) (amount : Option Int) : Except Error Int := do
  let a ← requireNonNegative "amount_in" amount
  if a = 0 then return 0
  return (← p.state.quoteBuy (some p.supply) (some a)).tokensOut

/-- Reserve that a sell would free now, before the fee. -/
def sellQuote (p : Pool) (tokens : Option Int) : Except Error Int := do
  let t ← requireNonNegative "tokens_in" tokens
  if t = 0 then return 0
  return (← p.state.quoteSell (some p.supply) (some t)).reserveOut

def buyImpact (p : Pool) (amount : Option Int) : Except Error Curve.Impact := do
  let a ← requirePositive "Amount must be > 0" amount
  p.state.buyImpact (some p.supply) (some a)

def sellImpact (p : Pool) (tokens : Option Int) : Except Error Curve.Impact := do
  let t ← requirePositive "Amount must be > 0" tokens
  p.state.sellImpact (some p.supply) (some t)

def sellsEnabled (p : Pool) (now : Int) : Bool := decide (p.state.buyOnlyUntil ≤ now)

def stats (p : Pool) : Except Error PoolStats := do
  let price ← p.spotPrice
  pure ⟨p.state.reserve, p.supply, price, p.state.terms.ratio, p.state.terms.tradeFee⟩

def tradeInfo (p : Pool) (now : Int) : TradeInfo :=
  ⟨p.sellsEnabled now, p.state.buyOnlyUntil, p.state.paused⟩

def inspect (p : Pool) : Text :=
  "PoolStateMachine(" ++ p.model.quoted ++ ", phase=" ++ Text.ofString p.state.phase.label ++
    ", reserve=" ++ Text.ofInt p.state.reserve ++ ", paused=" ++ p.state.paused.display ++ ")"

end Pool

end CurveMarket
