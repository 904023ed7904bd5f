import CurveMarket.Market.Effect

/-!
# Trading with a pool

The mutating calls of a pool. Each looks at the committed state, checks the rules of the call,
carries out the effects and commits the next state, or fails as a whole.
-/

namespace CurveMarket.Market

/-- What a call leaves in a pool: the next state, the token supply at that moment, and its events. A
call that graduates the pool adds an event that tells so. -/
def committed (pre post : PoolState) (supply : Int) (events : List PoolEvent) (p : Pool) : Pool :=
  let graduation := if post.isGraduated && !pre.isGraduated then [.phaseChanged post.reserve] else []
  { p with state := post, supply := supply, events := p.events ++ events ++ graduation }

/-- Puts a pool's next state in place with the events of the call, unless a rule is broken. -/
def commit (i : Nat) (pre post : PoolState) (events : List PoolEvent) (change : Int) :
    Action Market Unit := do
  let m ← get
  let p := m.pool i
  let broken := pre.stepViolations post (m.held p.account) (some change)
  if broken ≠ [] then throw (.violated broken)
  modify (updatePool i (committed pre post (m.supplyOf p.capability) events))

/-- What a call on a pool does once its checks have passed. -/
structure PoolPlan (α : Type) where
  effects : List Effect := []
  post : PoolState
  events : List PoolEvent
  /-- Change of the reserve that the call accounts for. -/
  change : Int := 0
  result : α

def PoolPlan.plan {α : Type} (i : Nat) (pre : PoolState) (d : PoolPlan α) : Plan α :=
  ⟨d.effects, commit i pre d.post d.events d.change, d.result⟩

def inPool {α : Type} (run : Executor) (i : Nat) (action : Text)
    (plan : Market → Pool → Except Error (PoolPlan α)) : Action Market α := do
  let p := (← get).pool i
  guarded (.pool i) p.ownerName action
    (Journaled.follow run fun m => (plan m p).map (PoolPlan.plan i p.state))

/-- Spends reserve units of the sender and mints tokens to the recipient; the result is their
number. -/
def decideBuy (amount minimum : Option Int) (recipient : Option Text) (deadline : Int)
    (sender : Option Text) (m : Market) (p : Pool) : Except Error (PoolPlan Int) := do
  p.state.requireNotPaused
  let a ← requirePositive "Reserve amount must be > 0" amount
  let least ← requireNonNegative "min_tokens_out" minimum
  let receiver ← requireAccount "Invalid recipient" recipient
  let payer ← requireAccount "Invalid sender" sender
  requireNotExpired deadline m.now
  p.state.requireWithinLimit a
  let q ← p.state.quoteBuy (some (m.supplyOf p.capability)) (some a)
  if q.tokensOut = 0 then throw (.amountRefused "Trade produces zero tokens")
  requireMinOut q.tokensOut least
  return {
    effects := Effect.moves payer p.account q.net ++ Effect.moves payer p.treasury q.fee ++
      [.mint p.capability receiver (some q.tokensOut)]
    post := p.state.afterBuy q
    events := [.bought payer receiver a q.fee q.tokensOut]
    change := q.net
    result := q.tokensOut }

/-- Burns tokens of the sender and pays the reserve they free, less the fee, to the recipient; the
result is what was paid. Whoever may call this can sell for any account. -/
def decideSell (tokens minimum : Option Int) (recipient : Option Text) (deadline : Int)
    (sender : Option Text) (m : Market) (p : Pool) : Except Error (PoolPlan Int) := do
  p.state.requireNotPaused
  let t ← requirePositive "Token amount must be > 0" tokens
  let least ← requireNonNegative "min_reserve_out" minimum
  let receiver ← requireAccount "Invalid recipient" recipient
  let seller ← requireAccount "Invalid sender" sender
  requireNotExpired deadline m.now
  p.state.requireSellsEnabled m.now
  requireBalance "token balance" (m.tokenBalance p.capability seller) t
  let q ← p.state.quoteSell (some (m.supplyOf p.capability)) (some t)
  p.state.requireWithinLimit q.reserveOut
  if q.reserveOut = 0 then throw (.amountRefused "Trade produces zero reserve")
  p.state.requireReserveRemains q.reserveOut
  requireMinOut q.netOut least
  return {
    effects := [.burn p.capability seller (some t)] ++ Effect.moves p.account receiver q.netOut ++
      Effect.moves p.account p.treasury q.fee
    post := p.state.afterSell q
    events := [.sold seller receiver t q.reserveOut q.fee q.netOut]
    change := -q.reserveOut
    result := q.netOut }

/-- Adds to the reserve without a fee, also while the pool is paused. -/
def decideDeposit (amount : Option Int) (sender : Option Text) (p : Pool) :
    Except Error (PoolPlan Unit) := do
  let a ← requirePositive "Amount must be > 0" amount
  let payer ← requireAccount "Invalid sender" sender
  return {
    effects := Effect.moves payer p.account a
    post := p.state.afterDeposit a
    events := [.feesDeposited payer a]
    change := a
    result := () }

def decideParameters (ratio fee : Option Int) (p : Pool) : Except Error (PoolPlan Unit) := do
  let r ← checkRatio ratio
  let f ← checkTradeFee fee
  let post ← p.state.withRatioAndFee ratio fee
  return { post := post, events := [.parametersUpdated r.val f.val], result := () }

def decideTradeCap (cap : Option Int) (p : Pool) : Except Error (PoolPlan Unit) := do
  let c ← checkTradeCap cap
  let post ← p.state.withTradeCap cap
  return { post := post, events := [.tradeCapUpdated p.state.terms.tradeCap c.val], result := () }

def decidePause (p : Pool) : Except Error (PoolPlan Unit) := do
  if p.state.isPaused then throw .alreadyPaused
  return { post := p.state.withPaused true, events := [.paused], result := () }

def decideUnpause (p : Pool) : Except Error (PoolPlan Unit) := do
  if !p.state.isPaused then throw .notPaused
  return { post := p.state.withPaused false, events := [.unpaused], result := () }

/-- Moves what the pool's account holds beyond the reserve to the treasury, also while the pool is
paused. -/
def decideWithdrawal (i : Nat) (amount : Option Int) (m : Market) (p : Pool) :
    Except Error (PoolPlan Unit) := do
  let a ← requirePositive "Amount must be > 0" amount
  requireBalance "treasury surplus" (m.surplus i) a
  return {
    effects := Effect.moves p.account p.treasury a
    post := p.state
    events := [.treasuryWithdrawn p.treasury a]
    result := () }

def buy (run : Executor) (i : Nat) (amount minimum : Option Int) (recipient : Option Text)
    (deadline : Int) (sender : Option Text) : Action Market Int :=
  inPool run i "buy" (decideBuy amount minimum recipient deadline sender)

def sell (run : Executor) (i : Nat) (tokens minimum : Option Int) (recipient : Option Text)
    (deadline : Int) (sender : Option Text) : Action Market Int :=
  inPool run i "sell" (decideSell tokens minimum recipient deadline sender)

def depositFees (run : Executor) (i : Nat) (amount : Option Int) (sender : Option Text) :
    Action Market Unit :=
  inPool run i "deposit_fees" fun _ => decideDeposit amount sender

def setParameters (run : Executor) (i : Nat) (ratio fee : Option Int) : Action Market Unit :=
  inPool run i "set_parameters" fun _ => decideParameters ratio fee

def setTradeCap (run : Executor) (i : Nat) (cap : Option Int) : Action Market Unit :=
  inPool run i "set_max_trade_bps" fun _ => decideTradeCap cap

def pausePool (run : Executor) (i : Nat) : Action Market Unit :=
  inPool run i "pause" fun _ => decidePause

def unpausePool (run : Executor) (i : Nat) : Action Market Unit :=
  inPool run i "unpause" fun _ => decideUnpause

def withdrawTreasury (run : Executor) (i : Nat) (amount : Option Int) : Action Market Unit :=
  inPool run i "withdraw_treasury" (decideWithdrawal i amount)

end CurveMarket.Market
