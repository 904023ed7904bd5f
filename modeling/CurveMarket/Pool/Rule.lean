import CurveMarket.Pool.Quote

/-!
# Rules of trade

Each rule looks at the state before a trade and refuses with its own error.
-/

namespace CurveMarket

namespace PoolState

def requireNotPaused (s : PoolState) : Except Error Unit :=
  if s.isPaused then .error .paused else .ok ()

/-- Selling opens at `buyOnlyUntil`. -/
def requireSellsEnabled (s : PoolState) (now : Int) : Except Error Unit :=
  if now < s.buyOnlyUntil then .error (.sellsDisabled s.buyOnlyUntil) else .ok ()

/-- The cap on one trade holds on the curve only, since the flat phase starts without a reserve. -/
def requireWithinLimit (s : PoolState) (amount : Int) : Except Error Unit :=
  if s.isGraduated ∧ s.tradeLimit < amount then .error (.tradeTooLarge amount s.tradeLimit)
  else .ok ()

/-- A reserve that is there is never paid out whole. -/
def requireReserveRemains (s : PoolState) (out : Int) : Except Error Unit :=
  if 0 < s.reserve ∧ s.reserve ≤ out then .error (.reserveDepleted out s.reserve) else .ok ()

end PoolState

def requireNotExpired (deadline now : Int) : Except Error Unit :=
  if deadline < now then .error (.expired deadline now) else .ok ()

def requireMinOut (actual minimum : Int) : Except Error Unit :=
  if actual < minimum then .error (.slippage actual minimum) else .ok ()

def requireBalance (what : Text) (balance amount : Int) : Except Error Unit :=
  if balance < amount then .error (.shortOf what balance amount) else .ok ()

end CurveMarket
