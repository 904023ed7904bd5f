import CurveMarket.Pool.Terms

/-!
# States of a pool

A pool sells at a flat price until its reserve reaches the threshold, and on the curve from then
on. This module holds the state, its next states and the rules that every committed state and
every step between two of them has to keep.
-/

namespace CurveMarket

inductive Phase where
  | flatPrice
  | bondingCurve
deriving DecidableEq

def Phase.label : Phase → String
  | flatPrice => "flat_price"
  | bondingCurve => "bonding_curve"

/-- A switch of a pool. A state assembled by hand may hold any value; `Value.isOn` tells whether it
counts as set. -/
abbrev Switch := Value

structure PoolState where
  terms : Terms
  /-- Reserve that the pool accounts for, in base units. -/
  reserve : Int := 0
  /-- Time from which tokens can be sold. -/
  buyOnlyUntil : Int := 0
  graduated : Switch := .bool false
  paused : Switch := .bool false

structure BuyQuote where
  amountIn : Int
  fee : Int
  net : Int
  tokensOut : Int
  flatTokens : Int := 0
  curveTokens : Int := 0
  graduates : Bool := false
deriving DecidableEq

/-- Breakdown of a sell; the fee is taken from the reserve that the tokens free. -/
structure SellQuote where
  tokensIn : Int
  reserveOut : Int
  fee : Int
  netOut : Int
deriving DecidableEq

namespace PoolState

def make (terms : Option Terms) (reserve buyOnlyUntil : Option Int) (graduated paused : Switch) :
    Except Error PoolState := do
  let some t := terms | throw .notParameters
  let r ← requireInt "reserve_balance" reserve
  let u ← requireInt "buy_only_until" buyOnlyUntil
  pure ⟨t, r, u, graduated, paused⟩

def isGraduated (s : PoolState) : Bool := s.graduated.isOn

def isPaused (s : PoolState) : Bool := s.paused.isOn

def phase (s : PoolState) : Phase := if s.isGraduated then .bondingCurve else .flatPrice

/-- Whether both switches are plain truth values. -/
def hasPlainSwitches (s : PoolState) : Bool :=
  match s.graduated, s.paused with
  | .bool _, .bool _ => true
  | _, _ => false

def equals (s t : PoolState) : Bool :=
  s.terms = t.terms && s.reserve = t.reserve && s.buyOnlyUntil = t.buyOnlyUntil &&
    s.graduated.sameKey t.graduated && s.paused.sameKey t.paused

/-- The state with another reserve; a reserve at the threshold graduates the pool for good. -/
def addReserve (s : PoolState) (amount : Int) : PoolState :=
  let reserve := s.reserve + amount
  { s with
    reserve := reserve
    graduated := if s.isGraduated then s.graduated
      else .bool (decide ((s.terms.threshold : Int) ≤ reserve)) }

def afterBuy (s : PoolState) (q : BuyQuote) : PoolState := s.addReserve q.net

def afterSell (s : PoolState) (q : SellQuote) : PoolState :=
  { s with reserve := s.reserve - q.reserveOut }

def afterDeposit (s : PoolState) (amount : Int) : PoolState := s.addReserve amount

def withRatioAndFee (s : PoolState) (ratio fee : Option Int) : Except Error PoolState := do
  let terms ← s.terms.withRatioAndFee ratio fee
  pure { s with terms := terms }

def withTradeCap (s : PoolState) (cap : Option Int) : Except Error PoolState := do
  let terms ← s.terms.withTradeCap cap
  pure { s with terms := terms }

def withPaused (s : PoolState) (paused : Bool) : PoolState := { s with paused := .bool paused }

def reserveNonNegative (s : PoolState) : Bool := decide (0 ≤ s.reserve)

def flatBelowThreshold (s : PoolState) : Bool :=
  s.isGraduated || decide (s.reserve < s.terms.threshold)

def paramsInBounds (s : PoolState) : Bool :=
  decide (minRatio ≤ s.terms.ratio ∧ s.terms.ratio ≤ maxRatio ∧ s.terms.tradeFee ≤ maxTradeFee ∧
    0 < s.terms.tradeCap ∧ s.terms.tradeCap ≤ maxTradeCap)

def violations (s : PoolState) : List Violation :=
  (if s.reserveNonNegative then [] else [.reserveNonNegative]) ++
  (if s.flatBelowThreshold then [] else [.flatBelowThreshold]) ++
  (if s.paramsInBounds then [] else [.paramsInBounds])

/-- The rules that a step to `post` breaks, where `held` is what the pool's account holds and
`change` the change of the reserve that the call accounts for. -/
def stepViolations (pre post : PoolState) (held : Int) (change : Option Int) : List Violation :=
  post.violations ++
  (if pre.isGraduated && !post.isGraduated then [.graduationMonotonic] else []) ++
  (if 0 < pre.reserve ∧ post.reserve ≤ 0 then [.reservePositiveOnceSeeded] else []) ++
  (if held < post.reserve then [.reserveBacked] else []) ++
  (match change with
    | some c => if post.reserve - pre.reserve = c then [] else [.reserveDelta]
    | none => [])

end PoolState

end CurveMarket
