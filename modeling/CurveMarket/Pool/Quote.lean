import CurveMarket.Pool.State

/-!
# Quotes

What a trade would do to a pool in a given state at a given token supply. Nothing here changes
anything.
-/

namespace CurveMarket

structure PhaseInfo where
  phase : Phase
  reserve : Int
  threshold : Nat
  flatPrice : Nat
  percentToThreshold : Int
deriving DecidableEq

namespace PoolState

/-- The flat price before graduation, the price at the margin of the curve after it. -/
def spotPrice (s : PoolState) (supply : Option Int) : Except Error Nat :=
  if s.isGraduated then Curve.spot supply (some s.reserve) (some s.terms.ratio)
  else pure s.terms.flatPrice

/-- The most that one trade on the curve may move. -/
def tradeLimit (s : PoolState) : Int := s.reserve * s.terms.tradeCap / bpsWhole

/-- Tokens for a deposit after the trade fee. Before graduation the net amount is priced flat; if it
carries the reserve to the threshold, only the part up to there is, and the rest is priced on the
curve that starts at the threshold. -/
def quoteBuy (s : PoolState) (supply amount : Option Int) : Except Error BuyQuote := do
  let charged ← charge amount (some s.terms.tradeFee)
  let amountIn ← requireInt "amount" amount
  let net : Int := charged.net
  if s.isGraduated then
    let tokens ← Curve.buy supply (some s.reserve) (some net) (some s.terms.ratio)
    pure { amountIn, fee := charged.fee, net, tokensOut := tokens, curveTokens := tokens }
  else if s.reserve + net < s.terms.threshold then
    let tokens := net * Fixed.one / s.terms.flatPrice
    pure { amountIn, fee := charged.fee, net, tokensOut := tokens, flatTokens := tokens }
  else
    let flatPart := max (s.terms.threshold - s.reserve) 0
    let flatTokens := flatPart * Fixed.one / s.terms.flatPrice
    let curveTokens ← Curve.buy (supply.map (· + flatTokens)) (some (s.reserve + flatPart))
      (some (net - flatPart)) (some s.terms.ratio)
    pure {
      amountIn, fee := charged.fee, net, tokensOut := flatTokens + curveTokens, flatTokens,
      curveTokens, graduates := true }

/-- Reserve freed by burning tokens, with the trade fee taken from it. At the flat price a sell
never frees more than the reserve. -/
def quoteSell (s : PoolState) (supply tokens : Option Int) : Except Error SellQuote := do
  let gross : Int ←
    if s.isGraduated then do
      let out ← Curve.sell supply (some s.reserve) tokens (some s.terms.ratio)
      pure (out : Int)
    else do
      let t ← requireInt "tokens_in" tokens
      pure (min (t * s.terms.flatPrice / Fixed.one) s.reserve)
  let charged ← charge (some gross) (some s.terms.tradeFee)
  let t ← requireInt "tokens_in" tokens
  pure ⟨t, gross, charged.fee, charged.net⟩

def buyImpact (s : PoolState) (supply amount : Option Int) : Except Error Curve.Impact := do
  let q ← s.quoteBuy supply amount
  let before ← s.spotPrice supply
  let post := { s with
    reserve := s.reserve + q.net
    graduated := if s.isGraduated then s.graduated else .bool q.graduates }
  let after ← post.spotPrice (supply.map (· + q.tokensOut))
  pure ⟨q.tokensOut, Curve.riseBps before after, after⟩

def sellImpact (s : PoolState) (supply tokens : Option Int) : Except Error Curve.Impact := do
  let q ← s.quoteSell supply tokens
  let n ← requireInt "supply" supply
  if n = 0 ∨ n ≤ q.tokensIn then pure ⟨q.reserveOut, bpsWhole, 0⟩
  else
    let before ← s.spotPrice supply
    let after ← (s.afterSell q).spotPrice (some (n - q.tokensIn))
    pure ⟨q.reserveOut, Curve.fallBps before after, after⟩

def phaseInfo (s : PoolState) : PhaseInfo where
  phase := s.phase
  reserve := s.reserve
  threshold := s.terms.threshold
  flatPrice := s.terms.flatPrice
  percentToThreshold :=
    if s.isGraduated then 100 else min (s.reserve * 100 / s.terms.threshold) 100

end PoolState

end CurveMarket
