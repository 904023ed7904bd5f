import CurveMarket.Curve.Price

/-!
# Terms of a pool

The economic parameters of one pool. They can only be built within their bounds.
-/

namespace CurveMarket

def minRatio : Nat := 50000

def maxRatio : Nat := 500000

def maxTradeFee : Nat := 1000

/-- The largest share of the reserve, in basis points, that terms may let one trade move. -/
def maxTradeCap : Nat := 5000

def defaultTradeCap : Nat := 2000

/-- Seven days. -/
def defaultBuyOnlySeconds : Nat := 604800

structure Terms where
  /-- Constant reserve ratio in parts per million. -/
  ratio : Nat
  /-- Fee on every trade in basis points. -/
  tradeFee : Nat
  /-- Reserve at which the flat price gives way to the curve. -/
  threshold : Nat
  /-- Price of a whole token before that. -/
  flatPrice : Nat
  /-- Time after creation in which nothing can be sold. -/
  buyOnlySeconds : Nat
  /-- Cap on one trade on the curve, in basis points of the reserve. -/
  tradeCap : Nat
  minRatio_le : minRatio ≤ ratio
  ratio_le : ratio ≤ maxRatio
  tradeFee_le : tradeFee ≤ maxTradeFee
  threshold_pos : 0 < threshold
  flatPrice_pos : 0 < flatPrice
  tradeCap_pos : 0 < tradeCap
  tradeCap_le : tradeCap ≤ maxTradeCap
deriving DecidableEq

def checkRatio (ratio : Option Int) : Except Error { r : Nat // minRatio ≤ r ∧ r ≤ maxRatio } := do
  let v ← requireInt "crr_ppm" ratio
  if h : (minRatio : Int) ≤ v ∧ v ≤ maxRatio then pure ⟨v.toNat, by omega⟩
  else throw .ratioOutOfBounds

def checkTradeFee (fee : Option Int) : Except Error { f : Nat // f ≤ maxTradeFee } := do
  let v ← requireInt "trade_fee_bps" fee
  if v < 0 then throw .tradeFeeNegative
  if h : v ≤ maxTradeFee then pure ⟨v.toNat, by omega⟩
  else throw (.feeTooHigh v maxTradeFee (some "Trade fee too high"))

def checkTradeCap (cap : Option Int) :
    Except Error { c : Nat // 0 < c ∧ c ≤ maxTradeCap } := do
  let v ← requireInt "max_trade_bps" cap
  if h : 0 < v then
    if h' : v ≤ maxTradeCap then pure ⟨v.toNat, by omega⟩
    else throw .tradeCapTooHigh
  else throw .tradeCapNotPositive

def checkPositive (what : Text) (value : Option Int) : Except Error { n : Nat // 0 < n } := do
  let v ← requireInt what value
  if h : 0 < v then pure ⟨v.toNat, by omega⟩
  else throw (.notPositive what v)

structure TermsRequest where
  ratio : Option Int
  tradeFee : Option Int
  threshold : Option Int
  flatPrice : Option Int
  buyOnlySeconds : Option Int := some defaultBuyOnlySeconds
  tradeCap : Option Int := some defaultTradeCap

/-- Terms from unchecked arguments; the first fault in the order ratio, fee, cap, threshold, price,
time is reported. -/
def Terms.make (q : TermsRequest) : Except Error Terms := do
  let ratio ← checkRatio q.ratio
  let fee ← checkTradeFee q.tradeFee
  let cap ← checkTradeCap q.tradeCap
  let threshold ← checkPositive "flat_curve_threshold" q.threshold
  let price ← checkPositive "flat_curve_price" q.flatPrice
  let time ← requireNonNegative "ibr_duration_seconds" q.buyOnlySeconds
  pure {
    ratio := ratio.val, tradeFee := fee.val, threshold := threshold.val, flatPrice := price.val,
    buyOnlySeconds := time, tradeCap := cap.val,
    minRatio_le := ratio.property.1, ratio_le := ratio.property.2, tradeFee_le := fee.property,
    threshold_pos := threshold.property, flatPrice_pos := price.property,
    tradeCap_pos := cap.property.1, tradeCap_le := cap.property.2 }

namespace Terms

/-- The arguments that give these terms again. -/
def request (t : Terms) : TermsRequest where
  ratio := some t.ratio
  tradeFee := some t.tradeFee
  threshold := some t.threshold
  flatPrice := some t.flatPrice
  buyOnlySeconds := some t.buyOnlySeconds
  tradeCap := some t.tradeCap

def withRatioAndFee (t : Terms) (ratio fee : Option Int) : Except Error Terms :=
  make { t.request with ratio := ratio, tradeFee := fee }

def withTradeCap (t : Terms) (cap : Option Int) : Except Error Terms :=
  make { t.request with tradeCap := cap }

theorem tradeFee_le_bpsWhole (t : Terms) : t.tradeFee ≤ bpsWhole :=
  Nat.le_trans t.tradeFee_le (by decide)

theorem ratio_pos (t : Terms) : 0 < t.ratio :=
  Nat.lt_of_lt_of_le (by decide) t.minRatio_le

theorem two_mul_ratio_le (t : Terms) : 2 * t.ratio ≤ Curve.ppm := Nat.mul_le_mul_left 2 t.ratio_le

theorem ratio_le_ppm (t : Terms) : t.ratio ≤ Curve.ppm := Nat.le_trans t.ratio_le (by decide)

end Terms

end CurveMarket
