import CurveMarket.Curve.Price
import CurveMarket.Value.Json

/-!
# Reports on a point of the curve

A report prices a buy, a sell or neither at a given supply, reserve and ratio, without a pool.
-/

namespace CurveMarket.Calculator

/-- What to report on. A fee that no trade is charged with is reported as it was passed. -/
structure ReportRequest where
  supply : Option Int
  reserve : Option Int
  ratio : Option Int
  fee : Value := .int 0
  buy : Value := .null
  sell : Value := .null

structure BuyReport where
  amountIn : Int
  fee : Nat
  impact : Curve.Impact
deriving DecidableEq

structure SellReport where
  tokensIn : Int
  charge : Charge
  impact : Curve.Impact
deriving DecidableEq

structure Report where
  supply : Nat
  reserve : Nat
  ratio : Nat
  fee : Value
  spotPrice : Nat
  buy : Option BuyReport
  sell : Option SellReport

namespace ReportRequest

/-- A buy: the fee is taken from the deposit, and the rest is traded. -/
def buyReport (q : ReportRequest) (amount : Value) : Except Error BuyReport := do
  let c ← charge amount.int? q.fee.int?
  let impact ← Curve.buyImpact q.supply q.reserve (some c.net) q.ratio
  let a ← requireInt "amount" amount.int?
  pure ⟨a, c.fee, impact⟩

/-- A sell: the fee is taken from the reserve that the tokens free. -/
def sellReport (q : ReportRequest) (tokens : Value) : Except Error SellReport := do
  let impact ← Curve.sellImpact q.supply q.reserve tokens.int? q.ratio
  let c ← charge (some impact.amountOut) q.fee.int?
  let t ← requireInt "amount" tokens.int?
  pure ⟨t, c, impact⟩

def isGiven : Value → Bool
  | .null => false
  | _ => true

def report (q : ReportRequest) : Except Error Report := do
  let point ← Curve.Order.check q.supply q.reserve (some 0) q.ratio
  let buy ← if isGiven q.buy then some <$> q.buyReport q.buy else pure none
  let sell ← if isGiven q.sell then some <$> q.sellReport q.sell else pure none
  pure {
    supply := point.supply, reserve := point.reserve, ratio := point.ratio, fee := q.fee
    spotPrice := point.spot, buy, sell }

end ReportRequest

namespace Report

def schema : Text := "model-amm/curve-quote/v1"

def entry (name : Text) (v : Value) : Value × Value := (.text name, v)

def buyEntries (b : BuyReport) : Value :=
  .map [entry "amount_in" (.int b.amountIn), entry "fee" (.int b.fee),
    entry "tokens_out" (.int b.impact.amountOut), entry "impact_bps" (.int b.impact.impactBps),
    entry "new_spot_price" (.int b.impact.newSpotPrice)]

def sellEntries (s : SellReport) : Value :=
  .map [entry "tokens_in" (.int s.tokensIn), entry "reserve_out" (.int s.impact.amountOut),
    entry "fee" (.int s.charge.fee), entry "net_out" (.int s.charge.net),
    entry "impact_bps" (.int s.impact.impactBps),
    entry "new_spot_price" (.int s.impact.newSpotPrice)]

/-- A report as a map, without the trades that were not asked for. -/
def toValue (r : Report) : Value :=
  .map (
    [entry "schema" (.text schema), entry "supply" (.int r.supply),
      entry "reserve" (.int r.reserve), entry "crr_ppm" (.int r.ratio),
      entry "trade_fee_bps" r.fee, entry "spot_price" (.int r.spotPrice)] ++
    (r.buy.toList.map fun b => entry "buy" (buyEntries b)) ++
    (r.sell.toList.map fun s => entry "sell" (sellEntries s)))

def figures (r : Report) : List Int :=
  [(r.supply : Int), (r.reserve : Int), (r.ratio : Int), r.fee.asInt?.getD 0, (r.spotPrice : Int)] ++
  (r.buy.toList.flatMap fun b =>
    [b.amountIn, (b.fee : Int), b.impact.amountOut, b.impact.impactBps, b.impact.newSpotPrice]) ++
  (r.sell.toList.flatMap fun s =>
    [s.tokensIn, s.impact.amountOut, (s.charge.fee : Int), (s.charge.net : Int),
      s.impact.impactBps, s.impact.newSpotPrice])

def render (r : Report) : Text := r.toValue.indented ++ "\n"

end Report

end CurveMarket.Calculator
