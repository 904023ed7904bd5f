import Mathlib.Data.Option.Basic
import CurveMarket.Calculator.Report
import CurveMarket.Proofs.Pool.Preview

/-! # Reports against the pool

A report is priced without a pool, by a code of its own for the impact of a trade. For a pool on the
curve it says what the pool quotes and previews at the same point, whatever the supply, the reserve
and the amounts are. Only a sell against no supply at all parts the two: the pool answers that nothing
is paid, and there is no report.
-/

namespace CurveMarket

/-! ## What a pool on the curve answers -/

namespace PoolState

variable {s : PoolState} {n r : Nat}

theorem buyImpact_of_graduated (hgraduated : s.isGraduated = true) (hreserve : s.reserve = r)
    (d : Nat) :
    s.buyImpact (some (n : Int)) (some (d : Int)) = .ok (s.buyOrder n r d).buyImpact := by
  have hq := quoteBuy_of_graduated (n := n) hgraduated hreserve d
  generalize hquote : BuyQuote.mk .. = q at hq
  have htokens : (n : Int) + q.tokensOut = (n + (s.buyOrder n r d).tokens : Nat) := by
    rw [← hquote, Int.natCast_add]
  have hreserve' : (s.afterBuy q).reserve = (r + (s.tradeCharge d).net : Nat) := by
    show s.reserve + q.net = _
    rw [← hquote, hreserve, Int.natCast_add]
  have hgraduated' := (isGraduated_afterBuy s q).mpr (.inl hgraduated)
  have hafter := spotPrice_of_graduated hgraduated' hreserve' (n := n + (s.buyOrder n r d).tokens)
  rw [← htokens] at hafter
  rw [buyImpact_eq hq (spotPrice_of_graduated hgraduated hreserve) hafter, ← hquote]
  rfl

/-- Without a supply a sell takes nothing, and its impact is the whole of the price. -/
theorem sellImpact_of_no_supply (hgraduated : s.isGraduated = true) (hreserve : s.reserve = r)
    (t : Nat) : s.sellImpact (some 0) (some (t : Int)) = .ok ⟨0, bpsWhole, 0⟩ :=
  sellImpact_of_le (quoteSell_of_graduated (n := 0) hgraduated hreserve t) (Int.natCast_nonneg t)

theorem sellImpact_of_graduated (hgraduated : s.isGraduated = true) (hreserve : s.reserve = r)
    (hsupply : 0 < n) (t : Nat) :
    s.sellImpact (some (n : Int)) (some (t : Int)) = (s.orderAt n r t).sellImpact := by
  have hq := quoteSell_of_graduated (n := n) hgraduated hreserve t
  generalize hquote : SellQuote.mk .. = q at hq
  unfold Curve.Order.sellImpact
  by_cases hall : n ≤ t
  · rw [sellImpact_of_le hq (Int.ofNat_le.mpr hall), if_pos ⟨hsupply, hall⟩, ← hquote]
    rfl
  · have hrest : (n : Int) - t = (n - t : Nat) := (Int.natCast_sub (by omega)).symm
    have hpaid : (s.orderAt n r t).payout ≤ r := Curve.payoutFor_le ..
    have hreserve' : (s.afterSell q).reserve = (r - (s.orderAt n r t).payout : Nat) := by
      show s.reserve - q.reserveOut = _
      rw [← hquote, hreserve, Int.natCast_sub hpaid]
    have hafter := spotPrice_of_graduated (s := s.afterSell q) hgraduated hreserve' (n := n - t)
    rw [← hrest] at hafter
    rw [sellImpact_of_lt hq (Int.natCast_nonneg t) (by omega)
      (spotPrice_of_graduated hgraduated hreserve) hafter, if_neg (fun h => hall h.2), ← hquote]
    show _ = requireNonNegative "supply" (some ((n : Int) - t)) >>= _
    rw [requireNonNegative_eq_ok.mpr (congrArg some hrest)]
    rfl

end PoolState

namespace Curve.Order

/-- Nothing asks for a supply before the tokens are taken from it. -/
theorem sellImpact_of_no_supply (reserve ratio : Nat) {tokens : Nat} (hpos : 0 < tokens) :
    (⟨0, reserve, tokens, ratio⟩ : Order).sellImpact = .error (.negative "supply" (-tokens)) := by
  have hrest : (0 : Int) - tokens = -tokens := Int.zero_sub _
  unfold sellImpact
  rw [if_neg (by simp)]
  show requireNonNegative "supply" (some ((0 : Int) - tokens)) >>= _ = _
  rw [hrest, requireNonNegative_of_neg (by omega)]
  rfl

theorem exists_sellImpact (o : Order) (hsupply : 0 < o.supply) :
    ∃ impact, o.sellImpact = .ok impact ∧ impact.amountOut = o.payout := by
  unfold sellImpact
  by_cases hall : o.supply ≤ o.amount
  · rw [if_pos ⟨hsupply, hall⟩]
    exact ⟨_, rfl, rfl⟩
  · have hrest : (o.supply : Int) - o.amount = (o.supply - o.amount : Nat) :=
      (Int.natCast_sub (by omega)).symm
    rw [if_neg (fun h => hall h.2), hrest, requireNonNegative_eq_ok.mpr rfl]
    exact ⟨_, rfl, rfl⟩

end Curve.Order

/-! ## Agreement -/

namespace Calculator

/-- A section on a buy says what the pool quotes and previews. -/
structure BuyReport.Agrees (b : BuyReport) (s : PoolState) (supply amount : Nat) : Prop where
  quoted : ∃ q, s.quoteBuy (some (supply : Int)) (some (amount : Int)) = .ok q ∧
    b.amountIn = q.amountIn ∧ b.fee = q.fee ∧ b.impact.amountOut = q.tokensOut
  previewed : s.buyImpact (some (supply : Int)) (some (amount : Int)) = .ok b.impact

/-- A section on a sell says what the pool quotes and previews. -/
structure SellReport.Agrees (b : SellReport) (s : PoolState) (supply tokens : Nat) : Prop where
  quoted : s.quoteSell (some (supply : Int)) (some (tokens : Int)) =
    .ok ⟨b.tokensIn, b.impact.amountOut, b.charge.fee, b.charge.net⟩
  previewed : s.sellImpact (some (supply : Int)) (some (tokens : Int)) = .ok b.impact

/-- A report says what the pool answers at its point, with a section for each trade asked about. -/
structure Report.Agrees (r : Report) (s : PoolState) (supply : Nat) (buy sell : Option Nat) :
    Prop where
  supply_eq : r.supply = supply
  reserve_eq : r.reserve = s.reserve
  ratio_eq : r.ratio = s.terms.ratio
  fee_eq : r.fee = .int s.terms.tradeFee
  priced : s.spotPrice (some (supply : Int)) = .ok r.spotPrice
  bought : Option.Rel (fun amount b => BuyReport.Agrees b s supply amount) buy r.buy
  sold : Option.Rel (fun tokens b => SellReport.Agrees b s supply tokens) sell r.sell

namespace ReportRequest

variable {s : PoolState} {supply r : Nat}

def ofPool (s : PoolState) (supply : Nat) (buy sell : Option Nat) : ReportRequest where
  supply := some (supply : Int)
  reserve := some s.reserve
  ratio := some (s.terms.ratio : Int)
  fee := .int s.terms.tradeFee
  buy := buy.elim .null fun amount => .int amount
  sell := sell.elim .null fun tokens => .int tokens

theorem buyReport_ofPool (hreserve : s.reserve = r) (buy sell : Option Nat) (d : Nat) :
    (ofPool s supply buy sell).buyReport (.int d) =
      .ok ⟨d, (s.tradeCharge d).fee, (s.buyOrder supply r d).buyImpact⟩ := by
  show charge (some (d : Int)) (some (s.terms.tradeFee : Int)) >>= _ = _
  rw [PoolState.charge_tradeFee]
  show Curve.buyImpact (some (supply : Int)) (some s.reserve)
    (some ((s.tradeCharge d).net : Int)) (some (s.terms.ratio : Int)) >>= _ = _
  unfold Curve.buyImpact
  rw [hreserve, PoolState.check_orderAt]
  rfl

/-- A sell is reported with the impact on the curve and the charge on what it pays, or with what
is wrong with its impact. -/
theorem sellReport_ofPool (hreserve : s.reserve = r) (buy sell : Option Nat) (t : Nat) :
    (ofPool s supply buy sell).sellReport (.int t) = (do
      let impact ← (s.orderAt supply r t).sellImpact
      let c ← charge (some impact.amountOut) (some (s.terms.tradeFee : Int))
      pure ⟨t, c, impact⟩) := by
  show Curve.sellImpact (some (supply : Int)) (some s.reserve) (some (t : Int))
    (some (s.terms.ratio : Int)) >>= _ = _
  unfold Curve.sellImpact
  rw [hreserve, PoolState.check_orderAt]
  rfl

theorem sellReport_of_no_supply (hreserve : s.reserve = r) (buy sell : Option Nat) {t : Nat}
    (hpos : 0 < t) :
    (ofPool s 0 buy sell).sellReport (.int t) = .error (.negative "supply" (-t)) := by
  rw [sellReport_ofPool hreserve, PoolState.orderAt,
    Curve.Order.sellImpact_of_no_supply _ _ hpos]
  rfl

/-! ## Sections -/

theorem buyReport_agrees (hgraduated : s.isGraduated = true) (hreserve : s.reserve = r)
    (buy sell : Option Nat) (d : Nat) :
    ∃ b : BuyReport, b.Agrees s supply d ∧
      (ofPool s supply buy sell).buyReport (.int d) = .ok b :=
  ⟨_, ⟨⟨_, PoolState.quoteBuy_of_graduated hgraduated hreserve d, rfl, rfl, rfl⟩,
    PoolState.buyImpact_of_graduated hgraduated hreserve d⟩, buyReport_ofPool hreserve buy sell d⟩

/-- The pool answers for every sell, and the report for every sell against some supply. -/
theorem sellReport_agrees (hgraduated : s.isGraduated = true) (hreserve : s.reserve = r)
    (buy sell : Option Nat) (t : Nat) :
    ∃ b : SellReport, b.Agrees s supply t ∧
      (0 < supply → (ofPool s supply buy sell).sellReport (.int t) = .ok b) := by
  have hquoted := PoolState.quoteSell_of_graduated (n := supply) hgraduated hreserve t
  rcases Nat.eq_zero_or_pos supply with rfl | hsupply
  · exact ⟨⟨t, s.tradeCharge 0, ⟨0, bpsWhole, 0⟩⟩,
      ⟨hquoted, PoolState.sellImpact_of_no_supply hgraduated hreserve t⟩, nofun⟩
  · obtain ⟨impact, himpact, hout⟩ := (s.orderAt supply r t).exists_sellImpact hsupply
    refine ⟨⟨t, s.tradeCharge (s.orderAt supply r t).payout, impact⟩, ⟨?_, ?_⟩, fun _ => ?_⟩
    · rw [hquoted, hout]
    · rw [PoolState.sellImpact_of_graduated hgraduated hreserve hsupply, himpact]
    · rw [sellReport_ofPool hreserve, himpact]
      show charge (some impact.amountOut) _ >>= _ = _
      rw [hout, PoolState.charge_tradeFee]
      rfl

def buySection (q : ReportRequest) : Except Error (Option BuyReport) :=
  if isGiven q.buy then some <$> q.buyReport q.buy else pure none

def sellSection (q : ReportRequest) : Except Error (Option SellReport) :=
  if isGiven q.sell then some <$> q.sellReport q.sell else pure none

theorem buySection_agrees (hgraduated : s.isGraduated = true) (hreserve : s.reserve = r)
    (supply : Nat) (buy sell : Option Nat) :
    ∃ part, Option.Rel (fun amount b => BuyReport.Agrees b s supply amount) buy part ∧
      (ofPool s supply buy sell).buySection = .ok part := by
  cases buy with
  | none => exact ⟨none, .none, rfl⟩
  | some d =>
      obtain ⟨b, hagrees, hb⟩ := buyReport_agrees hgraduated hreserve (some d) sell d
      exact ⟨some b, .some hagrees, congrArg (some <$> ·) hb⟩

theorem sellSection_agrees (hgraduated : s.isGraduated = true) (hreserve : s.reserve = r)
    (supply : Nat) (buy sell : Option Nat) :
    ∃ part, Option.Rel (fun tokens b => SellReport.Agrees b s supply tokens) sell part ∧
      (0 < supply ∨ sell = none → (ofPool s supply buy sell).sellSection = .ok part) := by
  cases sell with
  | none => exact ⟨none, .none, fun _ => rfl⟩
  | some t =>
      obtain ⟨b, hagrees, hb⟩ := sellReport_agrees hgraduated hreserve buy (some t) t
      refine ⟨some b, .some hagrees, fun hsome => ?_⟩
      exact congrArg (some <$> ·) (hb (hsome.resolve_right nofun))

/-! ## Reports -/

theorem report_eq {q : ReportRequest} {point : Curve.Order} {buy : Option BuyReport}
    (hpoint : Curve.Order.check q.supply q.reserve (some 0) q.ratio = .ok point)
    (hbuy : q.buySection = .ok buy) :
    q.report = (fun sell => {
      supply := point.supply, reserve := point.reserve, ratio := point.ratio, fee := q.fee
      spotPrice := point.spot, buy, sell }) <$> q.sellSection := by
  unfold buySection at hbuy
  unfold report sellSection
  rw [hpoint]
  show (if isGiven q.buy then _ >>= _ else _ >>= _) = _
  -- What follows a section is written out for either answer, so each one reduces by itself.
  cases hgiven : isGiven q.buy with
  | false =>
      rw [hgiven] at hbuy
      cases hbuy
      cases isGiven q.sell <;> rfl
  | true =>
      rw [hgiven] at hbuy
      obtain ⟨b, hb, rfl⟩ := Check.map_eq_ok.mp hbuy
      show some <$> q.buyReport q.buy >>= _ = _
      rw [hb]
      cases isGiven q.sell with
      | false => rfl
      | true => cases q.sellReport q.sell <;> rfl

/-- For every pool on the curve and everything asked about its point there is a report that agrees
with the pool. It is the report given, unless a sell is asked about where there is no supply: that is
refused for a supply that nobody passed. -/
theorem report_agrees_with_pool (s : PoolState) (hgraduated : s.isGraduated = true)
    (hreserve : 0 ≤ s.reserve) (supply : Nat) (buy sell : Option Nat)
    (hsell : ∀ t ∈ sell, 0 < t) :
    ∃ r : Report, r.Agrees s supply buy sell ∧
      (0 < supply ∨ sell = none → (ofPool s supply buy sell).report = .ok r) ∧
      (supply = 0 → ∀ t ∈ sell,
        (ofPool s supply buy sell).report = .error (.negative "supply" (-t))) := by
  obtain ⟨reserve, hreserve⟩ := Int.eq_ofNat_of_zero_le hreserve
  obtain ⟨bought, hbought, hbuySection⟩ :=
    buySection_agrees hgraduated hreserve supply buy sell
  obtain ⟨sold, hsold, hsellSection⟩ :=
    sellSection_agrees hgraduated hreserve supply buy sell
  have hpoint : Curve.Order.check (some (supply : Int)) (some s.reserve) (some 0)
      (some (s.terms.ratio : Int)) = .ok (s.orderAt supply reserve 0) := by
    rw [hreserve]
    exact s.check_orderAt supply reserve 0
  have hreport := report_eq (q := ofPool s supply buy sell) hpoint hbuySection
  refine ⟨⟨supply, reserve, s.terms.ratio, .int s.terms.tradeFee,
    (s.orderAt supply reserve 0).spot, bought, sold⟩, ?_, fun hsome => ?_, ?_⟩
  · exact {
      supply_eq := rfl, reserve_eq := hreserve.symm, ratio_eq := rfl, fee_eq := rfl
      priced := PoolState.spotPrice_of_graduated hgraduated hreserve
      bought := hbought, sold := hsold }
  · rw [hreport, hsellSection hsome]
    rfl
  · -- Without a supply the sell is what refuses the report; the buy before it is priced.
    rintro rfl t ht
    obtain rfl := Option.mem_def.mp ht
    have hrefused := sellReport_of_no_supply hreserve buy (some t) (hsell t ht)
    rw [hreport]
    show _ <$> some <$> (ofPool s 0 buy (some t)).sellReport (.int t) = _
    rw [hrefused]
    rfl

def samplePoint : PoolState := { terms := sampleTerms, reserve := 100, graduated := .bool true }

theorem report_agrees_with_sample_pool :
    samplePoint.isGraduated = true ∧ 0 ≤ samplePoint.reserve ∧ (∀ t ∈ some 3, 0 < t) ∧
      ∃ r : Report, r.Agrees samplePoint 1000 (some 50) (some 3) ∧
        (ofPool samplePoint 1000 (some 50) (some 3)).report = .ok r := by
  have hsell : ∀ t ∈ some 3, 0 < t := by simp
  obtain ⟨r, hagrees, hgiven, -⟩ :=
    report_agrees_with_pool samplePoint rfl (by decide) 1000 (some 50) (some 3) hsell
  exact ⟨rfl, by decide, hsell, r, hagrees, hgiven (.inl (by decide))⟩

/-- The pool answers on a sell without a supply, and the report is refused. -/
theorem sample_report_without_supply_is_refused :
    samplePoint.quoteSell (some 0) (some 1) = .ok ⟨1, 0, 0, 0⟩ ∧
      samplePoint.sellImpact (some 0) (some 1) = .ok ⟨0, bpsWhole, 0⟩ ∧
      (ofPool samplePoint 0 none (some 1)).report = .error (.negative "supply" (-1)) :=
  ⟨rfl, rfl, rfl⟩

end ReportRequest

end Calculator

end CurveMarket
