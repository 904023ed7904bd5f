import CurveMarket.Proofs.Curve.Price
import CurveMarket.Proofs.Pool.Extraction
import CurveMarket.Proofs.Pool.Issuance
import CurveMarket.Proofs.Pool.Outcome

/-! # Prices of a pool

What trades and deposits do to the price that a pool quotes. Before graduation the price is flat. On
the curve the price rises with every buy, and the buy that graduates a pool lands on the curve at the
flat price or above it, because the reserve covers the supply at that price. So does the deposit that
graduates a pool, unless nothing is supplied by then that could have a price. A sell on the curve
lowers the price, unless it is so small that the rounding of its payout weighs more than the tokens
it burns.
-/

namespace CurveMarket

open CurveMarket.Action Market

/-! ## Buying -/

namespace PoolState

variable {s : PoolState} {supply amount : Int} {q : BuyQuote}

theorem isGraduated_afterBuy (s : PoolState) (q : BuyQuote) :
    (s.afterBuy q).isGraduated = true ↔
      s.isGraduated = true ∨ s.terms.threshold ≤ s.reserve + q.net :=
  isGraduated_addReserve s q.net

theorem spotPrice_le_of_curveBuy (hq : s.quoteBuy (some supply) (some amount) = .ok q)
    (hout : q.tokensOut ≠ 0) (hgraduated : s.isGraduated = true) :
    ∃ before after, s.spotPrice (some supply) = .ok before ∧
      (s.afterBuy q).spotPrice (some (supply + q.tokensOut)) = .ok after ∧ before ≤ after := by
  obtain ⟨-, -, -, hcurve⟩ := quoteBuy_eq_ok hq
  obtain ⟨n, r, d, rfl, hr, hd, htokens⟩ := hcurve hgraduated
  have hsome : Curve.tokensFor n r d s.terms.ratio ≠ 0 := by omega
  have hn := (Curve.pos_of_tokensFor hsome).1
  have hgraduated' := (isGraduated_afterBuy s q).mpr (.inl hgraduated)
  have hreserve : (s.afterBuy q).reserve = (r + d : Nat) := by
    show s.reserve + q.net = _
    omega
  have hbefore := spotPrice_of_graduated hgraduated hr (n := n)
  have hafter := spotPrice_of_graduated hgraduated' hreserve
    (n := n + Curve.tokensFor n r d s.terms.ratio)
  rw [htokens, ← Int.natCast_add]
  exact ⟨_, _, hbefore, hafter,
    Curve.spotPrice_le_of_buy hn s.terms.ratio_pos s.terms.two_mul_ratio_le⟩

/-- Where a buy graduates a pool, the reserve at the threshold covers what is issued by then, so the
curve starts at the flat price or above it. -/
theorem spotPrice_le_of_flatBuy (hq : s.quoteBuy (some supply) (some amount) = .ok q)
    (hout : q.tokensOut ≠ 0) (hflat : s.isGraduated = false) (hlawful : s.violations = [])
    (hcovers : s.Covers supply) (hsupply : 0 ≤ supply) :
    ∃ before after, s.spotPrice (some supply) = .ok before ∧
      (s.afterBuy q).spotPrice (some (supply + q.tokensOut)) = .ok after ∧ before ≤ after := by
  have hbelow := lt_threshold_of_flat hlawful hflat
  have hbefore := spotPrice_of_flat hflat (some supply)
  rcases quoteBuy_flat_eq_ok hq hflat hbelow with ⟨hstays, -⟩ | ⟨n, d, hn, hd, htokens⟩
  · have hflat' : (s.afterBuy q).isGraduated = false := by
      rw [Bool.eq_false_iff, ne_eq, isGraduated_afterBuy, hflat]
      simp only [Bool.false_eq_true, false_or]
      omega
    exact ⟨_, _, hbefore, spotPrice_of_flat hflat' _, Nat.le_refl _⟩
  · have hgraduated := (isGraduated_afterBuy s q).mpr (.inr (by omega))
    have hreserve : (s.afterBuy q).reserve = (s.terms.threshold + d : Nat) := by
      show s.reserve + q.net = _
      omega
    have hissued : (supply + q.tokensOut : Int) =
        (n + Curve.tokensFor n s.terms.threshold d s.terms.ratio : Nat) := by
      omega
    have hpart := flatTokens_nonneg s (by omega : 0 ≤ (s.terms.threshold : Int) - s.reserve)
    have hpos : 0 < n := by
      by_cases hnone : Curve.tokensFor n s.terms.threshold d s.terms.ratio = 0
      · omega
      · exact (Curve.pos_of_tokensFor hnone).1
    have hcovered := hcovers.add (s.terms.threshold - s.reserve)
    rw [hn] at hcovered
    have hthreshold : n * s.terms.flatPrice ≤ s.terms.threshold * Fixed.one := by
      unfold Covers at hcovered
      have hreached : (s.addReserve (s.terms.threshold - s.reserve)).reserve =
          s.terms.threshold := by
        show s.reserve + (s.terms.threshold - s.reserve) = _
        omega
      rw [hreached] at hcovered
      exact_mod_cast hcovered
    rw [hissued]
    refine ⟨_, _, hbefore, spotPrice_of_graduated hgraduated hreserve, ?_⟩
    calc s.terms.flatPrice ≤ Curve.spotPrice n s.terms.threshold s.terms.ratio :=
          Curve.le_spotPrice hpos s.terms.ratio_pos s.terms.ratio_le_ppm hthreshold
      _ ≤ _ := Curve.spotPrice_le_of_buy hpos s.terms.ratio_pos s.terms.two_mul_ratio_le

end PoolState

section Run

variable {model treasury account : Option Text} {capability : Nat} {terms : Terms}
  {m₀ m₁ m m' : Market} {i : Nat} {amount minimum : Option Int} {recipient sender : Option Text}
  {deadline : Int} {reply : Reply}

/-- No accepted buy lowers the price that a pool quotes, whether it stays flat, graduates the pool
or moves along the curve. -/
theorem quotedPrice_le_of_buy
    (hopen : openPool model capability (some terms) none treasury account m₀ = .ok i m₁)
    (hzero : m₀.supplyOf capability = 0) (hcounted : m₀.view.Counted capability)
    (hrun : IssueRun i m₁ m)
    (haccepted : servePool apply i (.buy amount minimum recipient deadline sender) m =
      .ok reply m') :
    ∃ before after, (m.pool i).spotPrice = .ok before ∧ (m'.pool i).spotPrice = .ok after ∧
      before ≤ after := by
  obtain ⟨hissues₁, hcapability⟩ := issues_of_openPool hopen hzero
  have hcounted₁ : m₁.view.Counted (m₁.pool i).capability := by
    obtain ⟨p, rfl, -⟩ := openPool_eq_ok hopen
    rw [hcapability]
    exact hcounted
  obtain ⟨hissues, hsame, hkept⟩ := hissues₁.run hrun
  have hcovered := hkept hcounted₁
  rw [← hsame] at hcovered
  have hsupply := hcovered.nonneg
  rw [view_supplyOf] at hsupply
  obtain ⟨hissues', d, u, hc, hmoves, hstate, hcapability', hsupply', -⟩ :=
    hissues.accepted rfl haccepted
  obtain ⟨d', hd', rfl⟩ := Check.map_eq_ok.mp (Option.some.inj hc)
  obtain ⟨payer, receiver, a, q, -, -, -, hq, hout, heffects, hpost, -⟩ := decideBuy_eq_ok hd'
  have hminted : u.supplyOf (m.pool i).capability =
      m.supplyOf (m.pool i).capability + q.tokensOut := by
    have hall : m.view.MovesAll d'.effects u := hmoves
    rw [heffects] at hall
    rw [MarketView.supplyOf_of_mint hall, view_supplyOf]
  have hafter : (m'.pool i).spotPrice = ((m.pool i).state.afterBuy q).spotPrice
      (some (m.supplyOf (m.pool i).capability + q.tokensOut)) := by
    unfold Pool.spotPrice
    rw [hissues'.seen, hcapability', hsupply', hminted, hstate]
    show d'.post.spotPrice _ = _
    rw [hpost]
  have hbefore : (m.pool i).spotPrice =
      (m.pool i).state.spotPrice (some (m.supplyOf (m.pool i).capability)) := by
    unfold Pool.spotPrice
    rw [hissues.seen]
  rw [hbefore, hafter]
  cases hphase : (m.pool i).state.isGraduated with
  | true => exact PoolState.spotPrice_le_of_curveBuy hq hout hphase
  | false =>
      exact PoolState.spotPrice_le_of_flatBuy hq hout hphase hissues.lawful
        (hissues.covered hphase) hsupply

end Run

def sampleCrossing : PoolCall := .buy (some 40) (some 0) (some "payer") 0 (some "payer")

theorem quotedPrice_le_of_sample_buy :
    ∃ before after, (sampleFlatTraded.pool 0).spotPrice = .ok before ∧
      (((servePool apply 0 sampleCrossing).stateAfter sampleFlatTraded).pool 0).spotPrice =
        .ok after ∧ before ≤ after := by
  obtain ⟨bought, hbuy⟩ := exists_ok_of_outcome (a := servePool apply 0 sampleCrossing)
    (s := sampleFlatTraded) (by decide +kernel)
  exact quotedPrice_le_of_buy sampleFlat_opened (by decide) (counted_of_total (by decide))
    sampleFlatTraded_run hbuy

/-! ## The live price -/

/-- The price at the reserve that a pool accounts for and the supply of its token. -/
def Market.livePrice (m : Market) (i : Nat) : Except Error Nat :=
  (m.pool i).state.spotPrice (some (m.supplyOf (m.pool i).capability))

theorem livePrice_of_graduated {m : Market} {i n r : Nat}
    (hgraduated : (m.pool i).state.isGraduated = true)
    (hsupply : m.supplyOf (m.pool i).capability = n) (hreserve : (m.pool i).state.reserve = r) :
    m.livePrice i = .ok (Curve.spotPrice n r (m.pool i).state.terms.ratio) := by
  unfold livePrice
  rw [hsupply]
  exact PoolState.spotPrice_of_graduated hgraduated hreserve

theorem Market.Current.spotPrice_eq {m : Market} {i : Nat} (h : m.Current i) :
    (m.pool i).spotPrice = m.livePrice i := by
  unfold Pool.spotPrice livePrice
  rw [h.seen]

theorem livePrice_of_committed {m m' : Market} {i : Nat} {pre post : PoolState} {supply : Int}
    {events : List PoolEvent} (hpool : m'.pool i = committed pre post supply events (m.pool i))
    (hsupply : m'.supplyOf (m.pool i).capability = supply) :
    m'.livePrice i = post.spotPrice (some supply) := by
  unfold livePrice
  rw [hpool, ← hsupply]
  rfl

/-! ## Depositing -/

namespace PoolState

variable {s : PoolState} {supply amount : Int}

/-- A deposit that graduates a pool lands on the curve at the flat price or above it, if there are
tokens to price. -/
theorem spotPrice_le_of_deposit (hlawful : s.violations = []) (hsupply : 0 ≤ supply)
    (hcovers : s.isGraduated = false → s.Covers supply) (hle : 0 ≤ amount)
    (hissued : s.isGraduated = false → (s.afterDeposit amount).isGraduated = true → supply ≠ 0) :
    ∃ before after, s.spotPrice (some supply) = .ok before ∧
      (s.afterDeposit amount).spotPrice (some supply) = .ok after ∧ before ≤ after := by
  have hreserve := (violations_eq_nil.mp hlawful).1
  obtain ⟨n, rfl⟩ := Int.eq_ofNat_of_zero_le hsupply
  obtain ⟨r, hr⟩ := Int.eq_ofNat_of_zero_le hreserve
  obtain ⟨d, rfl⟩ := Int.eq_ofNat_of_zero_le hle
  have hr' : (s.afterDeposit d).reserve = (r + d : Nat) := by
    show s.reserve + d = _
    omega
  cases hphase : s.isGraduated with
  | true =>
      have hgraduated : (s.afterDeposit d).isGraduated = true :=
        (isGraduated_addReserve s d).mpr (.inl hphase)
      exact ⟨_, _, spotPrice_of_graduated hphase hr, spotPrice_of_graduated hgraduated hr',
        Curve.spotPrice_le_of_reserve_le (Nat.le_add_right r d)⟩
  | false =>
      cases hphase' : (s.afterDeposit d).isGraduated with
      | false =>
          exact ⟨_, _, spotPrice_of_flat hphase _, spotPrice_of_flat hphase' _, Nat.le_refl _⟩
      | true =>
          have hsome := hissued hphase hphase'
          have hcovered : (n : Int) * s.terms.flatPrice ≤ (s.afterDeposit d).reserve * Fixed.one :=
            (hcovers hphase).deposit hle
          rw [hr'] at hcovered
          refine ⟨_, _, spotPrice_of_flat hphase _, spotPrice_of_graduated hphase' hr', ?_⟩
          exact Curve.le_spotPrice (by omega) s.terms.ratio_pos s.terms.ratio_le_ppm
            (by exact_mod_cast hcovered)

/-- On the curve a pool without a supply has no price. -/
theorem spotPrice_of_empty (hgraduated : s.isGraduated = true) (hreserve : 0 ≤ s.reserve) :
    s.spotPrice (some 0) = .ok 0 := by
  obtain ⟨r, hr⟩ := Int.eq_ofNat_of_zero_le hreserve
  exact spotPrice_of_graduated hgraduated hr (n := 0)

theorem prices_of_deposit (hlawful : s.violations = []) (hsupply : 0 ≤ supply)
    (hcovers : s.isGraduated = false → s.Covers supply) (hle : 0 ≤ amount) :
    ∃ before after, s.spotPrice (some supply) = .ok before ∧
      (s.afterDeposit amount).spotPrice (some supply) = .ok after ∧
      (after < before ↔ supply = 0 ∧ s.isGraduated = false ∧
        (s.afterDeposit amount).isGraduated = true) ∧
      (after < before → before = s.terms.flatPrice ∧ after = 0) := by
  by_cases hempty : supply = 0 ∧ s.isGraduated = false ∧
      (s.afterDeposit amount).isGraduated = true
  · obtain ⟨rfl, hflat, hgraduated⟩ := hempty
    have hreserve : 0 ≤ (s.afterDeposit amount).reserve :=
      Int.add_nonneg (violations_eq_nil.mp hlawful).1 hle
    exact ⟨_, 0, spotPrice_of_flat hflat _, spotPrice_of_empty hgraduated hreserve,
      iff_of_true s.terms.flatPrice_pos ⟨rfl, hflat, hgraduated⟩, fun _ => ⟨rfl, rfl⟩⟩
  · obtain ⟨before, after, hbefore, hafter, hkept⟩ := spotPrice_le_of_deposit hlawful hsupply hcovers
      hle fun hflat hgraduated hnone => hempty ⟨hnone, hflat, hgraduated⟩
    have hnot : ¬ after < before := Nat.not_lt.mpr hkept
    exact ⟨before, after, hbefore, hafter, iff_of_false hnot hempty, fun hlt => absurd hlt hnot⟩

end PoolState

section Run

variable {model treasury account : Option Text} {capability : Nat} {terms : Terms}
  {m₀ m₁ m m' : Market} {i : Nat} {amount : Option Int} {sender : Option Text} {reply : Reply}

/-- A deposit lowers the price that a pool quotes exactly when it graduates a pool without a supply.
There the price falls from the flat price to nothing. -/
theorem quotedPrice_after_deposit
    (hopen : openPool model capability (some terms) none treasury account m₀ = .ok i m₁)
    (hzero : m₀.supplyOf capability = 0) (hcounted : m₀.view.Counted capability)
    (hrun : IssueRun i m₁ m)
    (haccepted : servePool apply i (.depositFees amount sender) m = .ok reply m') :
    ∃ before after, (m.pool i).spotPrice = .ok before ∧ (m'.pool i).spotPrice = .ok after ∧
      (after < before ↔ m.supplyOf capability = 0 ∧ (m.pool i).state.isGraduated = false ∧
        (m'.pool i).state.isGraduated = true) ∧
      (after < before → before = (m.pool i).state.terms.flatPrice ∧ after = 0) := by
  obtain ⟨hissues, rfl, hcovers⟩ := issues_of_issueRun hopen hzero hrun
  have hsupply := (hcovers hcounted).nonneg
  rw [view_supplyOf] at hsupply
  have hcurrent := (hissues.current.accepted rfl haccepted).1
  obtain ⟨payer, a, -, -, hpos, -, d, heffects, hpost, hcommits⟩ :=
    accepted_deposit (apply_direct _) haccepted
  obtain ⟨-, u, hmoves, hsame, hpool⟩ := exists_moves_of_commits hcommits hissues.listed
  rw [heffects] at hmoves
  have hkept : m'.supplyOf (m.pool i).capability = m.supplyOf (m.pool i).capability := by
    rw [hsame, MarketView.supplyOf_of_moves hmoves, view_supplyOf]
  have hstate : (m'.pool i).state = (m.pool i).state.afterDeposit a := by
    rw [hpool]
    exact hpost
  have hafter := livePrice_of_committed hpool (hsame _)
  rw [← hsame, hkept, hpost] at hafter
  rw [hissues.current.spotPrice_eq, hcurrent.spotPrice_eq, hafter, hstate]
  exact PoolState.prices_of_deposit hissues.lawful hsupply hissues.covered hpos.le

end Run

def sampleGraduation : PoolCall := .depositFees (some 30) (some "payer")

theorem quotedPrice_after_sample_deposit :
    ∃ before after, (sampleFlatTraded.pool 0).spotPrice = .ok before ∧
      (((servePool apply 0 sampleGraduation).stateAfter sampleFlatTraded).pool 0).spotPrice =
        .ok after ∧ before ≤ after := by
  obtain ⟨paid, hdeposit⟩ := exists_ok_of_outcome (a := servePool apply 0 sampleGraduation)
    (s := sampleFlatTraded) (by decide +kernel)
  obtain ⟨before, after, hbefore, hafter, hfalls, -⟩ := quotedPrice_after_deposit sampleFlat_opened
    (by decide) (counted_of_total (by decide)) sampleFlatTraded_run hdeposit
  have hsome : sampleFlatTraded.supplyOf 0 ≠ 0 := by decide +kernel
  exact ⟨before, after, hbefore, hafter, Nat.not_lt.mp fun hlt => hsome (hfalls.mp hlt).1⟩

def sampleFirstDeposit : Action Market Reply :=
  servePool apply 0 (.depositFees (some 60) (some "payer"))

/-- Revenue that graduates a pool ahead of its first buyer takes its price away. -/
theorem quotedPrice_falls_after_first_deposit :
    openPool (some "model") 0 (some sampleFlatTerms) none (some "treasury") none sampleMarket =
        .ok 0 sampleFlat ∧ sampleMarket.supplyOf 0 = 0 ∧ sampleMarket.view.Counted 0 ∧
      ∃ reply m', sampleFirstDeposit sampleFlat = .ok reply m' ∧
        (sampleFlat.pool 0).spotPrice = .ok 3 ∧ (m'.pool 0).spotPrice = .ok 0 := by
  obtain ⟨reply, hdeposit⟩ := exists_ok_of_outcome (a := sampleFirstDeposit) (s := sampleFlat)
    (by decide +kernel)
  exact ⟨sampleFlat_opened, by decide, counted_of_total (by decide), reply, _, hdeposit, rfl, rfl⟩

/-! ## Selling -/

/-- An accepted sell on the curve raises the price by what its roundings are worth at most. Where
the sold share of the reserve is some units, it does not raise the price at all. -/
theorem livePrice_after_sell {i : Nat} {m m' : Market} {tokens minimum : Option Int}
    {recipient sender : Option Text} {deadline : Int} {reply : Reply}
    (hgraduated : (m.pool i).state.isGraduated = true)
    (hlawful : (m.pool i).state.violations = [])
    (haccepted : servePool apply i (.sell tokens minimum recipient deadline sender) m =
      .ok reply m') :
    ∃ supply reserve sold before after : Nat,
      m.supplyOf (m.pool i).capability = supply ∧ (m.pool i).state.reserve = reserve ∧
      tokens = some (sold : Int) ∧ m.livePrice i = .ok before ∧ m'.livePrice i = .ok after ∧
      after ≤ before + Curve.spotPrice (supply - sold) (reserve / Fixed.one + 2)
        (m.pool i).state.terms.ratio + 1 ∧
      (16 * supply * (Fixed.one + 2 * reserve) ≤ reserve * sold * Fixed.one → after ≤ before) := by
  obtain ⟨d, u, hc, hmoves, hstate, hcapability, hsupply, hgraduated', -⟩ :=
    accepted_eq hgraduated rfl haccepted
  obtain ⟨d', hd', rfl⟩ := Check.map_eq_ok.mp (Option.some.inj hc)
  have hreserve := (PoolState.violations_eq_nil.mp hlawful).1
  obtain ⟨n, r, sold, hn, hr, htokens, hpos, hsold, hhalf, hafter, hpost, hterms⟩ :=
    exists_curveSell hgraduated hreserve hd' hmoves
  have hratio := (m.pool i).state.terms.ratio_pos
  have hppm := (m.pool i).state.terms.two_mul_ratio_le
  have hbefore := livePrice_of_graduated hgraduated hn hr
  have hlast : m'.livePrice i = .ok (Curve.spotPrice (n - sold)
      (r - Curve.payoutFor n r sold (m.pool i).state.terms.ratio)
      (m.pool i).state.terms.ratio) := by
    have hterms' : d'.bare.post.terms = (m.pool i).state.terms := hterms
    have hpost' : d'.bare.post.reserve =
      (r - Curve.payoutFor n r sold (m.pool i).state.terms.ratio : Nat) := hpost
    rw [← hstate] at hgraduated' hterms' hpost'
    rw [← hterms'] at hpost' ⊢
    refine livePrice_of_graduated hgraduated' ?_ hpost'
    rw [hcapability, hsupply, hafter]
  exact ⟨n, r, sold, _, _, hn, hr, htokens, hbefore, hlast,
    Curve.spotPrice_le_of_sell hpos hsold hratio hppm,
    Curve.spotPrice_le_of_worthy_sell hpos hsold hratio hppm hhalf⟩

theorem livePrice_after_sample_sell :
    ∃ before after : Nat, sampleCurve.livePrice 0 = .ok before ∧
      (sampleSell.stateAfter sampleCurve).livePrice 0 = .ok after ∧ after ≤ before := by
  obtain ⟨reply, hsell⟩ := exists_ok_of_outcome (a := sampleSell) (s := sampleCurve)
    (by decide +kernel)
  obtain ⟨supply, reserve, sold, before, after, hsupply, hreserve, hsold, hbefore, hafter, -, hle⟩ :=
    livePrice_after_sell (by decide) (by decide) hsell
  have hn : (1000000000000000000000 : Int) = supply := hsupply
  have hr : (1000000 : Int) = reserve := hreserve
  have ht : (50000000000000000 : Int) = sold := Option.some.inj hsold
  obtain rfl : supply = 1000000000000000000000 := by omega
  obtain rfl : reserve = 1000000 := by omega
  obtain rfl : sold = 50000000000000000 := by omega
  exact ⟨before, after, hbefore, hafter, hle (by decide)⟩

/-- A market with a pool of two units on the curve. -/
def tinyCurve : Market where
  now := 0
  symbol := "asset"
  table := BalanceTable.empty.put ⟨"pool", "asset"⟩ 2 (by decide)
  tokens := [⟨{ name := "token", supply := 2000000000000000000, live := [1] },
    some (BalanceTable.empty.put ⟨"trader", "token"⟩ 2000000000000000000 (by decide))⟩]
  capabilities := [⟨0, 1, .null⟩]
  pools := [{
    model := "model", treasury := "treasury", account := "pool", capability := 0
    state := {
      terms := { (default : Terms) with
        ratio := 500000, minRatio_le := by decide, ratio_le := by decide
        threshold := 2, threshold_pos := by decide
        tradeCap := 5000, tradeCap_pos := by decide, tradeCap_le := by decide }
      reserve := 2, graduated := .bool true }
    supply := 2000000000000000000, events := [] }]

def tinySell : Action Market Reply :=
  servePool apply 0
    (.sell (some 1800000000000000000) (some 0) (some "trader") 0 (some "trader"))

/-- Where a unit is a large part of the reserve, a sell can raise the price: its payout should have
been `1.98` and is one. -/
theorem livePrice_rises_after_tinySell :
    (tinyCurve.pool 0).state.isGraduated = true ∧ (tinyCurve.pool 0).state.violations = [] ∧
      ∃ reply m', tinySell tinyCurve = .ok reply m' ∧ tinyCurve.livePrice 0 = .ok 2 ∧
        m'.livePrice 0 = .ok 10 := by
  obtain ⟨reply, hsell⟩ := exists_ok_of_outcome (a := tinySell) (s := tinyCurve)
    (by decide +kernel)
  have hbefore := livePrice_of_graduated (m := tinyCurve) (i := 0) (n := 2000000000000000000)
    (r := 2) (by decide) (by decide) (by decide)
  have hafter := livePrice_of_graduated (m := tinySell.stateAfter tinyCurve) (i := 0)
    (n := 200000000000000000) (r := 1) (by decide +kernel) (by decide +kernel) (by decide +kernel)
  have hratio : ((tinySell.stateAfter tinyCurve).pool 0).state.terms.ratio = 500000 := by
    decide +kernel
  rw [hratio] at hafter
  exact ⟨by decide, by decide, reply, _, hsell, hbefore, hafter⟩

end CurveMarket
