import CurveMarket.Proofs.Pool.Price

/-! # Previews of trades

What a pool tells about a trade before it is made, against what the trade then does. A preview is
computed from the state and the supply as of the last commit, and no run of calls leaves that supply
behind the token's own. So a buy mints what its quote says, at the price that its impact says, and a
sell frees what its quote says. The impact of a sell is exact as well, but for the price after a sell
of the whole supply.
-/

namespace CurveMarket

open CurveMarket.Action Market

/-! ## Buying -/

namespace PoolState

variable {s : PoolState} {supply amount : Int} {q : BuyQuote}

theorem quoteBuy_graduates (hq : s.quoteBuy (some supply) (some amount) = .ok q)
    (hflat : s.isGraduated = false) :
    q.graduates = decide ((s.terms.threshold : Int) ≤ s.reserve + q.net) ∧
      (q.graduates = true → 0 ≤ supply + q.tokensOut) := by
  unfold quoteBuy at hq
  obtain ⟨c, -, hq⟩ := Check.bind_eq_ok.mp hq
  obtain ⟨a, -, hq⟩ := Check.bind_eq_ok.mp hq
  dsimp only at hq
  rw [if_neg (by simp [hflat])] at hq
  split at hq
  · rename_i hstays
    cases hq
    exact ⟨(decide_eq_false (Int.not_le.mpr hstays)).symm, nofun⟩
  · rename_i hreached
    obtain ⟨n, hn, hq⟩ := Check.bind_eq_ok.mp hq
    cases hq
    obtain ⟨o, ho, rfl⟩ := Check.map_eq_ok.mp hn
    have hsupply : supply + s.flatTokens (max (s.terms.threshold - s.reserve) 0) = o.supply :=
      Option.some.inj (Curve.check_eq_ok ho).1
    refine ⟨(decide_eq_true (Int.not_lt.mp hreached)).symm, fun _ => ?_⟩
    show 0 ≤ supply + (s.flatTokens (max (s.terms.threshold - s.reserve) 0) + o.tokens)
    omega

/-- The state that a preview prices is the state that the buy commits. -/
theorem previewed_eq_afterBuy (hq : s.quoteBuy (some supply) (some amount) = .ok q) :
    { s with
      reserve := s.reserve + q.net
      graduated := if s.isGraduated then s.graduated else .bool q.graduates } = s.afterBuy q := by
  cases hphase : s.isGraduated with
  | true => simp [afterBuy, addReserve, hphase]
  | false => simp [afterBuy, addReserve, hphase, (quoteBuy_graduates hq hphase).1]

/-- Both prices of a buy exist, unless the buy leaves a negative reserve. -/
theorem exists_prices_of_buy (hq : s.quoteBuy (some supply) (some amount) = .ok q)
    (hreserve : 0 ≤ (s.afterBuy q).reserve) :
    ∃ before after, s.spotPrice (some supply) = .ok before ∧
      (s.afterBuy q).spotPrice (some (supply + q.tokensOut)) = .ok after := by
  obtain ⟨r', hr'⟩ := Int.eq_ofNat_of_zero_le hreserve
  cases hphase : s.isGraduated with
  | true =>
      obtain ⟨-, -, -, hcurve⟩ := quoteBuy_eq_ok hq
      obtain ⟨n, r, d, rfl, hr, -, htokens⟩ := hcurve hphase
      have hgraduated := (isGraduated_afterBuy s q).mpr (.inl hphase)
      rw [htokens, ← Int.natCast_add]
      exact ⟨_, _, spotPrice_of_graduated hphase hr, spotPrice_of_graduated hgraduated hr'⟩
  | false =>
      cases hphase' : (s.afterBuy q).isGraduated with
      | false => exact ⟨_, _, spotPrice_of_flat hphase _, spotPrice_of_flat hphase' _⟩
      | true =>
          obtain ⟨hgraduates, hsupply⟩ := quoteBuy_graduates hq hphase
          have hreached : (s.terms.threshold : Int) ≤ s.reserve + q.net := by
            simpa [hphase] using (isGraduated_afterBuy s q).mp hphase'
          obtain ⟨n, hn⟩ := Int.eq_ofNat_of_zero_le (hsupply (by simp [hgraduates, hreached]))
          rw [hn]
          exact ⟨_, _, spotPrice_of_flat hphase _, spotPrice_of_graduated hphase' hr'⟩

theorem buyImpact_eq (hq : s.quoteBuy (some supply) (some amount) = .ok q) {before after : Nat}
    (hbefore : s.spotPrice (some supply) = .ok before)
    (hafter : (s.afterBuy q).spotPrice (some (supply + q.tokensOut)) = .ok after) :
    s.buyImpact (some supply) (some amount) =
      .ok ⟨q.tokensOut, Curve.riseBps before after, after⟩ := by
  unfold buyImpact
  refine Check.bind_eq_ok.mpr ⟨q, hq, Check.bind_eq_ok.mpr ⟨before, hbefore, ?_⟩⟩
  refine Check.bind_eq_ok.mpr ⟨after, ?_, rfl⟩
  rw [previewed_eq_afterBuy hq]
  exact hafter

end PoolState

/-! ## Selling -/

namespace PoolState

variable {s : PoolState} {supply tokens : Int} {q : SellQuote}

theorem quoteSell_charged (hq : s.quoteSell (some supply) (some tokens) = .ok q) :
    q.tokensIn = tokens ∧ ∃ f : Nat, fee (some q.reserveOut) (some (s.terms.tradeFee : Int)) = .ok f ∧
      q.fee = f := by
  have hcharged {gross : Int} (h : (do
      let charged ← charge (some gross) (some (s.terms.tradeFee : Int))
      let t ← requireInt "tokens_in" (some tokens)
      pure (⟨t, gross, charged.fee, charged.net⟩ : SellQuote)) = .ok q) :
      q.tokensIn = tokens ∧
        ∃ f : Nat, fee (some q.reserveOut) (some (s.terms.tradeFee : Int)) = .ok f ∧ q.fee = f := by
    obtain ⟨c, hc, h⟩ := Check.bind_eq_ok.mp h
    obtain ⟨t, ht, h⟩ := Check.bind_eq_ok.mp h
    cases requireInt_eq_ok.mp ht
    cases h
    exact ⟨rfl, c.fee, fee_of_charge hc, rfl⟩
  unfold quoteSell at hq
  split at hq
  · obtain ⟨out, -, hq⟩ := Check.bind_eq_ok.mp hq
    exact hcharged hq
  · obtain ⟨t, -, hq⟩ := Check.bind_eq_ok.mp hq
    exact hcharged hq

/-- Both prices of a sell exist, if it leaves some of the supply and no negative reserve. -/
theorem exists_prices_of_sell (hq : s.quoteSell (some supply) (some tokens) = .ok q)
    (hreserve : 0 ≤ (s.afterSell q).reserve) (hsold : s.isGraduated = true → tokens < supply) :
    ∃ before after, s.spotPrice (some supply) = .ok before ∧
      (s.afterSell q).spotPrice (some (supply - tokens)) = .ok after := by
  cases hphase : s.isGraduated with
  | false =>
      have hphase' : (s.afterSell q).isGraduated = false := hphase
      exact ⟨_, _, spotPrice_of_flat hphase _, spotPrice_of_flat hphase' _⟩
  | true =>
      have hphase' : (s.afterSell q).isGraduated = true := hphase
      have hrest := hsold hphase
      obtain ⟨-, -, -, -, hcurve⟩ := quoteSell_eq_ok hq
      obtain ⟨n, r, t, rfl, hr, rfl, -⟩ := hcurve hphase
      obtain ⟨r', hr'⟩ := Int.eq_ofNat_of_zero_le hreserve
      rw [← Int.natCast_sub (by omega)]
      exact ⟨_, _, spotPrice_of_graduated hphase hr, spotPrice_of_graduated hphase' hr'⟩

theorem sellImpact_of_lt (hq : s.quoteSell (some supply) (some tokens) = .ok q)
    (hnonneg : 0 ≤ tokens) (hsold : tokens < supply) {before after : Nat}
    (hbefore : s.spotPrice (some supply) = .ok before)
    (hafter : (s.afterSell q).spotPrice (some (supply - tokens)) = .ok after) :
    s.sellImpact (some supply) (some tokens) =
      .ok ⟨q.reserveOut, Curve.fallBps before after, after⟩ := by
  have htokens := (quoteSell_charged hq).1
  unfold sellImpact
  refine Check.bind_eq_ok.mpr ⟨q, hq, Check.bind_eq_ok.mpr ⟨supply, rfl, ?_⟩⟩
  rw [if_neg (by omega), htokens]
  exact Check.bind_eq_ok.mpr ⟨before, hbefore, Check.bind_eq_ok.mpr ⟨after, hafter, rfl⟩⟩

theorem sellImpact_of_le (hq : s.quoteSell (some supply) (some tokens) = .ok q)
    (hsold : supply ≤ tokens) :
    s.sellImpact (some supply) (some tokens) = .ok ⟨q.reserveOut, bpsWhole, 0⟩ := by
  have htokens := (quoteSell_charged hq).1
  unfold sellImpact
  refine Check.bind_eq_ok.mpr ⟨q, hq, Check.bind_eq_ok.mpr ⟨supply, rfl, ?_⟩⟩
  rw [if_pos (by omega)]
  rfl

/-- The impact of a sell tells the price after it, unless nothing of the supply is left. -/
theorem exists_sellImpact (hq : s.quoteSell (some supply) (some tokens) = .ok q)
    (hnonneg : 0 ≤ tokens) (hsold : s.isGraduated = true → tokens < supply) {before after : Nat}
    (hbefore : s.spotPrice (some supply) = .ok before)
    (hafter : (s.afterSell q).spotPrice (some (supply - tokens)) = .ok after) :
    ∃ impact, s.sellImpact (some supply) (some tokens) = .ok impact ∧
      impact.amountOut = q.reserveOut ∧ (tokens < supply → impact.newSpotPrice = after) ∧
      (supply ≤ tokens → s.isGraduated = false ∧ impact.newSpotPrice = 0 ∧
        after = s.terms.flatPrice) := by
  -- A sell of the whole supply has its impact before the phase is looked at.
  by_cases hsome : tokens < supply
  · exact ⟨_, sellImpact_of_lt hq hnonneg hsome hbefore hafter, rfl, fun _ => rfl,
      fun hall => absurd hsome (not_lt.mpr hall)⟩
  · have hflat : s.isGraduated = false :=
      Bool.eq_false_iff.mpr fun hgraduated => hsome (hsold hgraduated)
    have hstays : (s.afterSell q).isGraduated = false := hflat
    rw [spotPrice_of_flat hstays] at hafter
    cases hafter
    exact ⟨_, sellImpact_of_le hq (not_lt.mp hsome), rfl, fun hlt => absurd hlt hsome,
      fun _ => ⟨hflat, rfl, rfl⟩⟩

end PoolState

/-! ## Reads -/

namespace Pool

variable {p : Pool}

theorem buyQuote_of_pos {amount : Int} {q : BuyQuote} (hpos : 0 < amount)
    (hq : p.state.quoteBuy (some p.supply) (some amount) = .ok q) :
    p.buyQuote (some amount) = .ok q.tokensOut := by
  obtain ⟨a, rfl⟩ := Int.eq_ofNat_of_zero_le hpos.le
  unfold buyQuote
  refine Check.bind_eq_ok.mpr ⟨a, requireNonNegative_eq_ok.mpr rfl, ?_⟩
  rw [if_neg (by omega)]
  exact Check.bind_eq_ok.mpr ⟨q, hq, rfl⟩

theorem sellQuote_of_pos {tokens : Int} {q : SellQuote} (hpos : 0 < tokens)
    (hq : p.state.quoteSell (some p.supply) (some tokens) = .ok q) :
    p.sellQuote (some tokens) = .ok q.reserveOut := by
  obtain ⟨t, rfl⟩ := Int.eq_ofNat_of_zero_le hpos.le
  unfold sellQuote
  refine Check.bind_eq_ok.mpr ⟨t, requireNonNegative_eq_ok.mpr rfl, ?_⟩
  rw [if_neg (by omega)]
  exact Check.bind_eq_ok.mpr ⟨q, hq, rfl⟩

theorem buyImpact_of_pos {amount : Int} (hpos : 0 < amount) :
    p.buyImpact (some amount) = p.state.buyImpact (some p.supply) (some amount) := by
  unfold buyImpact
  rw [requirePositive_eq_ok.mpr ⟨rfl, hpos⟩]
  rfl

theorem sellImpact_of_pos {tokens : Int} (hpos : 0 < tokens) :
    p.sellImpact (some tokens) = p.state.sellImpact (some p.supply) (some tokens) := by
  unfold sellImpact
  rw [requirePositive_eq_ok.mpr ⟨rfl, hpos⟩]
  rfl

end Pool

theorem outcome_read {α β : Type} (v : Except Error α) (f : α → β) (m : Market) :
    (do return f (← v) : Action Market β).outcome m = f <$> v := by
  cases v with
  | ok x => rfl
  | error e => rfl

namespace Market

variable {m : Market} {i : Nat}

def ask (m : Market) (i : Nat) (c : PoolCall) : Except Error Reply :=
  (servePool apply i c).outcome m

theorem ask_buyQuote (amount : Option Int) :
    m.ask i (.buyQuote amount) = .int <$> (m.pool i).buyQuote amount :=
  outcome_read ((m.pool i).buyQuote amount) Reply.int m

theorem ask_sellQuote (tokens : Option Int) :
    m.ask i (.sellQuote tokens) = .int <$> (m.pool i).sellQuote tokens :=
  outcome_read ((m.pool i).sellQuote tokens) Reply.int m

theorem ask_buyImpact (amount : Option Int) :
    m.ask i (.buyImpact amount) = .impact <$> (m.pool i).buyImpact amount :=
  outcome_read ((m.pool i).buyImpact amount) Reply.impact m

theorem ask_sellImpact (tokens : Option Int) :
    m.ask i (.sellImpact tokens) = .impact <$> (m.pool i).sellImpact tokens :=
  outcome_read ((m.pool i).sellImpact tokens) Reply.impact m

theorem ask_spotPrice : m.ask i .spotPrice = (fun n => .int n) <$> (m.pool i).spotPrice :=
  outcome_read (m.pool i).spotPrice (fun n => Reply.int n) m

theorem Current.ask_spotPrice (h : m.Current i) {price : Nat} (hprice : m.livePrice i = .ok price) :
    m.ask i .spotPrice = .ok (.int price) := by
  rw [Market.ask_spotPrice, h.spotPrice_eq, hprice]
  rfl

end Market

/-! ## Previews and trades -/

section Accepted

variable {m m' : Market} {i : Nat} {amount tokens minimum : Option Int}
  {recipient sender : Option Text} {deadline : Int} {reply : Reply}

theorem buyPreview_of_current (h : m.Current i)
    (haccepted : servePool apply i (.buy amount minimum recipient deadline sender) m =
      .ok reply m') :
    ∃ (minted : Int) (impact : Curve.Impact), reply = .int minted ∧
      m'.supplyOf (m.pool i).capability = m.supplyOf (m.pool i).capability + minted ∧
      m.ask i (.buyQuote amount) = .ok (.int minted) ∧
      m.ask i (.buyImpact amount) = .ok (.impact impact) ∧ impact.amountOut = minted ∧
      m'.ask i .spotPrice = .ok (.int impact.newSpotPrice) := by
  have hcurrent := (h.accepted rfl haccepted).1
  obtain ⟨a, least, receiver, payer, q, rfl, -, -, hadmitted, hreply, hcommits⟩ :=
    accepted_buy (apply_direct _) haccepted
  obtain ⟨hlawful, u, hmoves, hsupply, hpool⟩ := exists_moves_of_commits hcommits h.listed
  have hminted : u.supplyOf (m.pool i).capability =
      m.supplyOf (m.pool i).capability + q.tokensOut := by
    rw [MarketView.supplyOf_of_mint hmoves, view_supplyOf]
  have hq := hadmitted.quoted
  have hreserve : 0 ≤ ((m.pool i).state.afterBuy q).reserve :=
    (PoolState.violations_eq_nil.mp hlawful).1
  obtain ⟨before, after, hbefore, hafter⟩ := PoolState.exists_prices_of_buy hq hreserve
  have hprice : m'.livePrice i = .ok after := by
    rw [livePrice_of_committed hpool (hsupply _), hminted]
    exact hafter
  have himpact := PoolState.buyImpact_eq hq hbefore hafter
  rw [← h.seen] at hq himpact
  refine ⟨q.tokensOut, ⟨q.tokensOut, Curve.riseBps before after, after⟩, hreply,
    (hsupply _).trans hminted, ?_, ?_, rfl, hcurrent.ask_spotPrice hprice⟩
  · rw [ask_buyQuote, Pool.buyQuote_of_pos hadmitted.positive hq]
    rfl
  · rw [ask_buyImpact, Pool.buyImpact_of_pos hadmitted.positive, himpact]
    rfl

/-- A sell of the whole supply is only accepted before graduation: on the curve it would free the
whole reserve. -/
theorem lt_supply_of_sellAdmitted {t least : Int} {receiver seller : Text} {q : SellQuote}
    (h : SellAdmitted m (m.pool i) t least receiver deadline seller q)
    (hgraduated : (m.pool i).state.isGraduated = true) :
    t < m.supplyOf (m.pool i).capability := by
  obtain ⟨-, -, -, -, hcurve⟩ := PoolState.quoteSell_eq_ok h.quoted
  obtain ⟨n, r, sold, hn, hr, rfl, hout⟩ := hcurve hgraduated
  have hworthwhile := h.worthwhile
  have hremains := h.remains
  rw [hout] at hworthwhile hremains
  rw [hr] at hremains
  have hpaid := Int.natCast_ne_zero.mp (Int.ne_of_gt hworthwhile)
  rw [hn]
  exact Int.ofNat_lt.mpr (lt_supply_of_payoutFor hpaid (Int.ofNat_lt.mp hremains))

theorem sellPreview_of_current (h : m.Current i)
    (haccepted : servePool apply i (.sell tokens minimum recipient deadline sender) m =
      .ok reply m') :
    ∃ (sold gross : Int) (charged after : Nat) (impact : Curve.Impact), tokens = some sold ∧
      (m'.pool i).state.reserve = (m.pool i).state.reserve - gross ∧
      m.ask i (.sellQuote tokens) = .ok (.int gross) ∧
      m.ask i (.sellImpact tokens) = .ok (.impact impact) ∧ impact.amountOut = gross ∧
      fee (some gross) (some ((m.pool i).state.terms.tradeFee : Int)) = .ok charged ∧
      reply = .int (gross - charged) ∧ m'.ask i .spotPrice = .ok (.int after) ∧
      (sold < m.supplyOf (m.pool i).capability → impact.newSpotPrice = after) ∧
      (m.supplyOf (m.pool i).capability ≤ sold → (m.pool i).state.isGraduated = false ∧
        impact.newSpotPrice = 0 ∧ after = (m.pool i).state.terms.flatPrice) := by
  have hcurrent := (h.accepted rfl haccepted).1
  obtain ⟨t, least, receiver, seller, q, rfl, -, -, hadmitted, rfl, hcommits⟩ :=
    accepted_sell (apply_direct _) haccepted
  obtain ⟨hlawful, u, hmoves, hsupply, hpool⟩ := exists_moves_of_commits hcommits h.listed
  have hburned : u.supplyOf (m.pool i).capability = m.supplyOf (m.pool i).capability - t := by
    rw [MarketView.supplyOf_of_burn hmoves, view_supplyOf]
  have hq := hadmitted.quoted
  have hreserve : 0 ≤ ((m.pool i).state.afterSell q).reserve :=
    (PoolState.violations_eq_nil.mp hlawful).1
  have hrest := lt_supply_of_sellAdmitted hadmitted
  obtain ⟨before, after, hbefore, hafter⟩ := PoolState.exists_prices_of_sell hq hreserve hrest
  have hprice : m'.livePrice i = .ok after := by
    rw [livePrice_of_committed hpool (hsupply _), hburned]
    exact hafter
  obtain ⟨impact, himpact, hout, hexact, hwhole⟩ :=
    PoolState.exists_sellImpact hq hadmitted.positive.le hrest hbefore hafter
  obtain ⟨-, charged, hfee, hcharged⟩ := PoolState.quoteSell_charged hq
  obtain ⟨-, -, hsum, -, -⟩ := PoolState.quoteSell_eq_ok hq
  have hnet : Reply.int q.netOut = .int (q.reserveOut - charged) := by
    rw [← hsum, hcharged, Int.add_sub_cancel]
  rw [← h.seen] at hq himpact
  refine ⟨t, q.reserveOut, charged, after, impact, rfl, ?_, ?_, ?_, hout, hfee, hnet,
    hcurrent.ask_spotPrice hprice, hexact, hwhole⟩
  · rw [hpool]
    rfl
  · rw [ask_sellQuote, Pool.sellQuote_of_pos hadmitted.positive hq]
    rfl
  · rw [ask_sellImpact, Pool.sellImpact_of_pos hadmitted.positive, himpact]
    rfl

end Accepted

section Run

variable {model treasury account : Option Text} {capability : Nat} {terms : Option Terms}
  {state : Option PoolState} {m₀ m₁ m : Market} {i : Nat}

theorem current_of_issueRun
    (hopen : openPool model capability terms state treasury account m₀ = .ok i m₁)
    (hrun : IssueRun i m₁ m) : m.Current i ∧ (m.pool i).capability = capability := by
  obtain ⟨p, rfl, rfl, rfl, -, hseen, -⟩ := openPool_eq_ok hopen
  have hpool := pool_append m₀ p
  have hcurrent : ({ m₀ with pools := m₀.pools ++ [p] } : Market).Current m₀.pools.length := by
    refine ⟨by simp, ?_⟩
    rw [hpool, hseen]
    rfl
  obtain ⟨hcurrent', hcapability⟩ := hcurrent.run hrun
  rw [hpool] at hcapability
  exact ⟨hcurrent', hcapability⟩

/-- After any run a pool tells the present supply of its token, and every buy that it then accepts
mints what its previews told, at the price that they told. -/
theorem buyPreviews_exact
    (hopen : openPool model capability terms state treasury account m₀ = .ok i m₁)
    (hrun : IssueRun i m₁ m) :
    m.ask i .supply = .ok (.int (m.supplyOf capability)) ∧
      ∀ {amount minimum : Option Int} {recipient sender : Option Text} {deadline : Int}
        {reply : Reply} {m' : Market},
        servePool apply i (.buy amount minimum recipient deadline sender) m = .ok reply m' →
        ∃ (minted : Int) (impact : Curve.Impact), reply = .int minted ∧
          m'.supplyOf capability = m.supplyOf capability + minted ∧
          m.ask i (.buyQuote amount) = .ok (.int minted) ∧
          m.ask i (.buyImpact amount) = .ok (.impact impact) ∧ impact.amountOut = minted ∧
          m'.ask i .spotPrice = .ok (.int impact.newSpotPrice) := by
  obtain ⟨hcurrent, rfl⟩ := current_of_issueRun hopen hrun
  refine ⟨?_, fun haccepted => buyPreview_of_current hcurrent haccepted⟩
  rw [← hcurrent.seen]
  rfl

end Run

theorem buyPreviews_exact_for_sample_buy :
    ∃ (minted : Int) (impact : Curve.Impact),
      sampleFlatTraded.ask 0 (.buyQuote (some 40)) = .ok (.int minted) ∧
      sampleFlatTraded.ask 0 (.buyImpact (some 40)) = .ok (.impact impact) ∧
      impact.amountOut = minted ∧
      ((servePool apply 0 sampleCrossing).stateAfter sampleFlatTraded).supplyOf 0 =
        sampleFlatTraded.supplyOf 0 + minted ∧
      ((servePool apply 0 sampleCrossing).stateAfter sampleFlatTraded).ask 0 .spotPrice =
        .ok (.int impact.newSpotPrice) := by
  obtain ⟨bought, hbuy⟩ := exists_ok_of_outcome (a := servePool apply 0 sampleCrossing)
    (s := sampleFlatTraded) (by decide +kernel)
  obtain ⟨minted, impact, -, hsupply, hquote, himpact, hout, hprice⟩ :=
    (buyPreviews_exact sampleFlat_opened sampleFlatTraded_run).2 hbuy
  exact ⟨minted, impact, hquote, himpact, hout, hsupply, hprice⟩

section Run

variable {model treasury account : Option Text} {capability : Nat} {terms : Option Terms}
  {state : Option PoolState} {m₀ m₁ m m' : Market} {i : Nat} {tokens minimum : Option Int}
  {recipient sender : Option Text} {deadline : Int} {reply : Reply}

/-- After any run every sell that a pool accepts frees what its previews told, and pays that out but
for the fee. The price after it is the one that was told, unless the whole supply is sold. That
happens below the threshold only, where the price stays flat and the preview tells none. -/
theorem sellPreviews_exact_but_for_whole_supply
    (hopen : openPool model capability terms state treasury account m₀ = .ok i m₁)
    (hrun : IssueRun i m₁ m)
    (haccepted : servePool apply i (.sell tokens minimum recipient deadline sender) m =
      .ok reply m') :
    ∃ (sold gross : Int) (charged after : Nat) (impact : Curve.Impact), tokens = some sold ∧
      (m'.pool i).state.reserve = (m.pool i).state.reserve - gross ∧
      m.ask i (.sellQuote tokens) = .ok (.int gross) ∧
      m.ask i (.sellImpact tokens) = .ok (.impact impact) ∧ impact.amountOut = gross ∧
      fee (some gross) (some ((m.pool i).state.terms.tradeFee : Int)) = .ok charged ∧
      reply = .int (gross - charged) ∧ m'.ask i .spotPrice = .ok (.int after) ∧
      (sold < m.supplyOf capability → impact.newSpotPrice = after) ∧
      (m.supplyOf capability ≤ sold → (m.pool i).state.isGraduated = false ∧
        impact.newSpotPrice = 0 ∧ after = (m.pool i).state.terms.flatPrice) := by
  obtain ⟨hcurrent, rfl⟩ := current_of_issueRun hopen hrun
  exact sellPreview_of_current hcurrent haccepted

end Run

def sampleGraduated : Market := (servePool apply 0 sampleCrossing).stateAfter sampleFlatTraded

def sampleCurveSell : PoolCall :=
  .sell (some 400000000000000000) (some 0) (some "payer") 0 (some "payer")

theorem sellPreviews_exact_for_sample_sell :
    ∃ (gross : Int) (charged : Nat) (impact : Curve.Impact),
      sampleGraduated.ask 0 (.sellQuote (some 400000000000000000)) = .ok (.int gross) ∧
      sampleGraduated.ask 0 (.sellImpact (some 400000000000000000)) = .ok (.impact impact) ∧
      impact.amountOut = gross ∧ fee (some gross) (some 100) = .ok charged ∧
      sampleGraduated.ask 0 sampleCurveSell = .ok (.int (gross - charged)) ∧
      ((servePool apply 0 sampleCurveSell).stateAfter sampleGraduated).ask 0 .spotPrice =
        .ok (.int impact.newSpotPrice) := by
  have hrun : IssueRun 0 sampleFlat sampleGraduated :=
    sampleFlatTraded_run.tail (.call sampleCrossing)
  obtain ⟨reply, hsell⟩ := exists_ok_of_outcome (a := servePool apply 0 sampleCurveSell)
    (s := sampleGraduated) (by decide +kernel)
  obtain ⟨sold, gross, charged, after, impact, htokens, -, hquote, himpact, hout, hfee, rfl, hprice,
    hexact, -⟩ := sellPreviews_exact_but_for_whole_supply sampleFlat_opened hrun hsell
  have hsold : (400000000000000000 : Int) = sold := Option.some.inj htokens
  have hsome : (400000000000000000 : Int) < sampleGraduated.supplyOf 0 := by decide +kernel
  have hrate : (sampleGraduated.pool 0).state.terms.tradeFee = 100 := by decide +kernel
  rw [hrate] at hfee
  rw [← hexact (hsold ▸ hsome)] at hprice
  refine ⟨gross, charged, impact, hquote, himpact, hout, hfee, ?_, hprice⟩
  unfold ask outcome
  rw [hsell]

def sampleSellOut : PoolCall :=
  .sell (some 12666666666666666665) (some 0) (some "payer") 0 (some "payer")

/-- A pool that holds more than its tokens are worth takes all of them back below its threshold.
The preview of that sell tells a price of zero, and the price after it is the flat one. -/
theorem sellPreview_misses_price_after_sellOut :
    openPool (some "model") 0 (some sampleFlatTerms) none (some "treasury") none sampleMarket =
        .ok 0 sampleFlat ∧ IssueRun 0 sampleFlat sampleFlatTraded ∧
      ∃ (reply : Reply) (m' : Market) (impact : Curve.Impact),
        servePool apply 0 sampleSellOut sampleFlatTraded = .ok reply m' ∧
        sampleFlatTraded.ask 0 (.sellImpact (some 12666666666666666665)) = .ok (.impact impact) ∧
        impact.newSpotPrice = 0 ∧ m'.ask 0 .spotPrice = .ok (.int 3) := by
  obtain ⟨reply, hsell⟩ := exists_ok_of_outcome (a := servePool apply 0 sampleSellOut)
    (s := sampleFlatTraded) (by decide +kernel)
  obtain ⟨hcurrent, -⟩ := current_of_issueRun sampleFlat_opened sampleFlatTraded_run
  obtain ⟨sold, gross, charged, after, impact, htokens, -, -, himpact, -, -, -, hprice, -, hall⟩ :=
    sellPreview_of_current hcurrent hsell
  have hsold : (12666666666666666665 : Int) = sold := Option.some.inj htokens
  have hwhole : sampleFlatTraded.supplyOf (sampleFlatTraded.pool 0).capability ≤
      12666666666666666665 := by decide +kernel
  obtain ⟨-, hzero, hflat⟩ := hall (hsold ▸ hwhole)
  have hthree : (sampleFlatTraded.pool 0).state.terms.flatPrice = 3 := by decide +kernel
  rw [hflat, hthree] at hprice
  exact ⟨sampleFlat_opened, sampleFlatTraded_run, reply, _, impact, hsell, himpact, hzero, hprice⟩

end CurveMarket
