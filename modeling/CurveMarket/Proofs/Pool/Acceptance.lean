import CurveMarket.Proofs.Pool.Issuance

/-! # Which trades are accepted

A trade is accepted exactly when its checks hold and those who pay can pay. Nothing that comes after
the checks can go wrong on a pool in order: its account covers every payout, its capability is live,
and no step from a lawful state breaks a rule.
-/

namespace CurveMarket

open CurveMarket.Action Market

/-- A pool in order, with no call on it in progress. -/
structure Market.Ready (m : Market) (i : Nat) : Prop extends m.Safe i where
  account_named : (m.pool i).account.isEmpty = false
  treasury_named : (m.pool i).treasury.isEmpty = false
  live : m.isAuthorized (m.capability (m.pool i).capability).token (m.pool i).capability = true
  idle : .pool i ∉ m.entered

theorem ready_of_openPool {model treasury account : Option Text} {capability i : Nat}
    {terms : Option Terms} {state : Option PoolState} {m₀ m₁ : Market}
    (h : openPool model capability terms state treasury account m₀ = .ok i m₁)
    (hstate : ∀ s, state = some s → s.violations = [] ∧ s.reserve ≤ m₁.held (m₁.pool i).account)
    (hapart : m₁.view.Apart capability)
    (hlive : m₁.isAuthorized (m₁.capability capability).token capability = true)
    (hidle : .pool i ∉ m₁.entered) : m₁.Ready i := by
  have hsafe := safe_of_openPool h hstate hapart
  obtain ⟨p, rfl, rfl, rfl, -, -, haccount, htreasury⟩ := openPool_eq_ok h
  have hpool := pool_append m₀ p
  refine ⟨hsafe, ?_, ?_, ?_, hidle⟩
  · rw [hpool]
    exact haccount
  · rw [hpool]
    exact htreasury
  · rw [hpool]
    exact hlive

theorem Market.Ready.view_live {m : Market} {i : Nat} (h : m.Ready i) :
    m.view.isAuthorized (m.view.capability (m.pool i).capability).token (m.pool i).capability =
      true := by
  rw [view_isAuthorized]
  exact h.live

section Trade

variable {run : Executor} {i : Nat} {m : Market} (hready : m.Ready i)
  (hrun : run.Direct m.callbacks)
include hready

/-! ## Effects of an admitted trade -/

theorem exists_moves_of_buy {amount least : Int} {receiver payer : Text} {deadline : Int}
    {q : BuyQuote} (hadmitted : BuyAdmitted m (m.pool i) amount least receiver deadline payer q)
    (hheld : amount ≤ m.held payer) :
    ∃ w, m.view.MovesAll (buyPlan (m.pool i) amount receiver payer q).effects w := by
  obtain ⟨hnet, hfee, hsum, -⟩ := PoolState.quoteBuy_eq_ok hadmitted.quoted
  have hout := hadmitted.worthwhile
  obtain ⟨v₁, v₂, hfirst, hsecond⟩ := MarketView.exists_payments (v := m.view)
    hadmitted.trader_named hready.account_named hready.treasury_named hnet hfee
    (by rw [hsum]; exact hheld)
  have hlive : v₂.isAuthorized (v₂.capability (m.pool i).capability).token
      (m.pool i).capability = true := by
    obtain ⟨htokens, hcapabilities⟩ := MarketView.issuers_of_moves hfirst
    obtain ⟨htokens', hcapabilities'⟩ := MarketView.issuers_of_moves hsecond
    unfold MarketView.isAuthorized MarketView.capability MarketView.token
    rw [htokens', hcapabilities', htokens, hcapabilities]
    exact hready.view_live
  have hminted := MarketView.Moves.mint hlive hadmitted.receiver_named
    (by omega : 0 ≤ q.tokensOut)
  exact ⟨_, MarketView.movesAll_append_append.mpr
    ⟨v₁, v₂, hfirst, hsecond, MarketView.movesAll_singleton.mpr hminted⟩⟩

theorem exists_moves_of_sell {tokens least : Int} {receiver seller : Text} {deadline : Int}
    {q : SellQuote}
    (hadmitted : SellAdmitted m (m.pool i) tokens least receiver deadline seller q) :
    ∃ w, m.view.MovesAll (sellPlan (m.pool i) tokens receiver seller q).effects w := by
  obtain ⟨hnet, hfee, hsum, -, -⟩ := PoolState.quoteSell_eq_ok hadmitted.quoted
  have hpositive := hadmitted.positive
  have hremains := hadmitted.remains
  have hbacked := hready.backed
  have hcovered : tokens ≤ m.view.balanceOf (m.pool i).capability seller := by
    rw [view_balanceOf]
    exact hadmitted.covered
  obtain ⟨v₀, hburned⟩ : ∃ v₀, m.view.Moves (.burn (m.pool i).capability seller (some tokens)) v₀ :=
    ⟨_, .burn hready.view_live hadmitted.trader_named (by omega) hcovered⟩
  have hheld := hburned.held_burn hready.apart (m.pool i).account
  rw [view_held] at hheld
  have hpaid : q.netOut + q.fee ≤ v₀.held (m.pool i).account := by omega
  obtain ⟨v₁, v₂, hfirst, hsecond⟩ := MarketView.exists_payments hready.account_named
    hadmitted.receiver_named hready.treasury_named hnet hfee hpaid
  exact ⟨v₂, MarketView.movesAll_append_append.mpr
    ⟨v₀, v₁, MarketView.movesAll_singleton.mpr hburned, hfirst, hsecond⟩⟩

/-! ## Both directions -/

include hrun

theorem buy_accepted_iff {amount least : Int} {receiver payer : Text} {deadline : Int}
    (hpayer : payer ≠ (m.pool i).account) :
    (∃ x m', buy run i (some amount) (some least) receiver deadline payer m = .ok x m') ↔
      (∃ q, BuyAdmitted m (m.pool i) amount least receiver deadline payer q) ∧
        amount ≤ m.held payer := by
  constructor
  · rintro ⟨x, m', haccepted⟩
    obtain ⟨d, hd, -, u, hmoves, -⟩ := decided_of_ok hrun (fun _ => rfl) haccepted
    obtain ⟨_, _, _, _, q, ha, hl, hr, hp, hadmitted, rfl⟩ := decideBuy_eq_ok_iff.mp hd
    cases ha
    cases hl
    cases hr
    cases hp
    refine ⟨⟨q, hadmitted⟩, ?_⟩
    obtain ⟨-, -, hsum, -⟩ := PoolState.quoteBuy_eq_ok hadmitted.quoted
    have hpositive := hadmitted.positive
    obtain ⟨v₁, v₂, hfirst, hsecond, -⟩ := MarketView.movesAll_append_append.mp hmoves
    have hpaid : 0 < q.net + q.fee := by omega
    have hcovered := MarketView.covered_of_payments hpayer hpaid hfirst hsecond
    rw [hsum] at hcovered
    exact hcovered
  · rintro ⟨⟨q, hadmitted⟩, hheld⟩
    have hplan : decideBuy (some amount) (some least) receiver deadline payer m (m.pool i) = .ok _ :=
      decideBuy_eq_ok_iff.mpr ⟨_, _, _, _, q, rfl, rfl, rfl, rfl, hadmitted, rfl⟩
    obtain ⟨w, hmoves⟩ := exists_moves_of_buy hready hadmitted hheld
    have hsound := sound_buy hready.toSafe hplan hmoves (by simpa using hpayer)
    have hsucceeds : Succeeds (buy run i (some amount) (some least) receiver deadline payer) m _ :=
      inPool_succeeds hrun (fun _ => rfl) hready.idle hplan hmoves hsound.unbroken
    obtain ⟨x, m', haccepted, -⟩ := hsucceeds.exists_ok
    exact ⟨x, m', haccepted⟩

theorem sell_accepted_iff {tokens least : Int} {receiver seller : Text} {deadline : Int} :
    (∃ x m', sell run i (some tokens) (some least) receiver deadline seller m = .ok x m') ↔
      ∃ q, SellAdmitted m (m.pool i) tokens least receiver deadline seller q := by
  constructor
  · rintro ⟨x, m', haccepted⟩
    obtain ⟨d, hd, -⟩ := decided_of_ok hrun (fun _ => rfl) haccepted
    obtain ⟨_, _, _, _, q, ht, hl, hr, hs, hadmitted, -⟩ := decideSell_eq_ok_iff.mp hd
    cases ht
    cases hl
    cases hr
    cases hs
    exact ⟨q, hadmitted⟩
  · rintro ⟨q, hadmitted⟩
    have hplan : decideSell (some tokens) (some least) receiver deadline seller m (m.pool i) =
        .ok _ := decideSell_eq_ok_iff.mpr ⟨_, _, _, _, q, rfl, rfl, rfl, rfl, hadmitted, rfl⟩
    obtain ⟨w, hmoves⟩ := exists_moves_of_sell hready hadmitted
    have hsound := sound_sell hready.toSafe hplan hmoves
    have hsucceeds : Succeeds (sell run i (some tokens) (some least) receiver deadline seller) m _ :=
      inPool_succeeds hrun (fun _ => rfl) hready.idle hplan hmoves hsound.unbroken
    obtain ⟨x, m', haccepted, -⟩ := hsucceeds.exists_ok
    exact ⟨x, m', haccepted⟩

end Trade

/-- On a pool in order, and while no callback interferes, a trade succeeds exactly when it is admitted
at its quote and, for a buy, the sender holds what is spent. -/
theorem trades_accepted_iff {run : Executor} {i : Nat} {m : Market} (hready : m.Ready i)
    (hrun : run.Direct m.callbacks) :
    (∀ (amount least : Int) (receiver : Text) (deadline : Int) (payer : Text),
      payer ≠ (m.pool i).account →
      ((∃ x m', buy run i (some amount) (some least) receiver deadline payer m = .ok x m') ↔
        (∃ q, BuyAdmitted m (m.pool i) amount least receiver deadline payer q) ∧
          amount ≤ m.held payer)) ∧
    ∀ (tokens least : Int) (receiver : Text) (deadline : Int) (seller : Text),
      (∃ x m', sell run i (some tokens) (some least) receiver deadline seller m = .ok x m') ↔
        ∃ q, SellAdmitted m (m.pool i) tokens least receiver deadline seller q :=
  ⟨fun _ _ _ _ _ hpayer => buy_accepted_iff hready hrun hpayer,
    fun _ _ _ _ _ => sell_accepted_iff hready hrun⟩

/-- A market whose pool is below its threshold, with a holder of both the asset and the token. -/
def sampleTrading : Market where
  now := 0
  symbol := "asset"
  table := (BalanceTable.empty.put ⟨"pool", "asset"⟩ 37 (by decide)).put
    ⟨"trader", "asset"⟩ 20 (by decide)
  tokens := [⟨{ name := "token", supply := 12000000000000000000, live := [1] },
    some (BalanceTable.empty.put ⟨"trader", "token"⟩ 12000000000000000000 (by decide))⟩]
  capabilities := [⟨0, 1, .null⟩]
  pools := [{
    model := "model", treasury := "treasury", account := "pool", capability := 0
    state := {
      terms := { sampleFlatTerms with tradeFee := 1000, tradeFee_le := by decide }
      reserve := 37 }
    supply := 12000000000000000000, events := [] }]

theorem sampleTrading_ready : sampleTrading.Ready 0 where
  listed := by decide
  lawful := by decide
  backed := by decide
  apart := nofun
  account_named := by decide
  treasury_named := by decide
  live := by decide
  idle := by decide

theorem trades_accepted_in_sampleTrading :
    (∃ x m', buy apply 0 (some 20) (some 6000000000000000000) (some "trader") 0 (some "trader")
      sampleTrading = .ok x m') ∧
    ∃ x m', sell apply 0 (some 5000000000000000000) (some 14) (some "trader") 0 (some "trader")
      sampleTrading = .ok x m' := by
  obtain ⟨hbuy, hsell⟩ := trades_accepted_iff sampleTrading_ready (apply_direct _)
  have hbought : BuyAdmitted sampleTrading (sampleTrading.pool 0) 20 6000000000000000000 "trader" 0
      "trader" ⟨20, 2, 18, 6000000000000000000, 6000000000000000000, 0, false⟩ :=
    ⟨⟨rfl, by decide, by decide, by decide, by decide, by decide⟩, nofun, rfl, by decide⟩
  have hsold : SellAdmitted sampleTrading (sampleTrading.pool 0) 5000000000000000000 14 "trader" 0
      "trader" ⟨5000000000000000000, 15, 1, 14⟩ :=
    ⟨⟨rfl, by decide, by decide, by decide, by decide, by decide⟩, by decide, by decide, rfl, nofun,
      by decide, by decide, by decide⟩
  exact ⟨(hbuy 20 _ "trader" 0 "trader" (by decide)).mpr ⟨⟨_, hbought⟩, by decide⟩,
    (hsell _ _ "trader" 0 "trader").mpr ⟨_, hsold⟩⟩

end CurveMarket
