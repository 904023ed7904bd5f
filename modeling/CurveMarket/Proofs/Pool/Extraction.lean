import Mathlib.Algebra.Order.Ring.Pow
import CurveMarket.Proofs.Curve.Trade
import CurveMarket.Proofs.Pool.Decision

/-! # No run of trades drains a reserve

Along a run of trades the reserve keeps to the curve through the first supply and reserve, or stays
on its better side, but for two units in the working scale per trade. Where the supply is back at
its first value or above, the reserve is short of its first value by less than one unit, and so not
short at all.
-/

namespace CurveMarket

open CurveMarket.Action Market Curve

/-- The share of the reserve that one trade may lose against the curve. -/
noncomputable def tradeLoss : ℝ := (2 : Nat) / Fixed.work

theorem tradeLoss_nonneg : 0 ≤ tradeLoss := div_nonneg (Nat.cast_nonneg 2) Fixed.work_pos.le

theorem tradeLoss_le_one : tradeLoss ≤ 1 := by
  unfold tradeLoss
  rw [div_le_one Fixed.work_pos]
  exact_mod_cast (by decide : 2 ≤ Fixed.work)

/-! ## One trade -/

/-- A supply and a reserve that come after others as the curve asks, or better, but for the loss of
one trade. -/
structure CurveMove (ratio : Nat) (supply reserve supply' reserve' : Int) : Prop where
  supply_pos : 0 < supply'
  kept : (reserve : ℝ) * reserveFactor ratio supply supply' * (1 - tradeLoss) ≤ reserve'

theorem CurveMove.of_le {ratio : Nat} {supply reserve reserve' : Int} (hsupply : 0 < supply)
    (hreserve : 0 ≤ reserve) (h : reserve ≤ reserve') :
    CurveMove ratio supply reserve supply reserve' := by
  have hreserveReal : (0 : ℝ) ≤ reserve := Int.cast_nonneg hreserve
  refine ⟨hsupply, ?_⟩
  rw [reserveFactor_self ratio (Int.cast_pos.mpr hsupply), mul_one]
  calc (reserve : ℝ) * (1 - tradeLoss) ≤ reserve :=
        mul_le_of_le_one_right hreserveReal (sub_le_self 1 tradeLoss_nonneg)
    _ ≤ reserve' := Int.cast_le.mpr h

/-- No trade on the curve moves more than half of the reserve. -/
theorem two_mul_tradeLimit_le {s : PoolState} (h : 0 ≤ s.reserve) :
    2 * s.tradeLimit ≤ s.reserve := by
  have hcap : (s.terms.tradeCap : Int) ≤ 5000 := Int.ofNat_le.mpr s.terms.tradeCap_le
  have hproduct := Int.mul_le_mul_of_nonneg_left hcap h
  have hquotient : s.reserve * s.terms.tradeCap / bpsWhole * bpsWhole ≤
      s.reserve * s.terms.tradeCap := Int.ediv_mul_le _ (by decide)
  have hwhole : (bpsWhole : Int) = 10000 := rfl
  unfold PoolState.tradeLimit
  rw [hwhole] at hquotient ⊢
  omega

theorem lt_supply_of_payoutFor {supply reserve tokens ratio : Nat}
    (hsome : payoutFor supply reserve tokens ratio ≠ 0)
    (hrest : payoutFor supply reserve tokens ratio < reserve) : tokens < supply := by
  unfold payoutFor at hsome hrest
  split at hsome
  · exact absurd rfl hsome
  · rename_i hsold
    split at hsome
    · rename_i hall
      rw [if_neg hsold, if_pos hall] at hrest
      omega
    · omega

section Decide

variable {m : Market} {p : Pool} {u : MarketView} {d : PoolPlan Int}
  (hgraduated : p.state.isGraduated = true) (hreserve : 0 ≤ p.state.reserve)
include hgraduated hreserve

theorem curveMove_buy {amount minimum : Option Int} {recipient sender : Option Text}
    {deadline : Int} (hsupply : 0 < m.supplyOf p.capability)
    (h : decideBuy amount minimum recipient deadline sender m p = .ok d)
    (hmoves : m.view.MovesAll d.effects u) :
    CurveMove p.state.terms.ratio (m.supplyOf p.capability) p.state.reserve
      (u.supplyOf p.capability) d.post.reserve := by
  obtain ⟨payer, receiver, a, q, -, -, hlimit, hq, hout, heffects, hpost, -⟩ := decideBuy_eq_ok h
  obtain ⟨hnet, hfee, hsum, hcurve⟩ := PoolState.quoteBuy_eq_ok hq
  obtain ⟨n, r, deposit, hn, hr, hd, htokens⟩ := hcurve hgraduated
  have hwithin := hlimit hgraduated
  have hhalf := two_mul_tradeLimit_le hreserve
  have hafter : u.supplyOf p.capability = m.supplyOf p.capability + q.tokensOut := by
    rw [heffects] at hmoves
    rw [MarketView.supplyOf_of_mint hmoves, view_supplyOf]
  have hpostReserve : d.post.reserve = p.state.reserve + q.net := by
    rw [hpost]
    rfl
  have hsome : tokensFor n r deposit p.state.terms.ratio ≠ 0 := by omega
  have hpos := (pos_of_tokensFor hsome).2
  rw [hn] at hsupply
  have hfactor : (r : ℝ) * reserveFactor p.state.terms.ratio n
      (n + tokensFor n r deposit p.state.terms.ratio) ≤ r + deposit :=
    reserveFactor_le_of_buy (Int.natCast_pos.mp hsupply) hpos (by omega)
      p.state.terms.ratio_pos p.state.terms.ratio_le_ppm
  have hnonneg : 0 ≤ reserveFactor p.state.terms.ratio n
      (n + tokensFor n r deposit p.state.terms.ratio) :=
    reserveFactor_nonneg _ (Nat.cast_nonneg n) (by positivity)
  rw [hafter, hpostReserve, hn, hr, hd, htokens]
  refine ⟨by omega, ?_⟩
  push_cast
  calc (r : ℝ) * reserveFactor p.state.terms.ratio n
        (n + tokensFor n r deposit p.state.terms.ratio) * (1 - tradeLoss)
      ≤ r * reserveFactor p.state.terms.ratio n
        (n + tokensFor n r deposit p.state.terms.ratio) :=
        mul_le_of_le_one_right (mul_nonneg (Nat.cast_nonneg r) hnonneg)
          (sub_le_self 1 tradeLoss_nonneg)
    _ ≤ r + deposit := hfactor

/-- What a sell on the curve does. It pays at most half of the reserve and leaves some of the
supply. -/
theorem exists_curveSell {tokens minimum : Option Int} {recipient sender : Option Text}
    {deadline : Int} (h : decideSell tokens minimum recipient deadline sender m p = .ok d)
    (hmoves : m.view.MovesAll d.effects u) :
    ∃ n r sold : Nat, m.supplyOf p.capability = n ∧ p.state.reserve = r ∧
      tokens = some (sold : Int) ∧ 0 < sold ∧ sold < n ∧
      2 * payoutFor n r sold p.state.terms.ratio ≤ r ∧
      u.supplyOf p.capability = (n - sold : Nat) ∧
      d.post.reserve = (r - payoutFor n r sold p.state.terms.ratio : Nat) ∧
      d.post.terms = p.state.terms := by
  obtain ⟨seller, receiver, t, q, ⟨htokens, hpositive⟩, hout, hlimit, hremains, hq, heffects, hpost,
    -⟩ := decideSell_eq_ok h
  obtain ⟨-, -, -, hwithin, hcurve⟩ := PoolState.quoteSell_eq_ok hq
  obtain ⟨n, r, sold, hn, hr, rfl, hpayout⟩ := hcurve hgraduated
  have hhalf := two_mul_tradeLimit_le hreserve
  have hcapped := hlimit hgraduated
  have hafter : u.supplyOf p.capability = m.supplyOf p.capability - sold := by
    rw [heffects] at hmoves
    rw [MarketView.supplyOf_of_burn hmoves, view_supplyOf]
  have hpostReserve : d.post.reserve = p.state.reserve - q.reserveOut := by
    rw [hpost]
    rfl
  rw [hr, hpayout] at hremains hwithin
  rw [hpayout] at hout
  have hpos : 0 < (r : Int) := by omega
  have hsold : sold < n :=
    lt_supply_of_payoutFor (Int.natCast_ne_zero.mp hout) (Int.ofNat_lt.mp (hremains hpos))
  refine ⟨n, r, sold, hn, hr, htokens, by omega, hsold, by omega, by omega, by omega, ?_⟩
  rw [hpost]
  rfl

theorem curveMove_sell {tokens minimum : Option Int} {recipient sender : Option Text}
    {deadline : Int} (h : decideSell tokens minimum recipient deadline sender m p = .ok d)
    (hmoves : m.view.MovesAll d.effects u) :
    CurveMove p.state.terms.ratio (m.supplyOf p.capability) p.state.reserve
      (u.supplyOf p.capability) d.post.reserve := by
  obtain ⟨n, r, sold, hn, hr, -, -, hsold, hhalf, hafter, hpost, -⟩ :=
    exists_curveSell hgraduated hreserve h hmoves
  have hfactor : (r : ℝ) * reserveFactor p.state.terms.ratio n (n - sold) * (1 - 2 / Fixed.work) ≤
      r - payoutFor n r sold p.state.terms.ratio :=
    reserveFactor_le_of_sell hsold p.state.terms.ratio_pos
      p.state.terms.ratio_le_ppm hhalf
  rw [hafter, hpost, hn, hr]
  refine ⟨by omega, ?_⟩
  push_cast [hsold.le, payoutFor_le]
  exact hfactor

end Decide

/-! ## Accepted calls -/

def PoolCall.isTrade : PoolCall → Bool
  | buy .. | sell .. | depositFees .. => true
  | _ => false

section Decision

variable {i : Nat} {m : Market} {p : Pool} {u : MarketView} {c : PoolCall} {d : PoolPlan Unit}

theorem isMutating_of_isTrade (h : c.isTrade = true) : c.isMutating = true := by
  cases c with
  | buy => rfl
  | sell => rfl
  | depositFees => rfl
  | _ => cases h

theorem curveMove_trade (hgraduated : p.state.isGraduated = true) (hreserve : 0 ≤ p.state.reserve)
    (hsupply : 0 < m.supplyOf p.capability) (htrade : c.isTrade = true)
    (hc : c.decision i m p = some (.ok d)) (hmoves : m.view.MovesAll d.effects u) :
    d.post.terms.ratio = p.state.terms.ratio ∧
      CurveMove p.state.terms.ratio (m.supplyOf p.capability) p.state.reserve
        (u.supplyOf p.capability) d.post.reserve := by
  cases c with
  | buy amount minimum recipient deadline sender =>
      obtain ⟨d', hd', rfl⟩ := Check.map_eq_ok.mp (Option.some.inj hc)
      refine ⟨?_, curveMove_buy hgraduated hreserve hsupply hd' hmoves⟩
      obtain ⟨-, -, -, q, -, -, -, -, -, -, hpost, -⟩ := decideBuy_eq_ok hd'
      show d'.post.terms.ratio = _
      rw [hpost]
      rfl
  | sell tokens minimum recipient deadline sender =>
      obtain ⟨d', hd', rfl⟩ := Check.map_eq_ok.mp (Option.some.inj hc)
      refine ⟨?_, curveMove_sell hgraduated hreserve hd' hmoves⟩
      obtain ⟨-, -, -, q, -, -, -, -, -, -, hpost, -⟩ := decideSell_eq_ok hd'
      show d'.post.terms.ratio = _
      rw [hpost]
      rfl
  | depositFees amount sender =>
      obtain ⟨payer, a, -, ⟨-, hpos⟩, heffects, hpost, -⟩ :=
        decideDeposit_eq_ok (Option.some.inj hc)
      rw [heffects] at hmoves
      have hafter := MarketView.supplyOf_of_moves hmoves p.capability
      have hadded : d.post.reserve = p.state.reserve + a := by
        rw [hpost]
        rfl
      refine ⟨by rw [hpost]; rfl, ?_⟩
      rw [hafter, view_supplyOf]
      exact .of_le hsupply hreserve (by omega)
  | _ => cases htrade

theorem decision_keeps (hmutating : c.isMutating = true) (htrade : c.isTrade = false)
    (hc : c.decision i m p = some (.ok d)) (hmoves : m.view.MovesAll d.effects u) :
    d.post.reserve = p.state.reserve ∧ u.supplyOf p.capability = m.supplyOf p.capability := by
  have hquiet (heffects : d.effects = []) :
      u.supplyOf p.capability = m.supplyOf p.capability := by
    rw [heffects] at hmoves
    cases hmoves
    exact view_supplyOf m p.capability
  cases c with
  | setParameters ratio fee =>
      obtain ⟨heffects, -, t, -, hpost⟩ := decideParameters_eq_ok (Option.some.inj hc)
      exact ⟨by rw [hpost], hquiet heffects⟩
  | setTradeCap cap =>
      obtain ⟨heffects, -, t, -, hpost⟩ := decideTradeCap_eq_ok (Option.some.inj hc)
      exact ⟨by rw [hpost], hquiet heffects⟩
  | pause =>
      obtain ⟨heffects, -, hpost⟩ := decidePause_eq_ok (Option.some.inj hc)
      exact ⟨by rw [hpost]; rfl, hquiet heffects⟩
  | unpause =>
      obtain ⟨heffects, -, hpost⟩ := decideUnpause_eq_ok (Option.some.inj hc)
      exact ⟨by rw [hpost]; rfl, hquiet heffects⟩
  | withdrawTreasury amount =>
      obtain ⟨a, -, -, heffects, hpost, -⟩ := decideWithdrawal_eq_ok (Option.some.inj hc)
      rw [heffects] at hmoves
      have hafter := MarketView.supplyOf_of_moves hmoves p.capability
      rw [view_supplyOf] at hafter
      exact ⟨by rw [hpost], hafter⟩
  | buy => cases htrade
  | sell => cases htrade
  | depositFees => cases htrade
  | _ => cases hmutating

end Decision

/-! ## Runs -/

/-- A run of accepted calls on pool `i` in which trades are counted. The other calls leave the ratio
of the pool as it is. Others do what they like, except touch the pool or mint or burn its token. -/
inductive TradeRun (i : Nat) (m₀ : Market) : Nat → Market → Prop
  | start : TradeRun i m₀ 0 m₀
  | trade {n : Nat} {m m' : Market} {c : PoolCall} {reply : Reply} (before : TradeRun i m₀ n m)
      (trades : c.isTrade = true) (accepted : servePool apply i c m = .ok reply m') :
      TradeRun i m₀ (n + 1) m'
  | manage {n : Nat} {m m' : Market} {c : PoolCall} {reply : Reply} (before : TradeRun i m₀ n m)
      (mutating : c.isMutating = true) (manages : c.isTrade = false)
      (accepted : servePool apply i c m = .ok reply m')
      (ratio : (m'.pool i).state.terms.ratio = (m.pool i).state.terms.ratio) :
      TradeRun i m₀ n m'
  | others {n : Nat} {m m' : Market} (before : TradeRun i m₀ n m) (pool : m'.pool i = m.pool i)
      (supply : m'.supplyOf (m.pool i).capability = m.supplyOf (m.pool i).capability) :
      TradeRun i m₀ n m'

/-- What a run of `n` trades keeps of a graduated pool. -/
structure KeepsReserve (i : Nat) (m₀ : Market) (n : Nat) (m : Market) : Prop where
  graduated : (m.pool i).state.isGraduated = true
  reserve_nonneg : 0 ≤ (m.pool i).state.reserve
  capability : (m.pool i).capability = (m₀.pool i).capability
  ratio : (m.pool i).state.terms.ratio = (m₀.pool i).state.terms.ratio
  supply_pos : 0 < m.supplyOf (m.pool i).capability
  kept : ((m₀.pool i).state.reserve : ℝ) *
    reserveFactor (m₀.pool i).state.terms.ratio (m₀.supplyOf (m₀.pool i).capability)
      (m.supplyOf (m.pool i).capability) * (1 - tradeLoss) ^ n ≤ (m.pool i).state.reserve

section Run

variable {i n : Nat} {m₀ m m' : Market}

theorem accepted_eq {c : PoolCall} {reply : Reply}
    (hgraduated : (m.pool i).state.isGraduated = true) (hmutating : c.isMutating = true)
    (h : servePool apply i c m = .ok reply m') :
    ∃ d u, c.decision i m (m.pool i) = some (.ok d) ∧ m.view.MovesAll d.effects u ∧
      (m'.pool i).state = d.post ∧ (m'.pool i).capability = (m.pool i).capability ∧
      (∀ t, m'.supplyOf t = u.supplyOf t) ∧ d.post.isGraduated = true ∧ 0 ≤ d.post.reserve := by
  obtain ⟨d, hc, hcommits⟩ := commits_of_accepted hmutating h
  have hlisted : i < m.view.pools.length :=
    lt_length_of_getD (fun x : Pool => x.state.isGraduated = true) hgraduated (by decide)
  obtain ⟨-, u, hmoves, hnone, hu, hpool⟩ := hcommits.exists_moves hlisted
  rw [view_pool, view_pool] at hpool
  rw [PoolState.stepViolations_eq_nil] at hnone
  rcases hnone with ⟨hlawful, hstays, -⟩
  rw [PoolState.violations_eq_nil] at hlawful
  refine ⟨d, u, hc, hmoves, ?_, ?_, fun t => ?_, hstays hgraduated, hlawful.1⟩
  · rw [hpool]
    rfl
  · rw [hpool]
    rfl
  · rw [← view_supplyOf, hu]
    rfl

theorem KeepsReserve.start (hgraduated : (m₀.pool i).state.isGraduated = true)
    (hreserve : 0 ≤ (m₀.pool i).state.reserve)
    (hsupply : 0 < m₀.supplyOf (m₀.pool i).capability) : KeepsReserve i m₀ 0 m₀ := by
  refine ⟨hgraduated, hreserve, rfl, rfl, hsupply, ?_⟩
  rw [reserveFactor_self _ (Int.cast_pos.mpr hsupply)]
  simp

theorem KeepsReserve.trade (h : KeepsReserve i m₀ n m)
    (hsupply₀ : 0 < m₀.supplyOf (m₀.pool i).capability) {c : PoolCall} {reply : Reply}
    (htrade : c.isTrade = true) (haccepted : servePool apply i c m = .ok reply m') :
    KeepsReserve i m₀ (n + 1) m' := by
  obtain ⟨d, u, hc, hmoves, hstate, hcapability, hsupply, hgraduated, hreserve⟩ :=
    accepted_eq h.graduated (isMutating_of_isTrade htrade) haccepted
  obtain ⟨hratio, hpos, hmove⟩ :=
    curveMove_trade h.graduated h.reserve_nonneg h.supply_pos htrade hc hmoves
  rw [← hsupply] at hpos hmove
  have hfactor : 0 ≤ reserveFactor (m.pool i).state.terms.ratio
      (m.supplyOf (m.pool i).capability) (m'.supplyOf (m.pool i).capability) :=
    reserveFactor_nonneg _ (Int.cast_nonneg h.supply_pos.le) (Int.cast_nonneg hpos.le)
  have hchain := reserveFactor_mul (m₀.pool i).state.terms.ratio (Int.cast_pos.mpr hsupply₀)
    (Int.cast_pos.mpr h.supply_pos) (Int.cast_pos.mpr hpos)
  have hloss : 0 ≤ 1 - tradeLoss := sub_nonneg.mpr tradeLoss_le_one
  refine ⟨?_, ?_, ?_, ?_, ?_, ?_⟩
  · rw [hstate]
    exact hgraduated
  · rw [hstate]
    exact hreserve
  · rw [hcapability, h.capability]
  · rw [hstate, hratio, h.ratio]
  · rw [hcapability]
    exact hpos
  · have hkept := mul_le_mul_of_nonneg_right h.kept (mul_nonneg hfactor hloss)
    rw [h.ratio] at hkept hmove
    rw [hcapability, hstate, ← hchain, pow_succ]
    linarith

theorem KeepsReserve.of_same (h : KeepsReserve i m₀ n m)
    (hgraduated : (m'.pool i).state.isGraduated = true)
    (hreserve : (m'.pool i).state.reserve = (m.pool i).state.reserve)
    (hcapability : (m'.pool i).capability = (m.pool i).capability)
    (hratio : (m'.pool i).state.terms.ratio = (m.pool i).state.terms.ratio)
    (hsupply : m'.supplyOf (m.pool i).capability = m.supplyOf (m.pool i).capability) :
    KeepsReserve i m₀ n m' := by
  refine ⟨hgraduated, ?_, ?_, ?_, ?_, ?_⟩
  · rw [hreserve]
    exact h.reserve_nonneg
  · rw [hcapability, h.capability]
  · rw [hratio, h.ratio]
  · rw [hcapability, hsupply]
    exact h.supply_pos
  · rw [hcapability, hsupply, hreserve]
    exact h.kept

theorem TradeRun.keepsReserve (h : TradeRun i m₀ n m)
    (hgraduated : (m₀.pool i).state.isGraduated = true)
    (hreserve : 0 ≤ (m₀.pool i).state.reserve)
    (hsupply : 0 < m₀.supplyOf (m₀.pool i).capability) : KeepsReserve i m₀ n m := by
  induction h with
  | start => exact .start hgraduated hreserve hsupply
  | trade _ trades accepted ih => exact ih.trade hsupply trades accepted
  | manage _ mutating manages accepted ratio ih =>
      obtain ⟨d, u, hc, hmoves, hstate, hcapability, hsame, hstays, -⟩ :=
        accepted_eq ih.graduated mutating accepted
      obtain ⟨hkeeps, hsupplied⟩ := decision_keeps mutating manages hc hmoves
      refine ih.of_same ?_ ?_ hcapability ratio ?_
      · rw [hstate]
        exact hstays
      · rw [hstate]
        exact hkeeps
      · rw [hsame]
        exact hsupplied
  | others _ pool supply ih =>
      refine ih.of_same ?_ ?_ ?_ ?_ supply
      · rw [pool]
        exact ih.graduated
      · rw [pool]
      · rw [pool]
      · rw [pool]

end Run

/-- No run of trades that ends with the first supply or more ends with less than the first reserve.
The bound keeps what its trades may lose together below one unit. -/
theorem reserve_le_of_tradeRun {i n : Nat} {m₀ m : Market} (h : TradeRun i m₀ n m)
    (hgraduated : (m₀.pool i).state.isGraduated = true)
    (hlawful : (m₀.pool i).state.violations = [])
    (hsupply : 0 < m₀.supplyOf (m₀.pool i).capability)
    (hbound : n * (m₀.pool i).state.reserve ≤ 10 ^ 30)
    (hback : m₀.supplyOf (m₀.pool i).capability ≤ m.supplyOf (m.pool i).capability) :
    (m₀.pool i).state.reserve ≤ (m.pool i).state.reserve := by
  have hreserve := (PoolState.violations_eq_nil.mp hlawful).1
  have hreserveReal : (0 : ℝ) ≤ (m₀.pool i).state.reserve := Int.cast_nonneg hreserve
  have hfactor : 1 ≤ reserveFactor (m₀.pool i).state.terms.ratio
      (m₀.supplyOf (m₀.pool i).capability) (m.supplyOf (m.pool i).capability) :=
    one_le_reserveFactor _ (Int.cast_pos.mpr hsupply) (Int.cast_le.mpr hback)
  have hloss : 0 ≤ (1 - tradeLoss) ^ n := pow_nonneg (sub_nonneg.mpr tradeLoss_le_one) n
  have hbernoulli : 1 - n * tradeLoss ≤ (1 - tradeLoss) ^ n := by
    have hpower := one_add_mul_le_pow (a := -tradeLoss) (by linarith [tradeLoss_le_one]) n
    calc 1 - n * tradeLoss = 1 + n * -tradeLoss := by ring
      _ ≤ (1 + -tradeLoss) ^ n := hpower
      _ = (1 - tradeLoss) ^ n := by rw [sub_eq_add_neg]
  have hlost : n * (m₀.pool i).state.reserve * tradeLoss < 1 := by
    have hboundReal : (n : ℝ) * (m₀.pool i).state.reserve ≤ 10 ^ 30 := by exact_mod_cast hbound
    have hscale : (10 : ℝ) ^ 30 * tradeLoss < 1 := by
      unfold tradeLoss Fixed.work
      norm_num
    exact (mul_le_mul_of_nonneg_right hboundReal tradeLoss_nonneg).trans_lt hscale
  have hkept : ((m₀.pool i).state.reserve : ℝ) - n * (m₀.pool i).state.reserve * tradeLoss ≤
      (m.pool i).state.reserve := by
    calc ((m₀.pool i).state.reserve : ℝ) - n * (m₀.pool i).state.reserve * tradeLoss
        = (m₀.pool i).state.reserve * 1 * (1 - n * tradeLoss) := by ring
      _ ≤ (m₀.pool i).state.reserve * 1 * (1 - tradeLoss) ^ n :=
          mul_le_mul_of_nonneg_left hbernoulli (by linarith)
      _ ≤ _ := mul_le_mul_of_nonneg_right (mul_le_mul_of_nonneg_left hfactor hreserveReal) hloss
      _ ≤ (m.pool i).state.reserve := (h.keepsReserve hgraduated hreserve hsupply).kept
  have hshort : ((m₀.pool i).state.reserve : ℝ) < (m.pool i).state.reserve + 1 := by linarith
  have hwhole : (m₀.pool i).state.reserve < (m.pool i).state.reserve + 1 := by exact_mod_cast hshort
  exact Int.lt_add_one_iff.mp hwhole

def sampleTerms : Terms := { (default : Terms) with
  ratio := 200000, minRatio_le := by decide, ratio_le := by decide
  tradeCap := 2000, tradeCap_pos := by decide, tradeCap_le := by decide }

/-- A market whose pool is on the curve, with a trader who can buy and sell. -/
def sampleCurve : Market where
  now := 0
  symbol := "asset"
  table := (BalanceTable.empty.put ⟨"pool", "asset"⟩ 1000000 (by decide)).put
    ⟨"trader", "asset"⟩ 1000 (by decide)
  tokens := [⟨{ name := "token", supply := 1000000000000000000000, live := [1] },
    some (BalanceTable.empty.put ⟨"trader", "token"⟩ 1000000000000000000000 (by decide))⟩]
  capabilities := [⟨0, 1, .null⟩]
  pools := [{
    model := "model", treasury := "treasury", account := "pool", capability := 0
    state := { terms := sampleTerms, reserve := 1000000, graduated := .bool true }
    supply := 1000000000000000000000, events := [] }]

def sampleBuy : Action Market Reply :=
  servePool apply 0 (.buy (some 1000) (some 0) (some "trader") 0 (some "trader"))

/-- A sale of a quarter of the tokens that the sample buy mints. -/
def sampleSell : Action Market Reply :=
  servePool apply 0
    (.sell (some 50000000000000000) (some 0) (some "trader") 0 (some "trader"))

theorem reserve_le_of_sample_run :
    (sampleCurve.pool 0).state.reserve ≤
      ((sampleSell.stateAfter (sampleBuy.stateAfter sampleCurve)).pool 0).state.reserve := by
  obtain ⟨bought, hbuy⟩ := exists_ok_of_outcome (a := sampleBuy) (s := sampleCurve)
    (by decide +kernel)
  obtain ⟨sold, hsell⟩ := exists_ok_of_outcome (a := sampleSell)
    (s := sampleBuy.stateAfter sampleCurve) (by decide +kernel)
  exact reserve_le_of_tradeRun (.trade (.trade .start rfl hbuy) rfl hsell) (by decide)
    (by decide) (by decide) (by decide) (by decide +kernel)

end CurveMarket
