import CurveMarket.Proofs.Pool.Issuance

/-! # No curve is emptied

Burning less than the whole supply leaves something of the reserve, since the power of a positive
base is never rounded to zero. The whole supply would free the whole reserve, which is more than one
trade may move. So a pool on the curve burns no last token, and a reserve that is there stays there.
-/

namespace CurveMarket

open CurveMarket.Action Market

/-! ## One payout -/

namespace Curve

/-- The unsold part of a supply is a positive factor, however small. -/
theorem remainder_pos {supply tokens : Nat} (h : tokens < supply) (ratio : Nat) :
    0 < remainder supply tokens ratio := by
  have hsold : tokens * Fixed.one / supply < Fixed.one :=
    Nat.div_lt_of_lt_mul (Nat.mul_lt_mul_of_pos_right h (by decide))
  exact Fixed.powerUp_pos (Nat.sub_pos_of_lt hsold) _

theorem payoutFor_lt {supply reserve tokens : Nat} (htokens : tokens < supply)
    (hreserve : 0 < reserve) (ratio : Nat) : payoutFor supply reserve tokens ratio < reserve := by
  unfold payoutFor
  split
  · exact hreserve
  · have hkept := remainder_pos htokens ratio
    have hshare : Fixed.one - remainder supply tokens ratio < Fixed.one :=
      Nat.sub_lt (by decide) hkept
    rw [if_neg htokens.ne]
    refine Nat.lt_of_le_of_lt (Nat.min_le_left ..) (Nat.div_lt_of_lt_mul ?_)
    rw [Nat.mul_comm]
    exact Nat.mul_lt_mul_of_pos_right hshare hreserve

theorem sell_lt {supply reserve tokens ratio : Int} (hnonneg : 0 ≤ tokens)
    (htokens : tokens < supply) (hreserve : 0 < reserve) (hmin : minRatio ≤ ratio)
    (hmax : ratio ≤ maxRatio) :
    ∃ out : Nat, sell (some supply) (some reserve) (some tokens) (some ratio) = .ok out ∧
      out < reserve := by
  have hfloor : 0 < minRatio := by decide
  have hceiling : maxRatio ≤ ppm := by decide
  obtain ⟨n, rfl⟩ := Int.eq_ofNat_of_zero_le (by omega : 0 ≤ supply)
  obtain ⟨r, rfl⟩ := Int.eq_ofNat_of_zero_le hreserve.le
  obtain ⟨t, rfl⟩ := Int.eq_ofNat_of_zero_le hnonneg
  obtain ⟨c, rfl⟩ := Int.eq_ofNat_of_zero_le (by omega : 0 ≤ ratio)
  refine ⟨payoutFor n r t c, ?_, ?_⟩
  · unfold sell
    rw [check_of_ratio n r t (by omega) (by omega)]
    rfl
  · exact Int.ofNat_lt.mpr (payoutFor_lt (by omega) (by omega) c)

end Curve

/-! ## Calls and runs -/

/-- A lawful pool on the curve whose token has a supply. -/
structure Market.Live (m : Market) (i : Nat) : Prop where
  graduated : (m.pool i).state.isGraduated = true
  lawful : (m.pool i).state.violations = []
  supplied : 0 < m.supplyOf (m.pool i).capability

section Live

variable {i : Nat} {m m' : Market}

theorem Market.Live.reserve_nonneg (h : m.Live i) : 0 ≤ (m.pool i).state.reserve :=
  (PoolState.violations_eq_nil.mp h.lawful).1

theorem Market.Live.of_same (h : m.Live i) (hpool : m'.pool i = m.pool i)
    (hsupply : m'.supplyOf (m.pool i).capability = m.supplyOf (m.pool i).capability) :
    m'.Live i := by
  refine ⟨?_, ?_, ?_⟩
  · rw [hpool]
    exact h.graduated
  · rw [hpool]
    exact h.lawful
  · rw [hpool, hsupply]
    exact h.supplied

theorem Market.Live.accepted (h : m.Live i) {c : PoolCall} {reply : Reply}
    (hmutating : c.isMutating = true) (haccepted : servePool apply i c m = .ok reply m') :
    m'.Live i ∧ (0 < (m.pool i).state.reserve → 0 < (m'.pool i).state.reserve) := by
  obtain ⟨d, u, hc, hmoves, hstate, hcapability, hsupply, hgraduated, -⟩ :=
    accepted_eq h.graduated hmutating haccepted
  have hfollows := follows_decision h.lawful hc
  have hsupplied : 0 < u.supplyOf (m.pool i).capability := by
    cases htrade : c.isTrade with
    | true =>
        have hmove := curveMove_trade h.graduated h.reserve_nonneg h.supplied htrade hc hmoves
        exact hmove.2.supply_pos
    | false =>
        rw [(decision_keeps hmutating htrade hc hmoves).2]
        exact h.supplied
  refine ⟨⟨?_, ?_, ?_⟩, ?_⟩
  · rw [hstate]
    exact hgraduated
  · rw [hstate]
    exact hfollows.lawful
  · rw [hcapability, hsupply]
    exact hsupplied
  · rw [hstate]
    exact hfollows.continued.positive

theorem Market.Live.step (h : m.Live i) (hstep : IssueStep i m m') :
    m'.Live i ∧ (0 < (m.pool i).state.reserve → 0 < (m'.pool i).state.reserve) := by
  cases hstep with
  | others hlisted hsupply _ =>
      have hpool := pool_eq_of_getElem? hlisted
      refine ⟨h.of_same hpool hsupply, ?_⟩
      rw [hpool]
      exact id
  | call c =>
      cases hmutating : c.isMutating with
      | false =>
          rw [servePool_read hmutating]
          exact ⟨h, id⟩
      | true =>
          unfold stateAfter
          cases hresult : servePool apply i c m with
          | ok reply m' => exact h.accepted hmutating hresult
          | error e m' =>
              have hview := view_of_rejected hmutating hresult
              have hpool : m'.pool i = m.pool i := pool_eq_of_view_eq hview i
              refine ⟨h.of_same hpool (supplyOf_eq_of_view_eq hview _), ?_⟩
              show _ → 0 < (m'.pool i).state.reserve
              rw [hpool]
              exact id

theorem Market.Live.run (h : m.Live i) (hrun : IssueRun i m m') :
    m'.Live i ∧ (0 < (m.pool i).state.reserve → 0 < (m'.pool i).state.reserve) := by
  induction hrun with
  | refl => exact ⟨h, id⟩
  | tail _ hstep ih =>
      obtain ⟨hlive, hkept⟩ := ih
      obtain ⟨hlive', hkept'⟩ := hlive.step hstep
      exact ⟨hlive', fun hpos => hkept' (hkept hpos)⟩

theorem Market.Live.sellOut_refused (h : m.Live i) (minimum : Option Int)
    (recipient : Option Text) (deadline : Int) (sender : Option Text) :
    ∃ e, (servePool apply i (.sell (some (m.supplyOf (m.pool i).capability)) minimum recipient
      deadline sender)).outcome m = .error e := by
  unfold outcome
  cases hresult : servePool apply i (.sell (some (m.supplyOf (m.pool i).capability)) minimum
      recipient deadline sender) m with
  | error e m' => exact ⟨e, rfl⟩
  | ok reply m' =>
      obtain ⟨d, u, hc, hmoves, -⟩ := accepted_eq h.graduated rfl hresult
      obtain ⟨d', hd', rfl⟩ := Check.map_eq_ok.mp (Option.some.inj hc)
      obtain ⟨n, r, sold, hn, -, htokens, -, hsold, -⟩ :=
        exists_curveSell h.graduated h.reserve_nonneg hd' hmoves
      have hall := Option.some.inj htokens
      omega

/-- Whatever run follows, a lawful pool on the curve that has a supply keeps some of it, and some of
a reserve that it has. A payout for less than the supply is less than the reserve, and a sell of the
whole supply is refused. -/
theorem curve_never_emptied (hgraduated : (m.pool i).state.isGraduated = true)
    (hlawful : (m.pool i).state.violations = [])
    (hsupply : 1 ≤ m.supplyOf (m.pool i).capability) (hrun : IssueRun i m m') :
    1 ≤ m'.supplyOf (m'.pool i).capability ∧
      (1 ≤ (m.pool i).state.reserve → 1 ≤ (m'.pool i).state.reserve) ∧
      (∀ (minimum : Option Int) (recipient : Option Text) (deadline : Int) (sender : Option Text),
        ∃ e, (servePool apply i (.sell (some (m'.supplyOf (m'.pool i).capability)) minimum recipient
          deadline sender)).outcome m' = .error e) ∧
      ∀ supply reserve tokens ratio : Int, 0 ≤ tokens → tokens < supply → 0 < reserve →
        minRatio ≤ ratio → ratio ≤ maxRatio →
        ∃ out : Nat, Curve.sell (some supply) (some reserve) (some tokens) (some ratio) = .ok out ∧
          out < reserve := by
  have hstart : m.Live i := ⟨hgraduated, hlawful, hsupply⟩
  obtain ⟨hlive, hkept⟩ := hstart.run hrun
  refine ⟨hlive.supplied, hkept, hlive.sellOut_refused, ?_⟩
  intro supply reserve tokens ratio hnonneg htokens hreserve hmin hmax
  exact Curve.sell_lt hnonneg htokens hreserve hmin hmax

end Live

def sampleCurveSold : Market :=
  (servePool apply 0 (.sell (some 1000000000000000000000) (some 0) (some "trader") 0
    (some "trader"))).stateAfter (sampleSell.stateAfter sampleCurve)

theorem sample_curve_never_emptied :
    1 ≤ sampleCurveSold.supplyOf 0 ∧ 1 ≤ (sampleCurveSold.pool 0).state.reserve ∧
      ∃ out : Nat, Curve.sell (some 3) (some 7) (some 2) (some 200000) = .ok out ∧
        (out : Int) < 7 := by
  have hrun : IssueRun 0 sampleCurve sampleCurveSold :=
    (Relation.ReflTransGen.single (.call _)).tail (.call _)
  obtain ⟨hsupply, hreserve, -, hpayout⟩ :=
    curve_never_emptied (by decide) (by decide) (by decide +kernel) hrun
  have hcapability : (sampleCurveSold.pool 0).capability = 0 := by decide +kernel
  rw [hcapability] at hsupply
  exact ⟨hsupply, hreserve (by decide +kernel), hpayout 3 7 2 200000 (by decide) (by decide)
    (by decide) (by decide) (by decide)⟩

/-- The sample market with its pool opened anew from a state on the curve that has no reserve. -/
def sampleUnseeded : Market :=
  (openPool (some "model") 0 none (some { terms := sampleTerms, graduated := .bool true })
    (some "treasury") none).stateAfter { sampleCurve with pools := [] }

/-- A lawful pool on the curve may start without a reserve, and then has none after a run either. -/
theorem unseeded_curve_stays_empty :
    (sampleUnseeded.pool 0).state.isGraduated = true ∧
      (sampleUnseeded.pool 0).state.violations = [] ∧
      1 ≤ sampleUnseeded.supplyOf (sampleUnseeded.pool 0).capability ∧
      IssueRun 0 sampleUnseeded ((servePool apply 0 .pause).stateAfter sampleUnseeded) ∧
      ¬ 1 ≤ (((servePool apply 0 .pause).stateAfter sampleUnseeded).pool 0).state.reserve :=
  ⟨by decide, by decide, by decide +kernel, .single (.call .pause), by decide +kernel⟩

end CurveMarket
