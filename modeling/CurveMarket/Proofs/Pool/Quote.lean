import CurveMarket.Proofs.Check

/-! # What quotes establish

A quote that is given parts an amount into a fee and the rest, and on the curve its tokens or its
payout are those of the curve at the state's reserve. No payout exceeds the reserve.
-/

namespace CurveMarket

open Check

theorem charge_eq_ok {amount rate : Option Int} {c : Charge} (h : charge amount rate = .ok c) :
    ∃ a : Nat, amount = some (a : Int) ∧ (c.net : Int) + c.fee = a := by
  unfold charge requireRate at h
  obtain ⟨a, ha, h⟩ := bind_eq_ok.mp h
  obtain ⟨r, hr, h⟩ := bind_eq_ok.mp h
  obtain ⟨r', hr', hr⟩ := bind_eq_ok.mp hr
  obtain ⟨hle, hr⟩ := test_eq_ok.mp hr
  cases hr
  cases h
  have hfee : feeOn a r ≤ a := feeOn_le (by omega)
  refine ⟨a, requireNonNegative_eq_ok.mp ha, ?_⟩
  show ((a - feeOn a r : Nat) : Int) + (feeOn a r : Int) = a
  omega

theorem fee_of_charge {amount rate : Option Int} {c : Charge} (h : charge amount rate = .ok c) :
    fee amount rate = .ok c.fee := by
  unfold charge at h
  obtain ⟨a, ha, h⟩ := bind_eq_ok.mp h
  obtain ⟨r, hr, h⟩ := bind_eq_ok.mp h
  cases h
  exact bind_eq_ok.mpr ⟨a, ha, bind_eq_ok.mpr ⟨r, hr, rfl⟩⟩

/-- A charge is never refused on an amount that is not negative, at a rate within the whole. -/
theorem charge_of_nonneg {amount : Int} {rate : Nat} (hamount : 0 ≤ amount)
    (hrate : rate ≤ bpsWhole) :
    charge (some amount) (some (rate : Int)) =
      .ok ⟨amount.toNat - feeOn amount.toNat rate, feeOn amount.toNat rate⟩ := by
  have ha : requireNonNegative "amount" (some amount) = .ok amount.toNat := by
    rw [requireNonNegative_eq_ok, Int.toNat_of_nonneg hamount]
  have hr : requireNonNegative "fee_bps" (some (rate : Int)) = .ok rate :=
    requireNonNegative_eq_ok.mpr rfl
  unfold charge requireRate
  refine bind_eq_ok.mpr ⟨_, ha, bind_eq_ok.mpr ⟨rate, ?_, rfl⟩⟩
  exact bind_eq_ok.mpr ⟨rate, hr, test_eq_ok.mpr ⟨by omega, rfl⟩⟩

namespace Curve

theorem requireRatio_eq_ok {ratio : Option Int} {c : Nat} (h : requireRatio ratio = .ok c) :
    ratio = some (c : Int) := by
  unfold requireRatio at h
  obtain ⟨r, hr, h⟩ := bind_eq_ok.mp h
  obtain ⟨hin, h⟩ := test_eq_ok.mp h
  cases h
  rw [requireInt_eq_ok.mp hr, Int.toNat_of_nonneg (by omega)]

theorem check_eq_ok {supply reserve amount ratio : Option Int} {o : Order}
    (h : Order.check supply reserve amount ratio = .ok o) :
    supply = some (o.supply : Int) ∧ reserve = some (o.reserve : Int) ∧
      amount = some (o.amount : Int) ∧ ratio = some (o.ratio : Int) := by
  unfold Order.check at h
  obtain ⟨s, hs, h⟩ := bind_eq_ok.mp h
  obtain ⟨r, hr, h⟩ := bind_eq_ok.mp h
  obtain ⟨a, ha, h⟩ := bind_eq_ok.mp h
  obtain ⟨c, hc, h⟩ := bind_eq_ok.mp h
  cases h
  exact ⟨requireNonNegative_eq_ok.mp hs, requireNonNegative_eq_ok.mp hr,
    requireNonNegative_eq_ok.mp ha, requireRatio_eq_ok hc⟩

theorem check_of_ratio (supply reserve amount : Nat) {ratio : Nat} (hpos : 0 < ratio)
    (hppm : ratio ≤ ppm) :
    Order.check (some (supply : Int)) (some (reserve : Int)) (some (amount : Int))
      (some (ratio : Int)) = .ok ⟨supply, reserve, amount, ratio⟩ := by
  have hratio : requireRatio (some (ratio : Int)) = .ok ratio := by
    unfold requireRatio
    exact bind_eq_ok.mpr ⟨_, rfl, test_eq_ok.mpr ⟨by omega, by rw [Int.toNat_natCast]; rfl⟩⟩
  unfold Order.check
  rw [hratio, requireNonNegative_eq_ok.mpr rfl, requireNonNegative_eq_ok.mpr rfl,
    requireNonNegative_eq_ok.mpr rfl]
  rfl

theorem check_ratio_pos {supply reserve amount ratio : Option Int} {o : Order}
    (h : Order.check supply reserve amount ratio = .ok o) : 0 < o.ratio := by
  unfold Order.check requireRatio at h
  obtain ⟨s, -, h⟩ := bind_eq_ok.mp h
  obtain ⟨r, -, h⟩ := bind_eq_ok.mp h
  obtain ⟨a, -, h⟩ := bind_eq_ok.mp h
  obtain ⟨c, hc, h⟩ := bind_eq_ok.mp h
  obtain ⟨v, -, hc⟩ := bind_eq_ok.mp hc
  obtain ⟨hin, hc⟩ := test_eq_ok.mp hc
  cases hc
  cases h
  show 0 < v.toNat
  omega

theorem buy_of_ratio (supply reserve deposit : Nat) {ratio : Nat} (hpos : 0 < ratio)
    (hppm : ratio ≤ ppm) :
    buy (some (supply : Int)) (some (reserve : Int)) (some (deposit : Int)) (some (ratio : Int)) =
      .ok (tokensFor supply reserve deposit ratio) := by
  unfold buy
  rw [check_of_ratio supply reserve deposit hpos hppm]
  rfl

theorem sell_of_ratio (supply reserve tokens : Nat) {ratio : Nat} (hpos : 0 < ratio)
    (hppm : ratio ≤ ppm) :
    sell (some (supply : Int)) (some (reserve : Int)) (some (tokens : Int)) (some (ratio : Int)) =
      .ok (payoutFor supply reserve tokens ratio) := by
  unfold sell
  rw [check_of_ratio supply reserve tokens hpos hppm]
  rfl

theorem buy_eq_ok {supply reserve deposit ratio : Int} {minted : Nat}
    (h : buy (some supply) (some reserve) (some deposit) (some ratio) = .ok minted) :
    ∃ o : Order, supply = o.supply ∧ reserve = o.reserve ∧ deposit = o.amount ∧ ratio = o.ratio ∧
      minted = tokensFor o.supply o.reserve o.amount o.ratio := by
  obtain ⟨o, ho, rfl⟩ := map_eq_ok.mp h
  obtain ⟨hs, hr, hd, hc⟩ := check_eq_ok ho
  exact ⟨o, Option.some.inj hs, Option.some.inj hr, Option.some.inj hd, Option.some.inj hc, rfl⟩

theorem sell_eq_ok {supply reserve tokens ratio : Int} {paid : Nat}
    (h : sell (some supply) (some reserve) (some tokens) (some ratio) = .ok paid) :
    ∃ o : Order, supply = o.supply ∧ reserve = o.reserve ∧ tokens = o.amount ∧ ratio = o.ratio ∧
      0 < o.ratio ∧ paid = payoutFor o.supply o.reserve o.amount o.ratio := by
  obtain ⟨o, ho, rfl⟩ := map_eq_ok.mp h
  obtain ⟨hs, hr, ht, hc⟩ := check_eq_ok ho
  exact ⟨o, Option.some.inj hs, Option.some.inj hr, Option.some.inj ht, Option.some.inj hc,
    check_ratio_pos ho, rfl⟩

end Curve

namespace PoolState

variable {s : PoolState} {supply : Int}

theorem quoteBuy_eq_ok {amount : Int} {q : BuyQuote}
    (h : s.quoteBuy (some supply) (some amount) = .ok q) :
    0 ≤ q.net ∧ 0 ≤ q.fee ∧ q.net + q.fee = amount ∧
      (s.isGraduated = true → ∃ n r d : Nat, supply = n ∧ s.reserve = r ∧ q.net = d ∧
        q.tokensOut = Curve.tokensFor n r d s.terms.ratio) := by
  unfold quoteBuy at h
  obtain ⟨c, hc, h⟩ := bind_eq_ok.mp h
  obtain ⟨a, -, h⟩ := bind_eq_ok.mp h
  obtain ⟨a', ha', hsum⟩ := charge_eq_ok hc
  have hamount : amount = a' := Option.some.inj ha'
  rw [← hamount] at hsum
  dsimp only at h
  split at h
  · obtain ⟨n, hn, h⟩ := bind_eq_ok.mp h
    cases h
    obtain ⟨o, ho, rfl⟩ := map_eq_ok.mp hn
    obtain ⟨hs, hr, hd, hratio⟩ := Curve.check_eq_ok ho
    refine ⟨Int.natCast_nonneg _, Int.natCast_nonneg _, hsum, fun _ => ?_⟩
    refine ⟨o.supply, o.reserve, o.amount, Option.some.inj hs, Option.some.inj hr,
      Option.some.inj hd, ?_⟩
    rw [Int.ofNat_inj.mp (Option.some.inj hratio)]
    rfl
  · rename_i hflat
    split at h
    · cases h
      exact ⟨Int.natCast_nonneg _, Int.natCast_nonneg _, hsum, fun hyes => absurd hyes hflat⟩
    · obtain ⟨n, -, h⟩ := bind_eq_ok.mp h
      cases h
      exact ⟨Int.natCast_nonneg _, Int.natCast_nonneg _, hsum, fun hyes => absurd hyes hflat⟩

theorem quoteSell_eq_ok {tokens : Int} {q : SellQuote}
    (h : s.quoteSell (some supply) (some tokens) = .ok q) :
    0 ≤ q.netOut ∧ 0 ≤ q.fee ∧ q.netOut + q.fee = q.reserveOut ∧ q.reserveOut ≤ s.reserve ∧
      (s.isGraduated = true → ∃ n r t : Nat, supply = n ∧ s.reserve = r ∧ tokens = t ∧
        q.reserveOut = Curve.payoutFor n r t s.terms.ratio) := by
  unfold quoteSell at h
  split at h
  · obtain ⟨out, hout, h⟩ := bind_eq_ok.mp h
    obtain ⟨gross, hgross, h⟩ := bind_eq_ok.mp h
    obtain ⟨c, hc, h⟩ := bind_eq_ok.mp h
    obtain ⟨t, ht, h⟩ := bind_eq_ok.mp h
    cases hgross
    cases h
    obtain ⟨o, ho, rfl⟩ := map_eq_ok.mp hout
    obtain ⟨hs, hr, hd, hratio⟩ := Curve.check_eq_ok ho
    obtain ⟨g, hg, hsum⟩ := charge_eq_ok hc
    rw [← Option.some.inj hg] at hsum
    have hreserve : s.reserve = o.reserve := Option.some.inj hr
    refine ⟨Int.natCast_nonneg _, Int.natCast_nonneg _, hsum, ?_, fun _ => ?_⟩
    · rw [hreserve]
      exact Int.ofNat_le.mpr (Curve.payoutFor_le ..)
    · refine ⟨o.supply, o.reserve, o.amount, Option.some.inj hs, hreserve, Option.some.inj hd, ?_⟩
      rw [Int.ofNat_inj.mp (Option.some.inj hratio)]
      rfl
  · rename_i hflat
    obtain ⟨t, -, h⟩ := bind_eq_ok.mp h
    obtain ⟨gross, hgross, h⟩ := bind_eq_ok.mp h
    obtain ⟨c, hc, h⟩ := bind_eq_ok.mp h
    obtain ⟨t', -, h⟩ := bind_eq_ok.mp h
    cases hgross
    cases h
    obtain ⟨g, hg, hsum⟩ := charge_eq_ok hc
    rw [← Option.some.inj hg] at hsum
    exact ⟨Int.natCast_nonneg _, Int.natCast_nonneg _, hsum, Int.min_le_right _ _,
      fun hyes => absurd hyes hflat⟩

/-! ## Prices -/

theorem spotPrice_of_flat (h : s.isGraduated = false) (supply : Option Int) :
    s.spotPrice supply = .ok s.terms.flatPrice := by
  unfold spotPrice
  rw [if_neg (by simp [h])]
  rfl

theorem spotPrice_of_graduated (h : s.isGraduated = true) {n r : Nat} (hreserve : s.reserve = r) :
    s.spotPrice (some (n : Int)) = .ok (Curve.spotPrice n r s.terms.ratio) := by
  have hcheck := Curve.check_of_ratio n r 0 s.terms.ratio_pos s.terms.ratio_le_ppm
  unfold spotPrice Curve.spot
  rw [if_pos h, hreserve]
  show _ <$> Curve.Order.check _ _ (some ((0 : Nat) : Int)) _ = _
  rw [hcheck]
  rfl

/-! ## Below the threshold -/

def flatTokens (s : PoolState) (amount : Int) : Int := amount * Fixed.one / s.terms.flatPrice

def flatWorth (s : PoolState) (tokens : Int) : Int := tokens * s.terms.flatPrice / Fixed.one

theorem flatTokens_mul_le (s : PoolState) (amount : Int) :
    s.flatTokens amount * s.terms.flatPrice ≤ amount * Fixed.one :=
  Int.ediv_mul_le _ (Int.natCast_ne_zero.mpr (Nat.ne_of_gt s.terms.flatPrice_pos))

theorem flatTokens_nonneg (s : PoolState) {amount : Int} (h : 0 ≤ amount) :
    0 ≤ s.flatTokens amount :=
  Int.ediv_nonneg (Int.mul_nonneg h (Int.natCast_nonneg _)) (Int.natCast_nonneg _)

theorem flatWorth_mul_le (s : PoolState) (tokens : Int) :
    s.flatWorth tokens * Fixed.one ≤ tokens * s.terms.flatPrice :=
  Int.ediv_mul_le _ (by decide)

theorem flatWorth_nonneg (s : PoolState) {tokens : Int} (h : 0 ≤ tokens) :
    0 ≤ s.flatWorth tokens :=
  Int.ediv_nonneg (Int.mul_nonneg h (Int.natCast_nonneg _)) (Int.natCast_nonneg _)

/-- A buy below the threshold stays flat, or it is flat up to the threshold and on the curve from
there. -/
theorem quoteBuy_flat_eq_ok {amount : Int} {q : BuyQuote}
    (h : s.quoteBuy (some supply) (some amount) = .ok q) (hflat : s.isGraduated = false)
    (hbelow : s.reserve < s.terms.threshold) :
    s.reserve + q.net < s.terms.threshold ∧ q.tokensOut = s.flatTokens q.net ∨
      ∃ n d : Nat, supply + s.flatTokens (s.terms.threshold - s.reserve) = n ∧
        s.reserve + q.net = s.terms.threshold + d ∧
        q.tokensOut = s.flatTokens (s.terms.threshold - s.reserve) +
          Curve.tokensFor n s.terms.threshold d s.terms.ratio := by
  have hpart : max ((s.terms.threshold : Int) - s.reserve) 0 = s.terms.threshold - s.reserve :=
    Int.max_eq_left (by omega)
  unfold quoteBuy at h
  obtain ⟨c, -, h⟩ := bind_eq_ok.mp h
  obtain ⟨a, -, h⟩ := bind_eq_ok.mp h
  dsimp only at h
  rw [if_neg (by simp [hflat])] at h
  split at h
  · rename_i hstays
    cases h
    exact .inl ⟨hstays, rfl⟩
  · rw [hpart] at h
    obtain ⟨n, hn, h⟩ := bind_eq_ok.mp h
    cases h
    obtain ⟨o, ho, rfl⟩ := map_eq_ok.mp hn
    obtain ⟨hs, hr, hd, hratio⟩ := Curve.check_eq_ok ho
    have hreserve : s.reserve + (s.terms.threshold - s.reserve) = o.reserve := Option.some.inj hr
    have hthreshold : o.reserve = s.terms.threshold := by omega
    have hdeposit : (c.net : Int) - (s.terms.threshold - s.reserve) = o.amount :=
      Option.some.inj hd
    refine .inr ⟨o.supply, o.amount, Option.some.inj hs, ?_, ?_⟩
    · show s.reserve + (c.net : Int) = _
      omega
    · rw [← hthreshold, Int.ofNat_inj.mp (Option.some.inj hratio)]
      rfl

theorem quoteSell_flat_eq_ok {tokens : Int} {q : SellQuote}
    (h : s.quoteSell (some supply) (some tokens) = .ok q) (hflat : s.isGraduated = false) :
    q.reserveOut = min (s.flatWorth tokens) s.reserve := by
  unfold quoteSell at h
  rw [if_neg (by simp [hflat])] at h
  obtain ⟨t, ht, h⟩ := bind_eq_ok.mp h
  obtain ⟨gross, hgross, h⟩ := bind_eq_ok.mp h
  obtain ⟨c, -, h⟩ := bind_eq_ok.mp h
  obtain ⟨t', -, h⟩ := bind_eq_ok.mp h
  cases requireInt_eq_ok.mp ht
  cases hgross
  cases h
  rfl

theorem quoteSell_of_flat (supply : Int) {tokens : Int} (hflat : s.isGraduated = false)
    (hreserve : 0 ≤ s.reserve) (htokens : 0 ≤ tokens) :
    ∃ q, s.quoteSell (some supply) (some tokens) = .ok q := by
  have hgross : 0 ≤ min (s.flatWorth tokens) s.reserve :=
    Int.le_min.mpr ⟨s.flatWorth_nonneg htokens, hreserve⟩
  have hcharge := charge_of_nonneg hgross s.terms.tradeFee_le_bpsWhole
  unfold quoteSell
  rw [if_neg (by simp [hflat])]
  show ∃ q, charge (some (min (s.flatWorth tokens) s.reserve)) _ >>= _ = .ok q
  rw [hcharge]
  exact ⟨_, rfl⟩

/-! ## On the curve -/

section Graduated

variable {n r : Nat}

def tradeCharge (s : PoolState) (amount : Nat) : Charge :=
  ⟨amount - feeOn amount s.terms.tradeFee, feeOn amount s.terms.tradeFee⟩

theorem charge_tradeFee (s : PoolState) (amount : Nat) :
    charge (some (amount : Int)) (some (s.terms.tradeFee : Int)) = .ok (s.tradeCharge amount) :=
  charge_of_nonneg (Int.natCast_nonneg amount) s.terms.tradeFee_le_bpsWhole

def orderAt (s : PoolState) (supply reserve amount : Nat) : Curve.Order :=
  ⟨supply, reserve, amount, s.terms.ratio⟩

theorem check_orderAt (s : PoolState) (supply reserve amount : Nat) :
    Curve.Order.check (some (supply : Int)) (some (reserve : Int)) (some (amount : Int))
      (some (s.terms.ratio : Int)) = .ok (s.orderAt supply reserve amount) :=
  Curve.check_of_ratio supply reserve amount s.terms.ratio_pos s.terms.ratio_le_ppm

/-- The order that is left of a deposit after the trade fee. -/
def buyOrder (s : PoolState) (supply reserve deposit : Nat) : Curve.Order :=
  s.orderAt supply reserve (s.tradeCharge deposit).net

theorem quoteBuy_of_graduated (hgraduated : s.isGraduated = true) (hreserve : s.reserve = r)
    (d : Nat) :
    s.quoteBuy (some (n : Int)) (some (d : Int)) =
      .ok { amountIn := d, fee := (s.tradeCharge d).fee, net := (s.tradeCharge d).net
            tokensOut := (s.buyOrder n r d).tokens
            curveTokens := (s.buyOrder n r d).tokens } := by
  unfold quoteBuy Curve.buy
  rw [charge_tradeFee, hreserve]
  show (if s.isGraduated then _ else _) = _
  rw [if_pos hgraduated, check_orderAt]
  rfl

theorem quoteSell_of_graduated (hgraduated : s.isGraduated = true) (hreserve : s.reserve = r)
    (t : Nat) :
    s.quoteSell (some (n : Int)) (some (t : Int)) =
      .ok ⟨t, (s.orderAt n r t).payout, (s.tradeCharge (s.orderAt n r t).payout).fee,
        (s.tradeCharge (s.orderAt n r t).payout).net⟩ := by
  unfold quoteSell Curve.sell
  rw [if_pos hgraduated, hreserve, check_orderAt]
  show charge (some ((s.orderAt n r t).payout : Int)) _ >>= _ = _
  rw [charge_tradeFee]
  rfl

end Graduated

end PoolState

end CurveMarket
