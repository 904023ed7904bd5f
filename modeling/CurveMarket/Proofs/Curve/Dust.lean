import CurveMarket.Proofs.Curve.Execution
import CurveMarket.Proofs.Fixed.Loss

/-! # What rounding costs a trader

A fill falls short of the exact curve by a few units of the factor that the kernels return, and by the
floor of the last division. A root of a number above one is flat, so a buy loses no more than the
share and the rounded power. A power of up to twenty is steep, so a sell loses twenty units to the
share, one to the inverse ratio and two to the rounded power.
-/

namespace CurveMarket.Curve

open Fixed

theorem one_eq_pow : (one : ℝ) = 10 ^ 18 := by
  unfold one
  norm_num

theorem sub_le_value_quotient {a b : Nat} (hb : 0 < b) :
    (a / b - 1 / one : ℝ) ≤ value (a * one / b) := by
  have hbReal : (b : ℝ) ≠ 0 := (Nat.cast_pos.mpr hb).ne'
  have hfloor : (a / b * one : ℝ) - 1 ≤ (a * one / b : Nat) := by
    refine sub_one_le_cast_div hb ?_
    rw [Nat.cast_mul, mul_right_comm, div_mul_cancel₀ _ hbReal]
  unfold value
  rwa [le_div_iff₀ one_real_pos, sub_mul, div_mul_cancel₀ _ one_real_pos.ne']

/-! ## Buying -/

section Buy

variable {supply reserve deposit ratio : Nat}

theorem value_weight (ratio : Nat) : value (ratio * one / ppm) = ratio / ppm := by
  have hppm : (ppm : ℝ) ≠ 0 := Nat.cast_ne_zero.mpr (by decide)
  have hdvd : ppm ∣ ratio * one := Dvd.dvd.mul_left (by decide) ratio
  unfold value
  rw [Nat.cast_div hdvd hppm, Nat.cast_mul, div_right_comm, mul_div_cancel_right₀ _ one_real_pos.ne']

theorem rpow_le_rpow_add {x y d w : ℝ} (hx : 0 ≤ x) (hy : 1 ≤ y) (hd : 0 ≤ d) (h : x ≤ y + d)
    (hw : 0 ≤ w) (hone : w ≤ 1) : x ^ w ≤ y ^ w + d := by
  have hpos : 0 < y := by linarith
  have hflat : y ^ w ≤ y := by
    calc y ^ w ≤ y ^ (1 : ℝ) := Real.rpow_le_rpow_of_exponent_le hy hone
      _ = y := Real.rpow_one y
  have htangent : (1 + d / y) ^ w ≤ 1 + w * (d / y) :=
    rpow_one_add_le_one_add_mul_self (by linarith [div_nonneg hd hpos.le]) hw hone
  calc x ^ w ≤ (y + d) ^ w := Real.rpow_le_rpow hx h hw
    _ = (y * (1 + d / y)) ^ w := by rw [mul_add, mul_one, mul_div_cancel₀ _ hpos.ne']
    _ = y ^ w * (1 + d / y) ^ w := Real.mul_rpow hpos.le (by positivity)
    _ ≤ y ^ w * (1 + w * (d / y)) := mul_le_mul_of_nonneg_left htangent (by positivity)
    _ = y ^ w + w * (y ^ w * (d / y)) := by ring
    _ ≤ y ^ w + 1 * (y * (d / y)) := by gcongr
    _ = y ^ w + d := by rw [one_mul, mul_div_cancel₀ _ hpos.ne']

theorem sub_three_le_value_growth (hreserve : 0 < reserve) (hdeposit : deposit ≤ reserve)
    (hratio : ratio ≤ ppm) :
    (1 + deposit / reserve : ℝ) ^ (ratio / ppm : ℝ) - 3 / one ≤
      value (growth reserve deposit ratio) := by
  have hppm : (0 : ℝ) < ppm := Nat.cast_pos.mpr (by decide)
  have hwhole : (ratio : ℝ) / ppm ≤ 1 := (div_le_one hppm).mpr (Nat.cast_le.mpr hratio)
  have hone : one ≤ one + deposit * one / reserve := Nat.le_add_right ..
  have htwo : one + deposit * one / reserve ≤ 2 * one := by
    have hshare : deposit * one / reserve ≤ one := sold_share_le hdeposit
    omega
  have hexponent : ratio * one / ppm ≤ one := sold_share_le hratio
  have hpower := sub_two_le_value_powerDown hone htwo hexponent
  have hbase : (1 + deposit / reserve : ℝ) ≤ value (one + deposit * one / reserve) + 1 / one := by
    rw [value_one_add]
    linarith [sub_le_value_quotient (a := deposit) hreserve]
  have hvalue : 1 ≤ value (one + deposit * one / reserve) := one_le_value hone
  have hroot := rpow_le_rpow_add (by positivity) hvalue (div_nonneg zero_le_one one_real_pos.le)
    hbase (by positivity) hwhole
  rw [value_weight] at hpower
  have hunits : (3 : ℝ) / one = 1 / one + 2 / one := by ring
  show _ ≤ value (powerDown (one + deposit * one / reserve) (ratio * one / ppm))
  linarith

theorem growth_zero (reserve ratio : Nat) : growth reserve 0 ratio = one := by
  unfold growth
  rw [Nat.zero_mul, Nat.zero_div, Nat.add_zero, powerDown_eq_roundedPower,
    roundedPower_eq (by decide) (by decide), powerWork_one_left]
  decide

theorem tokensFor_eq (hreserve : 0 < reserve) : tokensFor supply reserve deposit ratio =
    supply * (growth reserve deposit ratio - one) / one := by
  unfold tokensFor
  split
  · rename_i hnone
    rcases hnone with rfl | hempty | rfl
    · rw [Nat.zero_mul, Nat.zero_div]
    · omega
    · rw [growth_zero, Nat.sub_self, Nat.mul_zero, Nat.zero_div]
  · rfl

theorem sub_one_le_tokensFor {x : ℝ} (supply : Nat) (hreserve : 0 < reserve)
    (hx : x ≤ value (growth reserve deposit ratio)) :
    supply * (x - 1) - 1 ≤ tokensFor supply reserve deposit ratio := by
  rw [tokensFor_eq hreserve]
  refine sub_one_le_cast_div (by decide) ?_
  have hrest : (growth reserve deposit ratio : ℝ) ≤
      (growth reserve deposit ratio - one : Nat) + one := by
    exact_mod_cast (by omega)
  have hscaled := mul_le_mul_of_nonneg_right hx one_real_pos.le
  rw [value_mul_one] at hscaled
  rw [Nat.cast_mul, mul_assoc]
  refine mul_le_mul_of_nonneg_left ?_ (Nat.cast_nonneg supply)
  linarith

/-- The supply that the curve asks for, but for three units of the growth and the last floor. -/
theorem mul_rpow_le_supply_add (supply : Nat) (hreserve : 0 < reserve)
    (hdeposit : deposit ≤ reserve) (hratio : ratio ≤ ppm) :
    supply * (1 + deposit / reserve : ℝ) ^ (ratio / ppm : ℝ) ≤
      supply + tokensFor supply reserve deposit ratio + 1 + 3 * supply / 10 ^ 18 := by
  have hminted := sub_one_le_tokensFor supply hreserve
    (sub_three_le_value_growth hreserve hdeposit hratio)
  rw [one_eq_pow] at hminted
  linarith

theorem pow_mul_le_of_tokensFor (hreserve : 0 < reserve) (hdeposit : deposit ≤ reserve)
    (hratio : ratio ≤ ppm) :
    (10 ^ 18 * supply) ^ ppm * (reserve + deposit) ^ ratio ≤
      (10 ^ 18 * (supply + tokensFor supply reserve deposit ratio + 1) + 3 * supply) ^ ppm *
        reserve ^ ratio := by
  have hreserveReal : (0 : ℝ) < reserve := Nat.cast_pos.mpr hreserve
  have hgrown : supply * _ ≤ (_ : ℝ) :=
    mul_rpow_le_supply_add supply hreserve hdeposit hratio
  have hscaled : 10 ^ 18 * supply * (1 + deposit / reserve : ℝ) ^ (ratio / ppm : ℝ) ≤
      10 ^ 18 * (supply + tokensFor supply reserve deposit ratio + 1) + 3 * supply := by
    rw [mul_assoc]
    linarith
  have hreal : (10 ^ 18 * (supply : ℝ)) ^ ppm * (reserve + deposit) ^ ratio ≤
      (10 ^ 18 * (supply + tokensFor supply reserve deposit ratio + 1) + 3 * supply) ^ ppm *
        reserve ^ ratio := by
    calc (10 ^ 18 * (supply : ℝ)) ^ ppm * (reserve + deposit) ^ ratio
        = (10 ^ 18 * supply) ^ ppm * ((1 + deposit / reserve) * reserve : ℝ) ^ ratio := by
          rw [add_mul, one_mul, div_mul_cancel₀ _ hreserveReal.ne']
      _ = (10 ^ 18 * supply * (1 + deposit / reserve : ℝ) ^ (ratio / ppm : ℝ)) ^ ppm *
            reserve ^ ratio := by
          rw [mul_pow (10 ^ 18 * supply : ℝ), mul_pow (1 + deposit / reserve : ℝ),
            rpow_div_pow (by positivity) ratio (by decide), mul_assoc]
      _ ≤ _ := mul_le_mul_of_nonneg_right
          (pow_le_pow_left₀ (by positivity) hscaled _) (by positivity)
  exact_mod_cast hreal

end Buy

/-! ## Selling -/

section Sell

theorem rpow_le_rpow_add_sub {x s p : ℝ} (hx : 0 < x) (hone : x ≤ 1) (hs : 1 ≤ s) (hp : s ≤ p) :
    x ^ s ≤ x ^ p + (p - s) := by
  have hexp : 1 + (p - s) * Real.log x ≤ x ^ (p - s) := by
    rw [Real.rpow_def_of_pos hx]
    linarith [Real.add_one_le_exp (Real.log x * (p - s))]
  have hlog : -1 ≤ x ^ s * Real.log x := by
    have hsteep : x ^ s ≤ x := by
      calc x ^ s ≤ x ^ (1 : ℝ) := Real.rpow_le_rpow_of_exponent_ge hx hone hs
        _ = x := Real.rpow_one x
    have hinverse := mul_le_mul_of_nonneg_left (Real.one_sub_inv_le_log_of_pos hx) hx.le
    rw [mul_sub, mul_one, mul_inv_cancel₀ hx.ne'] at hinverse
    nlinarith [Real.log_nonpos hx.le hone]
  have hpower : x ^ p = x ^ s * x ^ (p - s) := by
    rw [← Real.rpow_add hx, add_sub_cancel]
  have hscaled := mul_le_mul_of_nonneg_left hexp (Real.rpow_nonneg hx.le s)
  rw [hpower]
  nlinarith

theorem rpow_le_rpow_add_units {x y s p d : ℝ} (hd : 0 < d) (hstays : d ≤ x) (hone : x ≤ 1)
    (hbase : x - d ≤ y) (hs : 1 ≤ s) (hp : s ≤ p) (hcut : p - d ≤ s) (htwenty : p ≤ 20) :
    x ^ s ≤ y ^ p + 21 * d := by
  have hx : 0 < x := hd.trans_le hstays
  have hexponentCut := rpow_le_rpow_add_sub hx hone hs hp
  have hbaseCut := rpow_sub_mul_le hx hstays (by linarith : 1 ≤ p)
  have hexact : (x - d) ^ p ≤ y ^ p :=
    Real.rpow_le_rpow (sub_nonneg.mpr hstays) hbase (by linarith)
  have hslope : p * x ^ (p - 1) * d ≤ 20 * 1 * d := by
    have hflat : x ^ (p - 1) ≤ 1 := Real.rpow_le_one hx.le hone (by linarith)
    gcongr
  linarith

variable {supply reserve tokens ratio : Nat}

/-- What stays of the reserve is at most the exact share and twenty-three units. -/
theorem value_remainder_le (htokens : tokens < supply) (hmin : minRatio ≤ ratio)
    (hmax : ratio ≤ maxRatio) :
    value (remainder supply tokens ratio) ≤
      (1 - tokens / supply : ℝ) ^ (ppm / ratio : ℝ) + 23 / one := by
  have hsupply : 0 < supply := Nat.zero_lt_of_lt htokens
  have hratio : 0 < ratio := Nat.lt_of_lt_of_le (by decide) hmin
  have hratioReal : (0 : ℝ) < ratio := Nat.cast_pos.mpr hratio
  have hshare : tokens * one / supply < one :=
    Nat.div_lt_of_lt_mul (Nat.mul_lt_mul_of_pos_right htokens (by decide))
  have hexponent := two_one_le_exponent hratio (Nat.mul_le_mul_left 2 hmax)
  have htwo : 2 ≤ value (ppm * one / ratio) := le_value_of_mul_le hexponent
  have hpos : 0 < ppm * one / ratio := Nat.lt_of_lt_of_le (by decide) hexponent
  have htwenty : (ppm / ratio : ℝ) ≤ 20 := by
    have hlimit : ppm ≤ 20 * ratio :=
      (by decide : ppm ≤ 20 * minRatio).trans (Nat.mul_le_mul_left 20 hmin)
    rw [div_le_iff₀ hratioReal]
    exact_mod_cast hlimit
  have hstays : 1 / one ≤ value (one - tokens * one / supply) := by
    have hunit : value 1 = 1 / one := by simp [value]
    rw [← hunit]
    exact value_le_value (Nat.sub_pos_of_lt hshare)
  have hbaseOne : value (one - tokens * one / supply) ≤ 1 := value_le_one (Nat.sub_le ..)
  have hbase : value (one - tokens * one / supply) - 1 / one ≤ 1 - tokens / supply := by
    rw [value_one_sub hshare.le]
    linarith [sub_le_value_quotient (a := tokens) hsupply]
  -- The share and the inverse ratio are each a unit off at most, and the power is rounded up by two.
  have hpowers := rpow_le_rpow_add_units (div_pos one_pos one_real_pos) hstays hbaseOne hbase
    (by linarith) (value_quotient_le hratio) (sub_le_value_quotient hratio) htwenty
  have hrounded : value (remainder supply tokens ratio) ≤ _ + 2 / one :=
    value_powerUp_le (Nat.sub_le one (tokens * one / supply)) hpos (exponent_le hmin)
  have hunits : (23 : ℝ) / one = 21 * (1 / one) + 2 / one := by ring
  linarith

theorem sub_one_le_payoutFor {x : ℝ} (reserve : Nat) (hpos : 0 < tokens) (htokens : tokens < supply)
    (hx : value (remainder supply tokens ratio) ≤ x) :
    reserve * (1 - x) - 1 ≤ payoutFor supply reserve tokens ratio := by
  have hpaid : (reserve * (one - remainder supply tokens ratio : Nat) : ℝ) ≤
      (payoutFor supply reserve tokens ratio + 1) * one := by
    exact_mod_cast (lt_payoutFor_add_one reserve ratio hpos htokens).le
  have hrest : (one : ℝ) ≤ (one - remainder supply tokens ratio : Nat) +
      remainder supply tokens ratio := by
    exact_mod_cast (by omega)
  have hkept := mul_le_mul_of_nonneg_right hx one_real_pos.le
  rw [value_mul_one] at hkept
  have hgone : (1 - x) * one ≤ (one - remainder supply tokens ratio : Nat) := by linarith
  have hscaled := mul_le_mul_of_nonneg_left hgone (Nat.cast_nonneg reserve : (0 : ℝ) ≤ reserve)
  have hle : reserve * (1 - x) ≤ (payoutFor supply reserve tokens ratio + 1 : ℝ) := by
    refine le_of_mul_le_mul_right ?_ one_real_pos
    rw [mul_assoc]
    exact hscaled.trans hpaid
  linarith

/-- What the curve frees, but for thirty units of the remainder and the last floor. -/
theorem mul_one_sub_rpow_le_payoutFor_add (reserve : Nat) (hsupply : 0 < supply)
    (htokens : tokens ≤ supply) (hmin : minRatio ≤ ratio) (hmax : ratio ≤ maxRatio) :
    reserve * (1 - (1 - tokens / supply : ℝ) ^ (ppm / ratio : ℝ)) ≤
      payoutFor supply reserve tokens ratio + 1 + 30 * reserve / 10 ^ 18 := by
  have hsupplyReal : (0 : ℝ) < supply := Nat.cast_pos.mpr hsupply
  have hreserve : (0 : ℝ) ≤ reserve := Nat.cast_nonneg reserve
  rcases Nat.eq_zero_or_pos tokens with rfl | hpos
  · rw [Nat.cast_zero, zero_div, sub_zero, Real.one_rpow, sub_self, mul_zero]
    positivity
  · rcases Nat.eq_or_lt_of_le htokens with rfl | hpart
    · have hnonneg : 0 ≤ (1 - tokens / tokens : ℝ) ^ (ppm / ratio : ℝ) := by
        rw [div_self hsupplyReal.ne', sub_self]
        exact Real.rpow_nonneg le_rfl _
      rw [payoutFor_whole hsupply]
      nlinarith
    · have hpaid := sub_one_le_payoutFor reserve hpos hpart (value_remainder_le hpart hmin hmax)
      rw [one_eq_pow] at hpaid
      linarith

end Sell

/-- Traders lose only dust to rounding. A buy of at most the reserve mints no less than the exact
curve, but for three parts in `10 ^ 18` of the supply and one unit. A sell of any part of the supply
pays no less than the exact curve, but for thirty parts in `10 ^ 18` of the reserve and one unit. -/
theorem fills_lose_only_dust {supply reserve : Nat} (hsupply : 1 ≤ supply) (hreserve : 1 ≤ reserve) :
    (∀ deposit ratio : Nat, deposit ≤ reserve → 0 < ratio → ratio ≤ ppm →
      ∃ minted : Nat, buy (some supply) (some reserve) (some deposit) (some ratio) = .ok minted ∧
        supply * ((1 + deposit / reserve : ℝ) ^ (ratio / ppm : ℝ) - 1) - 3 * supply / 10 ^ 18 - 1 ≤
          minted ∧
        (10 ^ 18 * supply) ^ ppm * (reserve + deposit) ^ ratio ≤
          (10 ^ 18 * (supply + minted + 1) + 3 * supply) ^ ppm * reserve ^ ratio) ∧
    ∀ tokens ratio : Nat, tokens ≤ supply → minRatio ≤ ratio → ratio ≤ maxRatio →
      ∃ paid : Nat, sell (some supply) (some reserve) (some tokens) (some ratio) = .ok paid ∧
        reserve * (1 - (1 - tokens / supply : ℝ) ^ (ppm / ratio : ℝ)) -
          30 * reserve / 10 ^ 18 - 1 ≤ paid := by
  constructor
  · intro deposit ratio hdeposit hpos hppm
    have hgrown : supply * _ ≤ (_ : ℝ) :=
      mul_rpow_le_supply_add supply hreserve hdeposit hppm
    exact ⟨_, buy_of_ratio supply reserve deposit hpos hppm, by linarith,
      pow_mul_le_of_tokensFor hreserve hdeposit hppm⟩
  · intro tokens ratio htokens hmin hmax
    have hratio : 0 < ratio := Nat.lt_of_lt_of_le (by decide) hmin
    have hmost : maxRatio ≤ ppm := by decide
    have hpaid := mul_one_sub_rpow_le_payoutFor_add reserve hsupply htokens hmin hmax
    exact ⟨_, sell_of_ratio supply reserve tokens hratio (hmax.trans hmost), by linarith⟩

/-- A deposit of the whole reserve at the largest ratio, and a sell of all but one unit at the
smallest. -/
theorem sample_fills_lose_only_dust :
    (∃ minted : Nat, buy (some (1000000 : Nat)) (some (5000 : Nat)) (some (5000 : Nat))
        (some (1000000 : Nat)) = .ok minted ∧
      (1000000 : Nat) * ((1 + (5000 : Nat) / (5000 : Nat) : ℝ) ^ ((1000000 : Nat) / ppm : ℝ) - 1) -
        3 * (1000000 : Nat) / 10 ^ 18 - 1 ≤ minted) ∧
    ∃ paid : Nat, sell (some (1000000 : Nat)) (some (5000 : Nat)) (some (999999 : Nat))
        (some (50000 : Nat)) = .ok paid ∧
      (5000 : Nat) * (1 - (1 - (999999 : Nat) / (1000000 : Nat) : ℝ) ^ (ppm / (50000 : Nat) : ℝ)) -
        30 * (5000 : Nat) / 10 ^ 18 - 1 ≤ paid := by
  obtain ⟨hbuy, hsell⟩ := fills_lose_only_dust (by decide : 1 ≤ 1000000) (by decide : 1 ≤ 5000)
  obtain ⟨minted, hminted, hshort, -⟩ := hbuy 5000 1000000 (by decide) (by decide) (by decide)
  exact ⟨⟨minted, hminted, hshort⟩, hsell 999999 50000 (by decide) (by decide) (by decide)⟩

end CurveMarket.Curve
