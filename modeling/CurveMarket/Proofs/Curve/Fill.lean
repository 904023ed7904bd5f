import CurveMarket.Proofs.Curve.Price
import CurveMarket.Proofs.Fixed.Shortfall
import CurveMarket.Proofs.Pool.Quote

/-! # Fills of any size

A sell of any part of the supply pays no more than the exact curve, but for three units of the
working scale of the reserve. A deposit of any size mints no more than the exact curve at an exponent
that is larger by the share of one such unit. Together, tokens that are bought and sold back never
bring more than was paid for them, for all reserves up to `10 ^ 30`.
-/

namespace CurveMarket.Curve

open Fixed

/-! ## Against the exact curve -/

section Exact

variable {supply reserve deposit tokens ratio : Nat}

theorem sub_three_le_value_remainder (htokens : tokens < supply) (hratio : 0 < ratio)
    (hhalf : 2 * ratio ≤ ppm) :
    (1 - tokens / supply : ℝ) ^ (ppm / ratio : ℝ) - 3 / work ≤
      value (remainder supply tokens ratio) := by
  have hshare : tokens * one / supply < one :=
    Nat.div_lt_of_lt_mul (Nat.mul_lt_mul_of_pos_right htokens (by decide))
  have hpowers : _ ≤ value (one - tokens * one / supply) ^ value (ppm * one / ratio) :=
    rpow_le_rpow_value htokens hratio
  have hremains : _ ≤ value (remainder supply tokens ratio) :=
    sub_three_le_value_powerUp (Nat.sub_pos_of_lt hshare) (Nat.sub_le ..)
      (two_one_le_exponent hratio hhalf)
  linarith

theorem le_reserve_sub_payoutFor_of_le (reserve : Nat) (hsupply : 0 < supply)
    (htokens : tokens ≤ supply) (hratio : 0 < ratio) (hhalf : 2 * ratio ≤ ppm) :
    reserve * ((1 - tokens / supply : ℝ) ^ (ppm / ratio : ℝ) - 3 / work) ≤
      reserve - payoutFor supply reserve tokens ratio := by
  have hunits : (0 : ℝ) ≤ 3 / work := div_nonneg zero_le_three work_pos.le
  have hsupplyReal : (0 : ℝ) < supply := Nat.cast_pos.mpr hsupply
  have hratioReal : (0 : ℝ) < ratio := Nat.cast_pos.mpr hratio
  have hppm : (0 : ℝ) < ppm := Nat.cast_pos.mpr (by decide)
  rcases Nat.eq_or_lt_of_le htokens with rfl | hlt
  · rw [payoutFor_whole hsupply, div_self hsupplyReal.ne', sub_self, sub_self,
      Real.zero_rpow (div_pos hppm hratioReal).ne', zero_sub]
    exact mul_nonpos_of_nonneg_of_nonpos (Nat.cast_nonneg reserve) (neg_nonpos.mpr hunits)
  · have hsold : (tokens : ℝ) / supply ≤ 1 :=
      (div_le_one hsupplyReal).mpr (Nat.cast_le.mpr htokens)
    have hsoldNonneg : (0 : ℝ) ≤ tokens / supply := by positivity
    have hexact : (1 - tokens / supply : ℝ) ^ (ppm / ratio : ℝ) ≤ 1 :=
      Real.rpow_le_one (by linarith) (by linarith) (by positivity)
    exact mul_le_reserve_sub_payoutFor hlt (by linarith)
      (sub_three_le_value_remainder hlt hratio hhalf)

theorem mul_rpow_le_reserve_sub_add (hsupply : 0 < supply) (htokens : tokens ≤ supply)
    (hratio : 0 < ratio) (hhalf : 2 * ratio ≤ ppm) :
    reserve * (1 - tokens / supply : ℝ) ^ (ppm / ratio : ℝ) ≤
      reserve - payoutFor supply reserve tokens ratio + reserve / 10 ^ 35 := by
  have hleft : reserve * (_ - 3 / work) ≤ (reserve - payoutFor supply reserve tokens ratio : ℝ) :=
    le_reserve_sub_payoutFor_of_le reserve hsupply htokens hratio hhalf
  have hunits : (3 : ℝ) / work ≤ 1 / 10 ^ 35 := by
    unfold work
    norm_num
  have hgranted := mul_le_mul_of_nonneg_left hunits (Nat.cast_nonneg reserve : (0 : ℝ) ≤ reserve)
  rw [mul_sub] at hleft
  rw [mul_one_div] at hgranted
  linarith

theorem value_growth_le_rpow (hreserve : 0 < reserve) (deposit ratio : Nat) :
    value (growth reserve deposit ratio) ≤
      (1 + deposit / reserve : ℝ) ^ (ratio / ppm * (1 + 1 / work) : ℝ) := by
  have hunit : (0 : ℝ) ≤ 1 / work := div_nonneg zero_le_one work_pos.le
  have hone : one ≤ one + deposit * one / reserve := Nat.le_add_right ..
  have hvalueOne : 1 ≤ value (one + deposit * one / reserve) := one_le_value hone
  have hvalue : value (one + deposit * one / reserve) ≤ 1 + deposit / reserve := by
    rw [value_one_add]
    linarith [value_quotient_le (a := deposit) hreserve]
  have hweight := value_quotient_le (a := ratio) (b := ppm) (by decide)
  calc value (growth reserve deposit ratio)
      ≤ value (one + deposit * one / reserve) ^ (value (ratio * one / ppm) * (1 + 1 / work)) :=
        value_powerDown_le_rpow hone _
    _ ≤ value (one + deposit * one / reserve) ^ (ratio / ppm * (1 + 1 / work) : ℝ) :=
        Real.rpow_le_rpow_of_exponent_le hvalueOne
          (mul_le_mul_of_nonneg_right hweight (by linarith))
    _ ≤ (1 + deposit / reserve : ℝ) ^ (ratio / ppm * (1 + 1 / work) : ℝ) :=
        Real.rpow_le_rpow (by linarith) hvalue (by positivity)

end Exact

/-! ## In whole numbers -/

section Whole

variable {supply reserve deposit tokens ratio : Nat}

theorem rpow_div_pow {x : ℝ} (hx : 0 ≤ x) (a : Nat) {b : Nat} (hb : 0 < b) :
    (x ^ (a / b : ℝ)) ^ b = x ^ a := by
  rw [← Real.rpow_mul_natCast hx, div_mul_cancel₀ _ (Nat.cast_pos.mpr hb).ne', Real.rpow_natCast]

theorem add_tokensFor_pow_le (hreserve : 0 < reserve) (hdeposit : deposit ≤ reserve)
    (hratio : ratio ≤ ppm) :
    (supply + tokensFor supply reserve deposit ratio) ^ ppm * reserve ^ ratio ≤
      supply ^ ppm * (reserve + deposit) ^ ratio := by
  have hreserveReal : (0 : ℝ) < reserve := Nat.cast_pos.mpr hreserve
  have hminted : (supply + tokensFor supply reserve deposit ratio : ℝ) ≤ _ :=
    supply_add_tokensFor_le hreserve hdeposit hratio
  have hreal : ((supply : ℝ) + tokensFor supply reserve deposit ratio) ^ ppm * reserve ^ ratio ≤
      supply ^ ppm * (reserve + deposit) ^ ratio := by
    calc ((supply : ℝ) + tokensFor supply reserve deposit ratio) ^ ppm * reserve ^ ratio
        ≤ (supply * (1 + deposit / reserve : ℝ) ^ (ratio / ppm : ℝ)) ^ ppm * reserve ^ ratio :=
          mul_le_mul_of_nonneg_right (pow_le_pow_left₀ (by positivity) hminted _) (by positivity)
      _ = supply ^ ppm * ((1 + deposit / reserve) * reserve : ℝ) ^ ratio := by
          rw [mul_pow, rpow_div_pow (by positivity) ratio (by decide), mul_assoc, ← mul_pow]
      _ = supply ^ ppm * (reserve + deposit) ^ ratio := by
          rw [add_mul, one_mul, div_mul_cancel₀ _ hreserveReal.ne']
  exact_mod_cast hreal

theorem sub_pow_mul_le (hsupply : 0 < supply) (htokens : tokens ≤ supply) (hratio : 0 < ratio)
    (hhalf : 2 * ratio ≤ ppm) :
    (supply - tokens) ^ ppm * (10 ^ 35 * reserve) ^ ratio ≤
      supply ^ ppm * (10 ^ 35 * (reserve - payoutFor supply reserve tokens ratio) + reserve) ^
        ratio := by
  have hsupplyReal : (0 : ℝ) < supply := Nat.cast_pos.mpr hsupply
  have hsold : (tokens : ℝ) / supply ≤ 1 :=
    (div_le_one hsupplyReal).mpr (Nat.cast_le.mpr htokens)
  have hstays : 0 ≤ (1 - tokens / supply : ℝ) := sub_nonneg.mpr hsold
  have hleft : reserve * _ ≤
      (reserve - payoutFor supply reserve tokens ratio + reserve / 10 ^ 35 : ℝ) :=
    mul_rpow_le_reserve_sub_add hsupply htokens hratio hhalf
  have hscaled : 10 ^ 35 * reserve * (1 - tokens / supply : ℝ) ^ (ppm / ratio : ℝ) ≤
      10 ^ 35 * (reserve - payoutFor supply reserve tokens ratio) + reserve := by
    rw [mul_assoc]
    linarith
  have hreal : ((supply : ℝ) - tokens) ^ ppm * (10 ^ 35 * reserve) ^ ratio ≤
      supply ^ ppm * (10 ^ 35 * (reserve - payoutFor supply reserve tokens ratio) + reserve) ^
        ratio := by
    calc ((supply : ℝ) - tokens) ^ ppm * (10 ^ 35 * reserve) ^ ratio
        = (supply * (1 - tokens / supply : ℝ)) ^ ppm * (10 ^ 35 * reserve) ^ ratio := by
          rw [mul_sub, mul_one, mul_div_cancel₀ _ hsupplyReal.ne']
      _ = supply ^ ppm * (10 ^ 35 * reserve * (1 - tokens / supply : ℝ) ^ (ppm / ratio : ℝ)) ^
            ratio := by
          rw [mul_pow, mul_pow (10 ^ 35 * reserve : ℝ), rpow_div_pow hstays ppm hratio]
          ring
      _ ≤ _ := mul_le_mul_of_nonneg_left
          (pow_le_pow_left₀ (by positivity) hscaled _) (by positivity)
  have hwithin := payoutFor_le supply reserve tokens ratio
  rw [← Nat.cast_sub htokens, ← Nat.cast_sub hwithin] at hreal
  exact_mod_cast hreal

end Whole

/-- No trade is filled better than on the exact curve. A buy of at most the reserve mints no more
than the curve allows for it, and a sell pays no more than the curve frees, but for a share of the
reserve that no reserve below `10 ^ 35` has a unit of. Both are said of the quotients and powers and,
with these multiplied out, in whole numbers. -/
theorem fills_within_curve {supply reserve : Nat} (hsupply : 1 ≤ supply) (hreserve : 1 ≤ reserve) :
    (∀ deposit ratio : Nat, deposit ≤ reserve → 0 < ratio → ratio ≤ ppm →
      ∃ minted : Nat, buy (some supply) (some reserve) (some deposit) (some ratio) = .ok minted ∧
        (minted : ℝ) ≤ supply * ((1 + deposit / reserve : ℝ) ^ (ratio / ppm : ℝ) - 1) ∧
        (supply + minted) ^ ppm * reserve ^ ratio ≤ supply ^ ppm * (reserve + deposit) ^ ratio) ∧
    ∀ tokens ratio : Nat, tokens ≤ supply → minRatio ≤ ratio → ratio ≤ maxRatio →
      ∃ paid : Nat, sell (some supply) (some reserve) (some tokens) (some ratio) = .ok paid ∧
        paid ≤ reserve ∧
        (paid : ℝ) ≤ reserve * (1 - (1 - tokens / supply : ℝ) ^ (ppm / ratio : ℝ)) +
          reserve / 10 ^ 35 ∧
        (supply - tokens) ^ ppm * (10 ^ 35 * reserve) ^ ratio ≤
          supply ^ ppm * (10 ^ 35 * (reserve - paid) + reserve) ^ ratio := by
  constructor
  · intro deposit ratio hdeposit hpos hppm
    have hminted : (supply + tokensFor supply reserve deposit ratio : ℝ) ≤ _ :=
      supply_add_tokensFor_le hreserve hdeposit hppm
    refine ⟨tokensFor supply reserve deposit ratio, ?_, by linarith,
      add_tokensFor_pow_le hreserve hdeposit hppm⟩
    unfold buy
    rw [check_of_ratio supply reserve deposit hpos hppm]
    rfl
  · intro tokens ratio htokens hmin hmax
    have hratio : 0 < ratio := Nat.lt_of_lt_of_le (by decide) hmin
    have hhalf : 2 * ratio ≤ ppm := Nat.mul_le_mul_left 2 hmax
    have hleft : reserve * _ ≤
        (reserve - payoutFor supply reserve tokens ratio + reserve / 10 ^ 35 : ℝ) :=
      mul_rpow_le_reserve_sub_add hsupply htokens hratio hhalf
    refine ⟨payoutFor supply reserve tokens ratio, ?_, payoutFor_le .., by linarith,
      sub_pow_mul_le hsupply htokens hratio hhalf⟩
    unfold sell
    rw [check_of_ratio supply reserve tokens hratio (by omega)]
    rfl

/-- A deposit of a tenth of the reserve, and a sell of half of the supply. -/
theorem fills_within_sample_curve :
    (∃ minted : Nat, buy (some (1000000 : Nat)) (some (5000 : Nat)) (some (500 : Nat))
        (some (100000 : Nat)) = .ok minted ∧
      (minted : ℝ) ≤ (1000000 : Nat) *
        ((1 + (500 : Nat) / (5000 : Nat) : ℝ) ^ ((100000 : Nat) / ppm : ℝ) - 1)) ∧
    ∃ paid : Nat, sell (some (1000000 : Nat)) (some (5000 : Nat)) (some (500000 : Nat))
        (some (50000 : Nat)) = .ok paid ∧ paid ≤ 5000 := by
  obtain ⟨hbuy, hsell⟩ := fills_within_curve (by decide : 1 ≤ 1000000) (by decide : 1 ≤ 5000)
  obtain ⟨minted, hminted, hwithin, -⟩ := hbuy 500 100000 (by decide) (by decide) (by decide)
  obtain ⟨paid, hpaid, hle, -⟩ := hsell 500000 50000 (by decide) (by decide) (by decide)
  exact ⟨⟨minted, hminted, hwithin⟩, paid, hpaid, hle⟩

/-! ## There and back -/

section RoundTrip

variable {supply reserve deposit ratio : Nat}

theorem rpow_neg_le_unsold (hsupply : 0 < supply) (hreserve : 0 < reserve)
    (deposit ratio : Nat) :
    (1 + deposit / reserve : ℝ) ^ (-(ratio / ppm * (1 + 1 / work)) : ℝ) ≤
      1 - tokensFor supply reserve deposit ratio /
        (supply + tokensFor supply reserve deposit ratio : Nat) := by
  have hsupplyReal : (0 : ℝ) < supply := Nat.cast_pos.mpr hsupply
  have hunit : (0 : ℝ) ≤ 1 / work := div_nonneg zero_le_one work_pos.le
  have hgrowth := value_growth_le_rpow hreserve deposit ratio
  have hone : 1 ≤ (1 + deposit / reserve : ℝ) ^ (ratio / ppm * (1 + 1 / work) : ℝ) :=
    Real.one_le_rpow (le_add_of_nonneg_right (by positivity)) (by positivity)
  have hgrown : (supply + tokensFor supply reserve deposit ratio : ℝ) ≤ supply * _ :=
    add_tokensFor_le_mul hone hgrowth
  have hgrownPos : (0 : ℝ) < supply + tokensFor supply reserve deposit ratio := by positivity
  have hkept : (1 - tokensFor supply reserve deposit ratio /
      (supply + tokensFor supply reserve deposit ratio : Nat) : ℝ) =
        supply / (supply + tokensFor supply reserve deposit ratio) := by
    push_cast
    field_simp
    ring
  rw [hkept, Real.rpow_neg (by positivity), inv_le_iff_one_le_mul₀ (by positivity),
    div_mul_eq_mul_div, one_le_div hgrownPos]
  exact hgrown

theorem inv_sub_le_rpow_neg {x u : ℝ} (hx : 1 ≤ x) (hu : 0 ≤ u) :
    x⁻¹ - u ≤ x ^ (-(1 + u)) := by
  have hpos : 0 < x := zero_lt_one.trans_le hx
  have hlog : x⁻¹ * Real.log x ≤ 1 := by
    rw [inv_mul_le_one₀ hpos]
    linarith [Real.log_le_sub_one_of_pos hpos]
  have hexp : 1 - u * Real.log x ≤ x ^ (-u) := by
    rw [Real.rpow_def_of_pos hpos]
    linarith [Real.add_one_le_exp (Real.log x * -u)]
  calc x⁻¹ - u ≤ x⁻¹ * (1 - u * Real.log x) := by nlinarith
    _ ≤ x⁻¹ * x ^ (-u) := mul_le_mul_of_nonneg_left hexp (inv_nonneg.mpr hpos.le)
    _ = x ^ (-(1 + u)) := by
        rw [neg_add, Real.rpow_add hpos, Real.rpow_neg_one]

/-- Selling the tokens of a buy leaves the reserve from before it, but for four units of what the
reserve has become. -/
theorem reserve_sub_le_of_round_trip (deposit : Nat) (hsupply : 0 < supply)
    (hreserve : 0 < reserve) (hratio : 0 < ratio) (hhalf : 2 * ratio ≤ ppm) :
    (reserve - 4 / work * (reserve + deposit) : ℝ) ≤ (reserve + deposit : Nat) -
      payoutFor (supply + tokensFor supply reserve deposit ratio) (reserve + deposit)
        (tokensFor supply reserve deposit ratio) ratio := by
  have hreserveReal : (0 : ℝ) < reserve := Nat.cast_pos.mpr hreserve
  have hratioReal : (ratio : ℝ) ≠ 0 := (Nat.cast_pos.mpr hratio).ne'
  have hppm : (ppm : ℝ) ≠ 0 := Nat.cast_ne_zero.mpr (by decide)
  have hunit : (0 : ℝ) ≤ 1 / work := div_nonneg zero_le_one work_pos.le
  have hone : (1 : ℝ) ≤ 1 + deposit / reserve := le_add_of_nonneg_right (by positivity)
  have hunsold := rpow_neg_le_unsold hsupply hreserve deposit ratio
  have hleft := le_reserve_sub_payoutFor_of_le (reserve + deposit)
    (by omega : 0 < supply + tokensFor supply reserve deposit ratio) (Nat.le_add_left _ supply)
    hratio hhalf
  generalize tokensFor supply reserve deposit ratio = minted at *
  have hkept : (1 + deposit / reserve : ℝ)⁻¹ - 1 / work ≤
      (1 - minted / (supply + minted : Nat) : ℝ) ^ (ppm / ratio : ℝ) := by
    calc (1 + deposit / reserve : ℝ)⁻¹ - 1 / work
        ≤ (1 + deposit / reserve : ℝ) ^ (-(1 + 1 / work) : ℝ) := inv_sub_le_rpow_neg hone hunit
      _ = ((1 + deposit / reserve : ℝ) ^ (-(ratio / ppm * (1 + 1 / work)) : ℝ)) ^
            (ppm / ratio : ℝ) := by
          rw [← Real.rpow_mul (by positivity)]
          congr 1
          field_simp
      _ ≤ (1 - minted / (supply + minted : Nat) : ℝ) ^ (ppm / ratio : ℝ) :=
          Real.rpow_le_rpow (by positivity) hunsold (by positivity)
  have hback : (reserve + deposit : ℝ) * (1 + deposit / reserve : ℝ)⁻¹ = reserve := by
    field_simp
  have hscaled := mul_le_mul_of_nonneg_left hkept
    (by positivity : (0 : ℝ) ≤ (reserve + deposit : Nat))
  push_cast at hscaled hleft ⊢
  rw [mul_sub, hback] at hscaled
  rw [mul_sub] at hleft
  have hunits : 4 / work * (reserve + deposit : ℝ) =
      (reserve + deposit) * (1 / work) + (reserve + deposit) * (3 / work) := by ring
  linarith

theorem payoutFor_tokensFor_le (supply : Nat) (hbound : reserve + deposit ≤ 10 ^ 30)
    (hratio : 0 < ratio) (hhalf : 2 * ratio ≤ ppm) :
    payoutFor (supply + tokensFor supply reserve deposit ratio) (reserve + deposit)
      (tokensFor supply reserve deposit ratio) ratio ≤ deposit := by
  rcases Nat.eq_zero_or_pos (tokensFor supply reserve deposit ratio) with hnone | hsome
  · rw [hnone, payoutFor_zero]
    exact Nat.zero_le deposit
  · obtain ⟨hsupply, hreserve⟩ := pos_of_tokensFor (Nat.ne_of_gt hsome)
    have hleft : (reserve - 4 / work * (reserve + deposit) : ℝ) ≤ (reserve + deposit : Nat) - _ :=
      reserve_sub_le_of_round_trip deposit hsupply hreserve hratio hhalf
    generalize payoutFor _ _ _ _ = paid at *
    have hunits : 4 / work * (reserve + deposit : ℝ) < 1 := by
      have hreal : (reserve + deposit : ℝ) ≤ 10 ^ 30 := by exact_mod_cast hbound
      calc 4 / work * (reserve + deposit : ℝ) ≤ 4 / work * 10 ^ 30 :=
            mul_le_mul_of_nonneg_left hreal (div_nonneg zero_le_four work_pos.le)
        _ < 1 := by
            unfold work
            norm_num
    push_cast at hleft
    have hpaid : (paid : ℝ) < (deposit + 1 : Nat) := by
      push_cast
      linarith
    exact Nat.lt_succ_iff.mp (Nat.cast_lt.mp hpaid)

/-- Buying and then selling what was bought never profits: whatever the deposit is to the reserve,
no more than the deposit comes back. -/
theorem buy_then_sell_le (supply : Nat) (hbound : reserve + deposit ≤ 10 ^ 30)
    (hmin : minRatio ≤ ratio) (hmax : ratio ≤ maxRatio) :
    ∃ minted paid : Nat,
      buy (some supply) (some reserve) (some deposit) (some ratio) = .ok minted ∧
      sell (some (supply + minted : Nat)) (some (reserve + deposit : Nat)) (some minted)
        (some ratio) = .ok paid ∧
      paid ≤ deposit := by
  have hratio : 0 < ratio := Nat.lt_of_lt_of_le (by decide) hmin
  have hhalf : 2 * ratio ≤ ppm := Nat.mul_le_mul_left 2 hmax
  refine ⟨tokensFor supply reserve deposit ratio, _, ?_, ?_,
    payoutFor_tokensFor_le supply hbound hratio hhalf⟩
  · unfold buy
    rw [check_of_ratio supply reserve deposit hratio (by omega)]
    rfl
  · unfold sell
    rw [check_of_ratio _ _ _ hratio (by omega)]
    rfl

end RoundTrip

/-- A deposit of a million times the reserve. -/
theorem sample_buy_then_sell_le :
    ∃ minted paid : Nat,
      buy (some (1000000 : Nat)) (some (5 : Nat)) (some (5000000 : Nat)) (some (500000 : Nat)) =
        .ok minted ∧
      sell (some (1000000 + minted : Nat)) (some (5 + 5000000 : Nat)) (some minted)
        (some (500000 : Nat)) = .ok paid ∧
      paid ≤ 5000000 :=
  buy_then_sell_le 1000000 (by decide) (by decide) (by decide)

end CurveMarket.Curve
