import Mathlib.Analysis.Complex.ExponentialBounds
import CurveMarket.Curve.Price
import CurveMarket.Proofs.Fixed.Power

/-! # Trades against the exact curve

On the curve a reserve and a supply move together so that the reserve, divided by the supply to the
power of the inverse ratio, stays the same. A buy of at most the reserve mints no more than that
allows. A sell that leaves half of the reserve or more pays out at most a unit of the working scale
of the reserve beyond it.
-/

namespace CurveMarket.Curve

open Fixed

theorem value_one_add {x : Nat} : value (one + x) = 1 + value x := by
  unfold value
  rw [Nat.cast_add, add_div, div_self one_real_pos.ne']

theorem value_one_sub {x : Nat} (h : x ≤ one) : value (one - x) = 1 - value x := by
  unfold value
  rw [Nat.cast_sub h, sub_div, div_self one_real_pos.ne']

theorem value_quotient_le {a b : Nat} (hb : 0 < b) : value (a * one / b) ≤ a / b := by
  have hbReal : (b : ℝ) ≠ 0 := (Nat.cast_pos.mpr hb).ne'
  refine value_div_le hb ?_
  rw [Nat.cast_mul, div_mul_cancel₀ _ hbReal]

theorem value_nonneg (x : Nat) : 0 ≤ value x := div_nonneg (Nat.cast_nonneg x) one_real_pos.le

/-! ## Buying -/

section Buy

variable {supply reserve deposit ratio : Nat}

theorem pos_of_tokensFor (h : tokensFor supply reserve deposit ratio ≠ 0) :
    0 < supply ∧ 0 < reserve := by
  unfold tokensFor at h
  split at h
  · exact absurd rfl h
  · omega

theorem value_growth_le (hreserve : 0 < reserve) (hdeposit : deposit ≤ reserve)
    (hratio : ratio ≤ ppm) :
    value (growth reserve deposit ratio) ≤ (1 + deposit / reserve : ℝ) ^ (ratio / ppm : ℝ) := by
  have hreserveReal : (0 : ℝ) < reserve := Nat.cast_pos.mpr hreserve
  have hppm : (0 : ℝ) < ppm := Nat.cast_pos.mpr (by decide)
  have hshare : (deposit : ℝ) / reserve ≤ 1 :=
    (div_le_one hreserveReal).mpr (Nat.cast_le.mpr hdeposit)
  have hbase := value_quotient_le (a := deposit) hreserve
  have hweight := value_quotient_le (a := ratio) (b := ppm) (by decide)
  have hwhole : (ratio : ℝ) / ppm ≤ 1 := (div_le_one hppm).mpr (Nat.cast_le.mpr hratio)
  have hone : one ≤ one + deposit * one / reserve := Nat.le_add_right ..
  have hthree : one + deposit * one / reserve ≤ 3 * one := by
    have hquotient : deposit * one / reserve ≤ one :=
      Nat.div_le_of_le_mul (Nat.mul_le_mul_right one hdeposit)
    omega
  have hvalue : value (one + deposit * one / reserve) ≤ 1 + deposit / reserve := by
    rw [value_one_add]
    linarith
  have hvalueOne : 1 ≤ value (one + deposit * one / reserve) := by
    rw [value_one_add]
    linarith [value_nonneg (deposit * one / reserve)]
  have hlog : Real.log (value (one + deposit * one / reserve)) < 1 := by
    calc Real.log (value (one + deposit * one / reserve)) ≤ Real.log 2 :=
          Real.log_le_log (by linarith) (by linarith)
      _ < 1 := by linarith [Real.log_two_lt_d9]
  have hsmall : value (ratio * one / ppm) *
      Real.log (value (one + deposit * one / reserve)) < 1 := by
    calc value (ratio * one / ppm) * Real.log (value (one + deposit * one / reserve))
        ≤ 1 * Real.log (value (one + deposit * one / reserve)) :=
          mul_le_mul_of_nonneg_right (hweight.trans hwhole) (Real.log_nonneg hvalueOne)
      _ < 1 := by linarith
  calc value (growth reserve deposit ratio)
      ≤ value (one + deposit * one / reserve) ^ value (ratio * one / ppm) :=
        value_powerDown_le hone hthree hsmall
    _ ≤ value (one + deposit * one / reserve) ^ (ratio / ppm : ℝ) :=
        Real.rpow_le_rpow_of_exponent_le hvalueOne hweight
    _ ≤ (1 + deposit / reserve : ℝ) ^ (ratio / ppm : ℝ) :=
        Real.rpow_le_rpow (by linarith) hvalue (by positivity)

theorem add_tokensFor_le_mul {x : ℝ} (hone : 1 ≤ x)
    (hgrowth : value (growth reserve deposit ratio) ≤ x) :
    (supply + tokensFor supply reserve deposit ratio : ℝ) ≤ supply * x := by
  have hsupply : (0 : ℝ) ≤ supply := Nat.cast_nonneg supply
  have htokens : (tokensFor supply reserve deposit ratio : ℝ) ≤ supply * (x - 1) := by
    unfold tokensFor
    split
    · rw [Nat.cast_zero]
      exact mul_nonneg hsupply (sub_nonneg.mpr hone)
    · refine cast_div_le_of_le (by decide) ?_
      rw [Nat.cast_mul, mul_assoc]
      refine mul_le_mul_of_nonneg_left ?_ hsupply
      rcases Nat.le_total one (growth reserve deposit ratio) with habove | hbelow
      · rw [Nat.cast_sub habove, ← value_mul_one (growth reserve deposit ratio), sub_mul, one_mul]
        exact sub_le_sub_right (mul_le_mul_of_nonneg_right hgrowth one_real_pos.le) _
      · rw [Nat.sub_eq_zero_of_le hbelow, Nat.cast_zero]
        exact mul_nonneg (sub_nonneg.mpr hone) one_real_pos.le
  linarith

/-- A supply grows by no more than the curve allows for the deposit. -/
theorem supply_add_tokensFor_le (hreserve : 0 < reserve) (hdeposit : deposit ≤ reserve)
    (hratio : ratio ≤ ppm) :
    (supply + tokensFor supply reserve deposit ratio : ℝ) ≤
      supply * (1 + deposit / reserve : ℝ) ^ (ratio / ppm : ℝ) :=
  add_tokensFor_le_mul (Real.one_le_rpow (le_add_of_nonneg_right (by positivity)) (by positivity))
    (value_growth_le hreserve hdeposit hratio)

end Buy

/-! ## Selling -/

section Sell

variable {supply reserve tokens ratio : Nat}

theorem le_value_unsold (htokens : tokens < supply) :
    (1 - tokens / supply : ℝ) ≤ value (one - tokens * one / supply) := by
  have hwithin : tokens * one / supply ≤ one :=
    Nat.div_le_of_le_mul (Nat.mul_le_mul_right one htokens.le)
  have hquotient := value_quotient_le (a := tokens) (Nat.zero_lt_of_lt htokens)
  rw [value_one_sub hwithin]
  linarith

theorem one_le_three_mul {x : Nat} (h : 1 / 2 ≤ value x) : one ≤ 3 * x := by
  have hunits := mul_le_mul_of_nonneg_right h one_real_pos.le
  rw [value_mul_one] at hunits
  have hreal : (one : ℝ) ≤ (3 * x : Nat) := by
    rw [Nat.cast_mul, Nat.cast_ofNat]
    linarith [one_real_pos]
  exact Nat.cast_le.mp hreal

theorem neg_one_lt_of_half_le_rpow {x y : ℝ} (hx : 0 < x) (h : 1 / 2 ≤ x ^ y) :
    -1 < y * Real.log x := by
  have hlog : Real.log (1 / 2) ≤ y * Real.log x := by
    rw [← Real.log_rpow hx]
    exact Real.log_le_log (by norm_num) h
  have htwo : Real.log (1 / 2) = -Real.log 2 := by
    rw [one_div, Real.log_inv]
  linarith [Real.log_two_lt_d9]

/-- Rounding the sold share and the inverse ratio down does not make the power smaller. -/
theorem rpow_le_rpow_value (htokens : tokens < supply) (hratio : 0 < ratio) :
    (1 - tokens / supply : ℝ) ^ (ppm / ratio : ℝ) ≤
      value (one - tokens * one / supply) ^ value (ppm * one / ratio) := by
  have hsupplyReal : (0 : ℝ) < supply := Nat.cast_pos.mpr (Nat.zero_lt_of_lt htokens)
  have hsold : (tokens : ℝ) / supply < 1 := (div_lt_one hsupplyReal).mpr (Nat.cast_lt.mpr htokens)
  have hweight := value_quotient_le (a := ppm) (b := ratio) hratio
  have hbase := le_value_unsold htokens
  have hbaseOne : value (one - tokens * one / supply) ≤ 1 := value_le_one (Nat.sub_le ..)
  calc (1 - tokens / supply : ℝ) ^ (ppm / ratio : ℝ)
      ≤ value (one - tokens * one / supply) ^ (ppm / ratio : ℝ) :=
        Real.rpow_le_rpow (by linarith) hbase (by positivity)
    _ ≤ value (one - tokens * one / supply) ^ value (ppm * one / ratio) :=
        Real.rpow_le_rpow_of_exponent_ge (by linarith) hbaseOne hweight

/-- A share of at least a half is raised to the inverse ratio without a reduction, and falls short
by at most a unit. -/
theorem le_value_remainder (htokens : tokens < supply) (hratio : 0 < ratio) (hppm : ratio ≤ ppm)
    (hhalf : 1 / 2 ≤ (1 - tokens / supply : ℝ) ^ (ppm / ratio : ℝ)) :
    (1 - tokens / supply : ℝ) ^ (ppm / ratio : ℝ) - 1 / work ≤
      value (remainder supply tokens ratio) := by
  have hsupplyReal : (0 : ℝ) < supply := Nat.cast_pos.mpr (Nat.zero_lt_of_lt htokens)
  have hratioReal : (0 : ℝ) < ratio := Nat.cast_pos.mpr hratio
  have hpower : (1 : ℝ) ≤ ppm / ratio := (one_le_div hratioReal).mpr (Nat.cast_le.mpr hppm)
  have hsold : (tokens : ℝ) / supply < 1 := (div_lt_one hsupplyReal).mpr (Nat.cast_lt.mpr htokens)
  have hsoldNonneg : (0 : ℝ) ≤ tokens / supply := by positivity
  have hstays : 1 / 2 ≤ (1 - tokens / supply : ℝ) := by
    calc (1 / 2 : ℝ) ≤ (1 - tokens / supply : ℝ) ^ (ppm / ratio : ℝ) := hhalf
      _ ≤ (1 - tokens / supply : ℝ) ^ (1 : ℝ) :=
        Real.rpow_le_rpow_of_exponent_ge (by linarith) (by linarith) hpower
      _ = 1 - tokens / supply := Real.rpow_one _
  have hbase := le_value_unsold htokens
  have hpowers : _ ≤ value (one - tokens * one / supply) ^ value (ppm * one / ratio) :=
    rpow_le_rpow_value htokens hratio
  have hremains := le_value_powerUp (one_le_three_mul (hstays.trans hbase)) (Nat.sub_le ..)
    (neg_one_lt_of_half_le_rpow (by linarith) (hhalf.trans hpowers))
  show _ ≤ value (powerUp (one - tokens * one / supply) (ppm * one / ratio))
  linarith

theorem mul_le_reserve_sub_payoutFor {x : ℝ} (htokens : tokens < supply) (hone : x ≤ 1)
    (hx : x ≤ value (remainder supply tokens ratio)) :
    reserve * x ≤ reserve - payoutFor supply reserve tokens ratio := by
  have hreserve : (0 : ℝ) ≤ reserve := Nat.cast_nonneg reserve
  have hpayout : (payoutFor supply reserve tokens ratio : ℝ) ≤ reserve * (1 - x) := by
    unfold payoutFor
    split
    · rw [Nat.cast_zero]
      exact mul_nonneg hreserve (by linarith)
    · rw [if_neg (Nat.ne_of_lt htokens)]
      refine (Nat.cast_le.mpr (Nat.min_le_left ..)).trans (cast_div_le_of_le (by decide) ?_)
      rw [Nat.cast_mul, mul_assoc]
      refine mul_le_mul_of_nonneg_left ?_ hreserve
      rcases Nat.le_total (remainder supply tokens ratio) one with hone | hone
      · rw [Nat.cast_sub hone, ← value_mul_one (remainder supply tokens ratio)]
        nlinarith [one_real_pos]
      · rw [Nat.sub_eq_zero_of_le hone, Nat.cast_zero]
        exact mul_nonneg (by linarith) one_real_pos.le
  linarith

theorem le_reserve_sub_payoutFor (htokens : tokens < supply) (hratio : 0 < ratio)
    (hppm : ratio ≤ ppm) (hhalf : 1 / 2 ≤ (1 - tokens / supply : ℝ) ^ (ppm / ratio : ℝ)) :
    reserve * ((1 - tokens / supply : ℝ) ^ (ppm / ratio : ℝ) - 1 / work) ≤
      reserve - payoutFor supply reserve tokens ratio := by
  have hsupplyReal : (0 : ℝ) < supply := Nat.cast_pos.mpr (Nat.zero_lt_of_lt htokens)
  have hsold : (tokens : ℝ) / supply < 1 := (div_lt_one hsupplyReal).mpr (Nat.cast_lt.mpr htokens)
  have hsoldNonneg : (0 : ℝ) ≤ tokens / supply := by positivity
  have hexact : (1 - tokens / supply : ℝ) ^ (ppm / ratio : ℝ) ≤ 1 :=
    Real.rpow_le_one (by linarith) (by linarith) (by positivity)
  have hunit : (0 : ℝ) ≤ 1 / work := div_nonneg zero_le_one work_pos.le
  exact mul_le_reserve_sub_payoutFor htokens (by linarith)
    (le_value_remainder htokens hratio hppm hhalf)

end Sell

/-! ## The reserve after a trade -/

/-- The factor by which the curve asks the reserve to move when one supply becomes another. -/
noncomputable def reserveFactor (ratio : Nat) (before after : ℝ) : ℝ :=
  (after / before) ^ (ppm / ratio : ℝ)

theorem reserveFactor_nonneg (ratio : Nat) {before after : ℝ} (hbefore : 0 ≤ before)
    (hafter : 0 ≤ after) : 0 ≤ reserveFactor ratio before after :=
  Real.rpow_nonneg (div_nonneg hafter hbefore) _

theorem reserveFactor_self (ratio : Nat) {supply : ℝ} (h : 0 < supply) :
    reserveFactor ratio supply supply = 1 := by
  unfold reserveFactor
  rw [div_self h.ne', Real.one_rpow]

theorem reserveFactor_mul (ratio : Nat) {first second third : ℝ} (hfirst : 0 < first)
    (hsecond : 0 < second) (hthird : 0 < third) :
    reserveFactor ratio first second * reserveFactor ratio second third =
      reserveFactor ratio first third := by
  unfold reserveFactor
  rw [← Real.mul_rpow (by positivity) (by positivity)]
  congr 1
  field_simp

theorem one_le_reserveFactor (ratio : Nat) {before after : ℝ} (hbefore : 0 < before)
    (h : before ≤ after) : 1 ≤ reserveFactor ratio before after :=
  Real.one_le_rpow ((one_le_div hbefore).mpr h) (by positivity)

section Reserve

variable {supply reserve ratio : Nat}

/-- A buy brings at least the reserve that the curve asks for. -/
theorem reserveFactor_le_of_buy {deposit : Nat} (hsupply : 0 < supply) (hreserve : 0 < reserve)
    (hdeposit : deposit ≤ reserve) (hratio : 0 < ratio) (hppm : ratio ≤ ppm) :
    reserve * reserveFactor ratio supply (supply + tokensFor supply reserve deposit ratio) ≤
      reserve + deposit := by
  have hsupplyReal : (0 : ℝ) < supply := Nat.cast_pos.mpr hsupply
  have hreserveReal : (0 : ℝ) < reserve := Nat.cast_pos.mpr hreserve
  have hratioReal : (ratio : ℝ) ≠ 0 := (Nat.cast_pos.mpr hratio).ne'
  have hppmReal : (ppm : ℝ) ≠ 0 := Nat.cast_ne_zero.mpr (by decide)
  have hminted : (supply + tokensFor supply reserve deposit ratio : ℝ) ≤ _ :=
    supply_add_tokensFor_le hreserve hdeposit hppm
  have hgrown : ((supply : ℝ) + tokensFor supply reserve deposit ratio) / supply ≤
      (1 + deposit / reserve : ℝ) ^ (ratio / ppm : ℝ) := by
    rw [div_le_iff₀ hsupplyReal, mul_comm]
    exact hminted
  have hfactor : reserveFactor ratio supply (supply + tokensFor supply reserve deposit ratio) ≤
      1 + deposit / reserve := by
    calc reserveFactor ratio supply (supply + tokensFor supply reserve deposit ratio)
        ≤ ((1 + deposit / reserve : ℝ) ^ (ratio / ppm : ℝ)) ^ (ppm / ratio : ℝ) :=
          Real.rpow_le_rpow (by positivity) hgrown (by positivity)
      _ = (1 + deposit / reserve : ℝ) ^ (ratio / ppm * (ppm / ratio) : ℝ) :=
          (Real.rpow_mul (by positivity) _ _).symm
      _ = (1 + deposit / reserve : ℝ) ^ (1 : ℝ) := by
          congr 1
          field_simp
      _ = 1 + deposit / reserve := Real.rpow_one _
  calc reserve * reserveFactor ratio supply (supply + tokensFor supply reserve deposit ratio)
      ≤ reserve * (1 + deposit / reserve) := mul_le_mul_of_nonneg_left hfactor hreserveReal.le
    _ = reserve + deposit := by
        field_simp

/-- A sell that leaves half of the reserve leaves what the curve asks for, but for two units in the
working scale. -/
theorem reserveFactor_le_of_sell {tokens : Nat} (htokens : tokens < supply) (hratio : 0 < ratio)
    (hppm : ratio ≤ ppm) (hhalf : 2 * payoutFor supply reserve tokens ratio ≤ reserve) :
    reserve * reserveFactor ratio supply (supply - tokens) * (1 - 2 / work) ≤
      reserve - payoutFor supply reserve tokens ratio := by
  have hsupplyReal : (0 : ℝ) < supply := Nat.cast_pos.mpr (Nat.zero_lt_of_lt htokens)
  have hreserve : (0 : ℝ) ≤ reserve := Nat.cast_nonneg reserve
  have hunit : (0 : ℝ) < 1 / work := div_pos one_pos work_pos
  have htwo : (2 : ℝ) / work = 2 * (1 / work) := by ring
  have hstays : ((supply : ℝ) - tokens) / supply = 1 - tokens / supply := by
    rw [sub_div, div_self hsupplyReal.ne']
  have hsold : (tokens : ℝ) ≤ supply := Nat.cast_le.mpr htokens.le
  have hnonneg : 0 ≤ reserveFactor ratio supply (supply - tokens) :=
    reserveFactor_nonneg ratio hsupplyReal.le (sub_nonneg.mpr hsold)
  rcases le_total (1 / 2) (reserveFactor ratio supply (supply - tokens)) with hlarge | hsmall
  · have hexact : reserveFactor ratio supply (supply - tokens) =
        (1 - tokens / supply : ℝ) ^ (ppm / ratio : ℝ) := by
      unfold reserveFactor
      rw [hstays]
    rw [hexact] at hlarge
    have hleft : reserve * _ ≤ (reserve - payoutFor supply reserve tokens ratio : ℝ) :=
      le_reserve_sub_payoutFor htokens hratio hppm hlarge
    rw [← hexact] at hleft
    have hshort : reserveFactor ratio supply (supply - tokens) * (1 - 2 / work) ≤
        reserveFactor ratio supply (supply - tokens) - 1 / work := by
      rw [htwo]
      nlinarith
    calc reserve * reserveFactor ratio supply (supply - tokens) * (1 - 2 / work)
        = reserve * (reserveFactor ratio supply (supply - tokens) * (1 - 2 / work)) :=
          mul_assoc ..
      _ ≤ reserve * (reserveFactor ratio supply (supply - tokens) - 1 / work) :=
          mul_le_mul_of_nonneg_left hshort hreserve
      _ ≤ reserve - payoutFor supply reserve tokens ratio := hleft
  · have hpaid : (2 * payoutFor supply reserve tokens ratio : ℝ) ≤ reserve := by
      exact_mod_cast hhalf
    have hshrunk : reserve * reserveFactor ratio supply (supply - tokens) * (1 - 2 / work) ≤
        reserve * reserveFactor ratio supply (supply - tokens) :=
      mul_le_of_le_one_right (mul_nonneg hreserve hnonneg) (by linarith)
    have hbelow := mul_le_mul_of_nonneg_left hsmall hreserve
    linarith

end Reserve

end CurveMarket.Curve
