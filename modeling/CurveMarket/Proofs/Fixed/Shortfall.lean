import Mathlib.Analysis.Convex.SpecificFunctions.Pow
import CurveMarket.Proofs.Fixed.Decline
import CurveMarket.Proofs.Fixed.Range

/-! # How far a power falls short

A base below a third is multiplied by the rounded-up `e` until it is in the reduced range, and every
product loses less than a unit. All that is lost on the way is worth less than a unit of the number
at the start. With an exponent of two or more that is a unit of the power at most, so no power of a
base below one falls short of its exact value by more than three units of the working scale, however
small the base is.
-/

namespace CurveMarket.Fixed

/-! ## Logarithms of small numbers -/

theorem sub_one_mul_pow_le_scaleUpBy {num den bound : Nat} {c : ℝ} (hc : 2 ≤ c)
    (hnum : c * den ≤ num) (x : Nat) :
    ((x : ℝ) - 1) * c ^ (scaleUpBy num den bound x).2 ≤ (scaleUpBy num den bound x).1 - 1 := by
  fun_induction scaleUpBy num den bound x with
  | case1 x h r ih =>
      have hden : (0 : ℝ) < den := Nat.cast_pos.mpr h.2.1
      have hfloor : (x : ℝ) * num < den * ((x * num / den : Nat) + 1) := by
        exact_mod_cast Nat.lt_mul_div_succ (x * num) h.2.1
      have hproduct : (x : ℝ) * (c * den) ≤ x * num :=
        mul_le_mul_of_nonneg_left hnum (Nat.cast_nonneg x)
      have hstep : x * c ≤ (x * num / den : Nat) + 1 := by
        refine le_of_mul_le_mul_left ?_ hden
        linarith
      calc ((x : ℝ) - 1) * c ^ (r.2 + 1) = (x * c - c) * c ^ r.2 := by ring
        _ ≤ ((x * num / den : Nat) - 1) * c ^ r.2 :=
          mul_le_mul_of_nonneg_right (by linarith) (by positivity)
        _ ≤ r.1 - 1 := ih
  | case2 x h => simp

theorem sub_one_mul_exp_le_scaleUp (x : Nat) :
    ((x : ℝ) - 1) * Real.exp (scaleUp x).2 ≤ (scaleUp x).1 := by
  have htwo : 2 ≤ Real.exp 1 := by linarith [Real.add_one_le_exp (1 : ℝ)]
  have hnum : Real.exp 1 * work ≤ eWork := (le_div_iff₀ work_pos).mp exp_one_le_eWork
  have hscaled : ((x : ℝ) - 1) * Real.exp 1 ^ (scaleUp x).2 ≤ (scaleUp x).1 - 1 :=
    sub_one_mul_pow_le_scaleUpBy htwo hnum x
  rw [← Real.exp_nat_mul, mul_one] at hscaled
  linarith

theorem exists_lnWork_of_ge {x : Nat} (hthird : thirdWork ≤ x) (hx : x < work) :
    ∃ l : Nat, lnWork x = -(l : Int) ∧ (l : ℝ) ≤ work * -Real.log (x / work) := by
  have hpos : 0 < x := Nat.lt_of_lt_of_le (by decide) hthird
  have hthree : work < threeWork := by decide
  have hmagnitude := lnMagnitude_le hpos
  rw [abs_log_of_le hpos hx.le] at hmagnitude
  refine ⟨lnMagnitude x, ?_, hmagnitude⟩
  rw [lnWork_eq_reducedLn hthird (by omega), reducedLn_of_lt hx]

theorem exists_lnWork_of_lt {x : Nat} (hone : 1 < x) (hx : x < thirdWork) :
    ∃ l : Nat, lnWork x = -(l : Int) ∧ (l : ℝ) ≤ work * -Real.log ((x - 1) / work) := by
  obtain ⟨hlow, hhigh, hln⟩ := lnWork_eq_scaleUp (by omega) hx
  have hscaled := sub_one_mul_exp_le_scaleUp x
  refine ⟨_, hln, ?_⟩
  generalize (scaleUp x).1 = r at *
  generalize (scaleUp x).2 = k at *
  have hxReal : (0 : ℝ) < x - 1 := sub_pos.mpr (Nat.one_lt_cast.mpr hone)
  have hr : 0 < r := Nat.lt_of_lt_of_le (by decide) hlow
  have hrReal : (0 : ℝ) < r := Nat.cast_pos.mpr hr
  have hmagnitude := lnMagnitude_le hr
  rw [abs_log_of_le hr hhigh.le] at hmagnitude
  have hlog : Real.log ((x - 1) / work) + k ≤ Real.log (r / work) := by
    have hproduct : ((x : ℝ) - 1) / work * Real.exp k ≤ r / work := by
      rw [div_mul_eq_mul_div]
      exact div_le_div_of_nonneg_right hscaled work_pos.le
    have hpositive : (0 : ℝ) < (x - 1) / work := div_pos hxReal work_pos
    have hle := Real.log_le_log (mul_pos hpositive (Real.exp_pos _)) hproduct
    rwa [Real.log_mul hpositive.ne' (Real.exp_pos _).ne', Real.log_exp] at hle
  push_cast
  calc (lnMagnitude r : ℝ) + k * work ≤ work * -Real.log (r / work) + k * work :=
        add_le_add_left hmagnitude _
    _ = work * -(Real.log (r / work) - k) := by ring
    _ ≤ work * -Real.log ((x - 1) / work) :=
        mul_le_mul_of_nonneg_left (by linarith) work_pos.le

/-! ## Exponentials of negative numbers -/

/-- A negative exponent loses a unit to the reciprocal and another to the rounded-up `e`. -/
theorem sub_two_le_expWork_neg (y : Nat) :
    work * Real.exp (-(y / work)) - 2 ≤ expWork (-(y : Int)) := by
  have hreciprocal := le_expWork_neg_of_le (work_le_expWorkNat y) (expWorkNat_le y)
  have hshare : (0 : ℝ) ≤ y / work := div_nonneg (Nat.cast_nonneg y) work_pos.le
  generalize (y : ℝ) / work = x at *
  have hsplit : Real.exp (-x) * (1 - x * (1 / work)) ≤ Real.exp (-(x * (1 + 1 / work))) := by
    rw [mul_add, mul_one, neg_add, Real.exp_add]
    refine mul_le_mul_of_nonneg_left ?_ (Real.exp_pos _).le
    linarith [Real.add_one_le_exp (-(x * (1 / (work : ℝ))))]
  have hlost : Real.exp (-x) * x ≤ 1 := by
    rw [Real.exp_neg, inv_mul_le_one₀ (Real.exp_pos x)]
    linarith [Real.add_one_le_exp x]
  have hscaled := mul_le_mul_of_nonneg_left hsplit work_pos.le
  have hunits : work * (Real.exp (-x) * (1 - x * (1 / work))) =
      work * Real.exp (-x) - Real.exp (-x) * x := by
    have hne := work_pos.ne'
    field_simp
  linarith

theorem work_mul_exp_le_guard {y : Nat} (h : minExponentMagnitude * guard ≤ y) :
    work * Real.exp (-(y / work)) ≤ guard := by
  have hwholes : (42 : ℝ) ≤ y / work := by
    rw [le_div_iff₀ work_pos]
    have hscaled : 42 * work ≤ y := Nat.le_trans (by decide) h
    exact_mod_cast hscaled
  have hlarge : (one : ℝ) ≤ Real.exp 42 := by
    calc (one : ℝ) ≤ 2.7 ^ 42 := by
          unfold one
          norm_num
      _ ≤ Real.exp 1 ^ 42 :=
          pow_le_pow_left₀ (by norm_num) (by linarith [Real.exp_one_gt_d9]) 42
      _ = Real.exp 42 := by
          rw [← Real.exp_nat_mul]
          norm_num
  have hexp : Real.exp (-(y / work)) * one ≤ 1 := by
    calc Real.exp (-(y / work)) * one ≤ Real.exp (-42) * Real.exp 42 :=
          mul_le_mul (Real.exp_le_exp.mpr (by linarith)) hlarge one_real_pos.le (Real.exp_pos _).le
      _ = 1 := by rw [← Real.exp_add, neg_add_cancel, Real.exp_zero]
  calc work * Real.exp (-(y / work)) = guard * (Real.exp (-(y / work)) * one) := by
        rw [mul_left_comm, mul_comm (guard : ℝ), ← Nat.cast_mul, ← work_eq_one_mul_guard, mul_comm]
    _ ≤ guard * 1 := mul_le_mul_of_nonneg_left hexp (Nat.cast_nonneg guard)
    _ = guard := mul_one _

/-! ## Powers -/

theorem rpow_sub_mul_le {x d p : ℝ} (hx : 0 < x) (hd : d ≤ x) (hp : 1 ≤ p) :
    x ^ p - p * x ^ (p - 1) * d ≤ (x - d) ^ p := by
  have hshare : d / x ≤ 1 := (div_le_one hx).mpr hd
  have hbernoulli : 1 + p * -(d / x) ≤ (1 + -(d / x)) ^ p :=
    one_add_mul_self_le_rpow_one_add (by linarith) hp
  have hpower : x ^ p = x ^ (p - 1) * x := by
    rw [← Real.rpow_add_one hx.ne', sub_add_cancel]
  have hfactor : x - d = x * (1 + -(d / x)) := by
    field_simp
    ring
  calc x ^ p - p * x ^ (p - 1) * d = x ^ p * (1 + p * -(d / x)) := by
        rw [hpower]
        field_simp
        ring
    _ ≤ x ^ p * (1 + -(d / x)) ^ p :=
        mul_le_mul_of_nonneg_left hbernoulli (Real.rpow_nonneg hx.le p)
    _ = (x - d) ^ p := by rw [hfactor, Real.mul_rpow hx.le (by linarith)]

/-- A power of two or more loses no more than its base does, down from a third. -/
theorem rpow_sub_le {x d p : ℝ} (hd : 0 ≤ d) (hx : d < x) (hthird : 3 * x ≤ 1) (hp : 2 ≤ p) :
    x ^ p - d ≤ (x - d) ^ p := by
  have hpos : 0 < x := hd.trans_lt hx
  have hslope : p * x ^ (p - 1) ≤ 1 := by
    have hthree : p ≤ 3 ^ (p - 1) := by
      have hgrowth : 1 + (p - 1) * 2 ≤ (1 + 2 : ℝ) ^ (p - 1) :=
        one_add_mul_self_le_rpow_one_add (by norm_num) (by linarith)
      norm_num at hgrowth
      linarith
    calc p * x ^ (p - 1) ≤ 3 ^ (p - 1) * x ^ (p - 1) :=
          mul_le_mul_of_nonneg_right hthree (Real.rpow_nonneg hpos.le _)
      _ = (3 * x) ^ (p - 1) := (Real.mul_rpow (by norm_num) hpos.le).symm
      _ ≤ 1 := Real.rpow_le_one (by linarith) hthird (by linarith)
  have htangent := rpow_sub_mul_le hpos hx.le (by linarith : 1 ≤ p)
  nlinarith

section Power

variable {base exponent : Nat}

/-- What a bound on the logarithm says of a power, which is zero only where it is below a unit. -/
theorem le_powerWork_of_lnWork (exponent : Nat) {l : Nat} {x : ℝ} (hx : 0 < x)
    (hln : lnWork (base * guard) = -(l : Int)) (hl : (l : ℝ) ≤ work * -Real.log x) :
    work * x ^ value exponent - 2 ≤ (max (powerWork base exponent) guard : Nat) := by
  have hexponent := mul_div_one_le exponent hl
  have hexact : work * x ^ value exponent ≤
      work * Real.exp (-((exponent * l / one : Nat) / work)) := by
    rw [Real.rpow_def_of_pos hx]
    refine mul_le_mul_of_nonneg_left (Real.exp_le_exp.mpr ?_) work_pos.le
    rw [le_neg, div_le_iff₀ work_pos]
    linarith
  unfold powerWork
  dsimp only
  rw [powerLn_of_neg hln]
  generalize exponent * l / one = y at *
  rw [Nat.cast_max]
  split
  · have hflushed := work_mul_exp_le_guard (y := y) (by omega)
    have hguard := le_max_right ((0 : Nat) : ℝ) (guard : ℝ)
    linarith
  · rw [Int.min_eq_left (by omega)]
    have hexp := sub_two_le_expWork_neg y
    have hkept := le_max_left (expWork (-(y : Int)) : ℝ) (guard : ℝ)
    linarith

theorem sub_three_le_powerWork (hpos : 0 < base) (hone : base < one)
    (hexponent : 2 * one ≤ exponent) :
    work * value base ^ value exponent - 3 ≤ (max (powerWork base exponent) guard : Nat) := by
  have hbelow := lt_work_of_lt_one hone
  rcases Nat.lt_or_ge (base * guard) thirdWork with hfar | hnear
  · have hunits : guard ≤ base * guard := Nat.le_mul_of_pos_left guard hpos
    have hlarge : 1 < base * guard := Nat.lt_of_lt_of_le (by decide) hunits
    obtain ⟨l, hln, hl⟩ := exists_lnWork_of_lt hlarge hfar
    rw [sub_div, value_eq] at hl
    have hshare : 1 / (work : ℝ) < value base := by
      rw [← value_eq]
      exact div_lt_div_of_pos_right (Nat.one_lt_cast.mpr hlarge) work_pos
    have hpower := le_powerWork_of_lnWork exponent (sub_pos.mpr hshare) hln hl
    have hthird : 3 * value base ≤ 1 := by
      rw [← value_eq, ← mul_div_assoc, div_le_one work_pos]
      rw [thirdWork_eq] at hfar
      have hscaled : 3 * (base * guard) ≤ work := by omega
      exact_mod_cast hscaled
    have htwo : 2 ≤ value exponent := le_value_of_mul_le hexponent
    have hlost := rpow_sub_le (div_nonneg zero_le_one work_pos.le) hshare hthird htwo
    have hscaled := mul_le_mul_of_nonneg_left hlost work_pos.le
    rw [mul_sub, mul_one_div_cancel work_pos.ne'] at hscaled
    linarith
  · obtain ⟨l, hln, hl⟩ := exists_lnWork_of_ge hnear hbelow
    rw [value_eq] at hl
    have hpower := le_powerWork_of_lnWork exponent (value_pos hpos) hln hl
    linarith

/-- Rounding up keeps any power below one from falling short by more than three units. -/
theorem sub_three_le_value_powerUp (hpos : 0 < base) (hone : base ≤ one)
    (hexponent : 2 * one ≤ exponent) :
    value base ^ value exponent - 3 / work ≤ value (powerUp base exponent) := by
  have hunits : (0 : ℝ) ≤ 3 / work := div_nonneg zero_le_three work_pos.le
  have hpositive : 0 < one := by decide
  rcases Nat.eq_or_lt_of_le hone with rfl | hlt
  · rw [powerUp_one, value_one, Real.one_rpow]
    linarith
  · have hpower := sub_three_le_powerWork hpos hlt hexponent
    have hrounded : max (powerWork base exponent) guard ≤ powerUp base exponent * guard := by
      rw [powerUp_of_lt hpos hlt (by omega), Nat.max_comm 1, ← Nat.mul_max_mul_right, Nat.one_mul]
      exact max_le_max_right guard (le_divUp_mul _ (by decide))
    have hscaled : (max (powerWork base exponent) guard : Nat) ≤
        value (powerUp base exponent) * work := by
      rw [work_eq_one_mul_guard, Nat.cast_mul, ← mul_assoc, value_mul_one]
      exact_mod_cast hrounded
    refine le_of_mul_le_mul_right ?_ work_pos
    rw [sub_mul, div_mul_cancel₀ _ work_pos.ne', mul_comm]
    linarith

end Power

end CurveMarket.Fixed
