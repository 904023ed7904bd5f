import Mathlib.Analysis.Complex.ExponentialBounds
import CurveMarket.Proofs.Fixed.Power

/-! # Powers of large bases

A base of any size is divided by the rounded-up `e` until it is in the reduced range, and the whole
part of an exponent is put on by squaring that `e`. The first rounding makes a logarithm smaller and
the second makes a power larger, by less than a unit of the working scale in relation to one. Powers
above one are therefore at most those of an exponent that is larger by that share.
-/

namespace CurveMarket.Fixed

open Finset
open scoped Nat

/-! ## Euler's number -/

theorem exp_one_le_eWork : Real.exp 1 ≤ eWork / work := by
  have hseries := Real.exp_bound' zero_le_one le_rfl (n := 34) (by norm_num)
  refine hseries.trans ?_
  unfold eWork work
  simp only [sum_range_succ, sum_range_zero, Nat.factorial]
  norm_num

theorem eWork_le : (eWork : ℝ) / work ≤ Real.exp 1 + 1 / work := by
  have hseries := Real.sum_le_exp_of_nonneg zero_le_one 34
  refine le_trans ?_ (add_le_add_left hseries _)
  unfold eWork work
  simp only [sum_range_succ, sum_range_zero, Nat.factorial]
  norm_num

theorem eWork_le_exp : (eWork : ℝ) / work ≤ Real.exp (1 + 1 / work) := by
  have hunit : (0 : ℝ) ≤ 1 / work := div_nonneg zero_le_one work_pos.le
  have hone : (1 : ℝ) ≤ Real.exp 1 := Real.one_le_exp zero_le_one
  have hstep : 1 + 1 / (work : ℝ) ≤ Real.exp (1 / work) := by
    linarith [Real.add_one_le_exp (1 / (work : ℝ))]
  calc (eWork : ℝ) / work ≤ Real.exp 1 + 1 / work := eWork_le
    _ ≤ Real.exp 1 + Real.exp 1 * (1 / work) :=
      add_le_add_right (le_mul_of_one_le_left hunit hone) _
    _ = Real.exp 1 * (1 + 1 / work) := by ring
    _ ≤ Real.exp 1 * Real.exp (1 / work) :=
      mul_le_mul_of_nonneg_left hstep (Real.exp_pos 1).le
    _ = Real.exp (1 + 1 / work) := (Real.exp_add _ _).symm

/-! ## Reduction of large numbers -/

section ScaleDown

variable {num den bound : Nat}

theorem scaleDownBy_mul_le {c : ℝ} (hc : 0 ≤ c) (hnum : num * c ≤ den) (x : Nat) :
    ((scaleDownBy num den bound x).1 : ℝ) * c ^ (scaleDownBy num den bound x).2 ≤ x := by
  fun_induction scaleDownBy num den bound x with
  | case1 x h r ih =>
      have hden : 0 < den := Nat.lt_of_le_of_lt (Nat.zero_le num) h.2
      have hdenReal : (0 : ℝ) < den := Nat.cast_pos.mpr hden
      have hquotient : ((x * num / den : Nat) : ℝ) ≤ x * num / den := by
        exact_mod_cast Nat.cast_div_le (α := ℝ) (m := x * num) (n := den)
      have hstep : (x : ℝ) * num / den * c ≤ x := by
        rw [div_mul_eq_mul_div, div_le_iff₀ hdenReal, mul_assoc]
        exact mul_le_mul_of_nonneg_left hnum (Nat.cast_nonneg x)
      calc (r.1 : ℝ) * c ^ (r.2 + 1) = r.1 * c ^ r.2 * c := by ring
        _ ≤ (x * num / den : Nat) * c := mul_le_mul_of_nonneg_right ih hc
        _ ≤ x * num / den * c := mul_le_mul_of_nonneg_right hquotient hc
        _ ≤ x := hstep
  | case2 x h => simp

theorem scaleDownBy_le (hlt : num < den) (x : Nat) : (scaleDownBy num den bound x).1 ≤ bound := by
  fun_induction scaleDownBy num den bound x with
  | case1 x h r ih => exact ih
  | case2 x h => exact Nat.not_lt.mp fun hx => h ⟨hx, hlt⟩

/-- A step from above the bound does not lead below what the bound itself is taken to. -/
theorem le_scaleDownBy {low : Nat} (hlow : low ≤ bound * num / den) {x : Nat} (hx : low ≤ x) :
    low ≤ (scaleDownBy num den bound x).1 := by
  fun_induction scaleDownBy num den bound x with
  | case1 x h r ih =>
      exact ih (hlow.trans (Nat.div_le_div_right (Nat.mul_le_mul_right num h.1.le)))
  | case2 x h => exact hx

end ScaleDown

theorem lnWork_eq_scaleDown {x : Nat} (hx : work ≤ x) :
    work ≤ (scaleDown x).1 ∧ (scaleDown x).1 ≤ threeWork ∧
      lnWork x = (lnMagnitude (scaleDown x).1 + (scaleDown x).2 * work : Nat) := by
  have hthird : thirdWork ≤ work := by decide
  have hlow : work ≤ (scaleDown x).1 := le_scaleDownBy (by decide) hx
  refine ⟨hlow, scaleDownBy_le work_lt_eWork x, ?_⟩
  rw [lnWork_eq_of_reduction Prod.mk.eta.symm (scaleUp_of_le (hthird.trans hlow)),
    reducedLn_of_le hlow, Int.natCast_zero, Int.sub_zero, Int.natCast_add, Int.natCast_mul]

theorem lnWork_le {x : Nat} (hx : work ≤ x) :
    0 ≤ lnWork x ∧ (lnWork x : ℝ) ≤ work * Real.log (x / work) := by
  obtain ⟨hlow, -, hln⟩ := lnWork_eq_scaleDown hx
  have hscaled : ((scaleDown x).1 : ℝ) * Real.exp 1 ^ (scaleDown x).2 ≤ x := by
    refine scaleDownBy_mul_le (Real.exp_pos 1).le ?_ x
    have hexp := mul_le_mul_of_nonneg_left exp_one_le_eWork work_pos.le
    rwa [mul_div_cancel₀ _ work_pos.ne'] at hexp
  generalize (scaleDown x).1 = r at *
  generalize (scaleDown x).2 = n at *
  have hr : (0 : ℝ) < r := work_pos.trans_le (Nat.cast_le.mpr hlow)
  have hone : 1 ≤ (r : ℝ) / work := (one_le_div work_pos).mpr (Nat.cast_le.mpr hlow)
  have hmagnitude := lnMagnitude_le (Nat.lt_of_lt_of_le (by decide) hlow : 0 < r)
  rw [abs_of_nonneg (Real.log_nonneg hone)] at hmagnitude
  have hlog : Real.log (r / work) + n ≤ Real.log (x / work) := by
    have hproduct : (r : ℝ) / work * Real.exp 1 ^ n ≤ x / work := by
      rw [div_mul_eq_mul_div]
      exact div_le_div_of_nonneg_right hscaled work_pos.le
    have hle := Real.log_le_log (by positivity) hproduct
    rwa [Real.log_mul (by positivity) (by positivity), Real.log_pow, Real.log_exp, mul_one] at hle
  rw [hln]
  refine ⟨Int.natCast_nonneg _, ?_⟩
  push_cast
  calc (lnMagnitude r : ℝ) + n * work ≤ work * Real.log (r / work) + n * work :=
        add_le_add_left hmagnitude _
    _ = work * (Real.log (r / work) + n) := by ring
    _ ≤ work * Real.log (x / work) := mul_le_mul_of_nonneg_left hlog work_pos.le

/-! ## Whole exponents -/

/-- Squaring and multiplying with every product rounded down. The exponents halve, so the induction
is on the power. -/
theorem mulPower_le {scale : Nat} (hscale : 0 < scale) (result base power : Nat) :
    (mulPower scale result base power : ℝ) ≤ result * (base / scale : ℝ) ^ power := by
  have hscaleReal : (0 : ℝ) < scale := Nat.cast_pos.mpr hscale
  fun_induction mulPower scale result base power with
  | case1 result base => simp
  | case2 result base power h ih =>
      have hsquare : ((base * base / scale : Nat) : ℝ) / scale ≤ (base / scale : ℝ) ^ 2 := by
        rw [div_le_iff₀ hscaleReal]
        refine cast_div_le_of_le hscale ?_
        push_cast
        field_simp
        exact le_rfl
      have hresult : ((if power % 2 = 1 then result * base / scale else result : Nat) : ℝ) ≤
          result * (base / scale : ℝ) ^ (power % 2) := by
        split
        · rename_i hodd
          rw [hodd, pow_one]
          refine cast_div_le_of_le hscale ?_
          push_cast
          field_simp
          exact le_rfl
        · rename_i heven
          rw [Nat.mod_two_ne_one.mp heven, pow_zero, mul_one]
      have hpower : power % 2 + 2 * (power / 2) = power := Nat.mod_add_div power 2
      calc _ ≤ _ := ih
        _ ≤ result * (base / scale : ℝ) ^ (power % 2) * ((base / scale : ℝ) ^ 2) ^ (power / 2) :=
          mul_le_mul hresult (pow_le_pow_left₀ (by positivity) hsquare _) (by positivity)
            (by positivity)
        _ = result * (base / scale : ℝ) ^ power := by
          rw [mul_assoc, ← pow_mul, ← pow_add, hpower]

theorem div_work_eq (y : Nat) : (y : ℝ) / work = (y % work : Nat) / work + (y / work : Nat) := by
  have hy : (y : ℝ) = (y % work : Nat) + work * (y / work : Nat) := by
    exact_mod_cast (Nat.mod_add_div y work).symm
  rw [div_add' _ _ _ work_pos.ne', mul_comm, ← hy]

/-- Exponentials are at most those of an exponent that is larger by the share of one unit. -/
theorem expWorkNat_le (y : Nat) :
    (expWorkNat y : ℝ) ≤ work * Real.exp (y / work * (1 + 1 / work)) := by
  have hunit : (0 : ℝ) ≤ 1 / work := div_nonneg zero_le_one work_pos.le
  have hwhole : ((eWork : ℝ) / work) ^ (y / work) ≤
      Real.exp ((y / work : Nat) * (1 + 1 / work)) := by
    rw [Real.exp_nat_mul]
    exact pow_le_pow_left₀ (div_nonneg (Nat.cast_nonneg _) work_pos.le) eWork_le_exp _
  have hparts : ((y % work : Nat) : ℝ) / work + (y / work : Nat) * (1 + 1 / work) ≤
      y / work * (1 + 1 / work) := by
    rw [div_work_eq y, add_mul]
    have hfraction : (0 : ℝ) ≤ (y % work : Nat) / work := div_nonneg (Nat.cast_nonneg _) work_pos.le
    nlinarith
  calc (expWorkNat y : ℝ) ≤ expFraction (y % work) * ((eWork : ℝ) / work) ^ (y / work) :=
        mulPower_le (by decide) _ _ _
    _ ≤ work * Real.exp ((y % work : Nat) / work) * Real.exp ((y / work : Nat) * (1 + 1 / work)) :=
        mul_le_mul (expFraction_le _) hwhole (by positivity) (by positivity)
    _ = work * Real.exp ((y % work : Nat) / work + (y / work : Nat) * (1 + 1 / work)) := by
        rw [mul_assoc, ← Real.exp_add]
    _ ≤ work * Real.exp (y / work * (1 + 1 / work)) :=
        mul_le_mul_of_nonneg_left (Real.exp_le_exp.mpr hparts) work_pos.le

/-! ## Powers -/

/-- The powers of a base of at least one, whatever its size and whether or not the exponential is
cut at its limit. -/
theorem powerWork_le_rpow {base : Nat} (hone : one ≤ base) (exponent : Nat) :
    (powerWork base exponent : ℝ) ≤ work * value base ^ (value exponent * (1 + 1 / work)) := by
  have hbase : 0 < value base := value_pos (Nat.lt_of_lt_of_le (by decide) hone)
  obtain ⟨hnonneg, hln⟩ := lnWork_le (Nat.mul_le_mul_right guard hone : work ≤ base * guard)
  rw [value_eq] at hln
  have hunit : (0 : ℝ) ≤ 1 + 1 / work := add_nonneg zero_le_one (div_nonneg zero_le_one work_pos.le)
  obtain ⟨l, hl⟩ := Int.eq_ofNat_of_zero_le hnonneg
  rw [hl] at hln
  have hpowerLn : powerLn base exponent = (exponent * l / one : Nat) := by
    unfold powerLn
    rw [hl]
    rfl
  have hexponent := mul_div_one_le exponent hln
  have hcut : powerWork base exponent =
      expWorkNat (min (exponent * l / one) (maxExponent * guard)) := by
    unfold powerWork
    dsimp only
    rw [hpowerLn]
    generalize exponent * l / one = y
    rw [if_neg (by omega), ← Nat.cast_min, expWork_eq_expWorkNat]
  generalize exponent * l / one = y at *
  have hmin : ((min y (maxExponent * guard) : Nat) : ℝ) / work ≤
      value exponent * Real.log (value base) := by
    rw [div_le_iff₀ work_pos, mul_comm _ (work : ℝ)]
    exact (Nat.cast_le.mpr (Nat.min_le_left _ _)).trans hexponent
  rw [hcut, Real.rpow_def_of_pos hbase]
  calc (expWorkNat (min y (maxExponent * guard)) : ℝ)
      ≤ work * Real.exp ((min y (maxExponent * guard) : Nat) / work * (1 + 1 / work)) :=
        expWorkNat_le _
    _ ≤ work * Real.exp (value exponent * Real.log (value base) * (1 + 1 / work)) :=
        mul_le_mul_of_nonneg_left
          (Real.exp_le_exp.mpr (mul_le_mul_of_nonneg_right hmin hunit)) work_pos.le
    _ = work * Real.exp (Real.log (value base) * (value exponent * (1 + 1 / work))) := by
        congr 2
        ring

theorem value_powerDown_le_rpow {base : Nat} (hone : one ≤ base) (exponent : Nat) :
    value (powerDown base exponent) ≤ value base ^ (value exponent * (1 + 1 / work)) := by
  unfold powerDown
  cases hexact : exactPower? base exponent with
  | some r =>
      obtain ⟨-, rfl⟩ := exactPower?_of_one (Nat.lt_of_lt_of_le (by decide) hone) hexact
      have hvalue : 1 ≤ value base := one_le_value hone
      have hexponent : 0 ≤ value exponent := div_nonneg (Nat.cast_nonneg _) one_real_pos.le
      rw [Option.getD_some, value_one]
      exact Real.one_le_rpow hvalue (by positivity)
  | none =>
      have hpower := powerWork_le_rpow hone exponent
      rw [Option.getD_none]
      refine value_div_le (by decide) ?_
      calc (powerWork base exponent : ℝ)
          ≤ work * value base ^ (value exponent * (1 + 1 / work)) := hpower
        _ = value base ^ (value exponent * (1 + 1 / work)) * guard * one := by
          rw [work_eq_one_mul_guard, Nat.cast_mul]
          ring

theorem powerDown_le_base {base exponent : Nat} (hone : one ≤ base)
    (hexponent : 2 * exponent ≤ one) : powerDown base exponent ≤ base := by
  unfold powerDown
  cases hexact : exactPower? base exponent with
  | some r =>
      obtain ⟨-, rfl⟩ := exactPower?_of_one (Nat.lt_of_lt_of_le (by decide) hone) hexact
      exact hone
  | none =>
      have hvalue : 1 ≤ value base := one_le_value hone
      have hhalf := value_le_half hexponent
      have hshare : value exponent * (1 + 1 / work) ≤ 1 := by
        have hunit : (1 : ℝ) / work ≤ 1 := by
          rw [div_le_one work_pos]
          exact_mod_cast (by decide : 1 ≤ work)
        have hnonneg : (0 : ℝ) ≤ 1 / work := div_nonneg zero_le_one work_pos.le
        calc value exponent * (1 + 1 / work) ≤ 1 / 2 * 2 :=
              mul_le_mul hhalf (by linarith) (by linarith) (by norm_num)
          _ = 1 := by norm_num
      have hpower : (powerWork base exponent : ℝ) ≤ (base * guard : Nat) := by
        calc (powerWork base exponent : ℝ)
            ≤ work * value base ^ (value exponent * (1 + 1 / work)) := powerWork_le_rpow hone _
          _ ≤ work * value base ^ (1 : ℝ) :=
              mul_le_mul_of_nonneg_left (Real.rpow_le_rpow_of_exponent_le hvalue hshare)
                work_pos.le
          _ = (base * guard : Nat) := by
              rw [Real.rpow_one, ← value_eq, mul_div_cancel₀ _ work_pos.ne']
      have hunits : powerWork base exponent ≤ guard * base := by
        rw [Nat.mul_comm]
        exact Nat.cast_le.mp hpower
      rw [Option.getD_none]
      exact Nat.div_le_of_le_mul hunits

end CurveMarket.Fixed
