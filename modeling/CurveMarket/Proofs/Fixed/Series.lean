import Mathlib.Analysis.SpecialFunctions.Log.Deriv
import CurveMarket.Fixed.Power

/-! # The truncated series

Every quotient in the loops is rounded down and every term is positive, so what a loop returns is at
most the sum of a series that is known. On their range the kernels therefore stay on one side of the
exponential and the logarithm.
-/

namespace CurveMarket.Fixed

open Finset
open scoped Nat

/-! ## The exponential of a fraction -/

theorem cast_div_le_of_le {a b : Nat} {x : ℝ} (hb : 0 < b) (h : (a : ℝ) ≤ x * b) :
    ((a / b : Nat) : ℝ) ≤ x := by
  have hpos : (0 : ℝ) < b := Nat.cast_pos.mpr hb
  have hquotient : (a : ℝ) / b ≤ x := (div_le_iff₀ hpos).mpr h
  exact Nat.cast_div_le.trans hquotient

/-- The terms of degree at least `k` in the series of the exponential. -/
noncomputable def expRest (x : ℝ) (k : Nat) : ℝ := Real.exp x - ∑ j ∈ range k, x ^ j / j !

theorem expRest_nonneg {x : ℝ} (hx : 0 ≤ x) (k : Nat) : 0 ≤ expRest x k :=
  sub_nonneg.mpr (Real.sum_le_exp_of_nonneg hx k)

theorem expRest_eq_add (x : ℝ) (k : Nat) : expRest x k = x ^ k / k ! + expRest x (k + 1) := by
  unfold expRest
  rw [sum_range_succ]
  ring

/-- What is summed after the term of degree `k` is at most the rest of the series. The induction is
on that term, since every term is below the one before it. -/
theorem taylorTail_le {scale fraction term k : Nat} {x : ℝ} (hscale : 0 < scale)
    (hx : (fraction : ℝ) = x * scale) (hterm : (term : ℝ) ≤ scale * (x ^ k / k !)) :
    (taylorTail scale fraction term (k + 1) : ℝ) ≤ scale * expRest x (k + 1) := by
  have hscaled : (0 : ℝ) < scale := Nat.cast_pos.mpr hscale
  have hnonneg : 0 ≤ x := by
    have hfraction : (0 : ℝ) ≤ fraction := Nat.cast_nonneg fraction
    rw [hx] at hfraction
    exact nonneg_of_mul_nonneg_left hfraction hscaled
  induction term using Nat.strong_induction_on generalizing k with
  | _ term ih =>
      rw [taylorTail]
      split
      · rename_i hgo
        have hsmaller : term * fraction / (scale * (k + 1)) < term := mul_div_mul_lt hgo.1 hgo.2
        have hnext : ((term * fraction / (scale * (k + 1)) : Nat) : ℝ) ≤
            scale * (x ^ (k + 1) / (k + 1)!) := by
          refine cast_div_le_of_le (Nat.mul_pos hscale k.succ_pos) ?_
          have hproduct : (term : ℝ) * fraction ≤ scale * (x ^ k / k !) * fraction :=
            mul_le_mul_of_nonneg_right hterm (Nat.cast_nonneg fraction)
          have hsame : scale * (x ^ k / k !) * fraction =
              scale * (x ^ (k + 1) / (k + 1)!) * (scale * (k + 1) : Nat) := by
            rw [hx, Nat.factorial_succ]
            push_cast
            field_simp
            ring
          rw [← hsame]
          push_cast
          exact hproduct
        have hrest := ih _ hsmaller hnext
        dsimp only
        rw [Nat.cast_add, expRest_eq_add x (k + 1), mul_add (scale : ℝ)]
        exact add_le_add hnext hrest
      · rw [Nat.cast_zero]
        exact mul_nonneg hscaled.le (expRest_nonneg hnonneg _)

theorem expFraction_le (fraction : Nat) :
    (expFraction fraction : ℝ) ≤ work * Real.exp (fraction / work) := by
  have hwork : (0 : ℝ) < work := Nat.cast_pos.mpr (by decide)
  have hx : (fraction : ℝ) = fraction / work * work := (div_mul_cancel₀ _ hwork.ne').symm
  have hfirst : (work : ℝ) ≤ work * ((fraction / work : ℝ) ^ 0 / (0)!) := by simp
  have hrest := taylorTail_le (by decide) hx hfirst
  have hexp : Real.exp (fraction / work) = 1 + expRest (fraction / work) 1 := by simp [expRest]
  unfold expFraction
  rw [Nat.cast_add, hexp, mul_add, mul_one]
  exact add_le_add_right hrest _

/-! ## The inverse hyperbolic tangent -/

/-- Twice the inverse hyperbolic tangent, as the logarithm that it is. -/
noncomputable def logQuotient (z : ℝ) : ℝ := Real.log (1 + z) - Real.log (1 - z)

/-- The terms from the one of degree `2 * j + 1` on in the series of that logarithm. -/
noncomputable def logRest (z : ℝ) (j : Nat) : ℝ :=
  logQuotient z - ∑ i ∈ range j, 2 * (1 / (2 * (i : ℝ) + 1)) * z ^ (2 * i + 1)

theorem logRest_nonneg {z : ℝ} (hz : 0 ≤ z) (hlt : z < 1) (j : Nat) : 0 ≤ logRest z j := by
  have habs : |z| < 1 := by
    rw [abs_of_nonneg hz]
    exact hlt
  refine sub_nonneg.mpr (sum_le_hasSum (range j) (fun i _ => ?_)
    (Real.hasSum_log_sub_log_of_abs_lt_one habs))
  positivity

theorem logRest_eq_add (z : ℝ) (j : Nat) :
    logRest z j = 2 * (1 / (2 * (j : ℝ) + 1)) * z ^ (2 * j + 1) + logRest z (j + 1) := by
  unfold logRest
  rw [sum_range_succ]
  ring

theorem atanhSeries_le {scale square term j : Nat} {z : ℝ} (hscale : 0 < scale) (hz : 0 ≤ z)
    (hlt : z < 1) (hsquare : (square : ℝ) ≤ scale * z ^ 2)
    (hterm : (term : ℝ) ≤ scale * z ^ (2 * j + 1)) :
    (2 * atanhSeries scale square term (2 * j + 1) : ℝ) ≤ scale * logRest z j := by
  have hscaled : (0 : ℝ) < scale := Nat.cast_pos.mpr hscale
  induction term using Nat.strong_induction_on generalizing j with
  | _ term ih =>
      rw [atanhSeries]
      split
      · rename_i hgo
        have hsmaller : term * square / scale < term := mul_div_lt hgo.1 hgo.2
        have hnext : ((term * square / scale : Nat) : ℝ) ≤ scale * z ^ (2 * (j + 1) + 1) := by
          refine cast_div_le_of_le hscale ?_
          have hproduct : (term : ℝ) * square ≤ scale * z ^ (2 * j + 1) * (scale * z ^ 2) :=
            mul_le_mul hterm hsquare (Nat.cast_nonneg square) (by positivity)
          calc ((term * square : Nat) : ℝ) = term * square := Nat.cast_mul term square
            _ ≤ scale * z ^ (2 * j + 1) * (scale * z ^ 2) := hproduct
            _ = scale * z ^ (2 * (j + 1) + 1) * scale := by ring
        have hfirst : ((term / (2 * j + 1) : Nat) : ℝ) ≤
            scale * (1 / (2 * (j : ℝ) + 1) * z ^ (2 * j + 1)) := by
          refine cast_div_le_of_le (Nat.succ_pos _) ?_
          have hsame : scale * (1 / (2 * (j : ℝ) + 1) * z ^ (2 * j + 1)) * (2 * j + 1 : Nat) =
              scale * z ^ (2 * j + 1) := by
            push_cast
            field_simp
          rw [hsame]
          exact hterm
        have hrest := ih _ hsmaller hnext
        have hstep : 2 * (j + 1) + 1 = 2 * j + 1 + 2 := by omega
        rw [hstep] at hrest
        have hsplit : scale * logRest z j =
            2 * (scale * (1 / (2 * (j : ℝ) + 1) * z ^ (2 * j + 1))) +
              scale * logRest z (j + 1) := by
          rw [logRest_eq_add z j]
          ring
        rw [Nat.cast_add, mul_add, hsplit]
        linarith
      · have hrest := mul_nonneg hscaled.le (logRest_nonneg hz hlt j)
        simpa using hrest

end CurveMarket.Fixed
