import CurveMarket.Proofs.Fixed.Order
import CurveMarket.Proofs.Fixed.Shortfall

/-! # How much the kernels lose

Every floor of a loop loses less than a unit of the working scale, and every loop shrinks its terms
to half or less from one step to the next. So a loop takes no more than a hundred and twenty steps,
and what it loses stays within some thousand units, uniformly over its range. In a power a loss of the
logarithm is a factor hardly below one. All of it together is far less than one unit of the numbers
that the kernels return, and that unit is what a power loses by its own rounding.
-/

namespace CurveMarket.Fixed

open Finset
open scoped Nat

theorem sub_one_le_cast_div {a b : Nat} {x : ℝ} (hb : 0 < b) (h : x * b ≤ a) :
    x - 1 ≤ ((a / b : Nat) : ℝ) := by
  have hpos : (0 : ℝ) < b := Nat.cast_pos.mpr hb
  have hfloor : (a : ℝ) < b * ((a / b : Nat) + 1) := by
    exact_mod_cast Nat.lt_mul_div_succ a hb
  have hle : x ≤ (a / b : Nat) + 1 := by
    refine le_of_mul_le_mul_right ?_ hpos
    linarith
  linarith

theorem mul_div_lt_two_pow {term num den n : Nat} (hden : 0 < den) (hhalf : 2 * num ≤ den)
    (hn : term < 2 ^ (n + 1)) : term * num / den < 2 ^ n := by
  rw [Nat.div_lt_iff_lt_mul hden]
  have hproduct : 2 * (term * num) < 2 * (2 ^ n * den) := by
    calc 2 * (term * num) = term * (2 * num) := by ring
      _ ≤ term * den := Nat.mul_le_mul_left term hhalf
      _ < 2 ^ (n + 1) * den := Nat.mul_lt_mul_of_pos_right hn hden
      _ = 2 * (2 ^ n * den) := by ring
  omega

/-! ## The exponential of a fraction -/

theorem expRest_le {x : ℝ} (hx : 0 ≤ x) (hone : x ≤ 1) {k : Nat} (hk : 0 < k) :
    expRest x k ≤ 2 * (x ^ k / k !) := by
  have hkReal : (1 : ℝ) ≤ k := Nat.one_le_cast.mpr hk
  have hbound := Real.exp_bound' hx hone hk
  have hrest : x ^ k * (k + 1) / (k ! * k) ≤ 2 * (x ^ k / k !) := by
    rw [div_le_iff₀ (by positivity)]
    have hsame : 2 * (x ^ k / k !) * (k ! * k) = x ^ k * (2 * k) := by
      field_simp
    rw [hsame]
    exact mul_le_mul_of_nonneg_left (by linarith) (pow_nonneg hx k)
  unfold expRest
  linarith

/-- A term that is kept to within two units leaves the next one within two. -/
theorem next_le_taylorTerm {scale fraction term k : Nat} {x : ℝ} (hscale : 0 < scale)
    (hx : (fraction : ℝ) = x * scale) (hone : x ≤ 1) (hk : 0 < k)
    (hterm : scale * (x ^ k / k !) ≤ term + 2) :
    scale * (x ^ (k + 1) / (k + 1)!) ≤ (term * fraction / (scale * (k + 1)) : Nat) + 2 := by
  have hscaleReal : (0 : ℝ) < scale := Nat.cast_pos.mpr hscale
  have hkReal : (1 : ℝ) ≤ k := Nat.one_le_cast.mpr hk
  have hproduct : (scale * (x ^ (k + 1) / (k + 1)!) - 2 * x / (k + 1)) *
      (scale * (k + 1) : Nat) ≤ (term * fraction : Nat) := by
    have hsame : (scale * (x ^ (k + 1) / (k + 1)!) - 2 * x / (k + 1)) *
        (scale * (k + 1) : Nat) = (scale * (x ^ k / k !) - 2) * (x * scale) := by
      rw [Nat.factorial_succ]
      push_cast
      field_simp
      ring
    rw [hsame, ← hx, Nat.cast_mul]
    exact mul_le_mul_of_nonneg_right (by linarith) (Nat.cast_nonneg fraction)
  have hfloor := sub_one_le_cast_div (Nat.mul_pos hscale k.succ_pos) hproduct
  have hlost : 2 * x / (k + 1) ≤ 1 := by
    rw [div_le_one (by positivity)]
    linarith
  linarith

/-- The terms below `2 ^ n` lose two units for each halving. The induction is on their number. -/
theorem expRest_le_taylorTail {scale fraction : Nat} {x : ℝ} (hlt : fraction < scale)
    (hx : (fraction : ℝ) = x * scale) {term k n : Nat} (hk : 0 < k)
    (hterm : scale * (x ^ k / k !) ≤ term + 2) (hn : term < 2 ^ n) :
    scale * expRest x (k + 1) ≤ taylorTail scale fraction term (k + 1) + (2 * n + 4) := by
  have hpos : 0 < scale := Nat.zero_lt_of_lt hlt
  have hscale : (0 : ℝ) < scale := Nat.cast_pos.mpr hpos
  have hnonneg : 0 ≤ x := by
    have hfraction : (0 : ℝ) ≤ fraction := Nat.cast_nonneg fraction
    rw [hx] at hfraction
    exact nonneg_of_mul_nonneg_left hfraction hscale
  have hone : x ≤ 1 := by
    have hless : (fraction : ℝ) ≤ scale := Nat.cast_le.mpr hlt.le
    rw [hx] at hless
    exact le_of_mul_le_mul_right (by linarith) hscale
  induction n generalizing term k with
  | zero =>
      -- The loop has stopped, and the rest of the series is at most twice its first term.
      have hdone : term = 0 := by omega
      have hfirst : expRest x (k + 1) ≤ 2 * (x ^ (k + 1) / (k + 1)!) :=
        expRest_le hnonneg hone k.succ_pos
      have hlast := mul_le_mul_of_nonneg_left hfirst hscale.le
      have hsmaller : x ^ (k + 1) / (k + 1)! ≤ x ^ k / k ! :=
        div_le_div₀ (pow_nonneg hnonneg k) (pow_le_pow_of_le_one hnonneg hone k.le_succ)
          (by positivity) (Nat.cast_le.mpr (Nat.factorial_le k.le_succ))
      have hscaled := mul_le_mul_of_nonneg_left hsmaller hscale.le
      rw [hdone, Nat.cast_zero] at hterm
      have hrest : (0 : ℝ) ≤ taylorTail scale fraction term (k + 1) := Nat.cast_nonneg _
      rw [Nat.cast_zero]
      linarith
  | succ n ih =>
      rcases Nat.lt_or_ge term (2 ^ n) with hfew | hmany
      · have hrest := ih hk hterm hfew
        rw [Nat.cast_succ]
        linarith
      · have hgo : 0 < term ∧ fraction < scale := ⟨Nat.lt_of_lt_of_le (by positivity) hmany, hlt⟩
        have hhalf : 2 * fraction ≤ scale * (k + 1) := by
          rw [Nat.mul_comm]
          exact Nat.mul_le_mul hlt.le (by omega)
        have hnext := next_le_taylorTerm hpos hx hone hk hterm
        have hrest := ih k.succ_pos hnext
          (mul_div_lt_two_pow (Nat.mul_pos hpos k.succ_pos) hhalf hn)
        rw [taylorTail, dif_pos hgo, expRest_eq_add x (k + 1), mul_add]
        push_cast at hrest hnext ⊢
        linarith

theorem work_mul_exp_le {fraction : Nat} (h : fraction < work) :
    work * Real.exp (fraction / work) ≤ expFraction fraction + 250 := by
  have hx : (fraction : ℝ) = fraction / work * work := (div_mul_cancel₀ _ work_pos.ne').symm
  have hfirst : work * fraction / (work * 1) = fraction := by
    rw [Nat.mul_one, Nat.mul_div_cancel_left _ (by decide)]
  have hfew : fraction < 2 ^ 120 := Nat.lt_trans h (by decide)
  have hterm : (work : ℝ) * ((fraction / work) ^ 1 / (1)!) ≤ fraction + 2 := by
    rw [pow_one, Nat.factorial_one, Nat.cast_one, div_one, mul_comm, ← hx]
    linarith
  have hrest := expRest_le_taylorTail h hx one_pos hterm hfew
  have hexp : Real.exp (fraction / work) = 1 + fraction / work + expRest (fraction / work) 2 := by
    simp [expRest, sum_range_succ]
  have hcut : expFraction fraction = work + (fraction + taylorTail work fraction fraction 2) := by
    unfold expFraction
    rw [taylorTail, dif_pos ⟨by decide, h⟩, hfirst]
  rw [hexp, hcut, mul_add, mul_add, mul_one, mul_div_cancel₀ _ work_pos.ne']
  push_cast at hrest ⊢
  linarith

/-! ## The inverse hyperbolic tangent -/

theorem logRest_le {z : ℝ} (hz : 0 ≤ z) (hlt : z < 1) (j : Nat) :
    logRest z j ≤ 2 * (z ^ (2 * j + 1) / (1 - z ^ 2)) := by
  have hbound := Real.log_div_le_sum_range_add hz hlt j
  rw [Real.log_div (by linarith) (by linarith)] at hbound
  have hsum : ∑ i ∈ range j, 2 * (1 / (2 * (i : ℝ) + 1)) * z ^ (2 * i + 1) =
      2 * ∑ i ∈ range j, z ^ (2 * i + 1) / (2 * i + 1) := by
    rw [mul_sum]
    refine sum_congr rfl fun i _ => ?_
    ring
  unfold logRest logQuotient
  rw [hsum]
  linarith

/-- A term that is kept to within five units leaves the next one within five, since the square is
kept to within three and takes off more than half of what was lost. -/
theorem next_le_atanhTerm {scale square term : Nat} {z t : ℝ} (hscale : 0 < scale)
    (hsq : z ^ 2 ≤ 9 / 25) (hsquare : scale * z ^ 2 ≤ square + 3) (hterm : t ≤ term + 5)
    (hwithin : term ≤ scale * (3 / 5 : ℝ)) :
    t * z ^ 2 ≤ (term * square / scale : Nat) + 5 := by
  have hproduct : (term * z ^ 2 - 9 / 5) * scale ≤ (term * square : Nat) := by
    have hscaled := mul_le_mul_of_nonneg_left hsquare (Nat.cast_nonneg term : (0 : ℝ) ≤ term)
    push_cast
    linarith
  have hfloor := sub_one_le_cast_div hscale hproduct
  calc t * z ^ 2 ≤ (term + 5) * z ^ 2 := mul_le_mul_of_nonneg_right hterm (sq_nonneg z)
    _ ≤ (term * square / scale : Nat) + 5 := by linarith

theorem quotient_le_atanhTerm {term : Nat} {t : ℝ} (hterm : t ≤ term + 5) (j : Nat) :
    1 / (2 * (j : ℝ) + 1) * t ≤ (term / (2 * j + 1) : Nat) + 6 := by
  have hodd : (1 : ℝ) ≤ 2 * j + 1 := by linarith [Nat.cast_nonneg (α := ℝ) j]
  have hquotient : (t - 5) / (2 * j + 1) * (2 * j + 1 : Nat) ≤ (term : ℝ) := by
    push_cast
    rw [div_mul_cancel₀ _ (by positivity)]
    linarith
  have hfloor := sub_one_le_cast_div (Nat.succ_pos (2 * j)) hquotient
  have hlost : 5 / (2 * (j : ℝ) + 1) ≤ 5 := div_le_self (by norm_num) hodd
  have hsplit : 1 / (2 * (j : ℝ) + 1) * t = (t - 5) / (2 * j + 1) + 5 / (2 * j + 1) := by
    field_simp
    ring
  linarith

/-- The terms below `2 ^ n` lose twelve units for each halving. The induction is on their number. -/
theorem logRest_le_atanhSeries {scale square : Nat} {z : ℝ} (hscale : 0 < scale) (hz : 0 ≤ z)
    (hlt : z ≤ 3 / 5) (hsquare : scale * z ^ 2 ≤ square + 3) (hhalf : 2 * square ≤ scale)
    {term j n : Nat} (hterm : scale * z ^ (2 * j + 1) ≤ term + 5)
    (hwithin : term ≤ scale * (3 / 5 : ℝ)) (hn : term < 2 ^ n) :
    scale * logRest z j ≤ 2 * atanhSeries scale square term (2 * j + 1) + (12 * n + 16) := by
  have hscaleReal : (0 : ℝ) < scale := Nat.cast_pos.mpr hscale
  have hsq : z ^ 2 ≤ 9 / 25 := by nlinarith
  induction n generalizing term j with
  | zero =>
      have hdone : term = 0 := by omega
      have hlast := mul_le_mul_of_nonneg_left (logRest_le hz (by linarith) j) hscaleReal.le
      have hgap : z ^ (2 * j + 1) / (1 - z ^ 2) ≤ z ^ (2 * j + 1) * (25 / 16) := by
        rw [div_le_iff₀ (by linarith)]
        nlinarith [pow_nonneg hz (2 * j + 1)]
      have hscaled := mul_le_mul_of_nonneg_left hgap hscaleReal.le
      rw [hdone, Nat.cast_zero] at hterm
      have hrest : (0 : ℝ) ≤ atanhSeries scale square term (2 * j + 1) := Nat.cast_nonneg _
      rw [Nat.cast_zero]
      linarith
  | succ n ih =>
      rcases Nat.lt_or_ge term (2 ^ n) with hfew | hmany
      · have hrest := ih hterm hwithin hfew
        rw [Nat.cast_succ]
        linarith
      · have hgo : 0 < term ∧ square < scale :=
          ⟨Nat.lt_of_lt_of_le (by positivity) hmany, by omega⟩
        have hbelow : ((term * square / scale : Nat) : ℝ) ≤ scale * (3 / 5 : ℝ) :=
          (Nat.cast_le.mpr (mul_div_lt hgo.1 hgo.2).le).trans hwithin
        have hnext : scale * z ^ (2 * (j + 1) + 1) ≤ (term * square / scale : Nat) + 5 := by
          have hpower : scale * z ^ (2 * (j + 1) + 1) = scale * z ^ (2 * j + 1) * z ^ 2 := by ring
          rw [hpower]
          exact next_le_atanhTerm hscale hsq hsquare hterm hwithin
        have hfirst := quotient_le_atanhTerm hterm j
        have hrest := ih hnext hbelow (mul_div_lt_two_pow hscale hhalf hn)
        have hstep : 2 * (j + 1) + 1 = 2 * j + 1 + 2 := by omega
        rw [hstep] at hrest
        rw [atanhSeries, dif_pos hgo, logRest_eq_add z j]
        push_cast at hrest ⊢
        linarith

/-! ## Logarithms -/

theorem five_mul_argument_le {a b : Nat} (hb : 0 < b) (hfour : a ≤ 4 * b) :
    5 * ((a - b) * work / (a + b)) ≤ 3 * work := by
  refine Nat.le_of_mul_le_mul_right ?_ (by omega : 0 < a + b)
  have hshare : 5 * (a - b) ≤ 3 * (a + b) := by omega
  calc 5 * ((a - b) * work / (a + b)) * (a + b)
      = 5 * ((a - b) * work / (a + b) * (a + b)) := Nat.mul_assoc ..
    _ ≤ 5 * ((a - b) * work) := Nat.mul_le_mul_left 5 (Nat.div_mul_le_self _ _)
    _ = 5 * (a - b) * work := (Nat.mul_assoc ..).symm
    _ ≤ 3 * (a + b) * work := Nat.mul_le_mul_right work hshare
    _ = 3 * work * (a + b) := by ring

theorem sq_le_argument_sq {z : Nat} {t : ℝ} (ht : 0 ≤ t) (hz : work * t ≤ z + 1)
    (hbelow : 5 * z ≤ 3 * work) : work * t ^ 2 ≤ (z * z / work : Nat) + 3 := by
  have hproduct : (work * t ^ 2 - 2) * work ≤ (z * z : Nat) := by
    have hwide := mul_le_mul hz hz (mul_nonneg work_pos.le ht) (by positivity)
    have hbelowReal : 5 * (z : ℝ) ≤ 3 * work := by exact_mod_cast hbelow
    have hlarge : (2 : ℝ) ≤ work := by exact_mod_cast (by decide : 2 ≤ work)
    rw [Nat.cast_mul]
    linarith
  have hfloor := sub_one_le_cast_div (by decide) hproduct
  linarith

theorem twice_argument_sq_le {z : Nat} (hbelow : 5 * z ≤ 3 * work) :
    2 * (z * z / work) ≤ work := by
  have hfloor : 25 * (z * z / work) ≤ 9 * work := by
    refine Nat.le_of_mul_le_mul_right ?_ (by decide : 0 < work)
    calc 25 * (z * z / work) * work = 25 * (z * z / work * work) := Nat.mul_assoc ..
      _ ≤ 25 * (z * z) := Nat.mul_le_mul_left 25 (Nat.div_mul_le_self _ _)
      _ = 5 * z * (5 * z) := by ring
      _ ≤ 3 * work * (3 * work) := Nat.mul_le_mul hbelow hbelow
      _ = 9 * work * work := by ring
  omega

/-- The series for a quotient of two numbers, neither of them more than four times the other. -/
theorem le_twice_atanhSeries {a b : Nat} (hb : 0 < b) (hle : b ≤ a) (hfour : a ≤ 4 * b) {z : Nat}
    (hz : z = (a - b) * work / (a + b)) :
    work * Real.log (a / b) ≤ (2 * atanhSeries work (z * z / work) z 1 : Nat) + 1500 := by
  have hbPos : (0 : ℝ) < b := Nat.cast_pos.mpr hb
  have haPos : (0 : ℝ) < a := Nat.cast_pos.mpr (Nat.lt_of_lt_of_le hb hle)
  have hsum : (0 : ℝ) < a + b := add_pos haPos hbPos
  have hfourReal : (a : ℝ) ≤ 4 * b := by exact_mod_cast hfour
  have hnonneg : (0 : ℝ) ≤ (a - b) / (a + b) :=
    div_nonneg (sub_nonneg.mpr (Nat.cast_le.mpr hle)) hsum.le
  have hfifths : ((a : ℝ) - b) / (a + b) ≤ 3 / 5 := by
    rw [div_le_iff₀ hsum]
    linarith
  have hbelow := five_mul_argument_le hb hfour
  have hzLe : (work : ℝ) * ((a - b) / (a + b)) ≤ z + 1 := by
    have hproduct : work * (((a : ℝ) - b) / (a + b)) * (a + b : Nat) ≤ ((a - b) * work : Nat) := by
      rw [Nat.cast_mul, Nat.cast_sub hle, Nat.cast_add, mul_assoc, div_mul_cancel₀ _ hsum.ne',
        mul_comm]
    have hfloor := sub_one_le_cast_div (by omega) hproduct
    rw [← hz] at hfloor
    linarith
  rw [← hz] at hbelow
  have hseries : work * logRest (((a : ℝ) - b) / (a + b)) 0 ≤
      2 * atanhSeries work (z * z / work) z (2 * 0 + 1) + (12 * (120 : Nat) + 16) := by
    refine logRest_le_atanhSeries (by decide) hnonneg hfifths
      (sq_le_argument_sq hnonneg hzLe hbelow) (twice_argument_sq_le hbelow) ?_ ?_ ?_
    · rw [Nat.mul_zero, Nat.zero_add, pow_one]
      linarith
    · have hbelowReal : 5 * (z : ℝ) ≤ 3 * work := by exact_mod_cast hbelow
      linarith
    -- No number at this scale is halved more often than that.
    · have hlimit : work < 2 ^ 120 := by decide
      omega
  have hrest : logRest (((a : ℝ) - b) / (a + b)) 0 = Real.log (a / b) := by
    rw [← logQuotient_eq haPos hbPos]
    simp [logRest]
  rw [hrest] at hseries
  push_cast at hseries ⊢
  linarith

theorem le_lnMagnitude {y : Nat} (hlow : work ≤ 4 * y) (hhigh : y ≤ 4 * work) :
    work * |Real.log (y / work)| ≤ lnMagnitude y + 1500 := by
  have hwork : 0 < work := by decide
  obtain ⟨a, b, hb, hle, hcase, hargument, hlog⟩ := exists_quotient (by omega : 0 < y)
  rw [hlog]
  exact le_twice_atanhSeries hb hle (by omega) hargument

theorem scaleUpBy_le_mul_pow {num den bound : Nat} {c : ℝ} (hnum : num ≤ c * den) (x : Nat) :
    ((scaleUpBy num den bound x).1 : ℝ) ≤ x * c ^ (scaleUpBy num den bound x).2 := by
  fun_induction scaleUpBy num den bound x with
  | case1 x h r ih =>
      have hden : (0 : ℝ) < den := Nat.cast_pos.mpr h.2.1
      have hc : 0 ≤ c := nonneg_of_mul_nonneg_left ((Nat.cast_nonneg num).trans hnum) hden
      have hstep : ((x * num / den : Nat) : ℝ) ≤ x * c := by
        refine cast_div_le_of_le h.2.1 ?_
        rw [Nat.cast_mul, mul_assoc]
        exact mul_le_mul_of_nonneg_left hnum (Nat.cast_nonneg x)
      calc (r.1 : ℝ) ≤ (x * num / den : Nat) * c ^ r.2 := ih
        _ ≤ x * c * c ^ r.2 := mul_le_mul_of_nonneg_right hstep (pow_nonneg hc _)
        _ = x * c ^ (r.2 + 1) := by ring
  | case2 x h => simp

/-- From a unit on, a number takes less than sixty steps into the reduced range. -/
theorem scaleUp_steps_lt {x : Nat} (hlow : guard ≤ x) (hx : x < thirdWork) :
    (scaleUp x).2 < 60 := by
  have hhigh := (lnWork_eq_scaleUp (Nat.lt_of_lt_of_le (by decide) hlow) hx).2.1
  have hnum : (2 : ℝ) * work ≤ eWork := by exact_mod_cast (by decide : 2 * work ≤ eWork)
  have hgrown : ((x : ℝ) - 1) * 2 ^ (scaleUp x).2 ≤ (scaleUp x).1 - 1 :=
    sub_one_mul_pow_le_scaleUpBy le_rfl hnum x
  generalize (scaleUp x).1 = r at *
  generalize (scaleUp x).2 = k at *
  have hlowReal : (guard : ℝ) ≤ x := Nat.cast_le.mpr hlow
  have hhighReal : (r : ℝ) < work := Nat.cast_lt.mpr hhigh
  have hlimit : (work : ℝ) + 2 ^ 60 ≤ guard * 2 ^ 60 := by
    exact_mod_cast (by decide : work + 2 ^ 60 ≤ guard * 2 ^ 60)
  have hunit : (1 : ℝ) ≤ guard := Nat.one_le_cast.mpr (by decide)
  by_contra hmany
  have hpowers : (2 : ℝ) ^ 60 ≤ 2 ^ k := pow_le_pow_right₀ one_le_two (Nat.not_lt.mp hmany)
  have hleast : ((guard : ℝ) - 1) * 2 ^ 60 ≤ (x - 1) * 2 ^ k :=
    mul_le_mul (by linarith) hpowers (by positivity) (by linarith)
  linarith

theorem log_scaleUp_le {x : Nat} (hpos : 0 < x) (hx : x < thirdWork) :
    Real.log ((scaleUp x).1 / work) ≤
      Real.log (x / work) + (scaleUp x).2 * (1 + 1 / work) := by
  have hscaled : ((scaleUp x).1 : ℝ) ≤ x * ((eWork : ℝ) / work) ^ (scaleUp x).2 :=
    scaleUpBy_le_mul_pow (div_mul_cancel₀ _ work_pos.ne').ge x
  have hlow := (lnWork_eq_scaleUp hpos hx).1
  generalize (scaleUp x).1 = r at *
  generalize (scaleUp x).2 = k at *
  have hr : (0 : ℝ) < r := Nat.cast_pos.mpr (Nat.lt_of_lt_of_le (by decide) hlow)
  have hxReal : (0 : ℝ) < x := Nat.cast_pos.mpr hpos
  have hproduct : (r : ℝ) / work ≤ x / work * Real.exp (k * (1 + 1 / work)) := by
    rw [div_mul_eq_mul_div, Real.exp_nat_mul]
    refine div_le_div_of_nonneg_right (hscaled.trans ?_) work_pos.le
    exact mul_le_mul_of_nonneg_left (pow_le_pow_left₀ (by positivity) eWork_le_exp k) hxReal.le
  have hle := Real.log_le_log (div_pos hr work_pos) hproduct
  rwa [Real.log_mul (div_pos hxReal work_pos).ne' (Real.exp_pos _).ne', Real.log_exp] at hle

/-- A logarithm below one is above its exact value by at most sixteen hundred units. -/
theorem lnWork_le_add {x : Nat} (hlow : guard ≤ x) (hx : x < work) :
    (lnWork x : ℝ) ≤ work * Real.log (x / work) + 1600 := by
  have hpos : 0 < x := Nat.lt_of_lt_of_le (by decide) hlow
  have hfour : work ≤ 4 * thirdWork := by decide
  rcases Nat.lt_or_ge x thirdWork with hfar | hnear
  · obtain ⟨hrlow, hrhigh, hln⟩ := lnWork_eq_scaleUp hpos hfar
    have hsteps := scaleUp_steps_lt hlow hfar
    have hlog := mul_le_mul_of_nonneg_left (log_scaleUp_le hpos hfar) work_pos.le
    have hmagnitude := le_lnMagnitude (y := (scaleUp x).1) (by omega) (by omega)
    rw [abs_log_of_le (Nat.lt_of_lt_of_le (by decide) hrlow) hrhigh.le] at hmagnitude
    rw [hln]
    generalize (scaleUp x).1 = r at *
    generalize (scaleUp x).2 = k at *
    -- The logarithm takes off one whole for each step and not the unit that the step adds to it.
    have hunits : (work : ℝ) * (k * (1 + 1 / work)) = k * work + k := by
      have hne := work_pos.ne'
      field_simp
    have hfew : (k : ℝ) ≤ 60 := by exact_mod_cast hsteps.le
    push_cast
    linarith
  · have hthree : work < threeWork := by decide
    have hmagnitude := le_lnMagnitude (y := x) (by omega) (by omega)
    rw [abs_log_of_le hpos hx.le] at hmagnitude
    rw [lnWork_eq_reducedLn hnear (by omega), reducedLn_of_lt hx, Int.cast_neg, Int.cast_natCast]
    linarith

/-! ## Exponentials -/

theorem mul_div_le_floor_mul {scale a b : Nat} (hscale : 0 < scale) (ha : scale ≤ a)
    (hb : scale ≤ b) :
    scale ≤ a * b / scale ∧ (a * (b / scale) : ℝ) ≤ (a * b / scale : Nat) * (1 + 1 / scale) := by
  have hscaleReal : (0 : ℝ) < scale := Nat.cast_pos.mpr hscale
  have hle : scale ≤ a * b / scale := (Nat.le_div_iff_mul_le hscale).mpr (Nat.mul_le_mul ha hb)
  have hfloor : (a * (b / scale) : ℝ) - 1 ≤ (a * b / scale : Nat) := by
    refine sub_one_le_cast_div hscale ?_
    rw [mul_assoc, div_mul_cancel₀ _ hscaleReal.ne', Nat.cast_mul]
  have hunit : (1 : ℝ) ≤ (a * b / scale : Nat) * (1 / scale) := by
    rw [mul_one_div, one_le_div hscaleReal]
    exact Nat.cast_le.mpr hle
  exact ⟨hle, by linarith⟩

/-- Squaring and multiplying take no more than two products for each whole. The induction is on the
power, as in the bound from above. -/
theorem mul_pow_le_mulPower_mul {scale : Nat} (hscale : 0 < scale) {result base : Nat}
    (hresult : scale ≤ result) (hbase : scale ≤ base) (power : Nat) :
    result * (base / scale : ℝ) ^ power ≤
      mulPower scale result base power * (1 + 1 / scale : ℝ) ^ (2 * power) := by
  have hscaleReal : (0 : ℝ) < scale := Nat.cast_pos.mpr hscale
  have hshare : (1 : ℝ) ≤ 1 + 1 / scale := le_add_of_nonneg_right (by positivity)
  fun_induction mulPower scale result base power with
  | case1 result base => simp
  | case2 result base power h ih =>
      obtain ⟨hnextBase, hsquare⟩ := mul_div_le_floor_mul hscale hbase hbase
      obtain ⟨hnext, hproduct⟩ : scale ≤ (if power % 2 = 1 then result * base / scale else result) ∧
          result * (base / scale : ℝ) ^ (power % 2) ≤
            (if power % 2 = 1 then result * base / scale else result : Nat) *
              (1 + 1 / scale) ^ (power % 2) := by
        split
        · rename_i hodd
          rw [hodd, pow_one, pow_one]
          exact mul_div_le_floor_mul hscale hresult hbase
        · rename_i heven
          rw [Nat.mod_two_ne_one.mp heven, pow_zero, pow_zero]
          exact ⟨hresult, le_rfl⟩
      have hrest := ih hnext hnextBase
      simp only [dite_eq_ite] at hrest
      generalize (if power % 2 = 1 then result * base / scale else result) = next at *
      have hsquared : (base / scale : ℝ) ^ 2 ≤
          ((base * base / scale : Nat) : ℝ) / scale * (1 + 1 / scale) := by
        rw [div_mul_eq_mul_div, le_div_iff₀ hscaleReal]
        calc (base / scale : ℝ) ^ 2 * scale = base * (base / scale) := by
              field_simp
          _ ≤ _ := hsquare
      generalize base * base / scale = square at *
      have hpower : power % 2 + 2 * (power / 2) = power := Nat.mod_add_div power 2
      calc result * (base / scale : ℝ) ^ power
          = result * (base / scale : ℝ) ^ (power % 2) * ((base / scale : ℝ) ^ 2) ^ (power / 2) := by
            rw [mul_assoc, ← pow_mul, ← pow_add, hpower]
        _ ≤ next * (1 + 1 / scale) ^ (power % 2) *
              (square / scale * (1 + 1 / scale)) ^ (power / 2) :=
            mul_le_mul hproduct (pow_le_pow_left₀ (by positivity) hsquared _) (by positivity)
              (by positivity)
        _ = next * (square / scale : ℝ) ^ (power / 2) *
              (1 + 1 / scale) ^ (power % 2 + power / 2) := by
            rw [mul_pow, pow_add]
            ring
        _ ≤ mulPower scale next square (power / 2) * (1 + 1 / scale) ^ (2 * (power / 2)) *
              (1 + 1 / scale) ^ (power % 2 + power / 2) :=
            mul_le_mul_of_nonneg_right hrest (by positivity)
        _ = mulPower scale next square (power / 2) *
              (1 + 1 / scale) ^ (2 * (power / 2) + (power % 2 + power / 2)) := by
            rw [mul_assoc, ← pow_add]
        _ ≤ mulPower scale next square (power / 2) * (1 + 1 / scale) ^ (2 * power) :=
            mul_le_mul_of_nonneg_left (pow_le_pow_right₀ hshare (by omega)) (Nat.cast_nonneg _)

/-- An exponential is short of its exact value by the share of at most two hundred and fifty units
and two more for each whole. -/
theorem work_mul_exp_le_expWorkNat_mul (y : Nat) :
    work * Real.exp (y / work) ≤
      expWorkNat y * Real.exp ((2 * (y / work : Nat) + 250) / work) := by
  have hfraction := work_mul_exp_le (Nat.mod_lt y (by decide : 0 < work))
  have hfirst : (expFraction (y % work) : ℝ) + 250 ≤
      expFraction (y % work) * Real.exp (250 / work) := by
    have hleast : (work : ℝ) ≤ expFraction (y % work) := Nat.cast_le.mpr (Nat.le_add_right work _)
    have hunits : (250 : ℝ) ≤ expFraction (y % work) * (250 / work) := by
      rw [← mul_div_assoc, le_div_iff₀ work_pos]
      linarith
    have hexp := mul_le_mul_of_nonneg_left (Real.add_one_le_exp (250 / (work : ℝ)))
      (Nat.cast_nonneg (expFraction (y % work)))
    linarith
  have hwhole : Real.exp (y / work : Nat) ≤ ((eWork : ℝ) / work) ^ (y / work) := by
    rw [← mul_one ((y / work : Nat) : ℝ), Real.exp_nat_mul]
    exact pow_le_pow_left₀ (Real.exp_pos 1).le exp_one_le_eWork _
  have hpower := mul_pow_le_mulPower_mul (by decide : 0 < work)
    (Nat.le_add_right work (taylorTail work (y % work) work 1)) work_lt_eWork.le (y / work)
  have hshare : (1 + 1 / work : ℝ) ^ (2 * (y / work)) ≤ Real.exp (2 * (y / work : Nat) / work) := by
    have hexp : (1 + 1 / work : ℝ) ≤ Real.exp (1 / work) := by
      linarith [Real.add_one_le_exp (1 / (work : ℝ))]
    calc (1 + 1 / work : ℝ) ^ (2 * (y / work)) ≤ Real.exp (1 / work) ^ (2 * (y / work)) :=
          pow_le_pow_left₀ (by positivity) hexp _
      _ = Real.exp (2 * (y / work : Nat) / work) := by
          rw [← Real.exp_nat_mul, Nat.cast_mul, Nat.cast_two, mul_one_div]
  calc work * Real.exp (y / work)
      = work * Real.exp ((y % work : Nat) / work) * Real.exp (y / work : Nat) := by
        rw [div_work_eq, Real.exp_add, mul_assoc]
    _ ≤ expFraction (y % work) * Real.exp (250 / work) * ((eWork : ℝ) / work) ^ (y / work) :=
        mul_le_mul (hfraction.trans hfirst) hwhole (Real.exp_pos _).le (by positivity)
    _ = expFraction (y % work) * ((eWork : ℝ) / work) ^ (y / work) * Real.exp (250 / work) :=
        mul_right_comm _ _ _
    _ ≤ expWorkNat y * Real.exp (2 * (y / work : Nat) / work) * Real.exp (250 / work) :=
        mul_le_mul_of_nonneg_right
          (hpower.trans (mul_le_mul_of_nonneg_left hshare (Nat.cast_nonneg _)))
          (Real.exp_pos _).le
    _ = expWorkNat y * Real.exp ((2 * (y / work : Nat) + 250) / work) := by
        rw [mul_assoc, ← Real.exp_add, add_div]

theorem le_mul_div_one {l : Nat} {x c : ℝ} (exponent : Nat) (hl : work * x ≤ l + c) :
    work * (value exponent * x) ≤ (exponent * l / one : Nat) + (value exponent * c + 1) := by
  have hproduct : (work * (value exponent * x) - value exponent * c) * one ≤
      (exponent * l : Nat) := by
    have hscaled := mul_le_mul_of_nonneg_left hl (Nat.cast_nonneg exponent : (0 : ℝ) ≤ exponent)
    have hvalue : (exponent : ℝ) = value exponent * one := (value_mul_one exponent).symm
    rw [Nat.cast_mul]
    calc (work * (value exponent * x) - value exponent * c) * one
        = value exponent * one * (work * x) - value exponent * one * c := by ring
      _ ≤ exponent * l := by
        rw [← hvalue]
        linarith
  have hfloor := sub_one_le_cast_div (by decide) hproduct
  linarith

theorem expWork_neg_le (y : Nat) : (expWork (-(y : Int)) : ℝ) ≤
    work * Real.exp ((2 * (y / work : Nat) + 250) / work - y / work) := by
  have hexp := work_mul_exp_le_expWorkNat_mul y
  have hreciprocal : (expWork (-(y : Int)) : ℝ) * expWorkNat y ≤ work * work := by
    exact_mod_cast expWork_neg_mul_le y
  generalize ((2 * (y / work : Nat) + 250) / work : ℝ) = lost at *
  rw [Real.exp_sub, ← mul_div_assoc, le_div_iff₀ (Real.exp_pos _)]
  refine le_of_mul_le_mul_left ?_ work_pos
  calc (work : ℝ) * (expWork (-(y : Int)) * Real.exp (y / work))
      = expWork (-(y : Int)) * (work * Real.exp (y / work)) := mul_left_comm _ _ _
    _ ≤ expWork (-(y : Int)) * (expWorkNat y * Real.exp lost) :=
        mul_le_mul_of_nonneg_left hexp (Nat.cast_nonneg _)
    _ = expWork (-(y : Int)) * expWorkNat y * Real.exp lost := (mul_assoc _ _ _).symm
    _ ≤ work * work * Real.exp lost := mul_le_mul_of_nonneg_right hreciprocal (Real.exp_pos _).le
    _ = work * (work * Real.exp lost) := mul_assoc _ _ _

theorem work_mul_exp_le_add {x y c : ℝ} (h : work * x ≤ work * y + c) :
    work * Real.exp x ≤ work * Real.exp y + Real.exp x * c := by
  have hexp := mul_le_mul_of_nonneg_left (Real.add_one_le_exp (y - x)) (Real.exp_pos x).le
  rw [← Real.exp_add, add_sub_cancel] at hexp
  have hscaled := mul_le_mul_of_nonneg_left hexp work_pos.le
  have hunits := mul_le_mul_of_nonneg_left h (Real.exp_pos x).le
  linarith

theorem exp_add_le_twice {x t : ℝ} (ht : t ≤ 1 / 2) : Real.exp (x + t) ≤ 2 * Real.exp x := by
  have hshort : Real.exp t ≤ 2 := by
    calc Real.exp t ≤ Real.exp (Real.log 2) :=
          Real.exp_le_exp.mpr (by linarith [Real.log_two_gt_d9])
      _ = 2 := Real.exp_log two_pos
  rw [Real.exp_add, mul_comm]
  exact mul_le_mul_of_nonneg_right hshort (Real.exp_pos x).le

/-! ## Powers -/

section Power

variable {base exponent : Nat}

theorem le_powerMagnitude (hone : one ≤ base) (htwo : base ≤ 2 * one) (hexponent : exponent ≤ one) :
    work * (value exponent * |Real.log (value base)|) ≤ powerMagnitude base exponent + 1501 := by
  have hshare : value exponent ≤ 1 := value_le_one hexponent
  have habove : work ≤ base * guard := Nat.mul_le_mul_right guard hone
  have hwithin : base * guard ≤ 2 * work := by
    rw [work_eq_one_mul_guard, ← Nat.mul_assoc]
    exact Nat.mul_le_mul_right guard htwo
  have hmagnitude := le_lnMagnitude (y := base * guard) (by omega) (by omega)
  rw [value_eq] at hmagnitude
  have hpower : work * (value exponent * |Real.log (value base)|) ≤
      powerMagnitude base exponent + (value exponent * 1500 + 1) :=
    le_mul_div_one exponent hmagnitude
  linarith

theorem sub_le_powerWork (hone : one ≤ base) (htwo : base ≤ 2 * one) (hexponent : exponent ≤ one) :
    work * value base ^ value exponent - 4000 ≤ powerWork base exponent := by
  have hbase : 0 < base := Nat.lt_of_lt_of_le (by decide) hone
  have hshare : value exponent ≤ 1 := value_le_one hexponent
  have hnonneg : 0 ≤ value exponent := div_nonneg (Nat.cast_nonneg _) one_real_pos.le
  have hvalue : 1 ≤ value base := one_le_value hone
  have hvalueTwo : value base ≤ 2 := value_le_of_le_mul htwo
  have hlog : |Real.log (value base)| = Real.log (value base) :=
    abs_of_nonneg (Real.log_nonneg hvalue)
  have hsmall : value exponent * |Real.log (value base)| < 1 := by
    have hlogTwo := Real.log_le_log (value_pos hbase) hvalueTwo
    rw [hlog]
    nlinarith [Real.log_two_lt_d9, Real.log_nonneg hvalue]
  have hbelow := powerMagnitude_lt_work hbase hsmall
  have hln := le_powerMagnitude hone htwo hexponent
  have hexp := work_mul_exp_le hbelow
  rw [← powerWork_eq_expFraction hone (by omega) hbelow] at hexp
  rw [hlog] at hln
  generalize powerMagnitude base exponent = y at *
  have hlost := work_mul_exp_le_add (x := Real.log (value base) * value exponent)
    (y := y / work) (c := 1501) (by rw [mul_div_cancel₀ _ work_pos.ne']; linarith)
  rw [← Real.rpow_def_of_pos (value_pos hbase)] at hlost
  have htwice : value base ^ value exponent ≤ 2 :=
    (Real.rpow_le_rpow_of_exponent_le hvalue hshare).trans (by rwa [Real.rpow_one])
  linarith

theorem expWork_neg_le_add {y : Nat} {x : ℝ} (hlimit : y ≤ work * 42)
    (hx : work * -x ≤ y + 32001) :
    (expWork (-(y : Int)) : ℝ) ≤ work * Real.exp x + 70000 := by
  have hwholes : y / work ≤ 42 := Nat.div_le_of_le_mul hlimit
  have hneg := expWork_neg_le y
  have hlostUnits : (2 * (y / work : Nat) + 250 : ℝ) ≤ 334 := by exact_mod_cast (by omega)
  generalize (2 * (y / work : Nat) + 250 : ℝ) = lost at *
  have hunits : work * (lost / work - y / work : ℝ) = lost - y := by
    rw [mul_sub, mul_div_cancel₀ _ work_pos.ne', mul_div_cancel₀ _ work_pos.ne']
  have hadded := work_mul_exp_le_add (x := lost / work - y / work) (y := x) (c := 32335)
    (by linarith)
  have htwice : Real.exp (lost / work - y / work) ≤ 2 * Real.exp (-(y / work)) := by
    have hwork : (668 : ℝ) ≤ work := by exact_mod_cast (by decide : 668 ≤ work)
    rw [← neg_add_eq_sub]
    exact exp_add_le_twice (by rw [div_le_iff₀ work_pos]; linarith)
  have hbelow : Real.exp (-(y / work)) ≤ 1 :=
    Real.exp_le_one_iff.mpr (neg_nonpos.mpr (div_nonneg (Nat.cast_nonneg y) work_pos.le))
  linarith

theorem powerWork_le_add (hpos : 0 < base) (hone : base < one) (hexponent : exponent ≤ 20 * one) :
    (powerWork base exponent : ℝ) ≤ work * value base ^ value exponent + 70000 := by
  have hbelow := lt_work_of_lt_one hone
  have hunits : guard ≤ base * guard := Nat.le_mul_of_pos_left guard hpos
  have hln := lnWork_le_add hunits hbelow
  have hshare : value exponent ≤ 20 := value_le_of_le_mul hexponent
  obtain ⟨l, hl⟩ := Int.exists_eq_neg_ofNat
    (lnWork_nonpos (Nat.lt_of_lt_of_le (by decide) hunits) hbelow.le)
  rw [hl, value_eq, Int.cast_neg, Int.cast_natCast] at hln
  have hpower : work * (value exponent * -Real.log (value base)) ≤
      (exponent * l / one : Nat) + (value exponent * 1600 + 1) :=
    le_mul_div_one exponent (by linarith)
  rw [Real.rpow_def_of_pos (value_pos hpos)]
  unfold powerWork
  dsimp only
  rw [powerLn_of_neg hl]
  generalize exponent * l / one = y at *
  split
  · -- A power that is flushed to zero is below any bound.
    rw [Nat.cast_zero]
    have hscaled := mul_nonneg work_pos.le (Real.exp_pos (Real.log (value base) * value exponent)).le
    linarith
  · have hlimit : minExponentMagnitude * guard = work * 42 := by decide
    rw [Int.min_eq_left (by omega)]
    exact expWork_neg_le_add (by omega) (by linarith)

/-- Rounding down takes a root of a number between one and two to at most two units below its exact
value, since a unit is worth more than what the kernels lose. -/
theorem sub_two_le_value_powerDown (hone : one ≤ base) (htwo : base ≤ 2 * one)
    (hexponent : exponent ≤ one) :
    value base ^ value exponent - 2 / one ≤ value (powerDown base exponent) := by
  have hpower := sub_le_powerWork hone htwo hexponent
  have hguard : (4000 : ℝ) ≤ guard := by exact_mod_cast (by decide : 4000 ≤ guard)
  rw [powerDown_eq_roundedPower,
    roundedPower_eq (by decide) (Nat.lt_of_lt_of_le (by decide) hone) exponent]
  generalize powerWork base exponent = p at *
  generalize value base ^ value exponent = v at *
  have hfloor : one * v - 1 - 1 ≤ ((p / guard : Nat) : ℝ) := by
    refine sub_one_le_cast_div (by decide) ?_
    rw [work_eq_one_mul_guard, Nat.cast_mul] at hpower
    linarith
  unfold value
  rw [le_div_iff₀ one_real_pos, sub_mul, div_mul_cancel₀ _ one_real_pos.ne']
  linarith

theorem value_powerUp_le (hone : base ≤ one) (hpos : 0 < exponent)
    (hexponent : exponent ≤ 20 * one) :
    value (powerUp base exponent) ≤ value base ^ value exponent + 2 / one := by
  have hunits : (0 : ℝ) ≤ 2 / one := div_nonneg zero_le_two one_real_pos.le
  rcases Nat.eq_zero_or_pos base with rfl | hbase
  · have hzero : value 0 = 0 := by simp [value]
    have hnonneg : 0 ≤ (0 : ℝ) ^ value exponent := Real.rpow_nonneg le_rfl _
    rw [powerUp_zero hpos, hzero]
    linarith
  · rcases Nat.eq_or_lt_of_le hone with rfl | hlt
    · rw [powerUp_one, value_one, Real.one_rpow]
      linarith
    · have hpower := powerWork_le_add hbase hlt hexponent
      have hrounded : (powerUp base exponent * guard : ℝ) ≤ powerWork base exponent + guard := by
        exact_mod_cast powerUp_mul_guard_le hbase hlt hpos
      have hguard : (70000 : ℝ) ≤ guard := by exact_mod_cast (by decide : 70000 ≤ guard)
      have hguardPos : (0 : ℝ) < guard := by linarith
      rw [work_eq_one_mul_guard, Nat.cast_mul] at hpower
      generalize value base ^ value exponent = v at *
      unfold value
      rw [div_le_iff₀ one_real_pos, add_mul, div_mul_cancel₀ _ one_real_pos.ne']
      refine le_of_mul_le_mul_right ?_ hguardPos
      linarith

end Power

end CurveMarket.Fixed
