import Mathlib.Analysis.SpecialFunctions.Pow.Real
import CurveMarket.Proofs.Fixed.Series

/-! # Powers near one

A base between a third and three needs no reduction, and while the logarithm of the power stays
below one whole the exponential is its series alone. There a power above one is never above its
exact value, and one below one is short of it by no more than a unit of the working scale.
-/

namespace CurveMarket.Fixed

/-- What a fixed-point number stands for. -/
noncomputable def value (x : Nat) : ℝ := x / one

theorem work_pos : (0 : ℝ) < work := Nat.cast_pos.mpr (by decide)

theorem one_real_pos : (0 : ℝ) < one := Nat.cast_pos.mpr (by decide)

theorem value_one : value one = 1 := div_self one_real_pos.ne'

theorem value_mul_one (x : Nat) : value x * one = x := div_mul_cancel₀ _ one_real_pos.ne'

theorem value_le_value {x y : Nat} (h : x ≤ y) : value x ≤ value y :=
  div_le_div_of_nonneg_right (Nat.cast_le.mpr h) one_real_pos.le

theorem one_le_value {x : Nat} (h : one ≤ x) : 1 ≤ value x := by
  rw [← value_one]
  exact value_le_value h

theorem value_le_one {x : Nat} (h : x ≤ one) : value x ≤ 1 := by
  rw [← value_one]
  exact value_le_value h

theorem value_pos {x : Nat} (h : 0 < x) : 0 < value x :=
  div_pos (Nat.cast_pos.mpr h) one_real_pos

theorem value_le_of_le_mul {x n : Nat} (h : x ≤ n * one) : value x ≤ n := by
  unfold value
  rw [div_le_iff₀ one_real_pos]
  exact_mod_cast h

theorem le_value_of_mul_le {x n : Nat} (h : n * one ≤ x) : n ≤ value x := by
  unfold value
  rw [le_div_iff₀ one_real_pos]
  exact_mod_cast h

theorem value_le_half {x : Nat} (h : 2 * x ≤ one) : value x ≤ 1 / 2 := by
  have hcast : (2 * x : ℝ) ≤ one := by exact_mod_cast h
  unfold value
  rw [div_le_iff₀ one_real_pos]
  linarith

theorem value_eq (base : Nat) : ((base * guard : Nat) : ℝ) / work = value base := by
  have hguard : (guard : ℝ) ≠ 0 := Nat.cast_ne_zero.mpr (by decide)
  unfold value
  rw [work_eq_one_mul_guard, Nat.cast_mul, Nat.cast_mul, mul_div_mul_right _ _ hguard]

/-! ## Logarithms -/

/-- Magnitude of the logarithm of a number in the reduced range. -/
def lnMagnitude (y : Nat) : Nat :=
  2 * atanhSeries work (atanhArgument y * atanhArgument y / work) (atanhArgument y) 1

theorem reducedLn_of_le {y : Nat} (h : work ≤ y) : reducedLn y = lnMagnitude y := if_pos h

theorem reducedLn_of_lt {y : Nat} (h : y < work) : reducedLn y = -(lnMagnitude y : Int) :=
  if_neg (Nat.not_le.mpr h)

theorem logQuotient_eq {a b : ℝ} (ha : 0 < a) (hb : 0 < b) :
    logQuotient ((a - b) / (a + b)) = Real.log (a / b) := by
  have hsum : 0 < a + b := add_pos ha hb
  have hplus : 1 + (a - b) / (a + b) = 2 * a / (a + b) := by
    field_simp
    ring
  have hminus : 1 - (a - b) / (a + b) = 2 * b / (a + b) := by
    field_simp
    ring
  have hquotient : 2 * a / (a + b) / (2 * b / (a + b)) = a / b := by
    field_simp
  unfold logQuotient
  rw [hplus, hminus, ← Real.log_div (by positivity) (by positivity), hquotient]

theorem twice_atanhSeries_le {a b : Nat} (hb : 0 < b) (hle : b ≤ a) {z : Nat}
    (hz : z = (a - b) * work / (a + b)) :
    ((2 * atanhSeries work (z * z / work) z 1 : Nat) : ℝ) ≤ work * Real.log (a / b) := by
  have hbPos : (0 : ℝ) < b := Nat.cast_pos.mpr hb
  have haPos : (0 : ℝ) < a := Nat.cast_pos.mpr (Nat.lt_of_lt_of_le hb hle)
  have hleReal : (b : ℝ) ≤ a := Nat.cast_le.mpr hle
  have hnonneg : (0 : ℝ) ≤ (a - b) / (a + b) :=
    div_nonneg (sub_nonneg.mpr hleReal) (add_pos haPos hbPos).le
  have hlt : ((a : ℝ) - b) / (a + b) < 1 := by
    rw [div_lt_one (add_pos haPos hbPos)]
    linarith
  have hzLe : (z : ℝ) ≤ work * ((a - b) / (a + b)) := by
    rw [hz]
    refine cast_div_le_of_le (by omega) ?_
    push_cast [hle]
    have hsum : (a : ℝ) + b ≠ 0 := (add_pos haPos hbPos).ne'
    field_simp
    exact le_refl _
  have hsquare : ((z * z / work : Nat) : ℝ) ≤ work * ((a - b) / (a + b)) ^ 2 := by
    refine cast_div_le_of_le (by decide) ?_
    have hproduct := mul_le_mul hzLe hzLe (Nat.cast_nonneg z)
      (mul_nonneg work_pos.le hnonneg)
    calc ((z * z : Nat) : ℝ) = z * z := Nat.cast_mul z z
      _ ≤ work * ((a - b) / (a + b)) * (work * ((a - b) / (a + b))) := hproduct
      _ = work * ((a - b) / (a + b)) ^ 2 * work := by ring
  have hseries := atanhSeries_le (j := 0) (by decide) hnonneg hlt hsquare (by simpa using hzLe)
  have hrest : logRest (((a : ℝ) - b) / (a + b)) 0 = Real.log (a / b) := by
    rw [← logQuotient_eq haPos hbPos]
    simp [logRest]
  rw [hrest] at hseries
  push_cast
  exact hseries

theorem abs_log_of_le {y : Nat} (hpos : 0 < y) (h : y ≤ work) :
    |Real.log (y / work)| = -Real.log (y / work) := by
  have hyPos : (0 : ℝ) < y := Nat.cast_pos.mpr hpos
  have hbelow : (y : ℝ) / work ≤ 1 := (div_le_one work_pos).mpr (Nat.cast_le.mpr h)
  exact abs_of_nonpos (Real.log_nonpos (by positivity) hbelow)

theorem exists_quotient {y : Nat} (hy : 0 < y) :
    ∃ a b : Nat, 0 < b ∧ b ≤ a ∧ (a = y ∧ b = work ∨ a = work ∧ b = y) ∧
      atanhArgument y = (a - b) * work / (a + b) ∧
        |Real.log (y / work)| = Real.log (a / b) := by
  rcases Nat.lt_or_ge y work with hlt | hle
  · refine ⟨work, y, hy, hlt.le, .inr ⟨rfl, rfl⟩, ?_, ?_⟩
    · unfold atanhArgument
      rw [if_neg (Nat.not_le.mpr hlt), Nat.add_comm]
    · rw [abs_log_of_le hy hlt.le, ← Real.log_inv, inv_div]
  · refine ⟨y, work, by decide, hle, .inl ⟨rfl, rfl⟩, ?_, ?_⟩
    · unfold atanhArgument
      rw [if_pos hle]
    · have habove : 1 ≤ (y : ℝ) / work := (one_le_div work_pos).mpr (Nat.cast_le.mpr hle)
      exact abs_of_nonneg (Real.log_nonneg habove)

theorem lnMagnitude_le {y : Nat} (hy : 0 < y) :
    (lnMagnitude y : ℝ) ≤ work * |Real.log (y / work)| := by
  obtain ⟨a, b, hb, hle, -, hargument, hlog⟩ := exists_quotient hy
  rw [hlog]
  exact twice_atanhSeries_le hb hle hargument

theorem scaleDown_of_le {x : Nat} (h : x ≤ threeWork) : scaleDown x = (x, 0) := by
  unfold scaleDown
  rw [scaleDownBy, dif_neg (by omega)]

theorem scaleUp_of_le {x : Nat} (h : thirdWork ≤ x) : scaleUp x = (x, 0) := by
  unfold scaleUp
  rw [scaleUpBy, dif_neg (by omega)]

/-- What the two reductions leave and how many steps each of them took say what the logarithm is. -/
theorem lnWork_eq_of_reduction {x d r n k : Nat} (hdown : scaleDown x = (d, n))
    (hup : scaleUp d = (r, k)) : lnWork x = reducedLn r + ((n : Int) - k) * work := by
  unfold lnWork
  rw [hdown]
  dsimp only
  rw [hup]

/-- Between a third and three the logarithm is read off the series at once. -/
theorem lnWork_eq_reducedLn {x : Nat} (hlow : thirdWork ≤ x) (hhigh : x ≤ threeWork) :
    lnWork x = reducedLn x := by
  rw [lnWork_eq_of_reduction (scaleDown_of_le hhigh) (scaleUp_of_le hlow)]
  simp

/-! ## Exponentials -/

theorem expWorkNat_eq_expFraction {y : Nat} (h : y < work) : expWorkNat y = expFraction y := by
  unfold expWorkNat
  rw [Nat.mod_eq_of_lt h, Nat.div_eq_of_lt h, mulPower, dif_pos rfl]

theorem expWork_eq_expWorkNat (y : Nat) : expWork (y : Int) = expWorkNat y := by
  unfold expWork
  rw [if_neg (Int.not_lt.mpr (Int.natCast_nonneg y)), Int.natAbs_natCast]

theorem expWork_natCast {y : Nat} (h : y < work) : expWork (y : Int) = expFraction y := by
  rw [expWork_eq_expWorkNat, expWorkNat_eq_expFraction h]

/-- The reciprocal of an exponential falls short of the reciprocal of a bound by less than a unit. -/
theorem le_expWork_neg_of_le {y : Nat} {x : ℝ} (hleast : work ≤ expWorkNat y)
    (hx : (expWorkNat y : ℝ) ≤ work * Real.exp x) :
    work * Real.exp (-x) - 1 ≤ expWork (-(y : Int)) := by
  have hpos : 0 < expWorkNat y := Nat.lt_of_lt_of_le (by decide) hleast
  have hreal : (0 : ℝ) < expWorkNat y := Nat.cast_pos.mpr hpos
  have hfloor : work * work ≤ expWorkNat y * (expWork (-(y : Int)) + 1) := by
    unfold expWork
    rw [Int.natAbs_neg, Int.natAbs_natCast]
    split
    · exact (Nat.lt_mul_div_succ _ hpos).le
    · exact Nat.mul_le_mul hleast (hleast.trans (Nat.le_add_right _ 1))
  have hscaled : work * Real.exp (-x) * expWorkNat y ≤
      (expWork (-(y : Int)) + 1) * expWorkNat y := by
    calc work * Real.exp (-x) * expWorkNat y ≤ work * Real.exp (-x) * (work * Real.exp x) :=
          mul_le_mul_of_nonneg_left hx (mul_nonneg work_pos.le (Real.exp_pos _).le)
      _ = work * work := by
          rw [mul_mul_mul_comm, ← Real.exp_add, neg_add_cancel, Real.exp_zero, mul_one]
      _ ≤ expWorkNat y * (expWork (-(y : Int)) + 1) := by exact_mod_cast hfloor
      _ = (expWork (-(y : Int)) + 1) * expWorkNat y := mul_comm _ _
  have hle := le_of_mul_le_mul_right hscaled hreal
  linarith

theorem le_expWork_neg {y : Nat} (h : y < work) :
    work * Real.exp (-(y / work)) - 1 ≤ expWork (-(y : Int)) := by
  have hexp := expFraction_le y
  rw [← expWorkNat_eq_expFraction h] at hexp
  refine le_expWork_neg_of_le ?_ hexp
  rw [expWorkNat_eq_expFraction h]
  exact Nat.le_add_right work _

/-! ## Powers -/

def powerMagnitude (base exponent : Nat) : Nat := exponent * lnMagnitude (base * guard) / one

theorem mul_div_one_le {l : Nat} {x : ℝ} (exponent : Nat) (hl : (l : ℝ) ≤ work * x) :
    ((exponent * l / one : Nat) : ℝ) ≤ work * (value exponent * x) := by
  refine cast_div_le_of_le (by decide) ?_
  have hproduct := mul_le_mul_of_nonneg_left hl (Nat.cast_nonneg exponent : (0 : ℝ) ≤ exponent)
  have hvalue : (exponent : ℝ) = value exponent * one := (value_mul_one exponent).symm
  calc ((exponent * l : Nat) : ℝ) = exponent * l := Nat.cast_mul _ _
    _ ≤ exponent * (work * x) := hproduct
    _ = work * (value exponent * x) * one := by
      rw [hvalue]
      ring

theorem powerMagnitude_le {base : Nat} (hbase : 0 < base) (exponent : Nat) :
    (powerMagnitude base exponent : ℝ) ≤ work * (value exponent * |Real.log (value base)|) := by
  have hln := lnMagnitude_le (Nat.mul_pos hbase (by decide : 0 < guard))
  rw [value_eq] at hln
  exact mul_div_one_le exponent hln

theorem powerMagnitude_lt_work {base exponent : Nat} (hbase : 0 < base)
    (hsmall : value exponent * |Real.log (value base)| < 1) :
    powerMagnitude base exponent < work := by
  have hreal : (powerMagnitude base exponent : ℝ) < work := by
    calc (powerMagnitude base exponent : ℝ)
        ≤ work * (value exponent * |Real.log (value base)|) := powerMagnitude_le hbase exponent
      _ < work * 1 := mul_lt_mul_of_pos_left hsmall work_pos
      _ = work := mul_one _
  exact Nat.cast_lt.mp hreal

theorem powerLn_of_ge {base : Nat} (hone : one ≤ base) (hthree : base ≤ 3 * one)
    (exponent : Nat) : powerLn base exponent = powerMagnitude base exponent := by
  have habove : work ≤ base * guard := Nat.mul_le_mul_right guard hone
  have hreduced : lnWork (base * guard) = lnMagnitude (base * guard) := by
    rw [lnWork_eq_reducedLn, reducedLn_of_le habove]
    · exact Nat.le_trans (by decide) habove
    · exact Nat.mul_le_mul_right guard hthree
  unfold powerLn
  rw [hreduced]
  rfl

theorem powerLn_of_neg {base l : Nat} (hln : lnWork (base * guard) = -(l : Int))
    (exponent : Nat) : powerLn base exponent = -((exponent * l / one : Nat) : Int) := by
  unfold powerLn
  rw [hln, Int.mul_neg, Int.neg_tdiv]
  rfl

theorem powerLn_of_lt {base : Nat} (hthird : one ≤ 3 * base) (hone : base < one)
    (exponent : Nat) : powerLn base exponent = -(powerMagnitude base exponent : Int) := by
  have hbelow : base * guard < work := Nat.mul_lt_mul_of_pos_right hone (by decide)
  have hreduced : lnWork (base * guard) = -(lnMagnitude (base * guard) : Int) := by
    rw [lnWork_eq_reducedLn, reducedLn_of_lt hbelow]
    · have hscaled : work ≤ 3 * (base * guard) := by
        calc work = one * guard := work_eq_one_mul_guard
          _ ≤ 3 * base * guard := Nat.mul_le_mul_right guard hthird
          _ = 3 * (base * guard) := Nat.mul_assoc ..
      rw [thirdWork_eq]
      omega
    · rw [threeWork_eq]
      omega
  exact powerLn_of_neg hreduced exponent

/-- A logarithm below one whole is within both limits of the exponential. -/
theorem powerWork_eq_expWork {base exponent : Nat}
    (hsmall : (powerLn base exponent).natAbs < work) :
    powerWork base exponent = expWork (powerLn base exponent) := by
  have hmin : work < minExponentMagnitude * guard := by decide
  have hmax : work < maxExponent * guard := by decide
  unfold powerWork
  dsimp only
  rw [if_neg (by omega), Int.min_eq_left (by omega)]

theorem powerWork_eq_expFraction {base exponent : Nat} (hone : one ≤ base)
    (hthree : base ≤ 3 * one) (hbelow : powerMagnitude base exponent < work) :
    powerWork base exponent = expFraction (powerMagnitude base exponent) := by
  have hln := powerLn_of_ge hone hthree exponent
  rw [powerWork_eq_expWork (by omega), hln, expWork_natCast hbelow]

/-- While its logarithm is below one whole, a power above one does not exceed its exact value. -/
theorem powerWork_le {base exponent : Nat} (hone : one ≤ base) (hthree : base ≤ 3 * one)
    (hsmall : value exponent * Real.log (value base) < 1) :
    (powerWork base exponent : ℝ) ≤ work * value base ^ value exponent := by
  have hbase : 0 < base := Nat.lt_of_lt_of_le (by decide) hone
  have hvalue : 1 ≤ value base := one_le_value hone
  have hlog : |Real.log (value base)| = Real.log (value base) :=
    abs_of_nonneg (Real.log_nonneg hvalue)
  have hmagnitude := powerMagnitude_le hbase exponent
  have hbelow : powerMagnitude base exponent < work :=
    powerMagnitude_lt_work hbase (by rwa [hlog])
  have hexponent : (powerMagnitude base exponent : ℝ) / work ≤
      Real.log (value base) * value exponent := by
    rw [hlog] at hmagnitude
    rw [div_le_iff₀ work_pos]
    linarith
  rw [powerWork_eq_expFraction hone hthree hbelow, Real.rpow_def_of_pos (value_pos hbase)]
  calc (expFraction (powerMagnitude base exponent) : ℝ)
      ≤ work * Real.exp (powerMagnitude base exponent / work) := expFraction_le _
    _ ≤ work * Real.exp (Real.log (value base) * value exponent) :=
      mul_le_mul_of_nonneg_left (Real.exp_le_exp.mpr hexponent) work_pos.le

/-- While its logarithm is above minus one whole, a power below one is short of its exact value by
at most a unit. -/
theorem le_powerWork {base exponent : Nat} (hthird : one ≤ 3 * base) (hone : base < one)
    (hsmall : -1 < value exponent * Real.log (value base)) :
    work * value base ^ value exponent - 1 ≤ powerWork base exponent := by
  have hbase : 0 < base := by
    have hpos : 0 < one := by decide
    omega
  have hpositive : 0 < value base := value_pos hbase
  have hvalue : value base ≤ 1 := value_le_one hone.le
  have hlog : |Real.log (value base)| = -Real.log (value base) :=
    abs_of_nonpos (Real.log_nonpos hpositive.le hvalue)
  have hmagnitude := powerMagnitude_le hbase exponent
  rw [hlog] at hmagnitude
  have hlimited : powerMagnitude base exponent < work := by
    refine powerMagnitude_lt_work hbase ?_
    rw [hlog]
    linarith
  have hln := powerLn_of_lt hthird hone exponent
  have hpower : powerWork base exponent = expWork (-(powerMagnitude base exponent : Int)) := by
    rw [powerWork_eq_expWork (by omega), hln]
  have hexponent : Real.log (value base) * value exponent ≤
      -((powerMagnitude base exponent : ℝ) / work) := by
    have hquotient : (powerMagnitude base exponent : ℝ) / work ≤
        -(Real.log (value base) * value exponent) := by
      rw [div_le_iff₀ work_pos]
      linarith
    linarith
  have hexact : work * value base ^ value exponent ≤
      work * Real.exp (-((powerMagnitude base exponent : ℝ) / work)) := by
    rw [Real.rpow_def_of_pos hpositive]
    exact mul_le_mul_of_nonneg_left (Real.exp_le_exp.mpr hexponent) work_pos.le
  have hreciprocal := le_expWork_neg hlimited
  rw [hpower]
  linarith

/-! ## Rounded powers -/

theorem value_div_le {a b : Nat} {x : ℝ} (hb : 0 < b) (h : (a : ℝ) ≤ x * b * one) :
    value (a / b) ≤ x := by
  unfold value
  rw [div_le_iff₀ one_real_pos]
  refine cast_div_le_of_le hb ?_
  linarith

theorem le_divUp_mul (a : Nat) {b : Nat} (hb : 0 < b) : a ≤ (a + b - 1) / b * b := by
  have hdiv := Nat.div_add_mod (a + b - 1) b
  have hmod := Nat.mod_lt (a + b - 1) hb
  rw [Nat.mul_comm] at hdiv
  omega

theorem exactPower?_of_one {base exponent r : Nat} (hbase : 0 < base)
    (h : exactPower? base exponent = some r) :
    (exponent = 0 ∨ base = one) ∧ r = one := by
  unfold exactPower? at h
  split at h
  · rename_i hzero
    exact ⟨.inl hzero, (Option.some.inj h).symm⟩
  · split at h
    · omega
    · split at h
      · rename_i hsame
        exact ⟨.inr hsame, (Option.some.inj h).symm⟩
      · cases h

theorem powerUp_pos {base : Nat} (hbase : 0 < base) (exponent : Nat) :
    0 < powerUp base exponent := by
  unfold powerUp
  cases hexact : exactPower? base exponent with
  | some r =>
      rw [Option.getD_some, (exactPower?_of_one hbase hexact).2]
      decide
  | none =>
      rw [Option.getD_none]
      exact Nat.lt_of_lt_of_le Nat.one_pos (Nat.le_max_left ..)

theorem value_of_exactPower? {base exponent r : Nat} (hbase : 0 < base)
    (h : exactPower? base exponent = some r) : value r = value base ^ value exponent := by
  obtain ⟨hcase, hr⟩ := exactPower?_of_one hbase h
  rw [hr, value_one]
  rcases hcase with hzero | hsame
  · rw [hzero]
    simp [value]
  · rw [hsame, value_one, Real.one_rpow]

theorem ne_one_of_exactPower?_none {base exponent : Nat}
    (h : exactPower? base exponent = none) : base ≠ one := by
  intro hsame
  unfold exactPower? at h
  rw [hsame] at h
  by_cases hzero : exponent = 0
  · rw [if_pos hzero] at h
    cases h
  · rw [if_neg hzero, if_neg (by decide), if_pos rfl] at h
    cases h

/-- Rounding down keeps a power above one within its exact value. -/
theorem value_powerDown_le {base exponent : Nat} (hone : one ≤ base) (hthree : base ≤ 3 * one)
    (hsmall : value exponent * Real.log (value base) < 1) :
    value (powerDown base exponent) ≤ value base ^ value exponent := by
  have hbase : 0 < base := Nat.lt_of_lt_of_le (by decide) hone
  unfold powerDown
  cases hexact : exactPower? base exponent with
  | some r => exact (value_of_exactPower? hbase hexact).le
  | none =>
      have hpower := powerWork_le hone hthree hsmall
      rw [Option.getD_none]
      refine value_div_le (by decide) ?_
      calc (powerWork base exponent : ℝ) ≤ work * value base ^ value exponent := hpower
        _ = value base ^ value exponent * guard * one := by
          rw [work_eq_one_mul_guard, Nat.cast_mul]
          ring

/-- Rounding up keeps a power below one from falling short by more than a unit. -/
theorem le_value_powerUp {base exponent : Nat} (hthird : one ≤ 3 * base) (hone : base ≤ one)
    (hsmall : -1 < value exponent * Real.log (value base)) :
    value base ^ value exponent - 1 / work ≤ value (powerUp base exponent) := by
  have hbase : 0 < base := by
    have hpos : 0 < one := by decide
    omega
  have hunit : (0 : ℝ) ≤ 1 / work := div_nonneg zero_le_one work_pos.le
  unfold powerUp
  cases hexact : exactPower? base exponent with
  | some r =>
      have hvalue := value_of_exactPower? hbase hexact
      rw [Option.getD_some, hvalue]
      linarith
  | none =>
      have hbelow : base < one := Nat.lt_of_le_of_ne hone (ne_one_of_exactPower?_none hexact)
      have hpower := le_powerWork hthird hbelow hsmall
      have hrounded : powerWork base exponent ≤
          max 1 ((powerWork base exponent + guard - 1) / guard) * guard :=
        Nat.le_trans (le_divUp_mul _ (by decide)) (Nat.mul_le_mul_right guard (Nat.le_max_right ..))
      have hscaled : (powerWork base exponent : ℝ) ≤
          value (max 1 ((powerWork base exponent + guard - 1) / guard)) * work := by
        rw [work_eq_one_mul_guard, Nat.cast_mul, ← mul_assoc, value_mul_one]
        exact_mod_cast hrounded
      rw [Option.getD_none]
      have hshort : (value base ^ value exponent - 1 / work) * work ≤
          value (max 1 ((powerWork base exponent + guard - 1) / guard)) * work := by
        calc (value base ^ value exponent - 1 / work) * work
            = work * value base ^ value exponent - 1 := by
              have hne := work_pos.ne'
              field_simp
          _ ≤ powerWork base exponent := hpower
          _ ≤ _ := hscaled
      exact le_of_mul_le_mul_right hshort work_pos

end CurveMarket.Fixed
