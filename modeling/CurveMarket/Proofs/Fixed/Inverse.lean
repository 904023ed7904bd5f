import CurveMarket.Proofs.Fixed.Accuracy
import CurveMarket.Proofs.Fixed.Bracket

/-! # Exponential and logarithm undo each other

Each of the two functions is off by hardly more than a unit, so the way to the other function and back
changes a number by a few parts in `10 ^ 18` of it and one unit, and an exponent by two units. All
logarithms of exponentials are within the limits, so nothing is cut or flushed on the way.
-/

namespace CurveMarket.Fixed

/-! ## Small changes -/

/-- A small change of an exponent changes the exponential by no more than twice its share. -/
theorem abs_exp_sub_exp_le {a b t : ℝ} (h : |a - b| ≤ t) (ht : t ≤ 1) :
    |Real.exp a - Real.exp b| ≤ 2 * t * Real.exp b := by
  have hsmall := Real.abs_exp_sub_one_le (h.trans ht)
  have hsplit : Real.exp a - Real.exp b = (Real.exp (a - b) - 1) * Real.exp b := by
    rw [sub_mul, ← Real.exp_add, sub_add_cancel, one_mul]
  rw [hsplit, abs_mul, abs_of_pos (Real.exp_pos b)]
  exact mul_le_mul_of_nonneg_right (by linarith) (Real.exp_pos b).le

theorem abs_log_sub_log_le {u v t : ℝ} (hv : 0 < v) (h : |u - v| ≤ t * v) (ht : t ≤ 1 / 2) :
    |Real.log u - Real.log v| ≤ 2 * t := by
  obtain ⟨hlow, hhigh⟩ := abs_le.mp h
  have hshare : 0 ≤ t := nonneg_of_mul_nonneg_left ((abs_nonneg _).trans h) hv
  have hhalf : t * v ≤ 1 / 2 * v := mul_le_mul_of_nonneg_right ht hv.le
  have hu : 0 < u := by linarith
  have habove := Real.log_le_sub_one_of_pos (div_pos hu hv)
  have hbelow := Real.log_le_sub_one_of_pos (div_pos hv hu)
  have hmore : u / v ≤ 1 + 2 * t := by
    rw [div_le_iff₀ hv]
    have htwice := mul_nonneg hshare hv.le
    linarith
  have hless : v / u ≤ 1 + 2 * t := by
    rw [div_le_iff₀ hu]
    have htwice : t * v ≤ t * (2 * u) := mul_le_mul_of_nonneg_left (by linarith) hshare
    linarith
  rw [Real.log_div hu.ne' hv.ne'] at habove
  rw [Real.log_div hv.ne' hu.ne'] at hbelow
  rw [abs_le]
  constructor <;> linarith

theorem abs_mul_exp_sub_le {v l : ℝ} (hv : 0 < v) (h : |l - one * Real.log v| ≤ 2) :
    |one * Real.exp (l / one) - one * v| ≤ 4 * v := by
  have hshare : |l / one - Real.log v| ≤ 2 / one := by
    rw [le_div_iff₀ one_real_pos, ← abs_of_pos one_real_pos, ← abs_mul, abs_of_pos one_real_pos,
      sub_mul, div_mul_cancel₀ _ one_real_pos.ne', mul_comm]
    exact h
  have htwo : (2 : ℝ) ≤ one := by exact_mod_cast (by decide : 2 ≤ one)
  have hchange := abs_exp_sub_exp_le hshare ((div_le_one one_real_pos).mpr htwo)
  rw [Real.exp_log hv] at hchange
  rw [← mul_sub, abs_mul, abs_of_pos one_real_pos]
  calc one * |Real.exp (l / one) - v| ≤ one * (2 * (2 / one) * v) :=
        mul_le_mul_of_nonneg_left hchange one_real_pos.le
    _ = 4 * v := by
        have hne := one_real_pos.ne'
        field_simp
        norm_num

theorem abs_mul_log_sub_le {v y : ℝ}
    (h : |one * v - one * Real.exp (y / one)| ≤ 7 / 10 * Real.exp (y / one)) :
    |one * Real.log v - y| ≤ 7 / 5 := by
  have hne := one_real_pos.ne'
  have hshare : |v - Real.exp (y / one)| ≤ 7 / 10 / one * Real.exp (y / one) := by
    rw [← mul_sub, abs_mul, abs_of_pos one_real_pos] at h
    rw [div_mul_eq_mul_div, le_div_iff₀ one_real_pos, mul_comm]
    exact h
  have hsmall : 7 / 10 / (one : ℝ) ≤ 1 / 2 := by
    rw [div_le_iff₀ one_real_pos]
    norm_num [one]
  have hchange := abs_log_sub_log_le (Real.exp_pos _) hshare hsmall
  rw [Real.log_exp] at hchange
  calc |one * Real.log v - y| = one * |Real.log v - y / one| := by
        rw [← abs_of_pos one_real_pos, ← abs_mul, abs_of_pos one_real_pos, mul_sub,
          mul_div_cancel₀ _ hne]
    _ ≤ one * (2 * (7 / 10 / one)) := mul_le_mul_of_nonneg_left hchange one_real_pos.le
    _ = 7 / 5 := by
        field_simp
        norm_num

/-! ## Within the limits -/

/-- A logarithm needs no exception at one. -/
theorem ln_natCast {x : Nat} (hpos : 0 < x) :
    ln (x : Int) = .ok (roundUnitsSigned (lnWork (x * guard))) := by
  unfold ln
  rw [if_neg (by omega), Int.toNat_natCast]
  split
  · rename_i hone
    rw [Int.natCast_inj.mp hone, ← work_eq_one_mul_guard, lnWork_work]
    rfl
  · rfl

theorem roundUnitsSigned_mono {v w : Int} (h : v ≤ w) : roundUnitsSigned v ≤ roundUnitsSigned w := by
  unfold roundUnitsSigned
  split
  · rw [if_pos (by omega)]
    exact Int.ofNat_le.mpr (monotone_roundUnits (by omega))
  · rename_i hneg
    split
    · omega
    · exact Int.neg_le_neg (Int.ofNat_le.mpr (monotone_roundUnits (by omega)))

theorem neg_minExponentMagnitude_le {y : Int} (hnonneg : 0 ≤ y) :
    -(minExponentMagnitude : Int) ≤ y :=
  (Int.neg_nonpos_of_nonneg (Int.natCast_nonneg _)).trans hnonneg

theorem one_le_exp {y : Int} (hnonneg : 0 ≤ y) : one ≤ exp y := by
  have hexponent : 0 ≤ min y maxExponent * (guard : Int) :=
    Int.mul_nonneg (Int.le_min.mpr ⟨hnonneg, Int.natCast_nonneg _⟩) (Int.natCast_nonneg _)
  rw [exp_of_ge (neg_minExponentMagnitude_le hnonneg), (by decide : one = roundUnits work)]
  exact monotone_roundUnits (work_le_expWork hexponent)

/-- The logarithms of all exponentials are within the limits of the exponential. -/
theorem ln_within {x : Nat} (hpos : 0 < x) (hlimit : x ≤ exp maxExponent) :
    lnWork (x * guard) ≤ 150 * work ∧
      -(minExponentMagnitude : Int) ≤ roundUnitsSigned (lnWork (x * guard)) ∧
        roundUnitsSigned (lnWork (x * guard)) ≤ maxExponent := by
  have hlow : lnWork guard ≤ lnWork (x * guard) :=
    lnWork_mono (by decide) (Nat.le_mul_of_pos_left guard hpos)
  have hhigh : lnWork (x * guard) ≤ lnWork (exp maxExponent * guard) :=
    lnWork_mono (Nat.mul_pos hpos (by decide)) (Nat.mul_le_mul_right guard hlimit)
  have hends : -(minExponentMagnitude : Int) ≤ roundUnitsSigned (lnWork guard) ∧
      roundUnitsSigned (lnWork (exp maxExponent * guard)) ≤ maxExponent ∧
        lnWork (exp maxExponent * guard) ≤ 150 * work := by
    decide +kernel
  exact ⟨hhigh.trans hends.2.2, hends.1.trans (roundUnitsSigned_mono hlow),
    (roundUnitsSigned_mono hhigh).trans hends.2.1⟩

/-! ## There and back -/

theorem abs_exp_ln_sub_le {x : Nat} (hpos : 0 < x) (hlimit : x ≤ exp maxExponent) :
    |(exp (roundUnitsSigned (lnWork (x * guard))) : ℝ) - x| * 10 ^ 17 ≤ x + 10 ^ 17 := by
  obtain ⟨hwholes, hlow, hhigh⟩ := ln_within hpos hlimit
  have hln := abs_ln_sub_le hpos hwholes
  have hexp := abs_exp_sub_le hlow hhigh
  generalize roundUnitsSigned (lnWork (x * guard)) = l at *
  have hvalue := value_pos hpos
  have hback := abs_mul_exp_sub_le hvalue hln
  have hone : (one : ℝ) = 10 ^ 18 := by norm_num [one]
  rw [← value_mul_one x]
  generalize Real.exp (l / one) = grown at *
  generalize value x = v at *
  rw [hone] at *
  obtain ⟨hexpLow, hexpHigh⟩ := abs_le.mp hexp
  obtain ⟨hbackLow, hbackHigh⟩ := abs_le.mp hback
  rw [← le_div_iff₀ (by positivity), abs_le]
  constructor <;> linarith

theorem abs_ln_exp_sub_le {y : Int} (hnonneg : 0 ≤ y) (hlimit : y ≤ maxExponent) :
    |(roundUnitsSigned (lnWork (exp y * guard)) : ℝ) - y| ≤ 2 := by
  have hone := one_le_exp hnonneg
  have hpos : 0 < exp y := Nat.lt_of_lt_of_le (by decide) hone
  have hln := abs_ln_sub_le_of_ge hone (ln_within hpos (exp_le_exp_maxExponent y)).1
  have hexp := abs_exp_sub_le (neg_minExponentMagnitude_le hnonneg) hlimit
  have hgrown : 1 ≤ Real.exp (y / one) :=
    Real.one_le_exp (div_nonneg (Int.cast_nonneg hnonneg) one_real_pos.le)
  have hback : |one * value (exp y) - one * Real.exp (y / one)| ≤ 7 / 10 * Real.exp (y / one) := by
    rw [mul_comm, value_mul_one]
    linarith
  have hsum := abs_sub_le (roundUnitsSigned (lnWork (exp y * guard)) : ℝ)
    (one * Real.log (value (exp y))) y
  linarith [abs_mul_log_sub_le hback]

-- For any two numbers, since a cast of the exponential itself is checked by evaluating it.
theorem intCast_abs_sub_mul_le {e x : Nat} (h : |(e : ℝ) - x| * 10 ^ 17 ≤ x + 10 ^ 17) :
    |(e : Int) - x| * 10 ^ 17 ≤ x + 10 ^ 17 := by
  exact_mod_cast h

/-- Of every number up to the largest exponential the exponential of the logarithm is the number
again, to within a unit and ten parts in `10 ^ 18`. Of every exponent from zero to the limit the
logarithm of the exponential is the exponent again, to within two units. -/
theorem exp_ln_inverse :
    (∀ x : Int, 1 ≤ x → x ≤ exp maxExponent →
      ∃ l, ln x = .ok l ∧ |(exp l : Int) - x| * 10 ^ 17 ≤ x + 10 ^ 17) ∧
    ∀ y : Int, 0 ≤ y → y ≤ maxExponent → ∃ l, ln (exp y) = .ok l ∧ |l - y| ≤ 2 := by
  constructor
  · intro x hpos hlimit
    obtain ⟨n, rfl⟩ := Int.eq_ofNat_of_zero_le (Int.le_of_lt hpos)
    have hn : 0 < n := Int.ofNat_lt.mp hpos
    exact ⟨_, ln_natCast hn, intCast_abs_sub_mul_le (abs_exp_ln_sub_le hn (Int.ofNat_le.mp hlimit))⟩
  · intro y hnonneg hlimit
    have hpos : 0 < exp y := Nat.lt_of_lt_of_le (by decide) (one_le_exp hnonneg)
    have hnear := abs_ln_exp_sub_le hnonneg hlimit
    exact ⟨_, ln_natCast hpos, by exact_mod_cast hnear⟩

/-- One wei, whose logarithm is the least of all, and the largest exponent. -/
theorem sample_exp_ln_inverse :
    (∃ l, ln 1 = .ok l ∧ |(exp l : Int) - 1| * 10 ^ 17 ≤ 1 + 10 ^ 17) ∧
      ∃ l, ln (exp maxExponent) = .ok l ∧ |l - maxExponent| ≤ 2 :=
  ⟨exp_ln_inverse.1 1 (by decide) (by decide +kernel),
    exp_ln_inverse.2 maxExponent (by decide) (by decide)⟩

end CurveMarket.Fixed
