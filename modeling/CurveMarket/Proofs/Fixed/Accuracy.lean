import CurveMarket.Proofs.Fixed.Loss

/-! # How accurate logarithm and exponential are

Against their exact values the logarithm of a number from one on and the exponential of any number
within the limit are off by what rounding to units takes, and by hardly more. Below one a logarithm
may be off by another unit, since its reduction loses up to a unit of the working scale at a number
that has no more than `10 ^ 18` of them.
-/

namespace CurveMarket.Fixed

/-! ## Rounding to units -/

theorem abs_roundUnits_mul_sub_le (v : Nat) : |(roundUnits v * guard - v : ℝ)| ≤ guard / 2 := by
  have hhalves : (guard : ℝ) = (guard / 2 : Nat) + (guard / 2 : Nat) := by
    exact_mod_cast (by decide : guard = guard / 2 + guard / 2)
  have hmost : (roundUnits v * guard : ℝ) ≤ v + (guard / 2 : Nat) := by
    exact_mod_cast Nat.div_mul_le_self (v + guard / 2) guard
  have hleast : (v : ℝ) + (guard / 2 : Nat) ≤ roundUnits v * guard + guard := by
    exact_mod_cast (Nat.lt_div_mul_add (by decide : 0 < guard) (a := v + guard / 2)).le
  rw [abs_le]
  constructor <;> linarith

theorem abs_roundUnitsSigned_mul_sub_le (v : Int) :
    |(roundUnitsSigned v * guard - v : ℝ)| ≤ guard / 2 := by
  unfold roundUnitsSigned
  split
  · rename_i hnonneg
    obtain ⟨n, rfl⟩ := Int.eq_ofNat_of_zero_le hnonneg
    rw [Int.natAbs_natCast, Int.cast_natCast, Int.cast_natCast]
    exact abs_roundUnits_mul_sub_le n
  · rename_i hneg
    obtain ⟨n, rfl⟩ := Int.exists_eq_neg_ofNat (Int.not_le.mp hneg).le
    rw [Int.natAbs_neg, Int.natAbs_natCast, Int.cast_neg, Int.cast_neg, Int.cast_natCast,
      Int.cast_natCast, neg_mul, neg_sub_neg, abs_sub_comm]
    exact abs_roundUnits_mul_sub_le n

theorem abs_sub_le_of_units {q v t c : ℝ} (hround : |q * guard - v| ≤ guard / 2)
    (hexact : |v - work * t| ≤ c * guard) : |q - one * t| ≤ c + 1 / 2 := by
  have hguard : (0 : ℝ) < guard := Nat.cast_pos.mpr (by decide)
  have hscale : (work : ℝ) = one * guard := by exact_mod_cast work_eq_one_mul_guard
  have hsum : |(q - one * t) * guard| ≤ (c + 1 / 2) * guard := by
    calc |(q - one * t) * guard| = |q * guard - v + (v - work * t)| := by
          rw [hscale]
          ring_nf
      _ ≤ |q * guard - v| + |v - work * t| := abs_add_le _ _
      _ ≤ (c + 1 / 2) * guard := by linarith
  rw [abs_mul, abs_of_pos hguard] at hsum
  exact le_of_mul_le_mul_right hsum hguard

/-! ## Logarithms of large numbers -/

/-- A step of a reduction takes at most the factor `c` away, its floor included, if what it leaves is
at least `low`. -/
theorem le_mul_div_mul {num den low x : Nat} {c : ℝ} (hpos : 0 < low) (hkept : low ≤ x * num / den)
    (hdenPos : 0 < den) (hnum : 0 < num) (hden : den * (1 + 1 / low : ℝ) ≤ num * c) :
    (x : ℝ) ≤ (x * num / den : Nat) * c := by
  have hfloor : (x : ℝ) * num ≤ den * ((x * num / den : Nat) + 1) := by
    exact_mod_cast (Nat.lt_mul_div_succ (x * num) hdenPos).le
  have hunit : (1 : ℝ) ≤ (x * num / den : Nat) * (1 / low) := by
    rw [mul_one_div, one_le_div (Nat.cast_pos.mpr hpos)]
    exact Nat.cast_le.mpr hkept
  refine le_of_mul_le_mul_right ?_ (Nat.cast_pos.mpr hnum)
  generalize ((x * num / den : Nat) : ℝ) = kept at *
  have hkeptNonneg : 0 ≤ kept :=
    nonneg_of_mul_nonneg_left (zero_le_one.trans hunit) (one_div_pos.mpr (Nat.cast_pos.mpr hpos))
  calc (x : ℝ) * num ≤ den * (kept + kept * (1 / low)) :=
        hfloor.trans (mul_le_mul_of_nonneg_left (by linarith) (Nat.cast_nonneg den))
    _ = kept * (den * (1 + 1 / low)) := by ring
    _ ≤ kept * (num * c) := mul_le_mul_of_nonneg_left hden hkeptNonneg
    _ = kept * c * num := by ring

theorem le_scaleDownBy_mul_pow {num den bound low : Nat} {c : ℝ} (hpos : 0 < low)
    (hlow : low ≤ bound * num / den) (hnum : 0 < num) (hden : den * (1 + 1 / low : ℝ) ≤ num * c)
    (x : Nat) :
    (x : ℝ) ≤ (scaleDownBy num den bound x).1 * c ^ (scaleDownBy num den bound x).2 := by
  have hc : 0 ≤ c := by
    have hproduct : 0 ≤ num * c := le_trans (by positivity) hden
    exact nonneg_of_mul_nonneg_right hproduct (Nat.cast_pos.mpr hnum)
  fun_induction scaleDownBy num den bound x with
  | case1 x h r ih =>
      have hkept : low ≤ x * num / den :=
        hlow.trans (Nat.div_le_div_right (Nat.mul_le_mul_right num h.1.le))
      calc (x : ℝ) ≤ (x * num / den : Nat) * c :=
            le_mul_div_mul hpos hkept (Nat.lt_of_le_of_lt (Nat.zero_le num) h.2) hnum hden
        _ ≤ r.1 * c ^ r.2 * c := mul_le_mul_of_nonneg_right ih hc
        _ = r.1 * c ^ (r.2 + 1) := by ring
  | case2 x h => simp

theorem eWork_mul_le : eWork * (1 + 1 / work : ℝ) ≤ work * Real.exp (1 + 2 / work) := by
  have hunit : 1 + 1 / (work : ℝ) ≤ Real.exp (1 / work) := by
    linarith [Real.add_one_le_exp (1 / (work : ℝ))]
  have hshare : (0 : ℝ) ≤ 1 / work := div_nonneg zero_le_one work_pos.le
  calc eWork * (1 + 1 / work : ℝ) = work * ((eWork : ℝ) / work * (1 + 1 / work)) := by
        rw [← mul_assoc, mul_div_cancel₀ _ work_pos.ne']
    _ ≤ work * (Real.exp (1 + 1 / work) * Real.exp (1 / work)) :=
        mul_le_mul_of_nonneg_left (mul_le_mul eWork_le_exp hunit (by linarith) (Real.exp_pos _).le)
          work_pos.le
    _ = work * Real.exp (1 + 2 / work) := by
        rw [← Real.exp_add, add_assoc, ← add_div, one_add_one_eq_two]

/-- What the steps into the reduced range take away, each of them hardly more than a whole. -/
theorem log_le_log_scaleDown {x : Nat} (hx : work ≤ x) :
    Real.log (x / work) ≤
      Real.log ((scaleDown x).1 / work) + (scaleDown x).2 * (1 + 2 / work) := by
  have hscaled : (x : ℝ) ≤ (scaleDown x).1 * Real.exp (1 + 2 / work) ^ (scaleDown x).2 :=
    le_scaleDownBy_mul_pow (by decide : 0 < work) (by decide) (by decide) eWork_mul_le x
  have hlow := (lnWork_eq_scaleDown hx).1
  generalize (scaleDown x).1 = r at *
  generalize (scaleDown x).2 = n at *
  have hr : (0 : ℝ) < r := work_pos.trans_le (Nat.cast_le.mpr hlow)
  have hxReal : (0 : ℝ) < x := work_pos.trans_le (Nat.cast_le.mpr hx)
  have hproduct : (x : ℝ) / work ≤ r / work * Real.exp (n * (1 + 2 / work)) := by
    rw [div_mul_eq_mul_div, Real.exp_nat_mul]
    exact div_le_div_of_nonneg_right hscaled work_pos.le
  have hle := Real.log_le_log (div_pos hxReal work_pos) hproduct
  rwa [Real.log_mul (div_pos hr work_pos).ne' (Real.exp_pos _).ne', Real.log_exp] at hle

/-- From one on a logarithm is short by at most fifteen hundred units, and two more for each whole. -/
theorem work_mul_log_le {x : Nat} (hx : work ≤ x) :
    work * Real.log (x / work) ≤ lnWork x + (1500 + 2 * (lnWork x / work)) := by
  have hlog := mul_le_mul_of_nonneg_left (log_le_log_scaleDown hx) work_pos.le
  obtain ⟨hlow, hhigh, hln⟩ := lnWork_eq_scaleDown hx
  have hthree : threeWork ≤ 4 * work := by decide
  have hmagnitude := le_lnMagnitude (y := (scaleDown x).1) (by omega) (by omega)
  rw [hln]
  generalize (scaleDown x).1 = r at *
  generalize (scaleDown x).2 = n at *
  have hone : 1 ≤ (r : ℝ) / work := (one_le_div work_pos).mpr (Nat.cast_le.mpr hlow)
  rw [abs_of_nonneg (Real.log_nonneg hone)] at hmagnitude
  have hunits : (work : ℝ) * (n * (1 + 2 / work)) = n * work + 2 * n := by
    have hne := work_pos.ne'
    field_simp
  have hwholes : (n : ℝ) ≤ (lnMagnitude r + n * work : Nat) / work := by
    rw [le_div_iff₀ work_pos]
    exact_mod_cast Nat.le_add_left (n * work) (lnMagnitude r)
  rw [Int.cast_natCast]
  push_cast at hwholes ⊢
  linarith

/-! ## Logarithms of small numbers -/

theorem log_sub_le_log_sub_one {t : ℝ} (h : 1 < t) :
    Real.log t - 1 / (t - 1) ≤ Real.log (t - 1) := by
  have hpos : 0 < t := zero_lt_one.trans h
  have hless : 0 < t - 1 := sub_pos.mpr h
  have hlog := Real.one_sub_inv_le_log_of_pos (div_pos hless hpos)
  have hinv : 1 - ((t - 1) / t)⁻¹ = -(1 / (t - 1)) := by
    field_simp
    ring
  rw [hinv, Real.log_div hless.ne' hpos.ne'] at hlog
  linarith

/-- From a unit on a logarithm below one is short by at most a unit and two of the working scale. -/
theorem work_mul_log_le_of_lt {x : Nat} (hlow : guard ≤ x) (hx : x < work) :
    work * Real.log (x / work) ≤ lnWork x + (guard + 2) := by
  rcases Nat.lt_or_ge x thirdWork with hfar | hnear
  · -- A number that is scaled up counts as one unit less of the working scale.
    have hlarge : 1 < x := Nat.lt_of_lt_of_le (by decide) hlow
    have hlargeReal : (1 : ℝ) < x := Nat.one_lt_cast.mpr hlarge
    have hless : (0 : ℝ) < x - 1 := sub_pos.mpr hlargeReal
    obtain ⟨l, hln, hl⟩ := exists_lnWork_of_lt hlarge hfar
    have hlog := mul_le_mul_of_nonneg_left (log_sub_le_log_sub_one hlargeReal) work_pos.le
    have hlost : (work : ℝ) * (1 / (x - 1)) ≤ guard + 2 := by
      have hlowReal : (guard : ℝ) ≤ x := Nat.cast_le.mpr hlow
      have hsquare : (work : ℝ) + (guard + 2) ≤ (guard + 2) * guard := by
        exact_mod_cast (by decide : work + (guard + 2) ≤ (guard + 2) * guard)
      have hproduct : ((guard : ℝ) + 2) * guard ≤ (guard + 2) * x :=
        mul_le_mul_of_nonneg_left hlowReal (by positivity)
      rw [mul_one_div, div_le_iff₀ hless]
      linarith
    rw [Real.log_div hless.ne' work_pos.ne'] at hl
    rw [hln, Real.log_div (by positivity) work_pos.ne', Int.cast_neg, Int.cast_natCast]
    linarith
  · obtain ⟨l, hln, hl⟩ := exists_lnWork_of_ge hnear hx
    have hguard : (0 : ℝ) ≤ guard := Nat.cast_nonneg guard
    rw [hln, Int.cast_neg, Int.cast_natCast]
    linarith

/-! ## Logarithms of units -/

section Logarithm

variable {x : Nat}

theorem abs_lnWork_sub_le_of_ge (hone : one ≤ x) (hlimit : lnWork (x * guard) ≤ 150 * work) :
    |lnWork (x * guard) - work * Real.log (value x)| ≤ 2000 := by
  have hx : work ≤ x * guard := Nat.mul_le_mul_right guard hone
  have hshort := work_mul_log_le hx
  have hwithin := (lnWork_le hx).2
  have hwholes : (lnWork (x * guard) : ℝ) / work ≤ 150 := by
    rw [div_le_iff₀ work_pos]
    exact_mod_cast hlimit
  rw [value_eq] at hshort hwithin
  rw [abs_le]
  constructor <;> linarith

theorem abs_lnWork_sub_le_of_lt (hpos : 0 < x) (hone : x < one) :
    |lnWork (x * guard) - work * Real.log (value x)| ≤ guard + 2000 := by
  have hbelow := lt_work_of_lt_one hone
  have hunits : guard ≤ x * guard := Nat.le_mul_of_pos_left guard hpos
  have hshort := work_mul_log_le_of_lt hunits hbelow
  have habove := lnWork_le_add hunits hbelow
  have hguard : (0 : ℝ) ≤ guard := Nat.cast_nonneg guard
  rw [value_eq] at hshort habove
  rw [abs_le]
  constructor <;> linarith

/-- From one on a rounded logarithm is off by hardly more than its rounding. -/
theorem abs_ln_sub_le_of_ge (hone : one ≤ x) (hlimit : lnWork (x * guard) ≤ 150 * work) :
    |roundUnitsSigned (lnWork (x * guard)) - one * Real.log (value x)| ≤ 3 / 5 := by
  have hunits : (20000 : ℝ) ≤ guard := by exact_mod_cast (by decide : 20000 ≤ guard)
  have hsum := abs_sub_le_of_units (c := 1 / 10) (abs_roundUnitsSigned_mul_sub_le _)
    ((abs_lnWork_sub_le_of_ge hone hlimit).trans (by linarith))
  linarith

theorem abs_ln_sub_le (hpos : 0 < x) (hlimit : lnWork (x * guard) ≤ 150 * work) :
    |roundUnitsSigned (lnWork (x * guard)) - one * Real.log (value x)| ≤ 2 := by
  rcases Nat.lt_or_ge x one with hless | hone
  · -- The unit that the reduction may lose comes on top of the rounding.
    have hunits : (20000 : ℝ) ≤ guard := by exact_mod_cast (by decide : 20000 ≤ guard)
    have hsum := abs_sub_le_of_units (c := 3 / 2) (abs_roundUnitsSigned_mul_sub_le _)
      ((abs_lnWork_sub_le_of_lt hpos hless).trans (by linarith))
    linarith
  · have hfine := abs_ln_sub_le_of_ge hone hlimit
    linarith

end Logarithm

/-! ## Exponentials -/

theorem abs_expWorkNat_sub_le {y : Nat} (hlimit : y ≤ work * 130) :
    |expWorkNat y - work * Real.exp (y / work)| ≤ 600 * Real.exp (y / work) := by
  have hwork : (1000 : ℝ) ≤ work := by exact_mod_cast (by decide : 1000 ≤ work)
  have hshare : (y / work : ℝ) ≤ 130 := by
    rw [div_le_iff₀ work_pos, mul_comm]
    exact_mod_cast hlimit
  have hlost : (2 * (y / work : Nat) + 250 : ℝ) ≤ 510 := by
    have hwholes : y / work ≤ 130 := Nat.div_le_of_le_mul hlimit
    exact_mod_cast (by omega)
  have hmost := expWorkNat_le y
  have hleast := work_mul_exp_le_expWorkNat_mul y
  generalize (2 * (y / work : Nat) + 250 : ℝ) = lost at *
  generalize (y : ℝ) / work = s at *
  have hne := work_pos.ne'
  have habove : work * Real.exp (s * (1 + 1 / work)) ≤ work * Real.exp s + 260 * Real.exp s := by
    have hsplit : s * (1 + 1 / work) = s + s / work := by ring
    have hadded := work_mul_exp_le_add (x := s + s / work) (y := s) (c := 130)
      (by rw [mul_add, mul_div_cancel₀ _ hne]; linarith)
    have htwice : Real.exp (s + s / work) ≤ 2 * Real.exp s :=
      exp_add_le_twice (by rw [div_le_iff₀ work_pos]; linarith)
    rw [hsplit]
    linarith
  have hbelow : work * Real.exp s ≤ expWorkNat y + 510 * Real.exp s := by
    have hadded := work_mul_exp_le_add (x := s) (y := s - lost / work) (c := 510)
      (by rw [mul_sub, mul_div_cancel₀ _ hne]; linarith)
    have hkept : work * Real.exp (s - lost / work) ≤ expWorkNat y := by
      rw [Real.exp_sub, ← mul_div_assoc, div_le_iff₀ (Real.exp_pos _)]
      exact hleast
    linarith
  have hpos := Real.exp_pos s
  rw [abs_le]
  constructor <;> linarith

theorem abs_expWork_neg_sub_le {y : Nat} (hlimit : y ≤ work * 42) :
    |expWork (-(y : Int)) - work * Real.exp (-(y / work))| ≤ 700 * Real.exp (-(y / work)) + 2 := by
  have hwork : (1000 : ℝ) ≤ work := by exact_mod_cast (by decide : 1000 ≤ work)
  have hlost : (2 * (y / work : Nat) + 250 : ℝ) ≤ 334 := by
    have hwholes : y / work ≤ 42 := Nat.div_le_of_le_mul hlimit
    exact_mod_cast (by omega)
  have hmost := expWork_neg_le y
  have hleast := sub_two_le_expWork_neg y
  generalize (2 * (y / work : Nat) + 250 : ℝ) = lost at *
  generalize (y : ℝ) / work = s at *
  have hadded := work_mul_exp_le_add (x := -s + lost / work) (y := -s) (c := 334)
    (by rw [mul_add, mul_div_cancel₀ _ work_pos.ne']; linarith)
  have htwice : Real.exp (-s + lost / work) ≤ 2 * Real.exp (-s) :=
    exp_add_le_twice (by rw [div_le_iff₀ work_pos]; linarith)
  have hsplit : lost / work - s = -s + lost / work := by ring
  have hpos := Real.exp_pos (-s)
  rw [hsplit] at hmost
  rw [abs_le]
  constructor <;> linarith

section Exponential

variable {y : Int}

theorem abs_expWork_sub_le (hlow : -(minExponentMagnitude : Int) ≤ y) (hhigh : y ≤ maxExponent) :
    |expWork (y * guard) - work * Real.exp (y / one)| ≤ 700 * Real.exp (y / one) + 2 := by
  have hpos := Real.exp_pos (y / one)
  rcases Int.le_total 0 y with hnonneg | hneg
  · obtain ⟨n, rfl⟩ := Int.eq_ofNat_of_zero_le hnonneg
    have hlimit : n * guard ≤ work * 130 := Nat.mul_le_mul_right guard (Int.ofNat_le.mp hhigh)
    have hexp := abs_expWorkNat_sub_le hlimit
    rw [value_eq, value] at hexp
    rw [Int.cast_natCast] at hpos
    rw [← Int.natCast_mul, expWork_eq_expWorkNat, Int.cast_natCast]
    linarith
  · obtain ⟨n, rfl⟩ := Int.exists_eq_neg_ofNat hneg
    have hlimit : n * guard ≤ work * 42 :=
      Nat.mul_le_mul_right guard (Int.ofNat_le.mp (Int.neg_le_neg_iff.mp hlow))
    have hexp := abs_expWork_neg_sub_le hlimit
    rw [value_eq, value] at hexp
    rwa [Int.neg_mul, ← Int.natCast_mul, Int.cast_neg, Int.cast_natCast, neg_div]

theorem abs_exp_sub_le (hlow : -(minExponentMagnitude : Int) ≤ y) (hhigh : y ≤ maxExponent) :
    |exp y - one * Real.exp (y / one)| ≤ Real.exp (y / one) / 10 + 3 / 5 := by
  have hunits : (10000 : ℝ) ≤ guard := by exact_mod_cast (by decide : 10000 ≤ guard)
  have hpos := Real.exp_pos (y / one)
  have hexact : |expWork (y * guard) - work * Real.exp (y / one)| ≤
      (Real.exp (y / one) / 10 + 1 / 10) * guard := by
    have hshare := mul_le_mul_of_nonneg_left hunits hpos.le
    linarith [abs_expWork_sub_le hlow hhigh]
  rw [exp_of_ge hlow, Int.min_eq_left hhigh]
  have hsum := abs_sub_le_of_units (abs_roundUnits_mul_sub_le _) hexact
  linarith

end Exponential

end CurveMarket.Fixed
