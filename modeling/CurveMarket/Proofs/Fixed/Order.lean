import CurveMarket.Proofs.Fixed.Decline

/-! # Order of the kernels

Every loop gives more for more, as long as it takes the same number of steps for both numbers. Where
the number of steps changes, two computations meet that are cut short in different places. Each loop
has one such seam, and the values on both sides of it are compared there once: at the ends of the
reduced range for the logarithm, and at every whole exponent up to the limit for the exponential.
Powers of any operands therefore keep their order to the last unit, which no bound on the errors of
the series would give.
-/

namespace CurveMarket.Fixed

theorem div_le_div_of_mul_le {a b c d : Nat} (hb : 0 < b) (hd : 0 < d) (h : a * d ≤ c * b) :
    a / b ≤ c / d := by
  rw [Nat.le_div_iff_mul_le hd]
  refine Nat.le_of_mul_le_mul_right ?_ hb
  calc a / b * d * b = a / b * b * d := Nat.mul_right_comm ..
    _ ≤ a * d := Nat.mul_le_mul_right d (Nat.div_mul_le_self a b)
    _ ≤ c * b := h

/-! ## The loops -/

theorem atanhSeries_mono {scale square square' : Nat} (hsquare : square ≤ square')
    (hlt : square' < scale) {term term' k : Nat} (hterm : term ≤ term') :
    atanhSeries scale square term k ≤ atanhSeries scale square' term' k := by
  fun_induction atanhSeries scale square term k generalizing term' with
  | case1 term k h ih =>
      rw [atanhSeries.eq_def scale square' term', dif_pos ⟨Nat.lt_of_lt_of_le h.1 hterm, hlt⟩]
      exact Nat.add_le_add (Nat.div_le_div_right hterm)
        (ih (Nat.div_le_div_right (Nat.mul_le_mul hterm hsquare)))
  | case2 term k h => exact Nat.zero_le _

theorem taylorTail_mono {scale fraction fraction' : Nat} (hfraction : fraction ≤ fraction')
    (hlt : fraction' < scale) {term term' k : Nat} (hterm : term ≤ term') :
    taylorTail scale fraction term k ≤ taylorTail scale fraction' term' k := by
  fun_induction taylorTail scale fraction term k generalizing term' with
  | case1 term k h next =>
      rename_i ih
      have hnext : next ≤ term' * fraction' / (scale * k) :=
        Nat.div_le_div_right (Nat.mul_le_mul hterm hfraction)
      rw [taylorTail.eq_def scale fraction' term', dif_pos ⟨Nat.lt_of_lt_of_le h.1 hterm, hlt⟩]
      exact Nat.add_le_add hnext (ih hnext)
  | case2 term k h => exact Nat.zero_le _

theorem mulPower_mono {scale result result' base base' : Nat} (hresult : result ≤ result')
    (hbase : base ≤ base') (power : Nat) :
    mulPower scale result base power ≤ mulPower scale result' base' power := by
  fun_induction mulPower scale result base power generalizing result' base' with
  | case1 result base =>
      rw [mulPower, dif_pos rfl]
      exact hresult
  | case2 result base power h ih =>
      rw [mulPower.eq_def scale result', dif_neg h]
      refine ih ?_ (Nat.div_le_div_right (Nat.mul_le_mul hbase hbase))
      split
      · exact Nat.div_le_div_right (Nat.mul_le_mul hresult hbase)
      · exact hresult

/-! ## Logarithms -/

section Logarithm

variable {x y : Nat}

theorem lnMagnitude_mono (hy : 0 < y) (h : atanhArgument x ≤ atanhArgument y) :
    lnMagnitude x ≤ lnMagnitude y := by
  have hsquare := Nat.div_le_div_right (c := work) (Nat.mul_le_mul h h)
  exact Nat.mul_le_mul_left 2 (atanhSeries_mono hsquare (atanhArgument_sq_lt_work hy) h)

theorem atanhArgument_mono (hx : work ≤ x) (h : x ≤ y) : atanhArgument x ≤ atanhArgument y := by
  obtain ⟨a, rfl⟩ := Nat.exists_eq_add_of_le hx
  obtain ⟨b, rfl⟩ := Nat.exists_eq_add_of_le (hx.trans h)
  unfold atanhArgument
  have hwork : 0 < work := by decide
  rw [if_pos hx, if_pos (hx.trans h), Nat.add_sub_cancel_left, Nat.add_sub_cancel_left]
  refine div_le_div_of_mul_le (by omega) (by omega) ?_
  have hproduct : a * work * work ≤ b * work * work :=
    Nat.mul_le_mul_right _ (Nat.mul_le_mul_right _ (by omega))
  linarith

theorem atanhArgument_anti (hy : y < work) (h : x ≤ y) : atanhArgument y ≤ atanhArgument x := by
  have hwork : 0 < work := by decide
  rw [atanhArgument_of_lt hy, atanhArgument_of_lt (by omega)]
  rcases Nat.eq_zero_or_pos x with rfl | hx
  · rw [Nat.sub_zero, Nat.zero_add, Nat.mul_div_cancel _ hwork]
    refine Nat.div_le_of_le_mul ?_
    exact Nat.mul_le_mul_right work (by omega)
  · refine div_le_div_of_mul_le (by omega) (by omega) ?_
    exact Nat.mul_le_mul (Nat.mul_le_mul_right work (by omega)) (by omega)

theorem reducedLn_mono (hx : 0 < x) (h : x ≤ y) : reducedLn x ≤ reducedLn y := by
  rcases Nat.lt_or_ge y work with hy | hy
  · have hmagnitude := lnMagnitude_mono hx (atanhArgument_anti hy h)
    rw [reducedLn_of_lt hy, reducedLn_of_lt (by omega)]
    omega
  · rcases Nat.lt_or_ge x work with hlt | hle
    · rw [reducedLn_of_le hy, reducedLn_of_lt hlt]
      omega
    · have hmagnitude := lnMagnitude_mono (by omega) (atanhArgument_mono hle h)
      rw [reducedLn_of_le hy, reducedLn_of_le hle]
      omega

theorem mul_eWork_le_three (h : x ≤ thirdWork) : x * eWork / work ≤ threeWork :=
  (Nat.div_le_div_right (Nat.mul_le_mul_right eWork h)).trans
    (by decide : thirdWork * eWork / work ≤ threeWork)

/-- Below a third one step of the reduction takes a whole off the logarithm. -/
theorem lnWork_of_lt_third (hx : 0 < x) (h : x < thirdWork) :
    lnWork x = lnWork (x * eWork / work) - work := by
  have hthree : thirdWork ≤ threeWork := by decide
  have hdown := scaleDown_of_le (h.le.trans hthree)
  rcases hnext : scaleUp (x * eWork / work) with ⟨r, k⟩
  have hup : scaleUp x = (r, k + 1) := by
    unfold scaleUp at hnext ⊢
    rw [scaleUpBy, dif_pos ⟨⟨hx, h⟩, by decide, by decide⟩, hnext]
  rw [lnWork_eq_of_reduction hdown hup,
    lnWork_eq_of_reduction (scaleDown_of_le (mul_eWork_le_three h.le)) hnext, Int.natCast_add]
  ring

theorem lnWork_of_three_lt (h : threeWork < x) :
    lnWork x = lnWork (x * work / eWork) + work := by
  rcases hnext : scaleDown (x * work / eWork) with ⟨d, n⟩
  rcases hup : scaleUp d with ⟨r, k⟩
  have hdown : scaleDown x = (d, n + 1) := by
    unfold scaleDown at hnext ⊢
    rw [scaleDownBy, dif_pos ⟨h, work_lt_eWork⟩, hnext]
  rw [lnWork_eq_of_reduction hdown hup, lnWork_eq_of_reduction hnext hup, Int.natCast_add]
  ring

/-- At the lower end of the reduced range the number itself has a shorter way than the one before it,
which is a step away. -/
theorem lnWork_at_third :
    lnWork ((thirdWork - 1) * eWork / work) - work ≤ lnWork thirdWork := by
  have hmagnitude :
      lnMagnitude thirdWork ≤ lnMagnitude ((thirdWork - 1) * eWork / work) + work := by
    decide +kernel
  rw [lnWork_eq_reducedLn (by decide) (by decide), lnWork_eq_reducedLn (by decide) (by decide),
    reducedLn_of_lt (by decide), reducedLn_of_lt (by decide)]
  omega

/-- At the upper end the number after it has the shorter way. -/
theorem lnWork_at_three :
    lnWork threeWork ≤ lnWork (threeWork * work / eWork) + work := by
  have hmagnitude :
      lnMagnitude threeWork ≤ lnMagnitude (threeWork * work / eWork) + work := by
    decide +kernel
  rw [lnWork_eq_reducedLn (by decide) (by decide), lnWork_eq_reducedLn (by decide) (by decide),
    reducedLn_of_le (by decide), reducedLn_of_le (by decide)]
  omega

/-- Up to three only the reduction from below is used. The induction is on the distance to the
reduced range. -/
theorem lnWork_mono_of_le_three (hx : 0 < x) (h : x ≤ y) (hy : y ≤ threeWork) :
    lnWork x ≤ lnWork y := by
  induction hd : thirdWork - x using Nat.strong_induction_on generalizing x y with
  | _ d ih =>
      rcases Nat.lt_or_ge x thirdWork with hxlow | hxin
      · have hxnext : x < x * eWork / work := lt_mul_div hx (by decide) (by decide)
        rw [lnWork_of_lt_third hx hxlow]
        rcases Nat.lt_or_ge y thirdWork with hylow | hyin
        · have hnext : x * eWork / work ≤ y * eWork / work :=
            Nat.div_le_div_right (Nat.mul_le_mul_right eWork h)
          rw [lnWork_of_lt_third (by omega) hylow]
          exact Int.sub_le_sub_right
            (ih _ (by omega) (by omega) hnext (mul_eWork_le_three hylow.le) rfl) _
        · -- Only `x` takes the step, so the two are compared at the end of the range.
          have hnext : x * eWork / work ≤ (thirdWork - 1) * eWork / work :=
            Nat.div_le_div_right (Nat.mul_le_mul_right eWork (by omega))
          have hseam : lnWork thirdWork ≤ lnWork y := by
            rw [lnWork_eq_reducedLn le_rfl (by decide), lnWork_eq_reducedLn hyin hy]
            exact reducedLn_mono (by decide) hyin
          calc lnWork (x * eWork / work) - work
              ≤ lnWork ((thirdWork - 1) * eWork / work) - work :=
                Int.sub_le_sub_right (ih _ (by omega) (by omega) hnext (by decide) rfl) _
            _ ≤ lnWork thirdWork := lnWork_at_third
            _ ≤ lnWork y := hseam
      · rw [lnWork_eq_reducedLn hxin (h.trans hy), lnWork_eq_reducedLn (hxin.trans h) hy]
        exact reducedLn_mono hx h

/-- A larger number has no smaller logarithm, whatever the reduction does to the two. -/
theorem lnWork_mono (hx : 0 < x) (h : x ≤ y) : lnWork x ≤ lnWork y := by
  induction y using Nat.strong_induction_on generalizing x with
  | _ y ih =>
      rcases Nat.lt_or_ge threeWork y with hyhigh | hyin
      · have hynext : y * work / eWork < y := mul_div_lt (by omega) work_lt_eWork
        rw [lnWork_of_three_lt hyhigh]
        rcases Nat.lt_or_ge threeWork x with hxhigh | hxin
        · have hnext : x * work / eWork ≤ y * work / eWork :=
            Nat.div_le_div_right (Nat.mul_le_mul_right work h)
          have hpos : 0 < x * work / eWork :=
            Nat.lt_of_lt_of_le (by decide : 0 < threeWork * work / eWork)
              (Nat.div_le_div_right (Nat.mul_le_mul_right work hxhigh.le))
          rw [lnWork_of_three_lt hxhigh]
          exact Int.add_le_add_right (ih _ hynext hpos hnext) _
        · have hnext : threeWork * work / eWork ≤ y * work / eWork :=
            Nat.div_le_div_right (Nat.mul_le_mul_right work hyhigh.le)
          calc lnWork x ≤ lnWork threeWork := lnWork_mono_of_le_three hx hxin le_rfl
            _ ≤ lnWork (threeWork * work / eWork) + work := lnWork_at_three
            _ ≤ lnWork (y * work / eWork) + work :=
              Int.add_le_add_right (ih _ hynext (by decide) hnext) _
      · exact lnWork_mono_of_le_three hx h hyin

theorem lnWork_work : lnWork work = 0 := by decide +kernel

theorem lnWork_nonneg (h : work ≤ x) : 0 ≤ lnWork x := by
  rw [← lnWork_work]
  exact lnWork_mono (by decide) h

theorem lnWork_nonpos (hx : 0 < x) (h : x ≤ work) : lnWork x ≤ 0 := by
  rw [← lnWork_work]
  exact lnWork_mono hx h

end Logarithm

/-! ## Exponentials -/

theorem expFraction_mono {x y : Nat} (h : x ≤ y) (hy : y < work) :
    expFraction x ≤ expFraction y :=
  Nat.add_le_add_left (taylorTail_mono h hy le_rfl) work

/-- The exponential right below a whole exponent is at most the one at the whole. -/
theorem mulPower_at_whole : ∀ n < 130,
    mulPower work (expFraction (work - 1)) eWork n ≤ mulPower work work eWork (n + 1) := by
  decide +kernel

theorem mulPower_lt_whole {n m : Nat} (h : n < m) (hm : m ≤ 130) :
    mulPower work (expFraction (work - 1)) eWork n ≤ mulPower work work eWork m := by
  induction m, h using Nat.le_induction with
  | base => exact mulPower_at_whole n hm
  | succ m hnm ih =>
      calc mulPower work (expFraction (work - 1)) eWork n
          ≤ mulPower work work eWork m := ih (by omega)
        _ ≤ mulPower work (expFraction (work - 1)) eWork m :=
          mulPower_mono (Nat.le_add_right work _) le_rfl m
        _ ≤ mulPower work work eWork (m + 1) := mulPower_at_whole m hm

theorem expWorkNat_mono {x y : Nat} (h : x ≤ y) (hy : y ≤ 130 * work) :
    expWorkNat x ≤ expWorkNat y := by
  have hpos : 0 < work := by decide
  have hx := Nat.mod_lt x hpos
  have hyWhole : y / work ≤ 130 := Nat.div_le_of_le_mul (by omega)
  unfold expWorkNat
  rcases Nat.eq_or_lt_of_le (Nat.div_le_div_right h : x / work ≤ y / work) with hsame | hless
  · have hxParts := Nat.mod_add_div x work
    have hyParts := Nat.mod_add_div y work
    rw [hsame] at hxParts ⊢
    exact mulPower_mono (expFraction_mono (by omega) (Nat.mod_lt y hpos)) le_rfl _
  · -- Another whole lies between the two, and the seam at that whole is crossed.
    calc mulPower work (expFraction (x % work)) eWork (x / work)
        ≤ mulPower work (expFraction (work - 1)) eWork (x / work) :=
          mulPower_mono (expFraction_mono (by omega) (by omega)) le_rfl _
      _ ≤ mulPower work work eWork (y / work) := mulPower_lt_whole hless hyWhole
      _ ≤ mulPower work (expFraction (y % work)) eWork (y / work) :=
          mulPower_mono (Nat.le_add_right work _) le_rfl _

theorem expWork_mono {x y : Int} (h : x ≤ y) (hx : -(130 * work : Nat) ≤ x)
    (hy : y ≤ (130 * work : Nat)) : expWork x ≤ expWork y := by
  have hpos : 0 < work := by decide
  unfold expWork
  rcases Int.lt_or_le x 0 with hxneg | hxpos
  · rw [if_pos hxneg]
    rcases Int.lt_or_le y 0 with hyneg | hypos
    · rw [if_pos hyneg]
      exact Nat.div_le_div_left (expWorkNat_mono (by omega) (by omega))
        (Nat.lt_of_lt_of_le hpos (work_le_expWorkNat _))
    · rw [if_neg (by omega)]
      calc work * work / expWorkNat x.natAbs ≤ work * work / work :=
            Nat.div_le_div_left (work_le_expWorkNat _) hpos
        _ = work := Nat.mul_div_cancel _ hpos
        _ ≤ expWorkNat y.natAbs := work_le_expWorkNat _
  · rw [if_neg (by omega), if_neg (by omega)]
    exact expWorkNat_mono (by omega) (by omega)

theorem expWork_zero : expWork 0 = work := by decide +kernel

theorem work_le_expWork {y : Int} (hy : 0 ≤ y) : work ≤ expWork y := by
  unfold expWork
  rw [if_neg (by omega)]
  exact work_le_expWorkNat _

theorem exp_of_lt {x : Int} (h : x < -(minExponentMagnitude : Int)) : exp x = 0 := by
  unfold exp
  rw [if_neg (by omega), if_pos h]

/-- Above the flush the exponent zero needs no exception. -/
theorem exp_of_ge {x : Int} (h : -(minExponentMagnitude : Int) ≤ x) :
    exp x = roundUnits (expWork (min x maxExponent * guard)) := by
  unfold exp
  split
  · rename_i hzero
    rw [hzero, Int.min_eq_left (Int.natCast_nonneg _), Int.zero_mul, expWork_zero]
    decide
  · rw [if_neg (by omega)]

/-! ## Powers at the working scale -/

section Power

variable {base base' exponent exponent' : Nat}

theorem powerLn_mono_base (hbase : 0 < base) (h : base ≤ base') (exponent : Nat) :
    powerLn base exponent ≤ powerLn base' exponent := by
  have hln : lnWork (base * guard) ≤ lnWork (base' * guard) :=
    lnWork_mono (Nat.mul_pos hbase (by decide)) (Nat.mul_le_mul_right guard h)
  exact Int.tdiv_le_tdiv (by decide) (Int.mul_le_mul_of_nonneg_left hln (Int.natCast_nonneg _))

theorem powerLn_mono_exponent (hone : one ≤ base) (h : exponent ≤ exponent') :
    powerLn base exponent ≤ powerLn base exponent' :=
  Int.tdiv_le_tdiv (by decide) (Int.mul_le_mul_of_nonneg_right (Int.ofNat_le.mpr h)
    (lnWork_nonneg (Nat.mul_le_mul_right guard hone)))

theorem powerLn_anti_exponent (hbase : 0 < base) (hone : base ≤ one) (h : exponent ≤ exponent') :
    powerLn base exponent' ≤ powerLn base exponent :=
  Int.tdiv_le_tdiv (by decide) (Int.mul_le_mul_of_nonpos_right (Int.ofNat_le.mpr h)
    (lnWork_nonpos (Nat.mul_pos hbase (by decide)) (Nat.mul_le_mul_right guard hone)))

/-- Powers are ordered as their logarithms are, through the flush and the cut at the limit. -/
theorem powerWork_mono (h : powerLn base exponent ≤ powerLn base' exponent') :
    powerWork base exponent ≤ powerWork base' exponent' := by
  have hlimit : maxExponent * guard = 130 * work := by decide
  have hflush : minExponentMagnitude * guard ≤ 130 * work := by decide
  unfold powerWork
  dsimp only
  rw [hlimit]
  split
  · exact Nat.zero_le _
  · rw [if_neg (by omega)]
    exact expWork_mono (by omega) (by omega) (Int.min_le_right _ _)

theorem powerWork_of_powerLn_zero (h : powerLn base exponent = 0) :
    powerWork base exponent = work := by
  unfold powerWork
  rw [h]
  exact expWork_zero

theorem powerWork_zero_right (base : Nat) : powerWork base 0 = work := by
  refine powerWork_of_powerLn_zero ?_
  unfold powerLn
  rw [Int.natCast_zero, Int.zero_mul, Int.zero_tdiv]

theorem powerWork_one_left (exponent : Nat) : powerWork one exponent = work := by
  refine powerWork_of_powerLn_zero ?_
  unfold powerLn
  rw [← work_eq_one_mul_guard, lnWork_work, Int.mul_zero, Int.zero_tdiv]

end Power

/-! ## Rounded powers -/

def roundedPower (round : Nat → Nat) (base exponent : Nat) : Nat :=
  (exactPower? base exponent).getD (round (powerWork base exponent))

section Rounded

variable {round : Nat → Nat} {base base' exponent exponent' : Nat}

/-- The powers that need no logarithm are what the logarithm would give as well. -/
theorem roundedPower_eq (hwork : round work = one) (hbase : 0 < base) (exponent : Nat) :
    roundedPower round base exponent = round (powerWork base exponent) := by
  unfold roundedPower
  cases hexact : exactPower? base exponent with
  | none => rfl
  | some r =>
      obtain ⟨hcase, rfl⟩ := exactPower?_of_one hbase hexact
      rw [Option.getD_some]
      rcases hcase with rfl | rfl
      · rw [powerWork_zero_right, hwork]
      · rw [powerWork_one_left, hwork]

theorem roundedPower_zero_right (round : Nat → Nat) (base : Nat) :
    roundedPower round base 0 = one := by
  unfold roundedPower exactPower?
  rw [if_pos rfl, Option.getD_some]

theorem roundedPower_zero_left (round : Nat → Nat) (hexponent : exponent ≠ 0) :
    roundedPower round 0 exponent = 0 := by
  unfold roundedPower exactPower?
  rw [if_neg hexponent, if_pos rfl, Option.getD_some]

variable (hround : Monotone round) (hwork : round work = one)
include hround hwork

theorem roundedPower_mono_base (h : base ≤ base') (exponent : Nat) :
    roundedPower round base exponent ≤ roundedPower round base' exponent := by
  rcases Nat.eq_zero_or_pos base with rfl | hbase
  · rcases Nat.eq_zero_or_pos exponent with rfl | hexponent
    · rw [roundedPower_zero_right, roundedPower_zero_right]
    · rw [roundedPower_zero_left round (Nat.ne_of_gt hexponent)]
      exact Nat.zero_le _
  · rw [roundedPower_eq hwork hbase, roundedPower_eq hwork (by omega)]
    exact hround (powerWork_mono (powerLn_mono_base hbase h exponent))

theorem roundedPower_mono_exponent (hone : one ≤ base) (h : exponent ≤ exponent') :
    roundedPower round base exponent ≤ roundedPower round base exponent' := by
  have hbase : 0 < base := Nat.lt_of_lt_of_le (by decide) hone
  rw [roundedPower_eq hwork hbase, roundedPower_eq hwork hbase]
  exact hround (powerWork_mono (powerLn_mono_exponent hone h))

theorem roundedPower_anti_exponent (hone : base ≤ one) (h : exponent ≤ exponent') :
    roundedPower round base exponent' ≤ roundedPower round base exponent := by
  rcases Nat.eq_zero_or_pos base with rfl | hbase
  · rcases Nat.eq_zero_or_pos exponent' with rfl | hexponent
    · rw [Nat.le_zero.mp h]
    · rw [roundedPower_zero_left round (Nat.ne_of_gt hexponent)]
      exact Nat.zero_le _
  · rw [roundedPower_eq hwork hbase, roundedPower_eq hwork hbase]
    exact hround (powerWork_mono (powerLn_anti_exponent hbase hone h))

end Rounded

theorem monotone_roundUnits : Monotone roundUnits := fun _ _ h =>
  Nat.div_le_div_right (Nat.add_le_add_right h (guard / 2))

theorem monotone_roundDown : Monotone fun v => v / guard := fun _ _ h => Nat.div_le_div_right h

theorem monotone_roundUp : Monotone fun v => max 1 ((v + guard - 1) / guard) := fun _ _ h =>
  max_le_max_left 1 (Nat.div_le_div_right (Nat.sub_le_sub_right (Nat.add_le_add_right h guard) 1))

theorem power_eq_roundedPower : power = roundedPower roundUnits := rfl

theorem powerDown_eq_roundedPower : powerDown = roundedPower fun v => v / guard := rfl

theorem powerUp_eq_roundedPower :
    powerUp = roundedPower fun v => max 1 ((v + guard - 1) / guard) := rfl

section Directed

variable {base base' exponent exponent' : Nat}

theorem powerDown_mono (hone : one ≤ base) (hbase : base ≤ base')
    (hexponent : exponent ≤ exponent') : powerDown base exponent ≤ powerDown base' exponent' := by
  rw [powerDown_eq_roundedPower]
  exact (roundedPower_mono_base monotone_roundDown (by decide) hbase exponent).trans
    (roundedPower_mono_exponent monotone_roundDown (by decide) (hone.trans hbase) hexponent)

theorem powerUp_mono (hone : base' ≤ one) (hbase : base ≤ base')
    (hexponent : exponent' ≤ exponent) : powerUp base exponent ≤ powerUp base' exponent' := by
  rw [powerUp_eq_roundedPower]
  exact (roundedPower_mono_base monotone_roundUp (by decide) hbase exponent).trans
    (roundedPower_anti_exponent monotone_roundUp (by decide) hone hexponent)

end Directed

/-! ## Powers of any operands -/

theorem checked_of_nonneg (f : Nat → Nat → Nat) {base exponent : Int} (hbase : 0 ≤ base)
    (hexponent : 0 ≤ exponent) :
    checked f base exponent = .ok (f base.toNat exponent.toNat) := by
  unfold checked
  rw [if_neg (by omega)]

/-- Both are results, and the first is no larger than the second. -/
def AtMost (a b : Except Error Nat) : Prop := ∃ p p' : Nat, a = .ok p ∧ b = .ok p' ∧ p ≤ p'

theorem atMost_checked (f : Nat → Nat → Nat) {base base' exponent exponent' : Int}
    (hbase : 0 ≤ base) (hbase' : 0 ≤ base') (hexponent : 0 ≤ exponent) (hexponent' : 0 ≤ exponent')
    (h : f base.toNat exponent.toNat ≤ f base'.toNat exponent'.toNat) :
    AtMost (checked f base exponent) (checked f base' exponent') :=
  ⟨_, _, checked_of_nonneg f hbase hexponent, checked_of_nonneg f hbase' hexponent', h⟩

/-- Each power is rounded in an orderly way of its own. -/
theorem exists_round {f : Nat → Nat → Nat} (hf : f ∈ [power, powerDown, powerUp]) :
    ∃ round : Nat → Nat, Monotone round ∧ round work = one ∧ f = roundedPower round := by
  rw [List.mem_cons, List.mem_cons, List.mem_singleton] at hf
  rcases hf with rfl | rfl | rfl
  · exact ⟨_, monotone_roundUnits, by decide, power_eq_roundedPower⟩
  · exact ⟨_, monotone_roundDown, by decide, powerDown_eq_roundedPower⟩
  · exact ⟨_, monotone_roundUp, by decide, powerUp_eq_roundedPower⟩

/-- Powers are monotone however they are rounded: in the exponent upwards from one and downwards up
to one, and in the base everywhere. No step is missing where a power is exact, where its exponential
is cut at the limit or where it is flushed to zero. -/
theorem powers_monotone {f : Nat → Nat → Nat} (hf : f ∈ [power, powerDown, powerUp]) :
    (∀ {base exponent exponent' : Int}, one ≤ base → 0 ≤ exponent → exponent ≤ exponent' →
      AtMost (checked f base exponent) (checked f base exponent')) ∧
    (∀ {base exponent exponent' : Int}, 0 ≤ base → base ≤ one → 0 ≤ exponent →
      exponent ≤ exponent' → AtMost (checked f base exponent') (checked f base exponent)) ∧
    ∀ {base base' exponent : Int}, 0 ≤ exponent → 0 ≤ base → base ≤ base' →
      AtMost (checked f base exponent) (checked f base' exponent) := by
  obtain ⟨round, hround, hwork, rfl⟩ := exists_round hf
  refine ⟨?_, ?_, ?_⟩
  · intro base exponent exponent' hone hexponent h
    have hbase : 0 ≤ base := (Int.natCast_nonneg one).trans hone
    exact atMost_checked _ hbase hbase hexponent (hexponent.trans h)
      (roundedPower_mono_exponent hround hwork (by omega) (by omega))
  · intro base exponent exponent' hbase hone hexponent h
    exact atMost_checked _ hbase hbase (hexponent.trans h) hexponent
      (roundedPower_anti_exponent hround hwork (by omega) (by omega))
  · intro base base' exponent hexponent hbase h
    exact atMost_checked _ hbase (hbase.trans h) hexponent hexponent
      (roundedPower_mono_base hround hwork (by omega) _)

/-- Two is raised beyond the limit, two units are flushed to zero and rounded up, and zero itself is
a base. -/
theorem sample_powers_monotone :
    AtMost (checked power (2 * one) (188 * one)) (checked power (2 * one) (189 * one)) ∧
    (checked powerUp 2 (2 * one) = .ok 1 ∧ checked powerUp 2 one = .ok 2 ∧
      AtMost (checked powerUp 2 (2 * one)) (checked powerUp 2 one)) ∧
    AtMost (checked powerDown 0 one) (checked powerDown one one) := by
  have hflushed : checked powerUp 2 (2 * one) = .ok 1 :=
    (checked_of_nonneg _ (by decide) (by decide)).trans
      (congrArg Except.ok (by decide +kernel : _ = 1))
  have hkept : checked powerUp 2 one = .ok 2 :=
    (checked_of_nonneg _ (by decide) (by decide)).trans
      (congrArg Except.ok (by decide +kernel : _ = 2))
  exact ⟨(powers_monotone (by simp)).1 (by decide) (by decide) (by decide),
    ⟨hflushed, hkept,
      (powers_monotone (by simp)).2.1 (by decide) (by decide) (by decide) (by decide)⟩,
    (powers_monotone (by simp)).2.2 (by decide) (by decide) (by decide)⟩

end CurveMarket.Fixed
