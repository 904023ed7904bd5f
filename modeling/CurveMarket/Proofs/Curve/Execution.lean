import CurveMarket.Proofs.Curve.Fill

/-! # Trades against the price before them

By Bernoulli's inequality a trade on the exact curve is never better than one at the price before it.
The kernels keep that without any allowance. On a buy the roundings are all on one side as long as the
deposit is at most twice the reserve, and further out the curve has left the tangent by more than they
are worth. On a sell a power may be short of its exact value by some units of the working scale. The
curve bends by the square of what is sold, which is one such unit for the least share there is and
four for the next.
-/

namespace CurveMarket.Curve

open Fixed

/-! ## Buying -/

section Buy

theorem rpow_mul_le_of_three_le {x w u : ℝ} (hx : 3 ≤ x) (hw : 0 ≤ w) (hhalf : w ≤ 1 / 2)
    (hu : 0 ≤ u) (hsmall : u ≤ 1 / 100) : x ^ (w * (1 + u)) ≤ 1 + w * (x - 1) := by
  have hpos : 0 < x := by linarith
  obtain ⟨r, hr, hcube⟩ : ∃ r : ℝ, 0 ≤ r ∧ r ^ 3 = x :=
    ⟨x ^ (1 / 3 : ℝ), by positivity, by rw [← Real.rpow_natCast, ← Real.rpow_mul hpos.le]; norm_num⟩
  have hroot : 1.44 ≤ r := by
    by_contra hlow
    have hbelow : r ^ 3 < 1.44 ^ 3 := pow_lt_pow_left₀ (not_le.mp hlow) hr (by norm_num)
    norm_num at hbelow
    linarith
  have hbernoulli : (r ^ 2 : ℝ) ^ (3 / 2 * (w * (1 + u))) ≤
      1 + 3 / 2 * (w * (1 + u)) * (r ^ 2 - 1) := by
    have hle : 3 / 2 * (w * (1 + u)) ≤ 1 := by nlinarith
    have htangent := rpow_one_add_le_one_add_mul_self (s := r ^ 2 - 1) (by nlinarith)
      (by positivity : 0 ≤ 3 / 2 * (w * (1 + u))) hle
    rwa [add_sub_cancel] at htangent
  have hpower : x ^ (w * (1 + u)) = (r ^ 2 : ℝ) ^ (3 / 2 * (w * (1 + u))) := by
    rw [← hcube, ← Real.rpow_natCast_mul hr, ← Real.rpow_natCast_mul hr]
    congr 1
    push_cast
    ring
  have hroom : 3 / 2 * (1 + u) * (r ^ 2 - 1) ≤ x - 1 := by
    rw [← hcube]
    nlinarith [mul_nonneg (sub_nonneg.mpr hroot) (sub_nonneg.mpr hroot),
      mul_nonneg hr (sub_nonneg.mpr hroot)]
  calc x ^ (w * (1 + u)) ≤ 1 + 3 / 2 * (w * (1 + u)) * (r ^ 2 - 1) := by
        rw [hpower]
        exact hbernoulli
    _ = 1 + w * (3 / 2 * (1 + u) * (r ^ 2 - 1)) := by ring
    _ ≤ 1 + w * (x - 1) := by linarith [mul_le_mul_of_nonneg_left hroom hw]

theorem value_powerDown_le_tangent {base exponent : Nat} (hone : one ≤ base)
    (hexponent : 2 * exponent ≤ one) :
    value (powerDown base exponent) ≤ 1 + value exponent * (value base - 1) := by
  have hvalue : 1 ≤ value base := one_le_value hone
  have hnonneg : 0 ≤ value exponent := value_nonneg exponent
  have hhalf := value_le_half hexponent
  rcases Nat.le_total base (3 * one) with hnear | hfar
  · have hthree : value base ≤ 3 := value_le_of_le_mul hnear
    have hlog : Real.log (value base) < 2 := by
      have hroot := Real.log_le_sub_one_of_pos (by linarith : 0 < value base / 2)
      rw [Real.log_div (by linarith) (by norm_num)] at hroot
      linarith [Real.log_two_lt_d9]
    have hsmall : value exponent * Real.log (value base) < 1 := by
      nlinarith [Real.log_nonneg hvalue]
    have htangent := rpow_one_add_le_one_add_mul_self (s := value base - 1) (by linarith) hnonneg
      (by linarith)
    rw [add_sub_cancel] at htangent
    exact (value_powerDown_le hone hnear hsmall).trans htangent
  · have hthree : 3 ≤ value base := le_value_of_mul_le hfar
    have hunit : (1 : ℝ) / work ≤ 1 / 100 := by
      unfold work
      norm_num
    exact (value_powerDown_le_rpow hone exponent).trans
      (rpow_mul_le_of_three_le hthree hnonneg hhalf (div_nonneg zero_le_one work_pos.le) hunit)

variable {supply reserve deposit ratio : Nat}

theorem tokensFor_mul_le_of_price (hreserve : 0 < reserve) (hhalf : 2 * ratio ≤ ppm) :
    tokensFor supply reserve deposit ratio * reserve * ppm ≤ deposit * supply * ratio := by
  have hreserveReal : (0 : ℝ) < reserve := Nat.cast_pos.mpr hreserve
  have hppm : (0 : ℝ) < ppm := Nat.cast_pos.mpr (by decide)
  have hexponent : 2 * (ratio * one / ppm) ≤ one := by
    have hdouble : 2 * (ratio * one / ppm) ≤ 2 * (ratio * one) / ppm := Nat.mul_div_le_mul_div_assoc ..
    refine hdouble.trans (Nat.div_le_of_le_mul ?_)
    rw [← Nat.mul_assoc]
    exact Nat.mul_le_mul_right one hhalf
  have hweight := value_quotient_le (a := ratio) (b := ppm) (by decide)
  have hshare := value_quotient_le (a := deposit) hreserve
  have hgrowth : value (growth reserve deposit ratio) ≤ 1 + ratio / ppm * (deposit / reserve) := by
    have htangent := value_powerDown_le_tangent (Nat.le_add_right one (deposit * one / reserve))
      hexponent
    rw [value_one_add, add_sub_cancel_left] at htangent
    exact htangent.trans (add_le_add_right
      (mul_le_mul hweight hshare (value_nonneg _) (by positivity)) 1)
  have hminted : (supply + tokensFor supply reserve deposit ratio : ℝ) ≤ supply * _ :=
    add_tokensFor_le_mul (le_add_of_nonneg_right (by positivity)) hgrowth
  generalize tokensFor supply reserve deposit ratio = minted at *
  have hscaled := mul_le_mul_of_nonneg_right hminted (by positivity : (0 : ℝ) ≤ reserve * ppm)
  have hexact : supply * (1 + ratio / ppm * (deposit / reserve) : ℝ) * (reserve * ppm) =
      supply * (reserve * ppm) + deposit * supply * ratio := by
    field_simp
  have hreal : (minted * reserve * ppm : ℝ) ≤ deposit * supply * ratio := by linarith
  exact_mod_cast hreal

end Buy

/-! ## Selling -/

section Sell

/-- A power of two or more bends away from the tangent at one by the square. -/
theorem tangent_add_sq_le_rpow {x p : ℝ} (hx : x ≤ 1) (hp : 2 ≤ p) :
    1 - p * x + x ^ 2 ≤ (1 - x) ^ p := by
  have hstays : 0 ≤ 1 - x := sub_nonneg.mpr hx
  have hbernoulli : 1 + p / 2 * ((1 - x) ^ 2 - 1) ≤ (1 + ((1 - x) ^ 2 - 1)) ^ (p / 2) :=
    one_add_mul_self_le_rpow_one_add (by linarith [sq_nonneg (1 - x)]) (by linarith)
  have hpower : (1 + ((1 - x) ^ 2 - 1)) ^ (p / 2) = (1 - x) ^ p := by
    rw [add_sub_cancel, ← Real.rpow_natCast_mul hstays]
    congr 1
    push_cast
    ring
  rw [hpower] at hbernoulli
  nlinarith [sq_nonneg x]

theorem value_sq (x : Nat) : value x ^ 2 = x ^ 2 / work := by
  unfold value
  rw [div_pow, work_eq_one_mul_guard, Nat.cast_mul, sq (one : ℝ)]
  rfl

/-- The least share sold of a supply. Its power is short by a unit at most, and by as much the curve
has bent. -/
theorem tangent_le_of_one {exponent : Nat} (hexponent : 2 * one ≤ exponent)
    (hlimit : exponent ≤ 20 * one) :
    1 - value exponent * value 1 ≤ value (powerUp (one - 1) exponent) := by
  have hunit : value 1 = 1 / one := by
    unfold value
    rw [Nat.cast_one]
  have hbase : value (one - 1) = 1 - value 1 := value_one_sub (by decide)
  have htwo : 2 ≤ value exponent := le_value_of_mul_le hexponent
  have htwenty : value exponent ≤ 20 := value_le_of_le_mul hlimit
  have hless : value 1 ≤ 1 / 100 := by
    rw [hunit]
    unfold one
    norm_num
  have hpos : 0 ≤ value 1 := value_nonneg 1
  have hsmall : -1 < value exponent * Real.log (value (one - 1)) := by
    have hlog : -(2 * value 1) ≤ Real.log (value (one - 1)) := by
      rw [hbase]
      have hinverse := Real.one_sub_inv_le_log_of_pos (by linarith : 0 < 1 - value 1)
      have hshare : (1 - value 1)⁻¹ ≤ 1 + 2 * value 1 := by
        rw [inv_le_iff_one_le_mul₀ (by linarith)]
        nlinarith
      linarith
    nlinarith
  have hpower := le_value_powerUp (by decide : one ≤ 3 * (one - 1)) (Nat.sub_le one 1) hsmall
  have hbent := tangent_add_sq_le_rpow (hless.trans (by norm_num)) htwo
  rw [hbase] at hpower
  rw [value_sq, Nat.cast_one, one_pow] at hbent
  linarith

theorem tangent_le_value_powerUp {share exponent : Nat} (hshare : share < one)
    (hexponent : 2 * one ≤ exponent) (hlimit : exponent ≤ 20 * one) :
    1 - value exponent * value share ≤ value (powerUp (one - share) exponent) := by
  obtain rfl | rfl | hmore : share = 0 ∨ share = 1 ∨ 2 ≤ share := by omega
  · rw [Nat.sub_zero, powerUp_one, value_one]
    linarith [mul_nonneg (value_nonneg exponent) (value_nonneg 0)]
  · exact tangent_le_of_one hexponent hlimit
  · have htwo : 2 ≤ value exponent := le_value_of_mul_le hexponent
    have hwithin : value share ≤ 1 := value_le_one hshare.le
    have hpower := sub_three_le_value_powerUp (Nat.sub_pos_of_lt hshare) (Nat.sub_le one share)
      hexponent
    have hbent := tangent_add_sq_le_rpow hwithin htwo
    have hunits : 3 / (work : ℝ) ≤ value share ^ 2 := by
      have hcast : (2 : ℝ) ≤ share := by exact_mod_cast hmore
      rw [value_sq]
      exact div_le_div_of_nonneg_right (by nlinarith) work_pos.le
    rw [value_one_sub hshare.le] at hpower
    linarith

variable {supply reserve tokens ratio : Nat}

theorem exponent_le (hmin : minRatio ≤ ratio) : ppm * one / ratio ≤ 20 * one :=
  (Nat.div_le_div_left hmin (by decide)).trans (by decide)

theorem payoutFor_mul_le_of_price (reserve : Nat) (htokens : tokens < supply)
    (hmin : minRatio ≤ ratio) (hmax : ratio ≤ maxRatio) :
    payoutFor supply reserve tokens ratio * supply * ratio ≤ reserve * tokens * ppm := by
  have hratio : 0 < ratio := Nat.lt_of_lt_of_le (by decide) hmin
  have hsupplyReal : (0 : ℝ) < supply := Nat.cast_pos.mpr (Nat.zero_lt_of_lt htokens)
  have hratioReal : (0 : ℝ) < ratio := Nat.cast_pos.mpr hratio
  have hshare : tokens * one / supply < one :=
    Nat.div_lt_of_lt_mul (Nat.mul_lt_mul_of_pos_right htokens (by decide))
  have hsold := value_quotient_le (a := tokens) (Nat.zero_lt_of_lt htokens)
  have hweight := value_quotient_le (a := ppm) hratio
  have hremainder : 1 - ppm / ratio * (tokens / supply : ℝ) ≤
      value (remainder supply tokens ratio) := by
    have htangent := tangent_le_value_powerUp hshare
      (two_one_le_exponent hratio (Nat.mul_le_mul_left 2 hmax)) (exponent_le hmin)
    have hproduct := mul_le_mul hweight hsold (value_nonneg _) (by positivity)
    exact (sub_le_sub_left hproduct 1).trans htangent
  have hleft : reserve * _ ≤ (reserve - payoutFor supply reserve tokens ratio : ℝ) :=
    mul_le_reserve_sub_payoutFor htokens (sub_le_self 1 (by positivity)) hremainder
  generalize payoutFor supply reserve tokens ratio = paid at *
  have hscaled := mul_le_mul_of_nonneg_right hleft (by positivity : (0 : ℝ) ≤ supply * ratio)
  have hexact : reserve * (1 - ppm / ratio * (tokens / supply) : ℝ) * (supply * ratio) =
      reserve * (supply * ratio) - reserve * tokens * ppm := by
    field_simp
  have hreal : (paid * supply * ratio : ℝ) ≤ reserve * tokens * ppm := by linarith
  exact_mod_cast hreal

end Sell

/-- No trade executes better than at the price before it. A deposit of any size mints at most what it
would at that price, and no part of a supply frees more than it would. -/
theorem no_fill_beats_price {supply reserve ratio : Nat} (hreserve : 1 ≤ reserve)
    (hmin : minRatio ≤ ratio) (hmax : ratio ≤ maxRatio) :
    (∀ deposit : Nat, ∃ minted : Nat,
      buy (some supply) (some reserve) (some deposit) (some ratio) = .ok minted ∧
        minted * reserve * ppm ≤ deposit * supply * ratio) ∧
    ∀ tokens : Nat, tokens < supply → ∃ paid : Nat,
      sell (some supply) (some reserve) (some tokens) (some ratio) = .ok paid ∧
        paid * supply * ratio ≤ reserve * tokens * ppm := by
  have hratio : 0 < ratio := Nat.lt_of_lt_of_le (by decide) hmin
  have hhalf : 2 * ratio ≤ ppm := Nat.mul_le_mul_left 2 hmax
  constructor
  · intro deposit
    exact ⟨_, buy_of_ratio supply reserve deposit hratio (by omega),
      tokensFor_mul_le_of_price hreserve hhalf⟩
  · intro tokens htokens
    exact ⟨_, sell_of_ratio supply reserve tokens hratio (by omega),
      payoutFor_mul_le_of_price reserve htokens hmin hmax⟩

/-- A deposit of a million times the reserve, and the sell of one unit of the largest supply whose
units are told apart. -/
theorem no_sample_fill_beats_price :
    (∃ minted : Nat, buy (some (1000000 : Nat)) (some (5 : Nat)) (some (5000000 : Nat))
        (some (500000 : Nat)) = .ok minted ∧ minted * 5 * ppm ≤ 5000000 * 1000000 * 500000) ∧
    ∃ paid : Nat, sell (some (10 ^ 18 : Nat)) (some (10 ^ 18 : Nat)) (some (1 : Nat))
        (some (500000 : Nat)) = .ok paid ∧ paid * 10 ^ 18 * 500000 ≤ 10 ^ 18 * 1 * ppm :=
  ⟨(no_fill_beats_price (by decide) (by decide) (by decide)).1 5000000,
    (no_fill_beats_price (by decide) (by decide) (by decide)).2 1 (by decide)⟩

end CurveMarket.Curve
