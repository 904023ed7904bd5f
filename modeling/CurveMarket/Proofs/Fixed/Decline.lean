import CurveMarket.Proofs.Fixed.Power

/-! # Powers below one

A base below one is the reciprocal of an exponential whose logarithm and series are both cut short,
so its powers may come out above their exact value. They stay below what the first terms of the two
series allow. For an exponent of two or more that is enough to keep a power at or below its base,
and away from one by more than the base is.
-/

namespace CurveMarket.Fixed

/-! ## Exponentials from below -/

theorem mul_pow_le_mulPower {scale : Nat} (hscale : 0 < scale) (result base power : Nat) {c : Nat}
    (hbase : c * scale ≤ base) : result * c ^ power ≤ mulPower scale result base power := by
  fun_induction mulPower scale result base power generalizing c with
  | case1 result base => simp
  | case2 result base power h ih =>
      have hsquare : c ^ 2 * scale ≤ base * base / scale := by
        rw [Nat.le_div_iff_mul_le hscale]
        calc c ^ 2 * scale * scale = c * scale * (c * scale) := by ring
          _ ≤ base * base := Nat.mul_le_mul hbase hbase
      have hresult : result * c ^ (power % 2) ≤
          if power % 2 = 1 then result * base / scale else result := by
        split
        · rename_i hodd
          rw [hodd, pow_one, Nat.le_div_iff_mul_le hscale, Nat.mul_assoc]
          exact Nat.mul_le_mul_left result hbase
        · rename_i heven
          rw [Nat.mod_two_ne_one.mp heven, pow_zero, Nat.mul_one]
      have hpower : power % 2 + 2 * (power / 2) = power := Nat.mod_add_div power 2
      calc result * c ^ power = result * c ^ (power % 2) * (c ^ 2) ^ (power / 2) := by
            rw [Nat.mul_assoc, ← pow_mul, ← pow_add, hpower]
        _ ≤ _ * (c ^ 2) ^ (power / 2) := Nat.mul_le_mul_right _ hresult
        _ ≤ _ := ih hsquare

theorem work_add_le_expFraction {fraction : Nat} (h : fraction < work) :
    work + fraction ≤ expFraction fraction := by
  have hfirst : work * fraction / (work * 1) = fraction := by
    rw [Nat.mul_one, Nat.mul_div_cancel_left _ (by decide)]
  unfold expFraction
  rw [taylorTail, dif_pos ⟨by decide, h⟩, hfirst]
  exact Nat.add_le_add_left (Nat.le_add_right _ _) work

/-- An exponential doubles with every whole, and beyond that grows by what is left. -/
theorem two_pow_mul_le_expWorkNat (j y : Nat) (h : j * work ≤ y) :
    2 ^ j * (work + (y - j * work)) ≤ expWorkNat y := by
  have hpos : 0 < work := by decide
  have hfraction := work_add_le_expFraction (Nat.mod_lt y hpos)
  have hwhole := mul_pow_le_mulPower hpos (expFraction (y % work)) eWork (y / work)
    (by decide : 2 * work ≤ eWork)
  have hy : y % work + y / work * work = y := by
    rw [Nat.mul_comm]
    exact Nat.mod_add_div y work
  obtain ⟨k, hk⟩ := Nat.exists_eq_add_of_le ((Nat.le_div_iff_mul_le hpos).mpr h)
  unfold expWorkNat
  generalize work = w at *
  generalize y % w = f at *
  rw [hk] at hwhole hy ⊢
  have hrest : y - j * w = f + k * w := by
    rw [← hy, Nat.add_mul]
    omega
  have hgrown : w + (f + k * w) ≤ (w + f) * 2 ^ k := by
    calc w + (f + k * w) ≤ (w + f) * (k + 1) := by
          rw [Nat.add_mul, Nat.mul_succ, Nat.mul_succ, Nat.mul_comm k w]
          omega
      _ ≤ (w + f) * 2 ^ k := Nat.mul_le_mul_left _ Nat.lt_two_pow_self
  calc 2 ^ j * (w + (y - j * w)) = 2 ^ j * (w + (f + k * w)) := by rw [hrest]
    _ ≤ 2 ^ j * ((w + f) * 2 ^ k) := Nat.mul_le_mul_left _ hgrown
    _ = (w + f) * 2 ^ (j + k) := by rw [pow_add]; ring
    _ ≤ expFraction f * 2 ^ (j + k) := Nat.mul_le_mul_right _ hfraction
    _ ≤ _ := hwhole

theorem work_le_expWorkNat (y : Nat) : work ≤ expWorkNat y := by
  have hgrown := two_pow_mul_le_expWorkNat 0 y (by omega)
  rw [pow_zero, Nat.one_mul] at hgrown
  exact (Nat.le_add_right work _).trans hgrown

theorem expWork_neg_mul_le (y : Nat) : expWork (-(y : Int)) * expWorkNat y ≤ work * work := by
  unfold expWork
  rw [Int.natAbs_neg, Int.natAbs_natCast]
  split
  · exact Nat.div_mul_le_self _ _
  · rename_i hzero
    have hy : y = 0 := by omega
    subst hy
    decide +kernel

/-! ## Logarithms from below -/

theorem le_atanhSeries {scale square : Nat} (h : square < scale) (term : Nat) :
    term ≤ atanhSeries scale square term 1 := by
  rw [atanhSeries]
  split
  · rw [Nat.div_one]
    exact Nat.le_add_right _ _
  · omega

section Argument

variable {y : Nat}

theorem atanhArgument_of_lt (h : y < work) :
    atanhArgument y = (work - y) * work / (y + work) := by
  unfold atanhArgument
  rw [if_neg (Nat.not_le.mpr h)]

theorem gap_lt_atanhArgument {d : Nat} (hpos : 0 < d) (h : work = y + d) :
    d * (y + d) < (atanhArgument y + 1) * (y + (y + d)) := by
  have hd : work - y = d := by omega
  rw [atanhArgument_of_lt (by omega), hd, h, Nat.mul_comm (_ + 1)]
  exact Nat.lt_mul_div_succ _ (by omega)

theorem atanhArgument_lt_work (hpos : 0 < y) : atanhArgument y < work := by
  have hwork : 0 < work := by decide
  unfold atanhArgument
  rw [Nat.div_lt_iff_lt_mul (by omega), Nat.mul_comm]
  refine Nat.mul_lt_mul_of_pos_left ?_ hwork
  split <;> omega

theorem atanhArgument_sq_lt_work (hpos : 0 < y) :
    atanhArgument y * atanhArgument y / work < work := by
  rw [Nat.div_lt_iff_lt_mul (by decide)]
  exact Nat.mul_lt_mul'' (atanhArgument_lt_work hpos) (atanhArgument_lt_work hpos)

theorem twice_atanhArgument_le (hpos : 0 < y) : 2 * atanhArgument y ≤ lnMagnitude y :=
  Nat.mul_le_mul_left 2 (le_atanhSeries (atanhArgument_sq_lt_work hpos) _)

end Argument

section ScaleUp

variable {num den bound : Nat}

theorem scaleUpBy_le {c : Nat} (hnum : num ≤ c * den) (x : Nat) :
    (scaleUpBy num den bound x).1 ≤ c ^ (scaleUpBy num den bound x).2 * x := by
  fun_induction scaleUpBy num den bound x with
  | case1 x h r ih =>
      have hstep : x * num / den ≤ c * x := by
        refine Nat.div_le_of_le_mul ?_
        calc x * num ≤ x * (c * den) := Nat.mul_le_mul_left x hnum
          _ = den * (c * x) := by ring
      calc r.1 ≤ c ^ r.2 * (x * num / den) := ih
        _ ≤ c ^ r.2 * (c * x) := Nat.mul_le_mul_left _ hstep
        _ = c ^ (r.2 + 1) * x := by ring
  | case2 x h => simp

theorem scaleUpBy_steps_pos (hden : 0 < den) (hnum : 2 * den ≤ num) {x : Nat} (hx : 0 < x)
    (hlt : x < bound) : 0 < (scaleUpBy num den bound x).2 := by
  rw [scaleUpBy, dif_pos ⟨⟨hx, hlt⟩, hden, hnum⟩]
  exact Nat.succ_pos _

theorem le_scaleUpBy (hden : 0 < den) (hnum : 2 * den ≤ num) {x : Nat} (hx : 0 < x) :
    bound ≤ (scaleUpBy num den bound x).1 := by
  fun_induction scaleUpBy num den bound x with
  | case1 x h r ih => exact ih (Nat.lt_trans hx (lt_mul_div hx hden hnum))
  | case2 x h =>
      by_contra hlt
      exact h ⟨⟨hx, by omega⟩, hden, hnum⟩

/-- A step from below the bound does not lead to where the bound itself is taken, or above. -/
theorem scaleUpBy_lt {high : Nat} (hhigh : bound * num ≤ high * den) {x : Nat} (hx : x < high) :
    (scaleUpBy num den bound x).1 < high := by
  fun_induction scaleUpBy num den bound x with
  | case1 x h r ih =>
      have hnum : 0 < num := by omega
      refine ih ((Nat.div_lt_iff_lt_mul h.2.1).mpr ?_)
      exact Nat.lt_of_lt_of_le (Nat.mul_lt_mul_of_pos_right h.1.2 hnum) hhigh
  | case2 x h => exact hx

end ScaleUp

theorem lnWork_eq_scaleUp {x : Nat} (hpos : 0 < x) (hx : x < thirdWork) :
    thirdWork ≤ (scaleUp x).1 ∧ (scaleUp x).1 < work ∧
      lnWork x = -((lnMagnitude (scaleUp x).1 + (scaleUp x).2 * work : Nat) : Int) := by
  have hthird : thirdWork < threeWork := by decide
  have hwork : thirdWork < work := by decide
  have hlow : thirdWork ≤ (scaleUp x).1 := le_scaleUpBy (by decide) (by decide) hpos
  have hhigh : (scaleUp x).1 < work := scaleUpBy_lt (by decide) (Nat.lt_trans hx hwork)
  refine ⟨hlow, hhigh, ?_⟩
  rw [lnWork_eq_of_reduction (scaleDown_of_le (by omega)) Prod.mk.eta.symm, reducedLn_of_lt hhigh,
    Int.natCast_zero, Int.zero_sub, Int.neg_mul, Int.natCast_add, Int.natCast_mul, Int.neg_add]

theorem lnWork_of_lt_thirdWork {x : Nat} (hpos : 0 < x) (hx : x < thirdWork) :
    ∃ r k, 0 < k ∧ thirdWork ≤ r ∧ r < work ∧ r ≤ 3 ^ k * x ∧
      lnWork x = -((lnMagnitude r + k * work : Nat) : Int) := by
  obtain ⟨hlow, hhigh, hln⟩ := lnWork_eq_scaleUp hpos hx
  have hsteps : 0 < (scaleUp x).2 := scaleUpBy_steps_pos (by decide) (by decide) hpos hx
  have hup : (scaleUp x).1 ≤ 3 ^ (scaleUp x).2 * x := scaleUpBy_le (by decide) x
  exact ⟨_, _, hsteps, hlow, hhigh, hup, hln⟩

/-! ## The reciprocal of the first terms

In the reduced range a number `r` falls short of the whole `r + d` by `d`, `z` is the argument of
its logarithm, and `p` is a power with an exponent of two or more. -/

section Reciprocal

variable {r d z p : Nat}

theorem excess_lt {x : Nat} (hr : 0 < r) (hx : 16 < x) :
    32 * r * (r + d) < (r + d) * (2 * r * x) := by
  calc 32 * r * (r + d) = (r + d) * (2 * r * 16) := by ring
    _ < (r + d) * (2 * r * x) :=
      Nat.mul_lt_mul_of_pos_left (Nat.mul_lt_mul_of_pos_left hx (by omega)) (by omega)

variable (hz : d * (r + d) < (z + 1) * (r + (r + d)))
include hz

theorem argument_bound :
    (r + d) * (2 * r + 5 * d) ≤ (r + d + 4 * z + 4) * (2 * r + d) := by
  nlinarith

/-- Near the whole a power is further away from it than its base is, by an eighth. -/
theorem eight_mul_le_of_near (hnear : d ≤ r) (hgap : 128 ≤ d)
    (hp : p * (r + d + 4 * z) ≤ (r + d) * (r + d)) : 8 * p + d ≤ 8 * r := by
  by_contra hlarge
  have hbound := argument_bound hz
  zify at *
  have hbelow : (8 * r - d) * (r + d + 4 * z) ≤ (8 * ((r + d) * (r + d)) : Int) := by
    calc (8 * r - d) * (r + d + 4 * z) ≤ (8 * p * (r + d + 4 * z) : Int) :=
          mul_le_mul_of_nonneg_right (by omega) (by positivity)
      _ ≤ 8 * ((r + d) * (r + d)) := by linarith
  have hscaled := mul_le_mul_of_nonneg_right hbelow (by positivity : (0 : Int) ≤ 2 * r + d)
  have hfirst := mul_le_mul_of_nonneg_left hbound (by omega : (0 : Int) ≤ 8 * r - d)
  have hexcess : (r + d) * (d * (14 * r - 13 * d)) ≤ (4 * (8 * r - d) * (2 * r + d) : Int) := by
    linarith
  have hleast : (r * (128 * r) : Int) ≤ (r + d) * (d * (14 * r - 13 * d)) :=
    mul_le_mul (by omega) (mul_le_mul hgap (by omega) (by omega) (by omega)) (by positivity)
      (by positivity)
  nlinarith

theorem lt_three_mul_argument (hfar : r ≤ d) : r + d < 3 * (z + 1) := by
  by_contra hsmall
  have hproduct : (z + 1) * (r + (r + d)) ≤ d * (r + d) := by nlinarith
  omega

theorem five_mul_le_of_far (hfar : r ≤ d) (hgap : 128 ≤ d)
    (hp : p * (8 * z) ≤ (r + d) * (r + d)) : 5 * p ≤ 2 * (r + d) := by
  by_contra hlarge
  have hthird := lt_three_mul_argument hz hfar
  have hscaled : 2 * (r + d) * (8 * z) ≤ 5 * ((r + d) * (r + d)) := by
    calc 2 * (r + d) * (8 * z) ≤ 5 * p * (8 * z) := Nat.mul_le_mul_right _ (by omega)
      _ = 5 * (p * (8 * z)) := Nat.mul_assoc ..
      _ ≤ 5 * ((r + d) * (r + d)) := Nat.mul_le_mul_left 5 hp
  nlinarith

theorem le_of_far (hfar : r ≤ d) (hthird : d ≤ 2 * r + 2) (hgap : 128 ≤ r)
    (hp : p * (8 * z) ≤ (r + d) * (r + d)) : p ≤ r := by
  by_contra hlarge
  have hbelow : (r + 1) * (8 * z) ≤ (r + d) * (r + d) :=
    Nat.le_trans (Nat.mul_le_mul_right _ (by omega)) hp
  have hexcess : (r + d) * (2 * r * d) ≤ 8 * (r + 1) * (2 * r + d) := by
    have hscaled := Nat.mul_le_mul_right (2 * r + d) hbelow
    have hfirst := Nat.mul_le_mul_left (8 * (r + 1)) hz.le
    have hshape : (r + d) * (2 * r + d) + 2 * r * d ≤ 8 * (r + 1) * d := by
      zify at *
      linarith [mul_nonneg (sub_nonneg.mpr hfar) (sub_nonneg.mpr hthird)]
    have hwhole := Nat.mul_le_mul_left (r + d) hshape
    linarith
  have hleast : 32 * r * (r + d) < (r + d) * (2 * r * d) := excess_lt (by omega) (by omega)
  have hmost : 8 * (r + 1) * (2 * r + d) ≤ 16 * r * (2 * (r + d)) :=
    Nat.mul_le_mul (by omega) (by omega)
  linarith

/-- Down to a third, the first terms are short of the reciprocal by less than a quarter. -/
theorem three_mul_lt_of_third (hthird : d ≤ 2 * r + 2) (hgap : 128 ≤ r) :
    3 * ((r + d) * (r + d)) < 4 * (r * (r + d + 4 * z)) := by
  by_contra hsmall
  have hexcess : (r + d) * (2 * r * r) ≤ 16 * r * (2 * r + d) := by
    have hscaled := Nat.mul_le_mul_right (2 * r + d) (Nat.not_lt.mp hsmall)
    have hfirst := Nat.mul_le_mul_left (4 * r) (argument_bound hz)
    have hshape : 3 * ((r + d) * (2 * r + d)) + 2 * r * r ≤ 4 * r * (2 * r + 5 * d) := by
      have hlong := Nat.mul_le_mul_left (3 * d) hthird
      have hwide : 2 * d ≤ r * d := Nat.mul_le_mul_right d (by omega)
      linarith
    have hwhole := Nat.mul_le_mul_left (r + d) hshape
    linarith
  have hleast : 32 * r * (r + d) < (r + d) * (2 * r * r) := excess_lt (by omega) (by omega)
  have hmost : 16 * r * (2 * r + d) ≤ 16 * r * (2 * (r + d)) := Nat.mul_le_mul_left _ (by omega)
  linarith

/-- Steps into the reduced range multiply the number by at most three each, and the exponential by
four. -/
theorem le_of_steps {x e k : Nat} (hthird : d ≤ 2 * r + 2) (hgap : 128 ≤ r) (hk : 0 < k)
    (hr : r ≤ 3 ^ k * x) (he : 4 ^ k * (r + d + 4 * z) ≤ e) (hp : p * e ≤ (r + d) * (r + d)) : p ≤ x := by
  by_contra hlarge
  have hreduced := three_mul_lt_of_third hz hthird hgap
  have hpowers : 4 * 3 ^ k ≤ 3 * 4 ^ k := by
    obtain ⟨j, rfl⟩ := Nat.exists_eq_succ_of_ne_zero (Nat.ne_of_gt hk)
    have hstep : 3 ^ j ≤ 4 ^ j := Nat.pow_le_pow_left (by decide) j
    rw [pow_succ, pow_succ]
    omega
  have hproduct : 4 ^ k * (r * (r + d + 4 * z)) ≤ 3 ^ k * ((r + d) * (r + d)) := by
    calc 4 ^ k * (r * (r + d + 4 * z)) = r * (4 ^ k * (r + d + 4 * z)) := by ring
      _ ≤ 3 ^ k * p * e :=
        Nat.mul_le_mul (hr.trans (Nat.mul_le_mul_left _ (by omega))) he
      _ = 3 ^ k * (p * e) := Nat.mul_assoc ..
      _ ≤ _ := Nat.mul_le_mul_left _ hp
  refine absurd (Nat.mul_lt_mul_of_pos_left hreduced (Nat.pow_pos (by decide) : 0 < 4 ^ k)) ?_
  rw [Nat.not_lt]
  calc 4 ^ k * (4 * (r * (r + d + 4 * z))) = 4 * (4 ^ k * (r * (r + d + 4 * z))) := by ring
    _ ≤ 4 * (3 ^ k * ((r + d) * (r + d))) := Nat.mul_le_mul_left 4 hproduct
    _ = 4 * 3 ^ k * ((r + d) * (r + d)) := by ring
    _ ≤ 3 * 4 ^ k * ((r + d) * (r + d)) := Nat.mul_le_mul_right _ hpowers
    _ = 4 ^ k * (3 * ((r + d) * (r + d))) := by ring

end Reciprocal

/-! ## Powers at the working scale -/

section Power

variable {base exponent : Nat}

theorem powerWork_mul_le {l : Nat} (hln : lnWork (base * guard) = -(l : Int))
    (hexponent : 2 * one ≤ exponent) :
    ∃ y, 2 * l ≤ y ∧ powerWork base exponent * expWorkNat y ≤ work * work := by
  have hlarge : 2 * l ≤ exponent * l / one := by
    rw [Nat.le_div_iff_mul_le (by decide)]
    calc 2 * l * one = 2 * one * l := by ring
      _ ≤ exponent * l := Nat.mul_le_mul_right l hexponent
  refine ⟨_, hlarge, ?_⟩
  unfold powerWork
  dsimp only
  rw [powerLn_of_neg hln]
  generalize exponent * l / one = y
  split
  · rw [Nat.zero_mul]
    exact Nat.zero_le _
  · rw [Int.min_eq_left (by omega)]
    exact expWork_neg_mul_le y

theorem lt_work_of_lt_one (h : base < one) : base * guard < work :=
  Nat.mul_lt_mul_of_pos_right h (by decide)

theorem guard_le_gap {d : Nat} (h : base < one) (hd : work = base * guard + d) : guard ≤ d := by
  have hstep : (base + 1) * guard ≤ work := Nat.mul_le_mul_right guard h
  rw [Nat.add_mul, Nat.one_mul, hd] at hstep
  omega

theorem exists_argument (hthird : thirdWork ≤ base * guard) (hone : base < one)
    (hexponent : 2 * one ≤ exponent) :
    ∃ y, 4 * atanhArgument (base * guard) ≤ y ∧
      powerWork base exponent * expWorkNat y ≤ work * work := by
  have hx := lt_work_of_lt_one hone
  have hthree : work < threeWork := by decide
  have hpositive : 0 < thirdWork := by decide
  have hln : lnWork (base * guard) = -(lnMagnitude (base * guard) : Int) := by
    rw [lnWork_eq_reducedLn hthird (by omega), reducedLn_of_lt hx]
  obtain ⟨y, hy, hp⟩ := powerWork_mul_le hln hexponent
  have hargument := twice_atanhArgument_le (by omega : 0 < base * guard)
  exact ⟨y, by omega, hp⟩

theorem eight_mul_powerWork_le (hone : base < one) (hnear : work ≤ 2 * (base * guard))
    (hexponent : 2 * one ≤ exponent) :
    8 * powerWork base exponent + work ≤ 9 * (base * guard) := by
  obtain ⟨d, hd⟩ := Nat.exists_eq_add_of_le (lt_work_of_lt_one hone).le
  have hgap := guard_le_gap hone hd
  have hguard : 128 ≤ guard := by decide
  have hthird : thirdWork ≤ base * guard := by
    rw [thirdWork_eq]
    omega
  obtain ⟨y, hy, hp⟩ := exists_argument hthird hone hexponent
  have hz := gap_lt_atanhArgument (by omega) hd
  have hgrown := two_pow_mul_le_expWorkNat 0 y (by omega)
  rw [pow_zero, Nat.one_mul, Nat.zero_mul, Nat.sub_zero] at hgrown
  have hterms : powerWork base exponent * (work + 4 * atanhArgument (base * guard)) ≤
      work * work := Nat.le_trans (Nat.mul_le_mul_left _ (by omega)) hp
  rw [hd] at hterms hnear
  have hbound := eight_mul_le_of_near hz (by omega) (by omega) hterms
  omega

theorem powerWork_le_of_far (hpos : 0 < base) (hfar : 2 * (base * guard) ≤ work)
    (hexponent : 2 * one ≤ exponent) :
    powerWork base exponent ≤ base * guard ∧ 5 * powerWork base exponent ≤ 2 * work := by
  have hone : base < one := by
    by_contra hlarge
    have habove : one * guard ≤ base * guard := Nat.mul_le_mul_right guard (Nat.not_lt.mp hlarge)
    have hwork : 0 < work := by decide
    rw [← work_eq_one_mul_guard] at habove
    omega
  have hguard : 128 ≤ guard := by decide
  have hlarge : 1000 ≤ work := by decide
  rcases Nat.lt_or_ge (base * guard) thirdWork with hbelow | hthird
  · obtain ⟨r, k, hk, hlow, hhigh, hr, hln⟩ :=
      lnWork_of_lt_thirdWork (Nat.mul_pos hpos (by decide)) hbelow
    obtain ⟨d, hd⟩ := Nat.exists_eq_add_of_le hhigh.le
    obtain ⟨y, hy, hp⟩ := powerWork_mul_le hln hexponent
    have hargument := twice_atanhArgument_le (Nat.lt_of_lt_of_le (by decide) hlow : 0 < r)
    have hgrown := two_pow_mul_le_expWorkNat (2 * k) y
      (by rw [Nat.mul_assoc]; omega)
    have hsteps : 4 ^ k * (work + 4 * atanhArgument r) ≤ expWorkNat y := by
      rw [pow_mul] at hgrown
      refine Nat.le_trans (Nat.mul_le_mul_left _ ?_) hgrown
      rw [Nat.mul_assoc]
      omega
    have hz := gap_lt_atanhArgument (by omega) hd
    rw [thirdWork_eq] at hlow hbelow
    rw [hd] at hsteps hp
    have hbase := le_of_steps hz (by omega) (by omega) hk hr hsteps hp
    exact ⟨hbase, by omega⟩
  · obtain ⟨d, hd⟩ := Nat.exists_eq_add_of_le (lt_work_of_lt_one hone).le
    have hgap := guard_le_gap hone hd
    obtain ⟨y, hy, hp⟩ := exists_argument hthird hone hexponent
    have hz := gap_lt_atanhArgument (by omega) hd
    have hargument := lt_three_mul_argument hz (by omega)
    have hgrown := two_pow_mul_le_expWorkNat 1 y (by omega)
    have hterms : powerWork base exponent * (8 * atanhArgument (base * guard)) ≤ work * work :=
      Nat.le_trans (Nat.mul_le_mul_left _ (by omega)) hp
    rw [thirdWork_eq] at hthird
    rw [hd] at hterms hthird ⊢
    exact ⟨le_of_far hz (by omega) (by omega) (by omega) hterms,
      five_mul_le_of_far hz (by omega) (by omega) hterms⟩

end Power

/-! ## Rounded powers -/

section Rounded

variable {base exponent : Nat}

theorem powerUp_of_lt (hpos : 0 < base) (hone : base < one) (hexponent : 0 < exponent) :
    powerUp base exponent = max 1 ((powerWork base exponent + guard - 1) / guard) := by
  have hnone : exactPower? base exponent = none := by
    unfold exactPower?
    rw [if_neg (by omega), if_neg (by omega), if_neg (by omega)]
  unfold powerUp
  rw [hnone, Option.getD_none]

theorem powerUp_zero (hexponent : 0 < exponent) : powerUp 0 exponent = 0 := by
  unfold powerUp exactPower?
  rw [if_neg (by omega), if_pos rfl, Option.getD_some]

theorem powerUp_one (exponent : Nat) : powerUp one exponent = one := by
  unfold powerUp exactPower?
  split
  · rfl
  · rw [if_neg (by decide), if_pos rfl, Option.getD_some]

theorem powerUp_mul_guard_le (hpos : 0 < base) (hone : base < one) (hexponent : 0 < exponent) :
    powerUp base exponent * guard ≤ powerWork base exponent + guard := by
  have hround := Nat.div_mul_le_self (powerWork base exponent + guard - 1) guard
  rw [powerUp_of_lt hpos hone hexponent]
  rcases Nat.le_total ((powerWork base exponent + guard - 1) / guard) 1 with hone | hmore
  · rw [Nat.max_eq_left hone, Nat.one_mul]
    exact Nat.le_add_left _ _
  · rw [Nat.max_eq_right hmore]
    omega

theorem eight_mul_powerUp_le (hone : base ≤ one) (hnear : one ≤ 2 * base)
    (hexponent : 2 * one ≤ exponent) : 8 * powerUp base exponent + one ≤ 9 * base + 8 := by
  have hpositive : 0 < one := by decide
  rcases Nat.eq_or_lt_of_le hone with rfl | hlt
  · rw [powerUp_one]
    omega
  · have hscaled : work ≤ 2 * (base * guard) := by
      rw [work_eq_one_mul_guard, ← Nat.mul_assoc]
      exact Nat.mul_le_mul_right guard hnear
    have hpower := eight_mul_powerWork_le hlt hscaled hexponent
    have hround := powerUp_mul_guard_le (by omega) hlt (by omega : 0 < exponent)
    rw [work_eq_one_mul_guard] at hpower
    refine Nat.le_of_mul_le_mul_right ?_ (by decide : 0 < guard)
    linarith

theorem five_mul_powerUp_le (hfar : 2 * base ≤ one) (hexponent : 2 * one ≤ exponent) :
    5 * powerUp base exponent ≤ 2 * one + 5 := by
  have hpositive : 0 < one := by decide
  rcases Nat.eq_zero_or_pos base with rfl | hpos
  · rw [powerUp_zero (by omega)]
    omega
  · have hscaled : 2 * (base * guard) ≤ work := by
      rw [work_eq_one_mul_guard, ← Nat.mul_assoc]
      exact Nat.mul_le_mul_right guard hfar
    have hpower := (powerWork_le_of_far hpos hscaled hexponent).2
    have hround := powerUp_mul_guard_le hpos (by omega) (by omega : 0 < exponent)
    rw [work_eq_one_mul_guard] at hpower
    refine Nat.le_of_mul_le_mul_right ?_ (by decide : 0 < guard)
    linarith

/-- An exponent of at least two takes no base below one any higher. -/
theorem powerUp_le_base (hone : base ≤ one) (hexponent : 2 * one ≤ exponent) :
    powerUp base exponent ≤ base := by
  have hpositive : 0 < one := by decide
  rcases Nat.eq_zero_or_pos base with rfl | hpos
  · rw [powerUp_zero (by omega)]
  · rcases Nat.eq_or_lt_of_le hone with rfl | hlt
    · rw [powerUp_one]
    · have hpower : powerWork base exponent ≤ base * guard := by
        rcases Nat.le_total work (2 * (base * guard)) with hnear | hfar
        · have hbelow := lt_work_of_lt_one hlt
          have hbound := eight_mul_powerWork_le hlt hnear hexponent
          omega
        · exact (powerWork_le_of_far hpos hfar hexponent).1
      have hunits : (powerWork base exponent + guard - 1) / guard < base + 1 := by
        rw [Nat.div_lt_iff_lt_mul (by decide), Nat.add_mul, Nat.one_mul]
        have hguard : 0 < guard := by decide
        omega
      rw [powerUp_of_lt hpos hlt (by omega)]
      omega

end Rounded

end CurveMarket.Fixed
