import CurveMarket.Proofs.Fixed.Order

/-! # Bounds of the results

The three powers of the same operands round one number of the working scale, so they keep the order
of their roundings and are no more than a unit apart. Exponents are cut at a limit whose exponential
has less than 256 bits. No other exponential is larger, and no power either.
-/

namespace CurveMarket.Fixed

/-! ## Three roundings of one number -/

section Rounding

variable (v : Nat)

theorem div_guard_le_roundUnits : v / guard ≤ roundUnits v :=
  Nat.div_le_div_right (Nat.le_add_right v _)

theorem roundUnits_le_divUp : roundUnits v ≤ (v + guard - 1) / guard := by
  have hhalf : guard / 2 < guard := by decide
  exact Nat.div_le_div_right (by omega)

theorem divUp_le_div_guard_add_one : (v + guard - 1) / guard ≤ v / guard + 1 := by
  rw [← Nat.add_div_right v (by decide : 0 < guard)]
  exact Nat.div_le_div_right (Nat.sub_le _ 1)

end Rounding

section Power

variable (base exponent : Nat)

theorem roundedPower_le {round round' : Nat → Nat} (h : ∀ v, round v ≤ round' v) :
    roundedPower round base exponent ≤ roundedPower round' base exponent := by
  unfold roundedPower
  cases exactPower? base exponent with
  | some r => rw [Option.getD_some, Option.getD_some]
  | none =>
      rw [Option.getD_none, Option.getD_none]
      exact h _

theorem powerDown_le_power : powerDown base exponent ≤ power base exponent := by
  rw [powerDown_eq_roundedPower, power_eq_roundedPower]
  exact roundedPower_le base exponent div_guard_le_roundUnits

theorem power_le_powerUp : power base exponent ≤ powerUp base exponent := by
  rw [power_eq_roundedPower, powerUp_eq_roundedPower]
  exact roundedPower_le base exponent fun v => (roundUnits_le_divUp v).trans (le_max_right 1 _)

/-- Not even where a power is flushed to zero and still rounded up to a unit. -/
theorem powerUp_le_powerDown_add_one : powerUp base exponent ≤ powerDown base exponent + 1 := by
  unfold powerUp powerDown
  cases exactPower? base exponent with
  | some r =>
      rw [Option.getD_some, Option.getD_some]
      exact Nat.le_succ r
  | none =>
      rw [Option.getD_none, Option.getD_none]
      exact max_le (Nat.le_add_left 1 _) (divUp_le_div_guard_add_one _)

end Power

/-! ## The limit -/

/-- The exponential at the limit, with a unit to spare for rounding. -/
theorem expWork_limit : expWork ((maxExponent * guard : Nat) : Int) / guard + 1 < 2 ^ 256 := by
  decide +kernel

theorem expWork_le_limit {y : Int} (hlow : -((minExponentMagnitude * guard : Nat) : Int) ≤ y)
    (hhigh : y ≤ ((maxExponent * guard : Nat) : Int)) :
    expWork y ≤ expWork ((maxExponent * guard : Nat) : Int) := by
  have hlimit : maxExponent * guard = 130 * work := by decide
  have hflush : minExponentMagnitude * guard ≤ 130 * work := by decide
  exact expWork_mono hhigh (by omega) (by omega)

theorem powerWork_le_limit (base exponent : Nat) :
    powerWork base exponent ≤ expWork ((maxExponent * guard : Nat) : Int) := by
  unfold powerWork
  dsimp only
  split
  · exact Nat.zero_le _
  · exact expWork_le_limit (by omega) (Int.min_le_right _ _)

theorem powerDown_add_one_lt (base exponent : Nat) : powerDown base exponent + 1 < 2 ^ 256 := by
  have hone : one + 1 < 2 ^ 256 := by decide
  rw [powerDown_eq_roundedPower]
  rcases Nat.eq_zero_or_pos exponent with rfl | hexponent
  · rw [roundedPower_zero_right]
    exact hone
  · rcases Nat.eq_zero_or_pos base with rfl | hbase
    · rw [roundedPower_zero_left _ (Nat.ne_of_gt hexponent)]
      decide
    · rw [roundedPower_eq (by decide) hbase]
      have hpower := Nat.div_le_div_right (c := guard) (powerWork_le_limit base exponent)
      exact Nat.lt_of_le_of_lt (Nat.add_le_add_right hpower 1) expWork_limit

theorem exp_maxExponent :
    exp maxExponent = roundUnits (expWork ((maxExponent * guard : Nat) : Int)) := by
  rw [exp_of_ge (by decide), Int.min_self, Int.natCast_mul]

theorem exp_maxExponent_lt : exp maxExponent < 2 ^ 256 := by
  rw [exp_maxExponent]
  exact Nat.lt_of_le_of_lt ((roundUnits_le_divUp _).trans (divUp_le_div_guard_add_one _))
    expWork_limit

theorem exp_le_exp_maxExponent (x : Int) : exp x ≤ exp maxExponent := by
  rcases Int.lt_or_le x (-(minExponentMagnitude : Int)) with hlow | hhigh
  · rw [exp_of_lt hlow]
    exact Nat.zero_le _
  · have hscale : (0 : Int) ≤ guard := Int.natCast_nonneg guard
    have hleast := Int.mul_le_mul_of_nonneg_right (Int.le_min.mpr ⟨hhigh, by decide⟩ :
      -(minExponentMagnitude : Int) ≤ min x maxExponent) hscale
    have hmost := Int.mul_le_mul_of_nonneg_right (Int.min_le_right x maxExponent) hscale
    rw [Int.neg_mul, ← Int.natCast_mul] at hleast
    rw [← Int.natCast_mul] at hmost
    rw [exp_maxExponent, exp_of_ge hhigh]
    exact monotone_roundUnits (expWork_le_limit hleast hmost)

/-! ## Powers and exponentials of any operands -/

/-- Rounded down, to nearest and up, a power keeps that order within one unit, and it is never
rounded up to zero unless its base is zero. Powers and exponentials have at most 256 bits, and no
exponential is above the one at the limit. -/
theorem powers_bracketed :
    (∀ {base exponent : Int}, 0 ≤ base → 0 ≤ exponent → ∃ d p u : Nat,
      checked powerDown base exponent = .ok d ∧ checked power base exponent = .ok p ∧
      checked powerUp base exponent = .ok u ∧ (d ≤ p ∧ p ≤ u ∧ u ≤ d + 1) ∧ (0 < base → 1 ≤ u) ∧
      d < 2 ^ 256 ∧ p < 2 ^ 256 ∧ u < 2 ^ 256) ∧
    ∀ x : Int, exp x ≤ exp maxExponent ∧ exp x < 2 ^ 256 := by
  constructor
  · intro base exponent hbase hexponent
    have hlow := powerDown_le_power base.toNat exponent.toNat
    have hhigh := power_le_powerUp base.toNat exponent.toNat
    have hunit := powerUp_le_powerDown_add_one base.toNat exponent.toNat
    have hbits := powerDown_add_one_lt base.toNat exponent.toNat
    refine ⟨_, _, _, checked_of_nonneg _ hbase hexponent, checked_of_nonneg _ hbase hexponent,
      checked_of_nonneg _ hbase hexponent, ⟨hlow, hhigh, hunit⟩, ?_, ?_⟩
    · intro hpos
      exact powerUp_pos (by omega) _
    · omega
  · intro x
    have hlimit := exp_le_exp_maxExponent x
    exact ⟨hlimit, Nat.lt_of_le_of_lt hlimit exp_maxExponent_lt⟩

/-- A power that is flushed to zero and one that is cut at the limit. -/
theorem sample_powers_bracketed :
    ((0 : Int) ≤ 2 ∧ (0 : Int) ≤ 2 * one ∧ ∃ d p u : Nat,
      checked powerDown 2 (2 * one) = .ok d ∧ checked power 2 (2 * one) = .ok p ∧
      checked powerUp 2 (2 * one) = .ok u ∧ (d ≤ p ∧ p ≤ u ∧ u ≤ d + 1) ∧ ((0 : Int) < 2 → 1 ≤ u) ∧
      d < 2 ^ 256 ∧ p < 2 ^ 256 ∧ u < 2 ^ 256) ∧
    exp (200 * one) ≤ exp maxExponent ∧ exp (200 * one) < 2 ^ 256 :=
  ⟨⟨by decide, by decide, powers_bracketed.1 (by decide) (by decide)⟩, powers_bracketed.2 _⟩

end CurveMarket.Fixed
