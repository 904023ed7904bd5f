import CurveMarket.Proofs.Fixed.Order
import CurveMarket.Proofs.Fixed.Range

/-! # The loops end

The logarithm and the exponential are written with loops that carry a state and say nowhere why they
end: two reductions by powers of `e`, two series that are summed until a term vanishes, and a squaring
loop. Each of them is set out here as a condition and a turn. It ends from every state that the
kernels enter it in, with the state that the kernels go on with, and on the way nothing leaves the
range that the next loop relies on.
-/

namespace CurveMarket.Fixed

/-- A loop goes on with a turn while its condition holds. -/
structure Loop (σ : Type) where
  goesOn : σ → Prop
  turn : σ → σ

/-- Entered in the first state, the loop ends in the second after finitely many turns. -/
inductive Loop.Ends {σ : Type} (loop : Loop σ) : σ → σ → Prop
  | stop {s : σ} (h : ¬ loop.goesOn s) : loop.Ends s s
  | turn {s t : σ} (h : loop.goesOn s) (rest : loop.Ends (loop.turn s) t) : loop.Ends s t

namespace Loop

/-! ## Reductions -/

def down (num den bound : Nat) : Loop (Nat × Int) where
  goesOn s := bound < s.1
  turn s := (s.1 * num / den, s.2 + 1)

def up (num den bound : Nat) : Loop (Nat × Int) where
  goesOn s := s.1 < bound
  turn s := (s.1 * num / den, s.2 - 1)

theorem down_ends {num den : Nat} (hlt : num < den) (bound x : Nat) (count : Int) :
    (down num den bound).Ends (x, count)
      ((scaleDownBy num den bound x).1, count + (scaleDownBy num den bound x).2) := by
  fun_induction scaleDownBy num den bound x generalizing count with
  | case1 x h r ih =>
      refine .turn h.1 ?_
      have hcount : count + ((r.2 + 1 : Nat) : Int) = count + 1 + r.2 := by omega
      rw [hcount]
      exact ih (count + 1)
  | case2 x h =>
      rw [Int.natCast_zero, Int.add_zero]
      exact .stop fun hgo => h ⟨hgo, hlt⟩

theorem up_ends {num den : Nat} (hden : 0 < den) (hnum : 2 * den ≤ num) (bound : Nat) {x : Nat}
    (hx : 0 < x) (count : Int) :
    (up num den bound).Ends (x, count)
      ((scaleUpBy num den bound x).1, count - (scaleUpBy num den bound x).2) := by
  fun_induction scaleUpBy num den bound x generalizing count with
  | case1 x h r ih =>
      refine .turn h.1.2 ?_
      have hcount : count - ((r.2 + 1 : Nat) : Int) = count - 1 - r.2 := by omega
      rw [hcount]
      exact ih (hx.trans (lt_mul_div hx hden hnum)) (count - 1)
  | case2 x h =>
      rw [Int.natCast_zero, Int.sub_zero]
      exact .stop fun hgo => h ⟨⟨hx, hgo⟩, hden, hnum⟩

/-! ## Series -/

/-- Adds `term / k` and makes the next term, while there is one. The state is the term, the sum and
`k`. -/
def atanh (scale square : Nat) : Loop (Nat × Nat × Nat) where
  goesOn s := s.1 ≠ 0
  turn s := (s.1 * square / scale, s.2.1 + s.1 / s.2.2, s.2.2 + 2)

/-- Makes the next term and adds it, until it vanishes. The state is the term, the sum and the next
divisor. -/
def taylor (scale fraction : Nat) : Loop (Nat × Nat × Nat) where
  goesOn s := s.1 ≠ 0
  turn s := (s.1 * fraction / (scale * s.2.2), s.2.1 + s.1 * fraction / (scale * s.2.2), s.2.2 + 1)

theorem atanh_ends {scale square : Nat} (hlt : square < scale) (term total k : Nat) :
    ∃ k', (atanh scale square).Ends (term, total, k)
      (0, total + atanhSeries scale square term k, k') := by
  fun_induction atanhSeries scale square term k generalizing total with
  | case1 term k h ih =>
      obtain ⟨k', hends⟩ := ih (total + term / k)
      rw [Nat.add_assoc] at hends
      exact ⟨k', .turn (Nat.ne_of_gt h.1) hends⟩
  | case2 term k h =>
      have hdone : term = 0 := by omega
      subst hdone
      exact ⟨k, .stop fun hgo => hgo rfl⟩

theorem taylor_ends {scale fraction : Nat} (hlt : fraction < scale) (term total k : Nat) :
    ∃ k', (taylor scale fraction).Ends (term, total, k)
      (0, total + taylorTail scale fraction term k, k') := by
  fun_induction taylorTail scale fraction term k generalizing total with
  | case1 term k h next ih =>
      obtain ⟨k', hends⟩ := ih (total + next)
      rw [Nat.add_assoc] at hends
      exact ⟨k', .turn (Nat.ne_of_gt h.1) hends⟩
  | case2 term k h =>
      have hdone : term = 0 := by omega
      subst hdone
      exact ⟨k, .stop fun hgo => hgo rfl⟩

/-! ## Squaring -/

/-- Takes the exponent bit by bit. The state is the exponent, the result and the base, which is not
squared any more after the last bit. -/
def square (scale : Nat) : Loop (Nat × Nat × Nat) where
  goesOn s := s.1 ≠ 0
  turn s := (s.1 / 2, if s.1 % 2 = 1 then s.2.1 * s.2.2 / scale else s.2.1,
    if s.1 / 2 ≠ 0 then s.2.2 * s.2.2 / scale else s.2.2)

theorem square_ends (scale result base power : Nat) :
    ∃ base', (square scale).Ends (power, result, base)
      (0, mulPower scale result base power, base') := by
  fun_induction mulPower scale result base power with
  | case1 result base => exact ⟨base, .stop fun hgo => hgo rfl⟩
  | case2 result base power h ih =>
      simp only [dite_eq_ite] at ih ⊢
      generalize hnext : (if power % 2 = 1 then result * base / scale else result) = next at ih ⊢
      by_cases hlast : power / 2 = 0
      · have hturn : (square scale).turn (power, result, base) = (0, next, base) := by
          simp only [square, hnext, hlast, ne_eq, not_true_eq_false, if_false]
        refine ⟨base, .turn h ?_⟩
        rw [hturn, hlast, mulPower, dif_pos rfl]
        exact .stop fun hgo => hgo rfl
      · have hturn : (square scale).turn (power, result, base) =
            (power / 2, next, base * base / scale) := by
          simp only [square, hnext, ne_eq, hlast, not_false_eq_true, if_true]
        obtain ⟨base', hends⟩ := ih
        refine ⟨base', .turn h ?_⟩
        rwa [hturn]

end Loop

/-! ## The range of the logarithm -/

section Reduction

variable {x d r n k : Nat}

/-- No positive number is scaled both ways, and it is brought between a third and three. -/
theorem reduced_in_range (hx : 0 < x) (hdown : scaleDown x = (d, n)) (hup : scaleUp d = (r, k)) :
    0 < d ∧ thirdWork ≤ r ∧ r ≤ threeWork ∧ (n = 0 ∨ k = 0) := by
  have hpos : 0 < thirdWork := by decide
  rcases Nat.lt_or_ge threeWork x with hlarge | hsmall
  · -- The last step down starts above three, so it does not lead below a third.
    have hstep : thirdWork ≤ threeWork * work / eWork := by decide
    have hbound : thirdWork ≤ threeWork := by decide
    have hlow : thirdWork ≤ (scaleDown x).1 := le_scaleDownBy hstep (by omega)
    have hhigh : (scaleDown x).1 ≤ threeWork := scaleDownBy_le work_lt_eWork x
    rw [hdown] at hlow hhigh
    cases (scaleUp_of_le hlow).symm.trans hup
    exact ⟨by omega, hlow, hhigh, .inr rfl⟩
  · -- The last step up starts below a third, so it does not lead above three.
    cases (scaleDown_of_le hsmall).symm.trans hdown
    have hlow : thirdWork ≤ (scaleUp x).1 := le_scaleUpBy (by decide) (by decide) hx
    have hhigh : (scaleUp x).1 < threeWork + 1 := scaleUpBy_lt (by decide) (by omega)
    rw [hup] at hlow hhigh
    exact ⟨hx, hlow, Nat.le_of_lt_succ hhigh, .inl rfl⟩

end Reduction

/-- The argument of the series is a half at both ends of the range. Below a third of a whole, which
is where the rounded third is, its floor makes it so. -/
theorem twice_atanhArgument_le_work {r : Nat} (hlow : thirdWork ≤ r) (hhigh : r ≤ threeWork) :
    2 * atanhArgument r ≤ work := by
  rcases Nat.lt_or_ge r work with hbelow | habove
  · have hend : 2 * atanhArgument thirdWork ≤ work := by decide
    have hle := atanhArgument_anti hbelow hlow
    omega
  · have hend : 2 * atanhArgument threeWork ≤ work := by decide
    have hle := atanhArgument_mono habove hhigh
    omega

/-! ## The range of the exponential -/

theorem expWork_pos {y : Int} (hy : -((minExponentMagnitude * guard : Nat) : Int) ≤ y) :
    0 < expWork y := by
  have hwork : 0 < work := by decide
  rcases Int.lt_or_le y 0 with hneg | hnonneg
  · have hlimit : minExponentMagnitude * guard ≤ 130 * work := by decide
    have hmost : expWorkNat (minExponentMagnitude * guard) ≤ work * work := by decide +kernel
    have hle : expWorkNat y.natAbs ≤ work * work :=
      (expWorkNat_mono (by omega) hlimit).trans hmost
    unfold expWork
    rw [if_pos hneg]
    exact Nat.div_pos hle (Nat.lt_of_lt_of_le hwork (work_le_expWorkNat _))
  · exact Nat.lt_of_lt_of_le hwork (work_le_expWork hnonneg)

/-! ## The kernels -/

/-- The loops of a logarithm: what both reductions come to, and the sum of the series. -/
structure LogarithmRun (x d r total : Nat) (n count : Int) : Prop where
  down : (Loop.down work eWork threeWork).Ends (x, 0) (d, n)
  up : (Loop.up eWork work thirdWork).Ends (d, n) (r, count)
  third_le : thirdWork ≤ r
  le_three : r ≤ threeWork
  one_way : n = 0 ∨ count = n
  argument_le : 2 * atanhArgument r ≤ work
  series : ∃ k, (Loop.atanh work (atanhArgument r * atanhArgument r / work)).Ends
    (atanhArgument r, 0, 1) (0, total, k)
  result_eq : lnWork x = (if work ≤ r then 2 * (total : Int) else -(2 * total)) + count * work

/-- The loops of an exponential: the sum of the series for the fraction, and what the wholes make of
it. A negative exponent takes the reciprocal. -/
structure ExponentialRun (y : Int) (total result : Nat) : Prop where
  series : ∃ k, (Loop.taylor work (y.natAbs % work)).Ends (work, work, 1) (0, total, k)
  square : ∃ base, (Loop.square work).Ends (y.natAbs / work, total, eWork) (0, result, base)
  work_le : work ≤ result
  result_eq : expWork y = if y < 0 then work * work / result else result

theorem exists_logarithmRun {x : Nat} (hx : 0 < x) :
    ∃ d r total n count, LogarithmRun x d r total n count := by
  rcases hdown : scaleDown x with ⟨d, n⟩
  rcases hup : scaleUp d with ⟨r, k⟩
  obtain ⟨hpos, hlow, hhigh, honly⟩ := reduced_in_range hx hdown hup
  have hfirst : (Loop.down work eWork threeWork).Ends (x, 0) (d, n) := by
    have hends := Loop.down_ends work_lt_eWork threeWork x 0
    rwa [← scaleDown, hdown, Int.zero_add] at hends
  have hsecond : (Loop.up eWork work thirdWork).Ends (d, n) (r, n - k) := by
    have hends := Loop.up_ends (by decide) (by decide : 2 * work ≤ eWork) thirdWork hpos n
    rwa [← scaleUp, hup] at hends
  have hsquare := atanhArgument_sq_lt_work (Nat.lt_of_lt_of_le (by decide) hlow : 0 < r)
  have hseries := Loop.atanh_ends hsquare (atanhArgument r) 0 1
  rw [Nat.zero_add] at hseries
  refine ⟨d, r, _, n, _, hfirst, hsecond, hlow, hhigh, by omega,
    twice_atanhArgument_le_work hlow hhigh, hseries, ?_⟩
  rw [lnWork_eq_of_reduction hdown hup]
  rfl

theorem exists_exponentialRun (y : Int) : ∃ total result, ExponentialRun y total result := by
  have hfraction : y.natAbs % work < work := Nat.mod_lt _ (by decide)
  exact ⟨_, _, Loop.taylor_ends hfraction work work 1,
    Loop.square_ends work (expFraction (y.natAbs % work)) eWork (y.natAbs / work),
    work_le_expWorkNat _, rfl⟩

/-- All loops of the kernels end. For a logarithm of any positive number the reductions end between a
third and three and at most one of them takes a turn, and the argument of the series is between zero
and a half. For an exponential of any number the result is at least a whole, so that a reciprocal can
be taken of it, and down to the flush the reciprocal is positive. -/
theorem kernels_end :
    (∀ x : Nat, 1 ≤ x → ∃ d r total n count, LogarithmRun x d r total n count) ∧
    ∀ y : Int, (∃ total result, ExponentialRun y total result) ∧ (0 ≤ y → work ≤ expWork y) ∧
      (-((minExponentMagnitude * guard : Nat) : Int) ≤ y → 0 < expWork y) :=
  ⟨fun _ hx => exists_logarithmRun hx,
    fun y => ⟨exists_exponentialRun y, work_le_expWork, expWork_pos⟩⟩

theorem sample_kernels_end :
    (1 ≤ 1 ∧ ∃ d r total n count, LogarithmRun 1 d r total n count) ∧
    (∃ total result, ExponentialRun (-(42 * work)) total result) ∧
    (-((minExponentMagnitude * guard : Nat) : Int) ≤ -(42 * work) ∧ 0 < expWork (-(42 * work))) ∧
    ((0 : Int) ≤ 1000 * work ∧ work ≤ expWork (1000 * work)) :=
  ⟨⟨le_rfl, kernels_end.1 1 le_rfl⟩, (kernels_end.2 _).1,
    ⟨by decide, (kernels_end.2 _).2.2 (by decide)⟩, by decide, (kernels_end.2 _).2.1 (by decide)⟩

end CurveMarket.Fixed
