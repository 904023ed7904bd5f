import Mathlib.Data.List.Forall2
import CurveMarket.Pool.Rule
import CurveMarket.Proofs.Action

/-! # Checks

What a check has established when it passes, and how it fails: checks refuse a call for a cause of
their own. Only a commit reports broken rules, so the errors of checks, quotes and new terms are all
of other kinds.
-/

namespace CurveMarket

/-- An error that is no report of broken rules. -/
def Error.IsRefusal (e : Error) : Prop := e.kind ≠ .invariantViolation

/-- Every error of a check is a refusal. -/
def OnlyRefuses {α : Type} (v : Except Error α) : Prop := ∀ e, v = .error e → e.IsRefusal

namespace OnlyRefuses

variable {α β : Type} {v : Except Error α} {f : α → Except Error β}

theorem pure (x : α) : OnlyRefuses (pure x) := fun _ h => nomatch h

theorem throw {e : Error} (h : e.IsRefusal) : OnlyRefuses (throw e : Except Error α) := by
  intro e' he
  cases he
  exact h

theorem bind (hv : OnlyRefuses v) (hf : ∀ x, OnlyRefuses (f x)) : OnlyRefuses (v >>= f) := by
  cases v with
  | ok x => exact hf x
  | error e =>
      intro e' he
      cases he
      exact hv e rfl

theorem map {g : α → β} (hv : OnlyRefuses v) : OnlyRefuses (g <$> v) := by
  cases v with
  | ok x => exact OnlyRefuses.pure _
  | error e =>
      intro e' he
      cases he
      exact hv e rfl

theorem test {c : Prop} [Decidable c] {e : Error} {next : PUnit → Except Error α}
    (he : e.IsRefusal) (hnext : OnlyRefuses (next ⟨⟩)) :
    OnlyRefuses (if c then MonadExcept.throw e >>= next else next ⟨⟩) := by
  split
  · exact OnlyRefuses.throw he
  · exact hnext

theorem ite {c : Prop} [Decidable c] {w : Except Error α} (hv : OnlyRefuses v)
    (hw : OnlyRefuses w) : OnlyRefuses (if c then v else w) := by
  split
  · exact hv
  · exact hw

end OnlyRefuses

namespace Check

variable {α β : Type} {v : Except Error α} {f : α → Except Error β} {x : α} {y : β}

theorem pure_eq_ok {x' : α} : (pure x : Except Error α) = .ok x' ↔ x = x' := by
  show Except.ok x = .ok x' ↔ _
  simp

theorem bind_eq_ok : v >>= f = .ok y ↔ ∃ x, v = .ok x ∧ f x = .ok y := by
  cases v with
  | ok x =>
      show f x = .ok y ↔ _
      simp
  | error e =>
      show Except.error e = .ok y ↔ _
      simp

theorem map_eq_ok {g : α → β} : g <$> v = .ok y ↔ ∃ x, v = .ok x ∧ g x = y := by
  cases v with
  | ok x =>
      show Except.ok (g x) = .ok y ↔ _
      simp
  | error e =>
      show Except.error e = .ok y ↔ _
      simp

theorem test_eq_ok {c : Prop} [Decidable c] {e : Error} {next : PUnit → Except Error α} :
    (if c then throw e >>= next else next ⟨⟩) = .ok x ↔ ¬ c ∧ next ⟨⟩ = .ok x := by
  by_cases h : c
  · rw [if_pos h]
    show Except.error e = .ok x ↔ _
    simp [h]
  · rw [if_neg h]
    simp [h]

theorem guard_eq_ok {c : Prop} [Decidable c] {e : Error} {u : Unit} :
    (if c then .error e else .ok () : Except Error Unit) = .ok u ↔ ¬ c := by
  by_cases h : c
  · simp [h]
  · simp [h]

/-- A traversal that succeeds gives for each entry what comes of it. -/
theorem forall₂_of_mapM_eq_ok {l : List α} {ys : List β} (h : l.mapM f = .ok ys) :
    List.Forall₂ (fun x y => f x = .ok y) l ys := by
  induction l generalizing ys with
  | nil =>
      cases h
      exact .nil
  | cons x rest ih =>
      rw [List.mapM_cons] at h
      obtain ⟨first, hfirst, h⟩ := bind_eq_ok.mp h
      obtain ⟨others, hothers, h⟩ := bind_eq_ok.mp h
      cases h
      exact .cons hfirst (ih hothers)

theorem forall_of_mapM_eq_ok {P : β → Prop} (hf : ∀ x y, f x = .ok y → P y) {l : List α}
    {ys : List β} (h : l.mapM f = .ok ys) : ∀ y ∈ ys, P y := by
  intro y hy
  obtain ⟨i, hi, rfl⟩ := List.mem_iff_getElem.mp hy
  have hall := forall₂_of_mapM_eq_ok h
  exact hf _ _ (hall.get (by rw [hall.length_eq]; exact hi) hi)

theorem forall_of_forM_eq_ok {f : α → Except Error Unit} {l : List α} {u : Unit}
    (h : l.forM f = .ok u) : ∀ x ∈ l, f x = .ok () := by
  induction l with
  | nil => nofun
  | cons first rest ih =>
      obtain ⟨_, hfirst, hrest⟩ := bind_eq_ok.mp h
      intro x hx
      rcases List.mem_cons.mp hx with rfl | hmem
      · exact hfirst
      · exact ih hrest x hmem

end Check

/-! ## Arguments -/

theorem requireInt_refuses (what : Text) (value : Option Int) :
    OnlyRefuses (requireInt what value) := by
  cases value with
  | none => exact .throw nofun
  | some v => exact .pure v

theorem requireNonNegative_refuses (what : Text) (value : Option Int) :
    OnlyRefuses (requireNonNegative what value) :=
  .bind (requireInt_refuses what value) fun _ => .test nofun (.pure _)

theorem requirePositive_refuses (reason : Text) (amount : Option Int) :
    OnlyRefuses (requirePositive reason amount) :=
  .bind (requireInt_refuses _ amount) fun _ => .test nofun (.pure _)

theorem requireAccount_refuses (reason : Text) (account : Option Text) :
    OnlyRefuses (requireAccount reason account) := by
  cases account with
  | none => exact .throw nofun
  | some a => exact .ite (.throw nofun) (.pure a)

theorem requireInt_eq_ok {what : Text} {value : Option Int} {n : Int} :
    requireInt what value = .ok n ↔ value = some n := by
  cases value with
  | none => simp [requireInt]
  | some v => simp [requireInt]

theorem requireNonNegative_eq_ok {what : Text} {value : Option Int} {n : Nat} :
    requireNonNegative what value = .ok n ↔ value = some (n : Int) := by
  unfold requireNonNegative
  rw [Check.bind_eq_ok]
  constructor
  · intro h
    rcases h with ⟨v, hv, h⟩
    rw [Check.test_eq_ok, Check.pure_eq_ok] at h
    rw [requireInt_eq_ok] at hv
    rcases h with ⟨hneg, rfl⟩
    rw [hv, Int.toNat_of_nonneg (by omega)]
  · intro h
    refine ⟨n, requireInt_eq_ok.mpr h, Check.test_eq_ok.mpr ⟨by omega, ?_⟩⟩
    rw [Int.toNat_natCast]
    rfl

theorem requireNonNegative_of_neg {what : Text} {n : Int} (h : n < 0) :
    requireNonNegative what (some n) = .error (.negative what n) := by
  unfold requireNonNegative
  show (if n < 0 then _ else _) = _
  rw [if_pos h]
  rfl

theorem requirePositive_eq_ok {reason : Text} {amount : Option Int} {n : Int} :
    requirePositive reason amount = .ok n ↔ amount = some n ∧ 0 < n := by
  unfold requirePositive
  rw [Check.bind_eq_ok]
  constructor
  · intro h
    rcases h with ⟨v, hv, h⟩
    rw [Check.test_eq_ok, Check.pure_eq_ok] at h
    rw [requireInt_eq_ok] at hv
    rcases h with ⟨hpos, rfl⟩
    exact ⟨hv, by omega⟩
  · intro h
    exact ⟨n, requireInt_eq_ok.mpr h.1, Check.test_eq_ok.mpr ⟨by omega, rfl⟩⟩

/-- An account as the ledgers ask for it. -/
def IsAccount (account : Option Text) (a : Text) : Prop := account = some a ∧ a.isEmpty = false

theorem filled_eq_ok {given name : Text} {e : Error} :
    (if given.isEmpty then .error e else .ok given : Except Error Text) = .ok name ↔
      given = name ∧ name.isEmpty = false := by
  by_cases h : given.isEmpty
  · rw [if_pos h]
    constructor
    · intro hok
      cases hok
    · intro hname
      rw [hname.1, hname.2] at h
      cases h
  · rw [if_neg h, Except.ok.injEq]
    constructor
    · intro heq
      rw [← heq]
      exact ⟨rfl, Bool.eq_false_iff.mpr h⟩
    · intro hname
      exact hname.1

theorem requireAccount_eq_ok {reason : Text} {account : Option Text} {a : Text} :
    requireAccount reason account = .ok a ↔ IsAccount account a := by
  unfold requireAccount IsAccount
  cases account with
  | none => simp
  | some given => simp only [filled_eq_ok, Option.some.injEq]

theorem requireModel_eq_ok {model : Option Text} {name : Text} :
    requireModel model = .ok name ↔ model = some name ∧ name.isEmpty = false := by
  unfold requireModel
  cases model with
  | none => simp
  | some given => simp only [filled_eq_ok, Option.some.injEq]

/-! ## Quotes -/

theorem charge_refuses (amount rate : Option Int) : OnlyRefuses (charge amount rate) := by
  refine .bind (requireNonNegative_refuses _ amount) fun _ => .bind ?_ fun _ => .pure _
  exact .bind (requireNonNegative_refuses _ rate) fun _ => .test nofun (.pure _)

theorem Curve.Order.check_refuses (supply reserve amount ratio : Option Int) :
    OnlyRefuses (Curve.Order.check supply reserve amount ratio) := by
  refine .bind (requireNonNegative_refuses _ supply) fun _ => ?_
  refine .bind (requireNonNegative_refuses _ reserve) fun _ => ?_
  refine .bind (requireNonNegative_refuses _ amount) fun _ => .bind ?_ fun _ => .pure _
  exact .bind (requireInt_refuses _ ratio) fun _ => .test nofun (.pure _)

namespace PoolState

theorem quoteBuy_refuses (s : PoolState) (supply amount : Option Int) :
    OnlyRefuses (s.quoteBuy supply amount) := by
  refine .bind (charge_refuses amount _) fun _ => .bind (requireInt_refuses _ amount) fun _ => ?_
  have hcurve (supply reserve deposit ratio : Option Int) :
      OnlyRefuses (Curve.buy supply reserve deposit ratio) :=
    .map (Curve.Order.check_refuses supply reserve deposit ratio)
  refine .ite (.bind (hcurve _ _ _ _) fun _ => .pure _) (.ite (.pure _) ?_)
  exact .bind (hcurve _ _ _ _) fun _ => .pure _

theorem quoteSell_refuses (s : PoolState) (supply tokens : Option Int) :
    OnlyRefuses (s.quoteSell supply tokens) := by
  unfold quoteSell
  split
  · refine .bind (.map (Curve.Order.check_refuses _ _ _ _)) fun _ => .bind (.pure _) fun _ => ?_
    exact .bind (charge_refuses _ _) fun _ => .bind (requireInt_refuses _ tokens) fun _ => .pure _
  · refine .bind (requireInt_refuses _ tokens) fun _ => .bind (.pure _) fun _ => ?_
    exact .bind (charge_refuses _ _) fun _ => .bind (requireInt_refuses _ tokens) fun _ => .pure _

/-! ## Rules of trade and new terms -/

theorem requireNotPaused_refuses (s : PoolState) : OnlyRefuses s.requireNotPaused :=
  .ite (.throw nofun) (.pure _)

theorem requireSellsEnabled_refuses (s : PoolState) (now : Int) :
    OnlyRefuses (s.requireSellsEnabled now) := .ite (.throw nofun) (.pure _)

theorem requireWithinLimit_refuses (s : PoolState) (amount : Int) :
    OnlyRefuses (s.requireWithinLimit amount) := .ite (.throw nofun) (.pure _)

theorem requireReserveRemains_refuses (s : PoolState) (out : Int) :
    OnlyRefuses (s.requireReserveRemains out) := .ite (.throw nofun) (.pure _)

end PoolState

theorem requireNotExpired_refuses (deadline now : Int) :
    OnlyRefuses (requireNotExpired deadline now) := .ite (.throw nofun) (.pure _)

theorem requireMinOut_refuses (actual minimum : Int) :
    OnlyRefuses (requireMinOut actual minimum) := .ite (.throw nofun) (.pure _)

theorem requireBalance_refuses (what : Text) (balance amount : Int) :
    OnlyRefuses (requireBalance what balance amount) := .ite (.throw nofun) (.pure _)

theorem checkRatio_refuses (ratio : Option Int) : OnlyRefuses (checkRatio ratio) := by
  refine .bind (requireInt_refuses _ ratio) fun v => ?_
  split
  · exact .pure _
  · exact .throw nofun

theorem checkTradeFee_refuses (fee : Option Int) : OnlyRefuses (checkTradeFee fee) := by
  refine .bind (requireInt_refuses _ fee) fun v => .test nofun ?_
  split
  · exact .pure _
  · exact .throw nofun

theorem checkTradeCap_refuses (cap : Option Int) : OnlyRefuses (checkTradeCap cap) := by
  refine .bind (requireInt_refuses _ cap) fun v => ?_
  split
  · split
    · exact .pure _
    · exact .throw nofun
  · exact .throw nofun

theorem checkPositive_refuses (what : Text) (value : Option Int) :
    OnlyRefuses (checkPositive what value) := by
  refine .bind (requireInt_refuses _ value) fun v => ?_
  split
  · exact .pure _
  · exact .throw nofun

theorem Terms.make_refuses (q : TermsRequest) : OnlyRefuses (Terms.make q) := by
  refine .bind (checkRatio_refuses q.ratio) fun _ => .bind (checkTradeFee_refuses q.tradeFee) ?_
  refine fun _ => .bind (checkTradeCap_refuses q.tradeCap) fun _ => ?_
  refine .bind (checkPositive_refuses _ q.threshold) fun _ => ?_
  refine .bind (checkPositive_refuses _ q.flatPrice) fun _ => ?_
  exact .bind (requireNonNegative_refuses _ q.buyOnlySeconds) fun _ => .pure _

theorem PoolState.withRatioAndFee_refuses (s : PoolState) (ratio fee : Option Int) :
    OnlyRefuses (s.withRatioAndFee ratio fee) :=
  .bind (Terms.make_refuses _) fun _ => .pure _

theorem PoolState.withTradeCap_refuses (s : PoolState) (cap : Option Int) :
    OnlyRefuses (s.withTradeCap cap) :=
  .bind (Terms.make_refuses _) fun _ => .pure _

end CurveMarket
