import CurveMarket.Market.Effect

/-! # How actions end

An action ends with a result or an error, and with a state in both cases. `Ends` states what holds
of either end, and its rules follow the ways in which actions are put together. The equations at the
end take a successful sequence apart into its steps.
-/

namespace CurveMarket

namespace Action

variable {σ τ α β : Type} {a : Action σ α} {f : α → Action σ β} {s t u : σ} {x : α} {y : β}
  {e : Error}

/-- From `s` the action ends with a result and a state in `Q`, or with an error and a state
in `E`. -/
def Ends (a : Action σ α) (s : σ) (Q : α → σ → Prop) (E : Error → σ → Prop) : Prop :=
  match a s with
  | .ok x t => Q x t
  | .error e t => E e t

/-- From `s` the action ends with a result and a state in `Q`. -/
def Succeeds (a : Action σ α) (s : σ) (Q : α → σ → Prop) : Prop := Ends a s Q fun _ _ => False

/-! ## Rules -/

section Rules

variable {Q Q' : α → σ → Prop} {E E' : Error → σ → Prop} {R : β → σ → Prop}

theorem Ends.of_ok (h : Ends a s Q E) (ha : a s = .ok x t) : Q x t := by
  simpa only [Ends, ha] using h

theorem Ends.of_error (h : Ends a s Q E) (ha : a s = .error e t) : E e t := by
  simpa only [Ends, ha] using h

theorem ends_of (hok : ∀ x t, a s = .ok x t → Q x t) (herror : ∀ e t, a s = .error e t → E e t) :
    Ends a s Q E := by
  unfold Ends
  cases h : a s with
  | ok x t => exact hok x t h
  | error e t => exact herror e t h

theorem Ends.imp (h : Ends a s Q E) (hok : ∀ x t, Q x t → Q' x t)
    (herror : ∀ e t, E e t → E' e t) : Ends a s Q' E' :=
  ends_of (fun x t ha => hok x t (h.of_ok ha)) fun e t ha => herror e t (h.of_error ha)

theorem Ends.stateAfter {P : σ → Prop} (h : Ends a s (fun _ t => P t) fun _ t => P t) :
    P (a.stateAfter s) := by
  unfold Action.stateAfter
  cases ha : a s with
  | ok x t => exact h.of_ok ha
  | error e t => exact h.of_error ha

theorem ends_pure (h : Q x s) : Ends (pure x) s Q E := h

theorem ends_throw (h : E e s) : Ends (throw e) s Q E := h

theorem ends_get {Q : σ → σ → Prop} {E : Error → σ → Prop} (h : Q s s) :
    Ends (MonadState.get : Action σ σ) s Q E := h

theorem ends_modify {g : σ → σ} {Q : PUnit → σ → Prop} {E : Error → σ → Prop} (h : Q ⟨⟩ (g s)) :
    Ends (modify g : Action σ PUnit) s Q E := h

/-- A test that throws, in front of what follows. -/
theorem ends_unless {c : Prop} [Decidable c] {next : PUnit → Action σ α} (herror : c → E e s)
    (hok : ¬ c → Ends (next ⟨⟩) s Q E) :
    Ends (if c then throw e >>= next else next ⟨⟩) s Q E := by
  by_cases h : c
  · rw [if_pos h]
    exact herror h
  · rw [if_neg h]
    exact hok h

theorem bind_of_ok (h : a s = .ok x t) : (a >>= f) s = f x t := by
  simp only [bind, EStateM.bind, h]

theorem bind_of_error (h : a s = .error e t) : (a >>= f) s = .error e t := by
  simp only [bind, EStateM.bind, h]

theorem Ends.bind (h : Ends a s (fun x t => Ends (f x) t R E) E) : Ends (a >>= f) s R E := by
  unfold Ends
  cases ha : a s with
  | ok x t =>
      rw [bind_of_ok ha]
      exact h.of_ok ha
  | error e t =>
      rw [bind_of_error ha]
      exact h.of_error ha

theorem Ends.map {g : α → β} (h : Ends a s (fun x t => R (g x) t) E) : Ends (g <$> a) s R E := by
  have hmap : g <$> a = a >>= fun x => pure (g x) := rfl
  rw [hmap]
  exact h.bind

theorem Ends.tryCatch {a : EStateM Error σ α} {f : Error → EStateM Error σ α}
    (h : Ends a s Q fun e t => Ends (f e) t Q E) : Ends (MonadExcept.tryCatch a f) s Q E := by
  have hcatch : MonadExcept.tryCatch a f s =
      MonadExcept.tryCatch (fun _ => a s : EStateM Error σ α) f s := rfl
  unfold Ends
  rw [hcatch]
  cases ha : a s with
  | ok x t => exact h.of_ok ha
  | error e t => exact h.of_error ha

theorem ends_ofExcept {v : Except Error α} (hok : ∀ x, v = .ok x → Q x s)
    (herror : ∀ e, v = .error e → E e s) : Ends (liftM v) s Q E := by
  cases v with
  | ok x => exact hok x rfl
  | error e => exact herror e rfl

theorem ends_ofExcept_ok {v : Except Error α} (hv : v = .ok x) (h : Q x s) :
    Ends (liftM v) s Q E := by
  rw [hv]
  exact h

theorem Ends.focus {part : τ → σ} {replace : τ → σ → τ} {w : τ} {Q : α → τ → Prop}
    {E : Error → τ → Prop}
    (h : Ends a (part w) (fun x t => Q x (replace w t)) fun e t => E e (replace w t)) :
    Ends (focus part replace a) w Q E := by
  unfold Ends Action.focus
  cases ha : a (part w) with
  | ok x t => exact h.of_ok ha
  | error e t => exact h.of_error ha

end Rules

/-! ## Successful runs -/

theorem Succeeds.exists_ok {Q : α → σ → Prop} (h : Succeeds a s Q) :
    ∃ x t, a s = .ok x t ∧ Q x t := by
  cases ha : a s with
  | ok x t => exact ⟨x, t, rfl, Ends.of_ok h ha⟩
  | error e t => exact (Ends.of_error h ha).elim

theorem exists_ok_of_outcome (h : (a.outcome s).isOk = true) :
    ∃ x, a s = .ok x (a.stateAfter s) := by
  unfold outcome at h
  unfold stateAfter
  cases ha : a s with
  | ok x t => exact ⟨x, rfl⟩
  | error e t =>
      rw [ha] at h
      cases h

theorem exists_error_of_outcome (h : (a.outcome s).isOk = false) :
    ∃ e, a s = .error e (a.stateAfter s) := by
  unfold outcome at h
  unfold stateAfter
  cases ha : a s with
  | ok x t =>
      rw [ha] at h
      cases h
  | error e t => exact ⟨e, rfl⟩

theorem bind_eq_ok : (a >>= f) s = .ok y u ↔ ∃ x t, a s = .ok x t ∧ f x t = .ok y u := by
  cases ha : a s with
  | ok x t =>
      rw [bind_of_ok ha]
      constructor
      · intro h
        exact ⟨x, t, rfl, h⟩
      · rintro ⟨_, _, heq, h⟩
        cases heq
        exact h
  | error e t =>
      rw [bind_of_error ha]
      constructor
      · intro h
        cases h
      · rintro ⟨_, _, heq, -⟩
        cases heq

theorem map_eq_ok {g : α → β} : (g <$> a) s = .ok y t ↔ ∃ x, a s = .ok x t ∧ g x = y := by
  have hmap : g <$> a = a >>= fun x => pure (g x) := rfl
  rw [hmap, bind_eq_ok]
  constructor
  · rintro ⟨x, u, ha, h⟩
    cases h
    exact ⟨x, ha, rfl⟩
  · rintro ⟨x, ha, rfl⟩
    exact ⟨x, t, ha, rfl⟩

theorem pure_eq_ok {x' : α} : (pure x : Action σ α) s = .ok x' t ↔ x = x' ∧ s = t := by
  show EStateM.Result.ok x s = .ok x' t ↔ _
  simp

theorem test_eq_ok {c : Prop} [Decidable c] {next : PUnit → Action σ α} :
    (if c then throw e >>= next else next ⟨⟩) s = .ok x t ↔ ¬ c ∧ next ⟨⟩ s = .ok x t := by
  by_cases h : c
  · rw [if_pos h]
    constructor
    · intro hthrow
      cases hthrow
    · intro hno
      exact absurd h hno.1
  · rw [if_neg h]
    exact ⟨fun hok => ⟨h, hok⟩, fun hok => hok.2⟩

theorem ofExcept_eq_ok {v : Except Error α} :
    (liftM v : Action σ α) s = .ok x t ↔ v = .ok x ∧ s = t := by
  cases v with
  | ok x' =>
      show EStateM.Result.ok x' s = .ok x t ↔ _
      simp
  | error e =>
      show EStateM.Result.error e s = .ok x t ↔ _
      simp

end Action

end CurveMarket
