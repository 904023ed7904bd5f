import CurveMarket.Proofs.Action

/-! # Actions side by side

Two actions, each from a state of its own, end alike when both give one result or both fail with one
error. `Alike` also says what holds of the two states at either end. Its rules are those of `Ends`,
with one action beside the other; two programs that differ in a part are compared by them up to that
part.
-/

namespace CurveMarket

namespace Action

variable {σ τ α β : Type}

/-- From `s` and `t` both actions end with one result and states in `Q`, or with one error and
states in `E`. -/
inductive Alike (a : Action σ α) (b : Action τ α) (s : σ) (t : τ) (Q : α → σ → τ → Prop)
    (E : Error → σ → τ → Prop) : Prop
  | ok {x : α} {s' : σ} {t' : τ} (left : a s = .ok x s') (right : b t = .ok x t') (post : Q x s' t')
  | error {e : Error} {s' : σ} {t' : τ} (left : a s = .error e s') (right : b t = .error e t')
      (post : E e s' t')

variable {a : Action σ α} {b : Action τ α} {s s' : σ} {t t' : τ} {x : α} {e : Error}
  {Q Q' : α → σ → τ → Prop} {E E' : Error → σ → τ → Prop}

theorem Alike.imp (h : Alike a b s t Q E) (hok : ∀ x s' t', Q x s' t' → Q' x s' t')
    (herror : ∀ e s' t', E e s' t' → E' e s' t') : Alike a b s t Q' E' := by
  cases h with
  | ok left right post => exact .ok left right (hok _ _ _ post)
  | error left right post => exact .error left right (herror _ _ _ post)

/-! ## Rules -/

theorem alike_pure (h : Q x s t) : Alike (pure x) (pure x) s t Q E := .ok rfl rfl h

theorem alike_throw (h : E e s t) : Alike (throw e) (throw e) s t Q E := .error rfl rfl h

theorem alike_modify {f : σ → σ} {g : τ → τ} {Q : PUnit → σ → τ → Prop} (h : Q ⟨⟩ (f s) (g t)) :
    Alike (modify f : Action σ PUnit) (modify g : Action τ PUnit) s t Q E := .ok rfl rfl h

section Sequence

variable {f : β → Action σ α} {g : β → Action τ α}

theorem Alike.bind {a : Action σ β} {b : Action τ β}
    (h : Alike a b s t (fun x s' t' => Alike (f x) (g x) s' t' Q E) E) :
    Alike (a >>= f) (b >>= g) s t Q E := by
  cases h with
  | ok left right post =>
      cases post with
      | ok left' right' post' =>
          exact .ok ((bind_of_ok left).trans left') ((bind_of_ok right).trans right') post'
      | error left' right' post' =>
          exact .error ((bind_of_ok left).trans left') ((bind_of_ok right).trans right') post'
  | error left right post => exact .error (bind_of_error left) (bind_of_error right) post

theorem Alike.map {f : β → α} {a : Action σ β} {b : Action τ β}
    (h : Alike a b s t (fun x s' t' => Q (f x) s' t') E) : Alike (f <$> a) (f <$> b) s t Q E := by
  have hleft : f <$> a = a >>= fun x => pure (f x) := rfl
  have hright : f <$> b = b >>= fun x => pure (f x) := rfl
  rw [hleft, hright]
  exact .bind (h.imp (fun _ _ _ => alike_pure) fun _ _ _ h => h)

/-- A check on the way, that both make. -/
theorem alike_check {v : Except Error β} (herror : ∀ e, v = .error e → E e s t)
    (hok : ∀ x, v = .ok x → Alike (f x) (g x) s t Q E) :
    Alike (liftM v >>= f) (liftM v >>= g) s t Q E := by
  cases v with
  | ok x => exact hok x rfl
  | error e => exact .error rfl rfl (herror e rfl)

end Sequence

theorem alike_unless {c : Prop} [Decidable c] {next : PUnit → Action σ α}
    {next' : PUnit → Action τ α} (herror : c → E e s t)
    (hok : ¬ c → Alike (next ⟨⟩) (next' ⟨⟩) s t Q E) :
    Alike (if c then throw e >>= next else next ⟨⟩) (if c then throw e >>= next' else next' ⟨⟩)
      s t Q E := by
  by_cases h : c
  · rw [if_pos h, if_pos h]
    exact .error rfl rfl (herror h)
  · rw [if_neg h, if_neg h]
    exact hok h

theorem alike_ite {c : Prop} [Decidable c] {a' : Action σ α} {b' : Action τ α}
    (hpos : c → Alike a b s t Q E) (hneg : ¬ c → Alike a' b' s t Q E) :
    Alike (if c then a else a') (if c then b else b') s t Q E := by
  by_cases h : c
  · rw [if_pos h, if_pos h]
    exact hpos h
  · rw [if_neg h, if_neg h]
    exact hneg h

theorem Alike.tryCatch {a b : EStateM Error σ α} {f g : Error → EStateM Error σ α} {s t : σ}
    {Q : α → σ → σ → Prop} {E : Error → σ → σ → Prop}
    (h : Alike a b s t Q fun e s' t' => Alike (f e) (g e) s' t' Q E) :
    Alike (MonadExcept.tryCatch a f) (MonadExcept.tryCatch b g) s t Q E := by
  have hok {a : EStateM Error σ α} {f : Error → EStateM Error σ α} {s s' : σ} {x : α}
      (ha : a s = .ok x s') : MonadExcept.tryCatch a f s = .ok x s' := by
    show MonadExcept.tryCatch (fun _ => a s : EStateM Error σ α) f s = _
    rw [ha]
    rfl
  have herror {a : EStateM Error σ α} {f : Error → EStateM Error σ α} {s s' : σ} {e : Error}
      (ha : a s = .error e s') : MonadExcept.tryCatch a f s = f e s' := by
    show MonadExcept.tryCatch (fun _ => a s : EStateM Error σ α) f s = _
    rw [ha]
    rfl
  cases h with
  | ok left right post => exact .ok (hok left) (hok right) post
  | error left right post =>
      cases post with
      | ok left' right' post' =>
          exact .ok ((herror left).trans left') ((herror right).trans right') post'
      | error left' right' post' =>
          exact .error ((herror left).trans left') ((herror right).trans right') post'

theorem Alike.focus {ρ ω : Type} {part : ρ → σ} {replace : ρ → σ → ρ} {part' : ω → τ}
    {replace' : ω → τ → ω} {v : ρ} {w : ω} {Q : α → ρ → ω → Prop} {E : Error → ρ → ω → Prop}
    (h : Alike a b (part v) (part' w) (fun x s t => Q x (replace v s) (replace' w t))
      fun e s t => E e (replace v s) (replace' w t)) :
    Alike (focus part replace a) (focus part' replace' b) v w Q E := by
  unfold Action.focus
  cases h with
  | ok left right post =>
      refine .ok ?_ ?_ post
      · simp only [left]
      · simp only [right]
  | error left right post =>
      refine .error ?_ ?_ post
      · simp only [left]
      · simp only [right]

theorem Ends.alike {Q : α → σ → Prop} {E : Error → σ → Prop} (h : Ends a s Q E) :
    Alike a a s s (fun x s' t' => s' = t' ∧ Q x s') fun e s' t' => s' = t' ∧ E e s' := by
  cases ha : a s with
  | ok x s' => exact .ok ha ha ⟨rfl, h.of_ok ha⟩
  | error e s' => exact .error ha ha ⟨rfl, h.of_error ha⟩

theorem Alike.ends {Q : α → σ → σ → Prop} {E : Error → σ → σ → Prop} (h : Alike a a s s Q E) :
    Ends a s (fun x s' => Q x s' s') fun e s' => E e s' s' := by
  unfold Ends
  cases h with
  | ok left right post =>
      cases left.symm.trans right
      rw [left]
      exact post
  | error left right post =>
      cases left.symm.trans right
      rw [left]
      exact post

end Action

end CurveMarket
