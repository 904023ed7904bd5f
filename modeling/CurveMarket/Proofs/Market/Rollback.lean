import CurveMarket.Proofs.Market.Effect

/-! # Rollback

A journal undoes what was done since it was empty: unwinding it from the present view brings an
earlier one back. Every effect that a call carries out keeps this true, so a call that fails in its
section leaves the view as it found it.
-/

namespace CurveMarket

open CurveMarket.Action Market

/-- An executor that acts on the ledgers alone while these callbacks wait. -/
def Executor.Direct (run : Executor) (waiting : List (CallbackTarget × Callback)) : Prop :=
  ∀ e m, m.callbacks = waiting → run e m = apply e m

theorem apply_direct (waiting : List (CallbackTarget × Callback)) :
    Executor.Direct apply waiting := fun _ _ _ => rfl

/-- From any market seen as `now`, unwinding ends in one seen as `before`. -/
def Undoes (journal : List UndoStep) (before now : MarketView) : Prop :=
  ∀ m, m.view = now → Succeeds (unwind journal) m fun _ m' => m'.view = before

theorem undoes_nil (v : MarketView) : Undoes [] v v := fun _ h => ends_pure h

theorem Undoes.cons {journal : List UndoStep} {undo : UndoStep} {before now next : MarketView}
    (h : Undoes journal before now)
    (hundo : ∀ m, m.view = next → Succeeds undo m fun _ m' => m'.view = now) :
    Undoes (undo :: journal) before next := by
  intro m hm
  refine .bind ((hundo m hm).imp ?_ fun _ _ hfalse => hfalse)
  intro _ m₁ hview
  exact h m₁ hview

/-! ## Effects in order -/

namespace MarketView

theorem Moves.eq {v w : MarketView} {e : Effect} (h : v.Moves e w) :
    w = { v with balances := w.balances, tokens := w.tokens } := by
  cases h with
  | transfer => rfl
  | mint => exact afterIssue_eq ..
  | burn => exact afterIssue_eq ..

theorem Moves.callbacks_eq {m m' : Market} {e : Effect} (h : m.view.Moves e m'.view) :
    m.callbacks = m'.callbacks := by
  have heq : m'.view.callbacks = m.view.callbacks := by rw [h.eq]
  exact heq.symm

/-- Effects that are let through one after another. -/
inductive MovesAll : MarketView → List Effect → MarketView → Prop
  | nil (v : MarketView) : MovesAll v [] v
  | cons {v u w : MarketView} {e : Effect} {rest : List Effect} (first : v.Moves e u)
      (others : MovesAll u rest w) : MovesAll v (e :: rest) w

theorem MovesAll.eq {v w : MarketView} {es : List Effect} (h : v.MovesAll es w) :
    w = { v with balances := w.balances, tokens := w.tokens } := by
  induction h with
  | nil => rfl
  | cons first _ ih =>
      rw [first.eq] at ih
      exact ih

/-- An effect looks at the ledgers only. -/
theorem Moves.frame {v v' w : MarketView} {e : Effect} (h : v.Moves e w)
    (hsymbol : v'.symbol = v.symbol) (hbalances : v'.balances = v.balances)
    (htokens : v'.tokens = v.tokens) (hcapabilities : v'.capabilities = v.capabilities) :
    v'.Moves e { v' with balances := w.balances, tokens := w.tokens } := by
  have hv : v' = { v' with
      symbol := v.symbol, balances := v.balances, tokens := v.tokens
      capabilities := v.capabilities } := by
    rw [← hsymbol, ← hbalances, ← htokens, ← hcapabilities]
  have hissue (t : Nat) (account : Text) (change : Int) :
      v'.afterIssue t account change =
        { v' with
          balances := (v.afterIssue t account change).balances
          tokens := (v.afterIssue t account change).tokens } := by
    rw [hv]
    unfold afterIssue token
    cases (v.tokens.getD t default).own with
    | none => rfl
    | some amounts => rfl
  cases h with
  | transfer hpayer hpayee hle hheld =>
      rw [hv]
      exact .transfer hpayer hpayee hle hheld
  | mint hauth haccount hle =>
      rw [← hissue]
      rw [hv]
      exact .mint hauth haccount hle
  | burn hauth haccount hle hheld =>
      rw [← hissue]
      rw [hv]
      exact .burn hauth haccount hle hheld

theorem MovesAll.frame {v v' w : MarketView} {es : List Effect} (h : v.MovesAll es w)
    (hsymbol : v'.symbol = v.symbol) (hbalances : v'.balances = v.balances)
    (htokens : v'.tokens = v.tokens) (hcapabilities : v'.capabilities = v.capabilities) :
    v'.MovesAll es { v' with balances := w.balances, tokens := w.tokens } := by
  induction h generalizing v' with
  | nil =>
      rw [← hbalances, ← htokens]
      exact .nil v'
  | cons first _ ih =>
      have hfirst := first.frame hsymbol hbalances htokens hcapabilities
      have heq := first.eq
      refine .cons hfirst (ih ?_ rfl rfl ?_)
      · rw [heq]
        exact hsymbol
      · rw [heq]
        exact hcapabilities

theorem MovesAll.withEntered {v w : MarketView} {es : List Effect} (h : v.MovesAll es w)
    (sections : List Section) :
    ({ v with entered := sections } : MarketView).MovesAll es { w with entered := sections } := by
  have hframe : ({ v with entered := sections } : MarketView).MovesAll es _ :=
    h.frame rfl rfl rfl rfl
  rw [h.eq]
  exact hframe

end MarketView

section Run

variable {run : Executor} {m : Market} (hrun : run.Direct m.callbacks)
include hrun

theorem run_ends (e : Effect) :
    Ends (run e) m (fun _ m' => m.view.Moves e m'.view)
      (fun err m' => err.IsRefusal ∧ m' = m ∧ ∀ w, ¬ m.view.Moves e w) := by
  unfold Ends
  rw [hrun e m rfl]
  exact apply_ends e m

theorem run_of_moves {e : Effect} {w : MarketView} (h : m.view.Moves e w) :
    Succeeds (run e) m fun _ m' => m'.view = w := by
  refine (run_ends hrun e).imp ?_ ?_
  · intro _ m' hmoves
    exact hmoves.unique h
  · intro err m' hrefused
    exact hrefused.2.2 w h

theorem performAll_of_moves {es : List Effect} {w : MarketView} (h : m.view.MovesAll es w)
    (journal : List UndoStep) :
    Succeeds (Journaled.performAll run es) (m, journal) fun _ t => t.1.view = w := by
  induction es generalizing m journal with
  | nil =>
      cases h
      exact ends_pure rfl
  | cons e rest ih =>
      cases h with
      | cons first others =>
          refine .bind (.bind (.focus ((run_of_moves hrun first).imp ?_ fun _ _ h => h)))
          intro _ m₁ hview
          rw [← hview] at first others
          exact ends_modify (ih (first.callbacks_eq ▸ hrun) others _)

theorem Undoes.perform {journal : List UndoStep} {before w : MarketView} {e : Effect}
    (h : Undoes journal before m.view) (hmoves : m.view.Moves e w) :
    Undoes (run e.inverse :: journal) before w := by
  refine h.cons fun m₁ hview => ?_
  have hback := inverse_moves hmoves
  rw [← hview] at hback hmoves
  exact run_of_moves (hmoves.callbacks_eq ▸ hrun) hback

end Run

/-- An effect that is let through leaves its inverse in the journal, and a refused one leaves the
journal as it was. -/
theorem perform_ends {run : Executor} {before : MarketView} (e : Effect) {m : Market}
    {journal : List UndoStep} (hrun : run.Direct m.callbacks) (h : Undoes journal before m.view) :
    Ends (Journaled.perform run e) (m, journal)
      (fun _ t => m.view.Moves e t.1.view ∧ Undoes t.2 before t.1.view)
      (fun err t => err.IsRefusal ∧ Undoes t.2 before t.1.view) := by
  refine .bind (.focus ((run_ends hrun e).imp ?_ ?_))
  · intro _ m₁ hmoves
    exact ends_modify ⟨hmoves, h.perform hrun hmoves⟩
  · rintro err m₁ ⟨href, rfl, -⟩
    exact ⟨href, h⟩

theorem performAll_ends {run : Executor} {before : MarketView} (es : List Effect) {m : Market}
    {journal : List UndoStep} (hrun : run.Direct m.callbacks) (h : Undoes journal before m.view) :
    Ends (Journaled.performAll run es) (m, journal)
      (fun _ t => m.view.MovesAll es t.1.view ∧ Undoes t.2 before t.1.view)
      (fun e t => e.IsRefusal ∧ Undoes t.2 before t.1.view) := by
  induction es generalizing m journal with
  | nil => exact ends_pure ⟨.nil _, h⟩
  | cons e rest ih =>
      refine .bind ((perform_ends e hrun h).imp ?_ fun _ _ h => h)
      rintro - ⟨m₁, journal₁⟩ ⟨hmoves, hundoes₁⟩
      refine (ih (hmoves.callbacks_eq ▸ hrun) hundoes₁).imp ?_ fun _ _ h => h
      rintro - t ⟨hall, hundoes⟩
      exact ⟨.cons hmoves hall, hundoes⟩

/-! ## Sections and plans -/

theorem entered_leave {m m' : Market} {s : Section} (hs : s ∉ m.entered)
    (h : m'.entered = s :: m.entered) : (m'.leave s).entered = m.entered := by
  show m'.entered.filter (· ≠ s) = m.entered
  rw [h, List.filter_cons_of_neg (by simp)]
  refine List.filter_eq_self.mpr fun s' hs' => ?_
  have hne : s' ≠ s := fun heq => hs (heq ▸ hs')
  simpa using hne

/-- A section whose body keeps a journal ends with what the journal brings back when the body
fails. -/
theorem guarded_unwinds {α : Type} {s : Section} {owner action : Text} {body : Journaled α}
    {m : Market} {Q : α → Market → Prop} {E : Error → MarketView → Prop}
    (hentered : s ∈ m.entered → E (.reentrant action owner) m.view)
    (hbody : s ∉ m.entered → Ends body (m.enter s, []) (fun x t => Q x (t.1.leave s))
      (fun e t => ∃ before, before.entered = s :: m.entered ∧ Undoes t.2 before t.1.view ∧
        E e { before with entered := m.entered })) :
    Ends (guarded s owner action body) m Q (fun e m' => E e m'.view) := by
  unfold Ends guarded
  by_cases hs : s ∈ m.entered
  · rw [if_pos hs]
    exact hentered hs
  · rw [if_neg hs]
    have hends := hbody hs
    cases hresult : body (m.enter s, []) with
    | ok x t => exact hends.of_ok hresult
    | error e t =>
        obtain ⟨before, hbefore, hundoes, hE⟩ := hends.of_error hresult
        obtain ⟨_, m', hunwind, hview⟩ := (hundoes t.1 rfl).exists_ok
        have hentered' : m'.entered = s :: m.entered := by
          rw [← hbefore, ← hview]
          rfl
        have hleft := entered_leave hs hentered'
        simp only [hunwind]
        show E e { m'.view with entered := (m'.leave s).entered }
        rw [hview, hleft]
        exact hE

/-- A section whose body keeps a journal that undoes it either succeeds or leaves no trace. -/
theorem guarded_ends {α : Type} {s : Section} {owner action : Text} {body : Journaled α}
    {m : Market} {Q : α → Market → Prop} {E : Error → Prop} (hentered : E (.reentrant action owner))
    (hbody : s ∉ m.entered → Ends body (m.enter s, []) (fun x t => Q x (t.1.leave s))
      (fun e t => E e ∧ Undoes t.2 (m.enter s).view t.1.view)) :
    Ends (guarded s owner action body) m Q (fun e m' => E e ∧ m'.view = m.view) := by
  refine guarded_unwinds (E := fun e v => E e ∧ v = m.view) (fun _ => ⟨hentered, rfl⟩) fun hs =>
    (hbody hs).imp (fun _ _ h => h) ?_
  intro e t hfailed
  exact ⟨(m.enter s).view, rfl, hfailed.2, hfailed.1, rfl⟩

theorem guarded_succeeds {α : Type} {s : Section} {owner action : Text} {body : Journaled α}
    {m : Market} {Q : α → Market → Prop} (hs : s ∉ m.entered)
    (hbody : Succeeds body (m.enter s, []) fun x t => Q x (t.1.leave s)) :
    Succeeds (guarded s owner action body) m Q := by
  obtain ⟨x, t, hresult, hQ⟩ := hbody.exists_ok
  unfold Succeeds Ends guarded
  rw [if_neg hs]
  simp only [hresult]
  exact hQ

theorem follow_ends {run : Executor} {α : Type} {plan : Market → Except Error (Plan α)}
    {m : Market} (hrun : run.Direct m.callbacks) {Q : α → Market → Prop} {E : Error → Prop}
    (hrefusal : ∀ e, e.IsRefusal → E e)
    (hplan : ∀ e, plan m = .error e → E e)
    (hfinish : ∀ p m₁, plan m = .ok p → m.view.MovesAll p.effects m₁.view →
      Ends p.finish m₁ (fun _ m₂ => Q p.result m₂) (fun e m₂ => E e ∧ m₂ = m₁)) :
    Ends (Journaled.follow run plan) (m, []) (fun x t => Q x t.1)
      (fun e t => E e ∧ Undoes t.2 m.view t.1.view) := by
  refine .bind (.bind (ends_get (ends_pure ?_)))
  refine .bind (ends_ofExcept (fun p hp => ?_) fun e he => ⟨hplan e he, undoes_nil _⟩)
  refine .bind ((performAll_ends p.effects hrun (undoes_nil m.view)).imp ?_ ?_)
  · rintro - ⟨m₁, journal⟩ ⟨hmoves, hundoes⟩
    refine .bind (.focus ((hfinish p m₁ hp hmoves).imp ?_ ?_))
    · rintro - m₂ hQ
      exact ends_pure hQ
    · rintro e m₂ ⟨he, rfl⟩
      exact ⟨he, hundoes⟩
  · rintro e t ⟨he, hundoes⟩
    exact ⟨hrefusal e he, hundoes⟩

theorem follow_succeeds {run : Executor} {α : Type} {plan : Market → Except Error (Plan α)}
    {m : Market} (hrun : run.Direct m.callbacks) {p : Plan α} {w : MarketView}
    {Q : α → Market → Prop} (hplan : plan m = .ok p) (hmoves : m.view.MovesAll p.effects w)
    (hfinish : ∀ m₁, m₁.view = w → Succeeds p.finish m₁ fun _ m₂ => Q p.result m₂) :
    Succeeds (Journaled.follow run plan) (m, []) fun x t => Q x t.1 := by
  refine .bind (.bind (ends_get (ends_pure ?_)))
  refine .bind (ends_ofExcept (fun p' hp => ?_) fun e he => ?_)
  · cases hplan.symm.trans hp
    refine .bind ((performAll_of_moves hrun hmoves []).imp ?_ fun _ _ h => h)
    intro _ t hview
    refine .bind (.focus ((hfinish t.1 hview).imp ?_ fun _ _ h => h))
    intro _ m₂ hQ
    exact ends_pure hQ
  · cases hplan.symm.trans he

end CurveMarket
