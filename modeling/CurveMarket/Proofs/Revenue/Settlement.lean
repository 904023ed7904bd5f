import CurveMarket.Proofs.Market.Nesting
import CurveMarket.Proofs.Revenue.Reserve

/-! # Invoices that are let through

Which invoices a reserve pays, and what they leave, as a relation of views. A batch and single
payments both follow it: they succeed exactly for the invoices that are let through one after
another, and end in the view that these lead to.
-/

namespace CurveMarket

open CurveMarket.Action Market

namespace Market

def payInTurn (run : Executor) (i : Nat) : List Payment → Action Market Unit
  | [] => pure ()
  | payment :: rest => do
    let _ ← pay run i payment
    payInTurn run i rest

end Market

/-! ## Sections and views -/

theorem Market.view_leave {m m' : Market} {s : Section} (hs : s ∉ m.entered)
    (h : m'.entered = s :: m.entered) : (m'.leave s).view = { m'.view with entered := m.entered } := by
  have hleft := entered_leave hs h
  show ({ m'.view with entered := (m'.leave s).entered } : MarketView) = _
  rw [hleft]

section Sections

variable {α : Type} {s : Section} {owner action : Text} {body : Journaled α} {m : Market}

/-- A call that is let in ends in the view of its body, but for the mark of its section. -/
theorem guarded_view_ends {Q : MarketView → Prop}
    (hbody : s ∉ m.entered → Ends body (m.enter s, [])
      (fun _ t => t.1.entered = s :: m.entered ∧ Q { t.1.view with entered := m.entered })
      fun _ _ => True) :
    Ends (guarded s owner action body) m (fun _ m' => s ∉ m.entered ∧ Q m'.view)
      fun _ _ => True := by
  refine ends_of (fun x m' h => ?_) fun _ _ _ => trivial
  have hs := free_of_guarded h
  obtain ⟨t, ht, rfl⟩ := guarded_eq_ok h
  obtain ⟨hentered, hQ⟩ := (hbody hs).of_ok ht
  refine ⟨hs, ?_⟩
  rw [view_leave hs hentered]
  exact hQ

theorem guarded_view_succeeds {w : MarketView} (hs : s ∉ m.entered) (hw : w.entered = m.entered)
    (hbody : Succeeds body (m.enter s, []) fun _ t =>
      t.1.view = { w with entered := s :: m.entered }) :
    Succeeds (guarded s owner action body) m fun _ m' => m'.view = w := by
  refine guarded_succeeds hs (hbody.imp ?_ fun _ _ h => h)
  intro _ t hview
  rw [view_leave hs (congrArg MarketView.entered hview), hview, ← hw]

end Sections

namespace MarketView

variable {i : Nat} {v u w w' : MarketView}

/-- Reserve `i` lets calls in that it does not take while it is paused. -/
def Open (i : Nat) (v : MarketView) : Prop :=
  .reserve i ∉ v.entered ∧ (v.reserve i).paused = false

theorem movesAll_updateReserve {es : List Effect} {g : ReserveView → ReserveView} :
    (v.updateReserve i g).MovesAll es w ↔
      ∃ u, v.MovesAll es u ∧ w = u.updateReserve i g := by
  constructor
  · intro h
    have hframe : v.MovesAll es { v with balances := w.balances, tokens := w.tokens } :=
      h.frame rfl rfl rfl rfl
    refine ⟨_, hframe, ?_⟩
    rw [h.eq]
    rfl
  · intro h
    obtain ⟨u, hmoves, rfl⟩ := h
    have hframe : (v.updateReserve i g).MovesAll es _ := hmoves.frame rfl rfl rfl rfl
    rw [hmoves.eq]
    exact hframe

/-! ## Invoices that are let through -/

/-- How an invoice that is paid changes a view. -/
inductive Settles (i : Nat) (v : MarketView) : Payment → MarketView → Prop
  | mk {payment : Payment} {model payee : Text} {amount : Int} {u : MarketView}
      (names : payment.model = some model) (named : model.isEmpty = false)
      (pays : payment.payee = some payee) (asks : payment.amount = some amount)
      (positive : 0 < amount) (accrued : amount ≤ (v.reserve i).accrued model)
      (moves : v.Moves (.transfer (v.reserve i).account payee amount) u) :
      Settles i v payment (u.updateReserve i (.settle model amount))

inductive SettlesAll (i : Nat) : MarketView → List Payment → MarketView → Prop
  | nil (v : MarketView) : SettlesAll i v [] v
  | cons {v u w : MarketView} {payment : Payment} {rest : List Payment}
      (first : v.Settles i payment u) (others : SettlesAll i u rest w) :
      SettlesAll i v (payment :: rest) w

theorem Settles.unique {payment : Payment} (h : v.Settles i payment w)
    (h' : v.Settles i payment w') : w = w' := by
  cases h with
  | mk names _ pays asks _ _ moves =>
      cases h' with
      | mk names' _ pays' asks' _ _ moves' =>
          cases names.symm.trans names'
          cases pays.symm.trans pays'
          cases asks.symm.trans asks'
          rw [moves.unique moves']

theorem SettlesAll.unique {payments : List Payment} (h : SettlesAll i v payments w)
    (h' : SettlesAll i v payments w') : w = w' := by
  induction h with
  | nil =>
      cases h'
      rfl
  | cons first _ ih =>
      cases h' with
      | cons first' others' =>
          rw [first'.unique first] at others'
          exact ih others'

/-- A payment leaves all but the ledgers and the figures of the reserves alone. -/
theorem Settles.eq {payment : Payment} (h : v.Settles i payment w) :
    w = { v with balances := w.balances, tokens := w.tokens, reserves := w.reserves } := by
  cases h with
  | mk _ _ _ _ _ _ moves =>
      rw [moves.eq]
      rfl

theorem Settles.withEntered {payment : Payment} (h : v.Settles i payment w)
    (sections : List Section) :
    ({ v with entered := sections } : MarketView).Settles i payment
      { w with entered := sections } := by
  cases h with
  | mk names named pays asks positive accrued moves =>
      have hmoves := movesAll_singleton.mp ((movesAll_singleton.mpr moves).withEntered sections)
      exact Settles.mk (v := { v with entered := sections }) names named pays asks positive accrued
        hmoves

theorem SettlesAll.withEntered {payments : List Payment} (h : SettlesAll i v payments w)
    (sections : List Section) :
    SettlesAll i { v with entered := sections } payments { w with entered := sections } := by
  induction h with
  | nil => exact .nil _
  | cons first _ ih => exact .cons (first.withEntered sections) ih

theorem reserve_updateReserve_of_keeps {α : Type} {g : ReserveView → ReserveView}
    {f : ReserveView → α} (h : ∀ r, f (g r) = f r) (i : Nat) (v : MarketView) :
    f ((v.updateReserve i g).reserve i) = f (v.reserve i) :=
  getD_modify_of_keeps h v.reserves i i

theorem Settles.isOpen {payment : Payment} (h : v.Settles i payment w) (hopen : v.Open i) :
    w.Open i := by
  cases h with
  | @mk model _ amount u _ _ _ _ _ _ moves =>
      have hpaused := reserve_updateReserve_of_keeps (f := ReserveView.paused)
        (g := .settle model amount) (fun _ => rfl) i u
      rw [moves.eq] at hpaused ⊢
      exact ⟨hopen.1, hpaused.trans hopen.2⟩

end MarketView

theorem Market.view_open (m : Market) (i : Nat) :
    m.view.Open i ↔ .reserve i ∉ m.entered ∧ (m.reserve i).paused = false := by
  unfold MarketView.Open
  rw [view_reserve]
  rfl

/-! ## Payments -/

section Payments

open MarketView

variable {run : Executor} {i : Nat}

theorem settle_settles {s : Market × List UndoStep} (hrun : run.Direct s.1.callbacks)
    (payment : Payment) :
    Ends (settle run i payment) s (fun _ t => s.1.view.Settles i payment t.1.view)
      fun _ _ => True := by
  have hreserve := view_reserve s.1 i
  unfold settle
  refine .bind (ends_ofExcept (fun model hmodel => ?_) fun _ _ => trivial)
  refine .bind (ends_ofExcept (fun payee hpayee => ?_) fun _ _ => trivial)
  refine .bind (ends_ofExcept (fun amount hamount => ?_) fun _ _ => trivial)
  refine .bind (.bind (ends_get (ends_pure ?_)))
  refine .bind (ends_ofExcept (fun _ haccrued => ?_) fun _ _ => trivial)
  refine .bind (.focus ((run_ends hrun _).imp ?_ fun _ _ _ => trivial))
  intro _ m₁ hmoves
  obtain ⟨hnames, hnamed⟩ := requireModel_eq_ok.mp hmodel
  obtain ⟨hasks, hpositive⟩ := requirePositive_eq_ok.mp hamount
  have hle := Int.not_lt.mp (Check.guard_eq_ok.mp haccrued)
  refine .bind (ends_modify (ends_pure ?_))
  rw [view_updateReserve m₁ i fun r => view_settle r model amount]
  refine .mk hnames hnamed (requireAccount_eq_ok.mp hpayee).1 hasks hpositive ?_ ?_
  · rw [hreserve]
    exact hle
  · rw [hreserve]
    exact hmoves

theorem settle_of_settles {s : Market × List UndoStep} (hrun : run.Direct s.1.callbacks)
    {payment : Payment} {w : MarketView} (h : s.1.view.Settles i payment w) :
    Succeeds (settle run i payment) s fun _ t => t.1.view = w := by
  have hreserve := view_reserve s.1 i
  cases h with
  | @mk model payee amount u names named pays asks positive accrued moves =>
      rw [hreserve] at accrued moves
      have hpayee : payee.isEmpty = false := by
        cases moves with
        | transfer _ hpayee => exact hpayee
      unfold settle
      refine .bind (ends_ofExcept_ok (requireModel_eq_ok.mpr ⟨names, named⟩) ?_)
      refine .bind (ends_ofExcept_ok (requireAccount_eq_ok.mpr ⟨pays, hpayee⟩) ?_)
      refine .bind (ends_ofExcept_ok (requirePositive_eq_ok.mpr ⟨asks, positive⟩) ?_)
      have hcovered : requireAccrued (s.1.reserve i) model amount = .ok () :=
        Check.guard_eq_ok.mpr (Int.not_lt.mpr accrued)
      refine .bind (.bind (ends_get (ends_pure (.bind (ends_ofExcept_ok hcovered ?_)))))
      refine .bind (.focus ((run_of_moves hrun moves).imp ?_ fun _ _ h => h))
      intro _ m₁ hview
      refine .bind (ends_modify (ends_pure ?_))
      rw [view_updateReserve m₁ i fun r => view_settle r model amount, hview]

theorem MarketView.Settles.callbacks_eq {m m' : Market} {payment : Payment}
    (h : m.view.Settles i payment m'.view) : m.callbacks = m'.callbacks := by
  have heq : m'.view.callbacks = m.view.callbacks := by rw [h.eq]
  exact heq.symm

theorem settleAll_settles {m : Market} {journal : List UndoStep} (hrun : run.Direct m.callbacks)
    (payments : List Payment) :
    Ends (settleAll run i payments) (m, journal)
      (fun _ t => SettlesAll i m.view payments t.1.view) fun _ _ => True := by
  induction payments generalizing m journal with
  | nil => exact ends_pure (.nil _)
  | cons payment rest ih =>
      refine .bind ((settle_settles (s := (m, journal)) hrun payment).imp ?_ fun _ _ h => h)
      intro _ t hfirst
      have hquiet : m.callbacks = t.1.callbacks := hfirst.callbacks_eq
      refine .bind (ends_modify (.bind ((ih (hquiet ▸ hrun)).imp ?_ fun _ _ h => h)))
      intro _ u hrest
      exact ends_pure (.cons hfirst hrest)

theorem settleAll_of_settlesAll {m : Market} {journal : List UndoStep}
    (hrun : run.Direct m.callbacks) {payments : List Payment} {w : MarketView}
    (h : SettlesAll i m.view payments w) :
    Succeeds (settleAll run i payments) (m, journal) fun _ t => t.1.view = w := by
  induction payments generalizing m journal with
  | nil =>
      cases h
      exact ends_pure rfl
  | cons payment rest ih =>
      cases h with
      | cons first others =>
          refine .bind ((settle_of_settles (s := (m, journal)) hrun first).imp ?_ fun _ _ h => h)
          intro x t hview
          rw [← hview] at first others
          have hquiet : m.callbacks = t.1.callbacks := first.callbacks_eq
          have hrest : Succeeds (settleAll run i rest) (t.1, run x.2 :: t.2)
              fun _ t => t.1.view = w := ih (hquiet ▸ hrun) others
          exact .bind (ends_modify (.bind (hrest.imp (fun _ _ h => ends_pure h) fun _ _ h => h)))

theorem MarketView.SettlesAll.entered_eq {v w : MarketView} {payments : List Payment}
    (h : SettlesAll i v payments w) : w.entered = v.entered := by
  induction h with
  | nil => rfl
  | cons first _ ih => rw [ih, first.eq]

section Calls

variable {m : Market}

/-- A call that a paused reserve refuses is let in when the reserve is open. -/
theorem opened_ends {α : Type} {action : Text} {body : InfraReserve → Journaled α}
    {Q : MarketView → Prop}
    (hbody : Ends (body (m.reserve i)) (m.enter (.reserve i), [])
      (fun _ t => t.1.entered = .reserve i :: m.entered ∧
        Q { t.1.view with entered := m.entered }) fun _ _ => True) :
    Ends (inReserve i action do body (← openReserve i (← Journaled.market))) m
      (fun _ m' => m.view.Open i ∧ Q m'.view) fun _ _ => True := by
  refine (guarded_view_ends (Q := fun w => (m.reserve i).paused = false ∧ Q w) fun _ => ?_).imp
    ?_ fun _ _ h => h
  · refine .bind (.bind (ends_get (ends_pure ?_)))
    refine .bind (ends_ofExcept (fun r hr => ?_) fun _ _ => trivial)
    obtain ⟨hopen, rfl⟩ := openReserve_eq_ok.mp hr
    exact hbody.imp (fun _ _ h => ⟨h.1, hopen, h.2⟩) fun _ _ h => h
  · intro _ m' h
    exact ⟨(view_open m i).mpr ⟨h.1, h.2.1⟩, h.2.2⟩

theorem opened_succeeds {α : Type} {action : Text} {body : InfraReserve → Journaled α}
    {w : MarketView} (hopen : m.view.Open i) (hw : w.entered = m.entered)
    (hbody : Succeeds (body (m.reserve i)) (m.enter (.reserve i), []) fun _ t =>
      t.1.view = { w with entered := .reserve i :: m.entered }) :
    Succeeds (inReserve i action do body (← openReserve i (← Journaled.market))) m
      fun _ m' => m'.view = w := by
  obtain ⟨hfree, hunpaused⟩ := (view_open m i).mp hopen
  refine guarded_view_succeeds hfree hw (.bind (.bind (ends_get (ends_pure ?_))))
  exact .bind (ends_ofExcept_ok (openReserve_eq_ok.mpr ⟨hunpaused, rfl⟩) hbody)

variable (hrun : run.Direct m.callbacks)
include hrun

theorem batchPay_settles (payments : List Payment) :
    Ends (batchPay run i payments) m
      (fun _ m' => m.view.Open i ∧ payments ≠ [] ∧ SettlesAll i m.view payments m'.view)
      fun _ _ => True := by
  refine opened_ends (Q := fun w => payments ≠ [] ∧ SettlesAll i m.view payments w) ?_
  refine ends_unless (fun _ => trivial) fun hsome => .bind (ends_modify ?_)
  refine (settleAll_settles (m := m.enter (.reserve i)) hrun payments).imp ?_ fun _ _ h => h
  intro _ t hall
  exact ⟨hall.entered_eq, by simpa using hsome, hall.withEntered m.entered⟩

theorem batchPay_of_settlesAll {payments : List Payment} {w : MarketView}
    (hopen : m.view.Open i) (hsome : payments ≠ []) (h : SettlesAll i m.view payments w) :
    Succeeds (batchPay run i payments) m fun _ m' => m'.view = w := by
  have hinside := h.withEntered (.reserve i :: m.entered)
  refine opened_succeeds hopen h.entered_eq (ends_unless (fun hempty => ?_) fun _ => ?_)
  · exact hsome (by simpa using hempty)
  · exact .bind (ends_modify (settleAll_of_settlesAll (m := m.enter (.reserve i)) hrun hinside))

theorem pay_settles (payment : Payment) :
    Ends (Market.pay run i payment) m
      (fun _ m' => m.view.Open i ∧ m.view.Settles i payment m'.view) fun _ _ => True := by
  have hpaid := settle_settles (i := i) (s := (m.enter (.reserve i), [])) hrun payment
  refine opened_ends (Q := m.view.Settles i payment) (.bind (hpaid.imp ?_ fun _ _ h => h))
  intro _ t hsettled
  have hentered : t.1.view.entered = .reserve i :: m.entered := by
    rw [hsettled.eq]
    rfl
  exact ends_pure ⟨hentered, hsettled.withEntered m.entered⟩

theorem pay_of_settles {payment : Payment} {w : MarketView} (hopen : m.view.Open i)
    (h : m.view.Settles i payment w) :
    Succeeds (Market.pay run i payment) m fun _ m' => m'.view = w := by
  have hentered : w.entered = m.entered := by
    rw [h.eq]
    rfl
  have hpaid := settle_of_settles (s := (m.enter (.reserve i), [])) hrun
    (h.withEntered (.reserve i :: m.entered))
  exact opened_succeeds hopen hentered
    (.bind (hpaid.imp (fun _ _ h => ends_pure h) fun _ _ h => h))

theorem payInTurn_settles (payments : List Payment) :
    Ends (payInTurn run i payments) m
      (fun _ m' => (payments ≠ [] → m.view.Open i) ∧ SettlesAll i m.view payments m'.view)
      fun _ _ => True := by
  induction payments generalizing m with
  | nil => exact ends_pure ⟨fun hsome => absurd rfl hsome, .nil _⟩
  | cons payment rest ih =>
      refine .bind ((pay_settles hrun payment).imp ?_ fun _ _ h => h)
      intro _ t hpaid
      obtain ⟨hopen, hfirst⟩ := hpaid
      refine (ih (hfirst.callbacks_eq ▸ hrun)).imp ?_ fun _ _ h => h
      intro _ u hrest
      exact ⟨fun _ => hopen, .cons hfirst hrest.2⟩

theorem payInTurn_of_settlesAll {payments : List Payment} {w : MarketView}
    (hopen : m.view.Open i) (h : SettlesAll i m.view payments w) :
    Succeeds (payInTurn run i payments) m fun _ m' => m'.view = w := by
  induction payments generalizing m with
  | nil =>
      cases h
      exact ends_pure rfl
  | cons payment rest ih =>
      cases h with
      | cons first others =>
          have hstill := first.isOpen hopen
          refine .bind ((pay_of_settles hrun hopen first).imp ?_ fun _ _ h => h)
          intro _ t hview
          rw [← hview] at first others hstill
          exact ih (first.callbacks_eq ▸ hrun) hstill others

end Calls

end Payments

end CurveMarket
