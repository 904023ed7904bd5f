import CurveMarket.Market.Service
import CurveMarket.Proofs.Market.Held

/-! # Calls on an infrastructure reserve

A call that follows a plan either carries it out or leaves the view as it was, and a plan whose
effects are let through is carried out. Payments in a batch come with a step that puts all accounts
of the reserve back, so that taking the transfers back is enough.
-/

namespace CurveMarket

open CurveMarket.Action Market

/-! ## Accounts of a reserve -/

namespace ReserveView

/-- A reserve after a change of what a model has accrued. -/
def accrue (model : Text) (change : Int) (r : ReserveView) : ReserveView :=
  { r with
    accrued := fun other =>
      if other = model then max (r.accrued model + change) 0 else r.accrued other
    totalAccrued := r.totalAccrued + change }

def restore (r old : ReserveView) : ReserveView :=
  { r with
    accrued := old.accrued, paid := old.paid, totalAccrued := old.totalAccrued
    totalPaid := old.totalPaid }

/-- What has just been accrued can be taken back. -/
theorem accrue_neg_accrue (model : Text) {amount : Int} (hle : 0 ≤ amount) {r : ReserveView}
    (h : 0 ≤ r.accrued model) : (r.accrue model amount).accrue model (-amount) = r := by
  have hfigure : max (max (r.accrued model + amount) 0 + -amount) 0 = r.accrued model := by omega
  have hfigures : ((r.accrue model amount).accrue model (-amount)).accrued = r.accrued := by
    funext other
    unfold accrue
    by_cases hsame : other = model
    · subst hsame
      simpa using hfigure
    · simp [hsame]
  have htotal : r.totalAccrued + amount + -amount = r.totalAccrued := by omega
  show ({ r with
    accrued := ((r.accrue model amount).accrue model (-amount)).accrued
    totalAccrued := r.totalAccrued + amount + -amount } : ReserveView) = r
  rw [hfigures, htotal]

end ReserveView

namespace InfraReserve

theorem view_credit (r : InfraReserve) (model : Text) (amount : Int) :
    (r.credit model amount).view = r.view.accrue model amount := by
  have hfigures : (r.accrued.add model amount).get = fun other =>
      if other = model then max (r.accrued.get model + amount) 0 else r.accrued.get other :=
    funext fun other => Tally.get_add r.accrued model other amount
  show ({ r.view with accrued := (r.accrued.add model amount).get, totalAccrued := _ } :
    ReserveView) = _
  rw [hfigures]
  rfl

theorem view_debit (r : InfraReserve) (model : Text) (amount : Int) :
    (r.debit model amount).view = r.view.accrue model (-amount) := by
  have hfigures : (r.accrued.add model (-amount)).get = fun other =>
      if other = model then max (r.accrued.get model + -amount) 0 else r.accrued.get other :=
    funext fun other => Tally.get_add r.accrued model other (-amount)
  show ({ r.view with accrued := (r.accrued.add model (-amount)).get, totalAccrued := _ } :
    ReserveView) = _
  rw [hfigures]
  rfl

end InfraReserve

/-! ## Plans -/

theorem openReserve_eq_ok {i : Nat} {m : Market} {r : InfraReserve} :
    openReserve i m = .ok r ↔ (m.reserve i).paused = false ∧ m.reserve i = r := by
  unfold openReserve
  cases (m.reserve i).paused with
  | false => simp
  | true => simp

theorem pairEntries_eq_ok {models : List (Option Text)} {amounts : List (Option Int)}
    {pairs : List (Option Text × Option Int)} (h : pairEntries models amounts = .ok pairs) :
    models ≠ [] ∧ pairs = models.zip amounts := by
  unfold pairEntries at h
  split at h
  · cases h
  · split at h
    · cases h
    · rename_i hsome
      exact ⟨by simpa using hsome, (Except.ok.inj h).symm⟩

section Plan

variable {run : Executor} {m : Market} (hrun : run.Direct m.callbacks)
include hrun

variable {α : Type} {i : Nat} {action : Text} {plan : Market → Except Error (ReservePlan α)}
  (hsection : plan (m.enter (.reserve i)) = plan m)
include hsection

theorem planInReserve_ends :
    Ends (planInReserve run i action plan) m
      (fun x m' => .reserve i ∉ m.entered ∧ ∃ d u, plan m = .ok d ∧ x = d.result ∧
        m.view.MovesAll d.effects u ∧
        ∀ g, (∀ r, (d.update r).view = g r.view) → m'.view = u.updateReserve i g)
      (fun _ m' => m'.view = m.view) := by
  refine (guarded_ends (E := fun _ => True) trivial fun hfree => ?_).imp (fun _ _ h => h)
    fun _ _ h => h.2
  refine (follow_ends (m := m.enter (.reserve i)) hrun
    (Q := fun x m₂ => .reserve i ∉ m.entered ∧ ∃ d u, plan m = .ok d ∧ x = d.result ∧
      m.view.MovesAll d.effects u ∧ ∀ g, (∀ r, (d.update r).view = g r.view) →
        (m₂.leave (.reserve i)).view = u.updateReserve i g)
    (fun _ _ => trivial) (fun _ _ => trivial) ?_)
  intro p m₁ hp hmoves
  rw [hsection] at hp
  cases hd : plan m with
  | error e =>
      rw [hd] at hp
      cases hp
  | ok d =>
      rw [hd] at hp
      cases hp
      have hentered : m₁.view.entered = .reserve i :: m.entered := by
        rw [hmoves.eq]
        rfl
      have hleft := entered_leave hfree hentered
      refine ends_modify ⟨hfree, d, _, rfl, rfl, hmoves.withEntered m.entered, fun g hg => ?_⟩
      have hview := view_updateReserve m₁ i hg
      show ({ (m₁.updateReserve i d.update).view with
        entered := (m₁.leave (.reserve i)).entered } : MarketView) = _
      rw [hview, hleft]
      rfl

theorem planInReserve_succeeds {d : ReservePlan α} {u : MarketView} (hfree : .reserve i ∉ m.entered)
    (hd : plan m = .ok d) (hmoves : m.view.MovesAll d.effects u) {g : ReserveView → ReserveView}
    (hg : ∀ r, (d.update r).view = g r.view) :
    Succeeds (planInReserve run i action plan) m fun _ m' => m'.view = u.updateReserve i g := by
  have hinside : (m.enter (.reserve i)).view.MovesAll d.effects _ :=
    hmoves.withEntered (.reserve i :: m.entered)
  refine guarded_succeeds hfree (follow_succeeds (m := m.enter (.reserve i)) hrun
    (Q := fun _ m₂ => (m₂.leave (.reserve i)).view = u.updateReserve i g)
    (p := d.plan i) (by rw [hsection, hd]; rfl) hinside ?_)
  intro m₁ hview
  have hentered : m₁.entered = .reserve i :: m.entered := congrArg MarketView.entered hview
  have hleft := entered_leave hfree hentered
  refine ends_modify ?_
  have hupdated := view_updateReserve m₁ i hg
  show ({ (m₁.updateReserve i d.update).view with
    entered := (m₁.leave (.reserve i)).entered } : MarketView) = _
  rw [hupdated, hview, hleft, hmoves.eq]
  rfl

end Plan

/-! ## Deposits and their reversal -/

/-- Reserve `i` takes deposits of positive amounts for models with a pool. -/
def MarketView.Admits (i : Nat) (v : MarketView) (entry : Text × Int) : Prop :=
  entry.1.isEmpty = false ∧
    ((v.directory (v.reserve i).directory).pools.lookup entry.1).isSome = true ∧ 0 < entry.2

section Deposit

variable {run : Executor} {m : Market} {i : Nat} {model payer : Text} {amount : Int}

theorem requirePooledModel_eq_ok {model : Option Text} {name : Text} :
    requirePooledModel i m model = .ok name ↔ model = some name ∧ name.isEmpty = false ∧
      ((m.view.directory (m.view.reserve i).directory).pools.lookup name).isSome = true := by
  have hreserve := view_reserve m i
  unfold requirePooledModel
  rw [Check.bind_eq_ok]
  constructor
  · intro h
    obtain ⟨name', hname, h⟩ := h
    obtain ⟨rfl, hnamed⟩ := requireModel_eq_ok.mp hname
    obtain ⟨hpool, h⟩ := Check.test_eq_ok.mp h
    cases h
    have hpooled : m.hasPool (m.reserve i).directory (some name) = true := by simpa using hpool
    refine ⟨rfl, hnamed, ?_⟩
    rw [hreserve]
    exact hpooled
  · intro h
    obtain ⟨rfl, hnamed, hpool⟩ := h
    rw [hreserve] at hpool
    refine ⟨name, requireModel_eq_ok.mpr ⟨rfl, hnamed⟩, Check.test_eq_ok.mpr ⟨?_, rfl⟩⟩
    have hpooled : m.hasPool (m.reserve i).directory (some name) = true := hpool
    simp [hpooled]

theorem checkEntries_eq_ok {pairs : List (Option Text × Option Int)}
    {entries : List (Text × Int)} : checkEntries i m pairs = .ok entries ↔
      pairs = entries.map (fun e => (some e.1, some e.2)) ∧ ∀ e ∈ entries, m.view.Admits i e := by
  induction pairs generalizing entries with
  | nil =>
      constructor
      · intro h
        cases h
        exact ⟨rfl, nofun⟩
      · intro h
        rw [List.map_eq_nil_iff.mp h.1.symm]
        rfl
  | cons pair rest ih =>
      obtain ⟨model, amount⟩ := pair
      unfold checkEntries
      rw [Check.bind_eq_ok]
      constructor
      · intro h
        obtain ⟨name, hname, h⟩ := h
        obtain ⟨a, ha, h⟩ := Check.bind_eq_ok.mp h
        obtain ⟨others, hothers, h⟩ := Check.bind_eq_ok.mp h
        cases h
        obtain ⟨rfl, hnamed, hpool⟩ := requirePooledModel_eq_ok.mp hname
        obtain ⟨rfl, hpositive⟩ := requirePositive_eq_ok.mp ha
        obtain ⟨hrest, hadmitted⟩ := ih.mp hothers
        refine ⟨by rw [hrest]; rfl, fun e he => ?_⟩
        rcases List.mem_cons.mp he with rfl | hmem
        · exact ⟨hnamed, hpool, hpositive⟩
        · exact hadmitted e hmem
      · intro h
        obtain ⟨hpairs, hadmitted⟩ := h
        cases entries with
        | nil => cases hpairs
        | cons e others =>
            obtain ⟨hpair, hrest⟩ := List.cons_eq_cons.mp hpairs
            obtain ⟨rfl, rfl⟩ := Prod.mk.inj hpair
            obtain ⟨hnamed, hpool, hpositive⟩ := hadmitted e List.mem_cons_self
            have hothers := ih.mpr ⟨hrest, fun e' he' => hadmitted e' (List.mem_cons_of_mem e he')⟩
            refine ⟨e.1, requirePooledModel_eq_ok.mpr ⟨rfl, hnamed, hpool⟩, ?_⟩
            refine Check.bind_eq_ok.mpr ⟨e.2, requirePositive_eq_ok.mpr ⟨rfl, hpositive⟩, ?_⟩
            exact Check.bind_eq_ok.mpr ⟨others, hothers, rfl⟩

theorem decideAccrual_eq_ok {model : Option Text} {amount : Option Int} {sender : Option Text}
    {d : ReservePlan Unit} (h : decideAccrual i model amount sender m = .ok d) :
    ∃ name a payer, model = some name ∧ amount = some a ∧ sender = some payer ∧
      name.isEmpty = false ∧ 0 < a ∧ d.effects = Effect.moves payer (m.reserve i).account a ∧
      d.update = fun r => r.credit name a := by
  obtain ⟨r, hr, h⟩ := Check.bind_eq_ok.mp h
  obtain ⟨name, hname, h⟩ := Check.bind_eq_ok.mp h
  obtain ⟨a, ha, h⟩ := Check.bind_eq_ok.mp h
  obtain ⟨payer, hpayer, h⟩ := Check.bind_eq_ok.mp h
  cases h
  obtain ⟨-, rfl⟩ := openReserve_eq_ok.mp hr
  obtain ⟨hmodel, hnonempty, -⟩ := requirePooledModel_eq_ok.mp hname
  obtain ⟨hamount, hpos⟩ := requirePositive_eq_ok.mp ha
  exact ⟨name, a, payer, hmodel, hamount, (requireAccount_eq_ok.mp hpayer).1, hnonempty, hpos,
    rfl, rfl⟩

/-- A deposit moves its amount to the reserve's account and accrues it, or leaves no trace. -/
theorem deposit_ends (hrun : run.Direct m.callbacks) :
    Ends (deposit run i (some model) (some amount) (some payer)) m
      (fun _ m' => .reserve i ∉ m.entered ∧ model.isEmpty = false ∧ 0 < amount ∧ ∃ u,
        m.view.Moves (.transfer payer (m.reserve i).account amount) u ∧
        m'.view = u.updateReserve i (ReserveView.accrue model amount))
      (fun _ m' => m'.view = m.view) := by
  refine (planInReserve_ends hrun rfl).imp ?_ fun _ _ h => h
  intro _ m' hdone
  rcases hdone with ⟨hfree, d, u, hd, -, hmoves, hupdate⟩
  obtain ⟨_, _, _, hname, ha, hsender, hmodel, hpos, heffects, hcredit⟩ := decideAccrual_eq_ok hd
  cases hname
  cases ha
  cases hsender
  have hnonzero : amount ≠ 0 := by omega
  rw [heffects, MarketView.movesAll_moves_of_ne hnonzero] at hmoves
  refine ⟨hfree, hmodel, hpos, u, hmoves, hupdate _ fun r => ?_⟩
  rw [hcredit]
  exact InfraReserve.view_credit r model amount

theorem revertDeposit_succeeds (hrun : run.Direct m.callbacks) (hfree : .reserve i ∉ m.entered)
    (hmodel : model.isEmpty = false) (hpos : 0 < amount)
    (haccrued : amount ≤ (m.view.reserve i).accrued model) {u : MarketView}
    (hmoves : m.view.Moves (.transfer (m.view.reserve i).account payer amount) u) :
    Succeeds (revertDeposit run i (some model) (some amount) (some payer)) m
      fun _ m' => m'.view = u.updateReserve i (ReserveView.accrue model (-amount)) := by
  have hnonzero : amount ≠ 0 := by omega
  have hplan : decideReversal i (some model) (some amount) (some payer) m = .ok {
      effects := Effect.moves (m.reserve i).account payer amount
      update := fun r => r.debit model amount
      result := () } := by
    unfold decideReversal
    rw [Check.bind_eq_ok]
    refine ⟨model, requireModel_eq_ok.mpr ⟨rfl, hmodel⟩, Check.bind_eq_ok.mpr ?_⟩
    refine ⟨amount, requirePositive_eq_ok.mpr ⟨rfl, hpos⟩, Check.bind_eq_ok.mpr ?_⟩
    refine ⟨(), Check.guard_eq_ok.mpr (Int.not_lt.mpr ?_), rfl⟩
    rw [view_reserve] at haccrued
    exact haccrued
  refine planInReserve_succeeds hrun rfl hfree hplan ?_ fun r => InfraReserve.view_debit r _ _
  rw [view_reserve] at hmoves
  exact (MarketView.movesAll_moves_of_ne hnonzero).mpr hmoves

end Deposit

/-! ## Payments -/

section Payment

variable {run : Executor} {i : Nat}

/-- A reserve after an invoice over an amount was paid. -/
def ReserveView.settle (model : Text) (amount : Int) (r : ReserveView) : ReserveView :=
  let debited := r.accrue model (-amount)
  { debited with
    paid := fun other => if other = model then max (r.paid model + amount) 0 else r.paid other
    totalPaid := r.totalPaid + amount }

theorem view_settle (r : InfraReserve) (model : Text) (amount : Int) :
    ((r.debit model amount).recordPaid model amount).view = r.view.settle model amount := by
  have hfigures : (r.paid.add model amount).get = fun other =>
      if other = model then max (r.paid.get model + amount) 0 else r.paid.get other :=
    funext fun other => Tally.get_add r.paid model other amount
  show ({ (r.debit model amount).view with
    paid := (r.paid.add model amount).get, totalPaid := _ } : ReserveView) = _
  rw [hfigures, InfraReserve.view_debit]
  rfl

/-- An invoice is paid as a whole and leaves the journal alone, or nothing happens. -/
theorem settle_ends {s : Market × List UndoStep} (hrun : run.Direct s.1.callbacks)
    (payment : Payment) :
    Ends (settle run i payment) s
      (fun x t => ∃ model payee amount u, 0 < amount ∧
        s.1.view.Moves (.transfer (s.1.reserve i).account (some payee) (some amount)) u ∧
        x.2 = Effect.inverse (.transfer (s.1.reserve i).account (some payee) (some amount)) ∧
        t.2 = s.2 ∧ t.1.view = u.updateReserve i (ReserveView.settle model amount))
      (fun _ t => t = s) := by
  unfold settle
  refine .bind (ends_ofExcept (fun model _ => ?_) fun _ _ => rfl)
  refine .bind (ends_ofExcept (fun payee _ => ?_) fun _ _ => rfl)
  refine .bind (ends_ofExcept (fun amount hamount => ?_) fun _ _ => rfl)
  refine .bind (.bind (ends_get (ends_pure ?_)))
  refine .bind (ends_ofExcept (fun _ _ => ?_) fun _ _ => rfl)
  refine .bind (.focus ((run_ends hrun _).imp ?_ ?_))
  · intro _ m₁ hmoves
    have hpos := (requirePositive_eq_ok.mp hamount).2
    refine .bind (ends_modify (ends_pure ⟨model, payee, amount, _, hpos, hmoves, rfl, rfl, ?_⟩))
    exact view_updateReserve m₁ i fun r => view_settle r model amount
  · intro err m₁ hrefused
    rw [hrefused.2.1]

/-- Changes that putting accounts back takes away. -/
def OnlyAccounts (g : ReserveView → ReserveView) : Prop :=
  ∀ r old : ReserveView, (g r).restore old = r.restore old

theorem onlyAccounts_id : OnlyAccounts id := fun _ _ => rfl

theorem onlyAccounts_settle (model : Text) (amount : Int) :
    OnlyAccounts (ReserveView.settle model amount) := fun _ _ => rfl

theorem OnlyAccounts.comp {f g : ReserveView → ReserveView} (hf : OnlyAccounts f)
    (hg : OnlyAccounts g) : OnlyAccounts (f ∘ g) := fun r old => (hf (g r) old).trans (hg r old)

theorem MarketView.updateReserve_updateReserve (v : MarketView) (f g : ReserveView → ReserveView) :
    (v.updateReserve i f).updateReserve i g = v.updateReserve i (g ∘ f) := by
  unfold MarketView.updateReserve
  rw [List.modify_modify_eq]

theorem MarketView.updateReserve_id (v : MarketView) : v.updateReserve i id = v := by
  unfold MarketView.updateReserve
  rw [List.modify_id]

theorem MarketView.updateReserve_of_fixed {v : MarketView} {g : ReserveView → ReserveView}
    (h : g (v.reserve i) = v.reserve i) : v.updateReserve i g = v := by
  have hsame : v.reserves.modify i g = v.reserves := modify_of_fixed h
  unfold MarketView.updateReserve
  rw [hsame]

/-- The journal brings `before` back whatever has become of the accounts of reserve `i`. -/
def Restores (i : Nat) (before : MarketView) (s : Market × List UndoStep) : Prop :=
  ∀ g, OnlyAccounts g → Undoes s.2 before (s.1.view.updateReserve i g)

theorem Restores.undoes {before : MarketView} {s : Market × List UndoStep}
    (h : Restores i before s) : Undoes s.2 before s.1.view := by
  have hundoes := h id onlyAccounts_id
  rw [MarketView.updateReserve_id] at hundoes
  exact hundoes

/-- Putting the accounts back is all there is to undo at first. -/
theorem restores_start (m : Market) :
    Restores i m.view (m, [modify (updateReserve i (·.restoreAccounts (m.reserve i)))]) := by
  intro g hg
  refine (undoes_nil m.view).cons fun m₁ hview => ends_modify ?_
  have hback : ∀ r : InfraReserve,
      (r.restoreAccounts (m.reserve i)).view = r.view.restore (m.view.reserve i) := by
    intro r
    rw [view_reserve]
    rfl
  have hrestored := view_updateReserve (g := fun r => r.restore (m.view.reserve i)) m₁ i hback
  have hsame : (fun r : ReserveView => r.restore (m.view.reserve i)) ∘ g =
      fun r => r.restore (m.view.reserve i) := funext fun r => hg r _
  rw [hrestored, hview, MarketView.updateReserve_updateReserve, hsame]
  exact MarketView.updateReserve_of_fixed rfl

theorem settleAll_ends {before : MarketView} {s : Market × List UndoStep}
    (hrun : run.Direct s.1.callbacks) (payments : List Payment) (h : Restores i before s) :
    Ends (settleAll run i payments) s (fun _ _ => True)
      (fun _ t => Undoes t.2 before t.1.view) := by
  induction payments generalizing s with
  | nil => exact ends_pure trivial
  | cons payment rest ih =>
      refine .bind ((settle_ends hrun payment).imp ?_ ?_)
      · intro x t hsettled
        rcases hsettled with ⟨model, payee, amount, u, -, hmoves, hx, hjournal, hview⟩
        have hquiet : t.1.callbacks = s.1.callbacks := by
          have heq : t.1.view.callbacks = s.1.view.callbacks := by
            rw [hview, hmoves.eq]
            rfl
          exact heq
        refine .bind (ends_modify (.bind ((ih (hquiet ▸ hrun) ?_).imp ?_ fun _ _ h => h)))
        · intro g hg
          rw [hx, hjournal, hview, MarketView.updateReserve_updateReserve]
          have hrest := h _ (hg.comp (onlyAccounts_settle model amount))
          refine hrest.cons fun m₁ hm₁ => ?_
          have hback :
              (u.updateReserve i (g ∘ ReserveView.settle model amount)).Moves
                (Effect.inverse _) _ :=
            (inverse_moves hmoves).frame rfl rfl rfl rfl
          have hquiet₁ : m₁.callbacks = s.1.callbacks := by
            have heq : m₁.view.callbacks = s.1.view.callbacks := by
              rw [hm₁, hmoves.eq]
              rfl
            exact heq
          rw [← hm₁] at hback
          refine (run_of_moves (hquiet₁ ▸ hrun) hback).imp ?_ fun _ _ h => h
          intro _ m₂ hm₂
          rw [hm₂, hm₁, hmoves.eq]
          rfl
        · intro _ _ _
          exact ends_pure trivial
      · intro _ t ht
        rw [ht]
        exact h.undoes

variable {m : Market} (hrun : run.Direct m.callbacks)
include hrun

theorem pay_ends (payment : Payment) :
    Ends (Market.pay run i payment) m (fun _ _ => True) (fun _ m' => m'.view = m.view) := by
  refine (guarded_ends (E := fun _ => True) trivial fun _ => ?_).imp (fun _ _ h => h)
    fun _ _ h => h.2
  refine .bind (.bind (ends_get (ends_pure ?_)))
  refine .bind (ends_ofExcept (fun _ _ => ?_) fun _ _ => ⟨trivial, undoes_nil _⟩)
  refine .bind ((settle_ends (s := (m.enter (.reserve i), [])) hrun payment).imp ?_ ?_)
  · intro _ t _
    exact ends_pure trivial
  · intro _ t ht
    rw [ht]
    exact ⟨trivial, undoes_nil _⟩

theorem batchPay_ends (payments : List Payment) :
    Ends (batchPay run i payments) m (fun _ _ => True) (fun _ m' => m'.view = m.view) := by
  refine (guarded_ends (E := fun _ => True) trivial fun _ => ?_).imp (fun _ _ h => h)
    fun _ _ h => h.2
  refine .bind (.bind (ends_get (ends_pure ?_)))
  refine .bind (ends_ofExcept (fun old hold => ?_) fun _ _ => ⟨trivial, undoes_nil _⟩)
  obtain ⟨-, rfl⟩ := openReserve_eq_ok.mp hold
  refine ends_unless (fun _ => ⟨trivial, undoes_nil _⟩) fun _ => ?_
  refine .bind (ends_modify ((settleAll_ends hrun payments (restores_start _)).imp ?_ ?_))
  · intro _ _ h
    exact h
  · intro _ t hundoes
    exact ⟨trivial, hundoes⟩

end Payment

theorem checkEntries_enter (i : Nat) (m : Market) (s : Section)
    (entries : List (Option Text × Option Int)) :
    checkEntries i (m.enter s) entries = checkEntries i m entries := by
  induction entries with
  | nil => rfl
  | cons entry rest ih =>
      unfold checkEntries
      rw [ih]
      rfl

theorem decideBatchAccrual_enter (i : Nat) (models : List (Option Text))
    (amounts : List (Option Int)) (sender : Option Text) (m : Market) (s : Section) :
    decideBatchAccrual i models amounts sender (m.enter s) =
      decideBatchAccrual i models amounts sender m := by
  unfold decideBatchAccrual
  simp only [checkEntries_enter]
  rfl

/-- A mutating call on a reserve that fails leaves no trace. -/
theorem serveReserve_ends {run : Executor} {i : Nat} {m : Market} (hrun : run.Direct m.callbacks)
    {c : ReserveCall} (hmutating : c.isMutating = true) :
    Ends (serveReserve run i c) m (fun _ _ => True) (fun _ m' => m'.view = m.view) := by
  have hplanned {α : Type} {action : Text} {plan : Market → Except Error (ReservePlan α)}
      (hsection : plan (m.enter (.reserve i)) = plan m) :
      Ends (planInReserve run i action plan) m (fun _ _ => True) (fun _ m' => m'.view = m.view) :=
    (planInReserve_ends hrun hsection).imp (fun _ _ _ => trivial) fun _ _ h => h
  have hdone {α : Type} {a : Action Market α} (reply : α → Reply)
      (h : Ends a m (fun _ _ => True) (fun _ m' => m'.view = m.view)) :
      Ends (do return reply (← a)) m (fun _ _ => True) (fun _ m' => m'.view = m.view) :=
    .bind (h.imp (fun _ _ _ => ends_pure trivial) fun _ _ h => h)
  unfold serveReserve
  refine .bind (ends_get ?_)
  cases c with
  | deposit model amount sender => exact hdone (fun _ => .nothing) (hplanned rfl)
  | batchDeposit models amounts sender =>
      exact hdone .int (hplanned (decideBatchAccrual_enter i models amounts sender m _))
  | revertDeposit model amount recipient => exact hdone (fun _ => .nothing) (hplanned rfl)
  | pay payment => exact hdone .payment (pay_ends hrun payment)
  | batchPay payments => exact hdone .int (batchPay_ends hrun payments)
  | setProvider model provider =>
      refine hdone (fun _ => .nothing) (.bind (ends_ofExcept (fun _ _ => ?_) fun _ _ => rfl))
      exact .bind (ends_ofExcept (fun _ _ => hplanned rfl) fun _ _ => rfl)
  | setTreasury treasury =>
      refine hdone (fun _ => .nothing) (.bind (ends_ofExcept (fun _ _ => ?_) fun _ _ => rfl))
      exact hplanned rfl
  | emergencyWithdraw amount => exact hdone (fun _ => .nothing) (hplanned rfl)
  | pause => exact hdone (fun _ => .nothing) (hplanned rfl)
  | unpause => exact hdone (fun _ => .nothing) (hplanned rfl)
  | _ => cases hmutating

end CurveMarket
