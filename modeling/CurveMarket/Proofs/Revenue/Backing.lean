import CurveMarket.Proofs.Revenue.Accounting

/-! # The asset behind the accruals

A reserve does not compare its accruals with the asset in its account. Each call has to move what it
books, and so it does for every payer but one: a deposit out of the reserve's own account is booked
and moves nothing. What is accrued exceeds what the account holds by such deposits at most.
-/

namespace CurveMarket

open CurveMarket.Action Market

/-! ## Changes of the total accrued -/

/-- A change of a reserve by so much in all, under the same account. -/
structure ReserveView.Accrues (change : Int) (g : ReserveView → ReserveView) : Prop where
  account : ∀ r, (g r).account = r.account
  total : ∀ r, (g r).totalAccrued = r.totalAccrued + change

namespace ReserveView

theorem accrues_accrue (model : Text) (change : Int) : Accrues change (accrue model change) :=
  ⟨fun _ => rfl, fun _ => rfl⟩

theorem accrues_settle (model : Text) (amount : Int) : Accrues (-amount) (settle model amount) :=
  ⟨fun _ => rfl, fun _ => rfl⟩

def accrueAll (entries : List (Text × Int)) (r : ReserveView) : ReserveView :=
  entries.foldl (fun r e => r.accrue e.1 e.2) r

theorem accrues_accrueAll (entries : List (Text × Int)) :
    Accrues (entries.map (·.2)).sum (accrueAll entries) := by
  induction entries with
  | nil => exact ⟨fun _ => rfl, fun _ => (Int.add_zero _).symm⟩
  | cons e rest ih =>
      refine ⟨fun r => ih.account (r.accrue e.1 e.2), fun r => ?_⟩
      have htotal := ih.total (r.accrue e.1 e.2)
      have hfirst := (accrues_accrue e.1 e.2).total r
      rw [List.map_cons, List.sum_cons]
      show (accrueAll rest (r.accrue e.1 e.2)).totalAccrued = _
      omega

end ReserveView

theorem InfraReserve.view_credits (entries : List (Text × Int)) (r : InfraReserve) :
    (entries.foldl (fun r e => r.credit e.1 e.2) r).view = r.view.accrueAll entries := by
  induction entries generalizing r with
  | nil => rfl
  | cons e rest ih =>
      have hrest := ih (r.credit e.1 e.2)
      rw [InfraReserve.view_credit] at hrest
      exact hrest

/-! ## Backed accruals -/

namespace MarketView

/-- Reserve `i` keeps its asset in `account` and has accrued at most so much more than is held
there. -/
def Backed (i : Nat) (account : Text) (gap : Int) (v : MarketView) : Prop :=
  ∃ r, v.reserves[i]? = some r ∧ r.account = account ∧ r.totalAccrued ≤ v.held account + gap

variable {v u : MarketView} {i : Nat} {account : Text} {gap : Int}

/-- Effects and a booking that goes beyond what they bring in by so much at most. -/
theorem Backed.book (h : v.Backed i account gap) {es : List Effect} (hmoves : v.MovesAll es u)
    {g : ReserveView → ReserveView} {change extra : Int} (hg : ReserveView.Accrues change g)
    (hle : v.held account + change ≤ u.held account + extra) :
    (u.updateReserve i g).Backed i account (gap + extra) := by
  obtain ⟨r, hr, hkept, hcovered⟩ := h
  have hreserves : u.reserves = v.reserves := by rw [hmoves.eq]
  refine ⟨g r, ?_, (hg.account r).trans hkept, ?_⟩
  · show (u.reserves.modify i g)[i]? = some (g r)
    rw [hreserves, List.getElem?_modify_eq, hr]
    rfl
  · have htotal := hg.total r
    show (g r).totalAccrued ≤ u.held account + (gap + extra)
    omega

/-- A payment out of the account lowers the accruals by no less than what is held. -/
theorem Backed.payOut (h : v.Backed i account gap) {payee : Option Text} {amount : Int}
    (hpos : 0 < amount) (hmoves : v.MovesAll (Effect.moves (some account) payee amount) u)
    {g : ReserveView → ReserveView} (hg : ReserveView.Accrues (-amount) g) :
    (u.updateReserve i g).Backed i account gap := by
  have hle : v.held account + -amount ≤ u.held account + 0 := by
    rcases movesAll_moves hmoves with ⟨-, hzero⟩ | ⟨payer, name, hpayer, -, -, -, rfl⟩
    · omega
    · -- The account may pay itself: then it loses nothing, and the accruals fall all the same.
      obtain rfl := Option.some.inj hpayer
      have hgain := neg_le_gain account name account (Int.le_of_lt hpos)
      rw [held_afterPay]
      omega
  have hbooked := h.book hmoves hg hle
  rwa [Int.add_zero] at hbooked

/-- A payment into the account raises what is held by what is booked, unless the account pays. -/
theorem Backed.payIn (h : v.Backed i account gap) {payer : Text} {amount : Int}
    (hmoves : v.MovesAll (Effect.moves (some payer) (some account) amount) u)
    {g : ReserveView → ReserveView} (hg : ReserveView.Accrues amount g) :
    (u.updateReserve i g).Backed i account
      (gap + if some payer = some account then amount else 0) := by
  refine h.book hmoves hg ?_
  rw [held_of_moves hmoves account, gain_self]
  simp only [Option.some.injEq]
  omega

/-- What leaves the reserve alone and takes nothing from its account does not matter. -/
theorem Backed.keep {m m' : Market} (h : m.view.Backed i account gap)
    (hreserve : m'.reserves[i]? = m.reserves[i]?) (hheld : m.held account ≤ m'.held account) :
    m'.view.Backed i account gap := by
  obtain ⟨r, hr, hkept, hcovered⟩ := h
  have hview : m'.view.reserves[i]? = m.view.reserves[i]? := by
    show (m'.reserves.map InfraReserve.view)[i]? = (m.reserves.map InfraReserve.view)[i]?
    rw [List.getElem?_map, List.getElem?_map, hreserve]
  refine ⟨r, hview.trans hr, hkept, ?_⟩
  rw [view_held] at hcovered ⊢
  omega

theorem Backed.figures {m : Market} (h : m.view.Backed i account gap) :
    (m.reserve i).account = account ∧ (m.reserve i).totalAccrued ≤ m.held account + gap := by
  obtain ⟨r, hr, hkept, hcovered⟩ := h
  have hfound : m.view.reserve i = r := getD_of_getElem? hr
  rw [view_reserve] at hfound
  rw [← hfound] at hkept hcovered
  exact ⟨hkept, hcovered⟩

end MarketView

/-! ## Calls -/

def ReserveCall.payer? : ReserveCall → Option Text
  | .deposit _ _ sender => sender
  | .batchDeposit _ _ sender => sender
  | _ => none

def ReserveCall.paidIn : ReserveCall → Int
  | .deposit _ amount _ => amount.getD 0
  | .batchDeposit models amounts _ => ((models.zip amounts).map fun e => e.2.getD 0).sum
  | _ => 0

/-- What a call deposits out of the account that it deposits in. -/
def ReserveCall.selfDeposited (account : Text) (c : ReserveCall) : Int :=
  if c.payer? = some account then c.paidIn else 0

section Calls

variable {m : Market} {i : Nat} {account : Text} {gap gap' : Int}

theorem planInReserve_backed {α : Type} {action : Text}
    {plan : Market → Except Error (ReservePlan α)}
    (hsection : plan (m.enter (.reserve i)) = plan m)
    (hplan : ∀ d u, plan m = .ok d → m.view.MovesAll d.effects u →
      ∃ g, (∀ r, (d.update r).view = g r.view) ∧ (u.updateReserve i g).Backed i account gap') :
    Ends (planInReserve apply i action plan) m (fun _ m' => m'.view.Backed i account gap')
      (fun _ _ => True) := by
  refine (planInReserve_ends (apply_direct _) hsection).imp ?_ fun _ _ _ => trivial
  rintro _ m' ⟨-, d, u, hd, -, hmoves, hview⟩
  obtain ⟨g, hg, hbacked⟩ := hplan d u hd hmoves
  rw [hview g hg]
  exact hbacked

variable (h : m.view.Backed i account gap)
include h

theorem deposit_backed (model : Option Text) (amount : Option Int) (sender : Option Text) :
    Ends (deposit apply i model amount sender) m
      (fun _ m' => m'.view.Backed i account
        (gap + (ReserveCall.deposit model amount sender).selfDeposited account))
      (fun _ _ => True) := by
  refine planInReserve_backed rfl fun d u hd hmoves => ?_
  obtain ⟨name, a, payer, rfl, rfl, rfl, -, -, heffects, hupdate⟩ := decideAccrual_eq_ok hd
  rw [heffects, h.figures.1] at hmoves
  refine ⟨_, fun r => ?_, h.payIn hmoves (ReserveView.accrues_accrue name a)⟩
  rw [hupdate]
  exact InfraReserve.view_credit r name a

theorem batchDeposit_backed (models : List (Option Text)) (amounts : List (Option Int))
    (sender : Option Text) :
    Ends (batchDeposit apply i models amounts sender) m
      (fun _ m' => m'.view.Backed i account
        (gap + (ReserveCall.batchDeposit models amounts sender).selfDeposited account))
      (fun _ _ => True) := by
  have hsection := decideBatchAccrual_enter i models amounts sender m (.reserve i)
  refine planInReserve_backed hsection fun d u hd hmoves => ?_
  obtain ⟨entries, payer, rfl, hzip, -, heffects, hupdate⟩ := decideBatchAccrual_spec hd
  have hpaid : (ReserveCall.batchDeposit models amounts (some payer)).paidIn =
      (entries.map (·.2)).sum := by
    show ((models.zip amounts).map fun e => e.2.getD 0).sum = _
    rw [hzip, List.map_map]
    rfl
  rw [heffects, h.figures.1, ← List.sum_eq_foldr] at hmoves
  unfold ReserveCall.selfDeposited
  rw [hpaid]
  refine ⟨_, fun r => ?_, h.payIn hmoves (ReserveView.accrues_accrueAll entries)⟩
  rw [hupdate]
  exact InfraReserve.view_credits entries r

theorem revertDeposit_backed (model : Option Text) (amount : Option Int)
    (recipient : Option Text) :
    Ends (revertDeposit apply i model amount recipient) m
      (fun _ m' => m'.view.Backed i account gap) (fun _ _ => True) := by
  refine planInReserve_backed rfl fun d u hd hmoves => ?_
  obtain ⟨name, a, rfl, rfl, hpos, -, heffects, hupdate⟩ := decideReversal_spec hd
  rw [heffects, h.figures.1] at hmoves
  refine ⟨_, fun r => ?_, h.payOut hpos hmoves (ReserveView.accrues_accrue name (-a))⟩
  rw [hupdate]
  exact InfraReserve.view_debit r name a

theorem planInReserve_backed_of_quiet {action : Text}
    {plan : Market → Except Error (ReservePlan Unit)}
    (hsection : plan (m.enter (.reserve i)) = plan m)
    (hplan : ∀ d, plan m = .ok d → d.effects = [] ∧
      ∃ g : ReserveView → ReserveView, (∀ r, (d.update r).view = g r.view) ∧
        ∀ r, (g r).account = r.account ∧ (g r).totalAccrued = r.totalAccrued) :
    Ends (planInReserve apply i action plan) m (fun _ m' => m'.view.Backed i account gap)
      (fun _ _ => True) := by
  refine planInReserve_backed hsection fun d u hd hmoves => ?_
  obtain ⟨hnone, g, hg, hquiet⟩ := hplan d hd
  rw [hnone] at hmoves
  cases hmoves
  have hsame : ReserveView.Accrues 0 g :=
    ⟨fun r => (hquiet r).1, fun r => (hquiet r).2.trans (Int.add_zero _).symm⟩
  have hbooked := h.book (.nil _) hsame (Int.le_refl _)
  rw [Int.add_zero] at hbooked
  exact ⟨g, hg, hbooked⟩

end Calls

/-! ## Payments -/

section Payments

variable {i : Nat} {account : Text} {gap : Int}

theorem settle_backed {s : Market × List UndoStep} (h : s.1.view.Backed i account gap)
    (payment : Payment) :
    Ends (settle apply i payment) s (fun _ t => t.1.view.Backed i account gap)
      (fun _ _ => True) := by
  refine (settle_ends (apply_direct _) payment).imp ?_ fun _ _ _ => trivial
  rintro _ t ⟨model, payee, amount, u, hpos, hmoves, -, -, hview⟩
  have hnonzero : amount ≠ 0 := by omega
  rw [h.figures.1, ← MarketView.movesAll_moves_of_ne hnonzero] at hmoves
  rw [hview]
  exact h.payOut hpos hmoves (ReserveView.accrues_settle model amount)

theorem settleAll_backed {s : Market × List UndoStep} (h : s.1.view.Backed i account gap)
    (payments : List Payment) :
    Ends (settleAll apply i payments) s (fun _ t => t.1.view.Backed i account gap)
      (fun _ _ => True) := by
  induction payments generalizing s with
  | nil => exact ends_pure h
  | cons payment rest ih =>
      refine .bind ((settle_backed h payment).imp (fun x t hpaid => ?_) fun _ _ h => h)
      have hrest := ih (s := (t.1, apply x.2 :: t.2)) hpaid
      exact .bind (ends_modify (.bind (hrest.imp (fun _ _ h => ends_pure h) fun _ _ h => h)))

theorem guarded_backed {α : Type} {s : Section} {owner action : Text} {body : Journaled α}
    {m : Market}
    (hbody : Ends body (m.enter s, []) (fun _ t => t.1.view.Backed i account gap)
      (fun _ _ => True)) :
    Ends (guarded s owner action body) m (fun _ m' => m'.view.Backed i account gap)
      (fun _ _ => True) := by
  refine ends_of (fun x m' hok => ?_) fun _ _ _ => trivial
  obtain ⟨t, hrest, rfl⟩ := guarded_eq_ok hok
  exact hbody.of_ok hrest

variable {m : Market} (h : m.view.Backed i account gap)
include h

theorem pay_backed (payment : Payment) :
    Ends (Market.pay apply i payment) m (fun _ m' => m'.view.Backed i account gap)
      (fun _ _ => True) := by
  refine guarded_backed (.bind (.bind (ends_get (ends_pure ?_))))
  refine .bind (ends_ofExcept (fun _ _ => ?_) fun _ _ => trivial)
  exact .bind ((settle_backed (s := (m.enter (.reserve i), [])) h payment).imp
    (fun _ _ hpaid => ends_pure hpaid) fun _ _ h => h)

theorem batchPay_backed (payments : List Payment) :
    Ends (batchPay apply i payments) m (fun _ m' => m'.view.Backed i account gap)
      (fun _ _ => True) := by
  refine guarded_backed (.bind (.bind (ends_get (ends_pure ?_))))
  refine .bind (ends_ofExcept (fun _ _ => ?_) fun _ _ => trivial)
  refine ends_unless (fun _ => trivial) fun _ => ?_
  exact .bind (ends_modify (settleAll_backed (s := (m.enter (.reserve i), _)) h payments))

end Payments

/-! ## Steps and runs -/

/-- An accepted call leaves the accruals backed but for what the account itself has deposited. An
emergency withdrawal alone takes asset from under them. -/
theorem serveReserve_backed {m : Market} {i : Nat} {account : Text} {gap : Int}
    (h : m.view.Backed i account gap) {c : ReserveCall} (hc : ∀ a, c ≠ .emergencyWithdraw a) :
    Ends (serveReserve apply i c) m
      (fun _ m' => m'.view.Backed i account (gap + c.selfDeposited account))
      (fun _ _ => True) := by
  have hdone {α : Type} {a : Action Market α} {reply : α → Reply} {gap' : Int}
      (ha : Ends a m (fun _ m' => m'.view.Backed i account gap') fun _ _ => True) :
      Ends (do return reply (← a)) m (fun _ m' => m'.view.Backed i account gap')
        fun _ _ => True :=
    .bind (ha.imp (fun _ _ hbacked => ends_pure hbacked) fun _ _ h => h)
  have hnone {c : ReserveCall} (hpayer : c.payer? = none) :
      gap + c.selfDeposited account = gap := by
    unfold ReserveCall.selfDeposited
    rw [hpayer]
    exact Int.add_zero gap
  refine .bind (ends_get ?_)
  cases c with
  | deposit model amount sender => exact hdone (deposit_backed h model amount sender)
  | batchDeposit models amounts sender => exact hdone (batchDeposit_backed h models amounts sender)
  | emergencyWithdraw amount => exact absurd rfl (hc amount)
  | revertDeposit model amount recipient =>
      rw [hnone rfl]
      exact hdone (revertDeposit_backed h model amount recipient)
  | pay payment =>
      rw [hnone rfl]
      exact hdone (pay_backed h payment)
  | batchPay payments =>
      rw [hnone rfl]
      exact hdone (batchPay_backed h payments)
  | setProvider model provider =>
      rw [hnone rfl]
      refine hdone (.bind (ends_ofExcept (fun name _ => ?_) fun _ _ => trivial))
      refine .bind (ends_ofExcept (fun p _ => ?_) fun _ _ => trivial)
      refine planInReserve_backed_of_quiet h rfl fun _ hd => ?_
      cases hd
      let put (r : ReserveView) : ReserveView :=
        { r with providers := InfraReserve.putProvider name p r.providers }
      exact ⟨rfl, put, fun _ => rfl, fun _ => ⟨rfl, rfl⟩⟩
  | setTreasury treasury =>
      rw [hnone rfl]
      refine hdone (.bind (ends_ofExcept (fun name _ => ?_) fun _ _ => trivial))
      refine planInReserve_backed_of_quiet h rfl fun _ hd => ?_
      cases hd
      exact ⟨rfl, fun r => { r with treasury := name }, fun _ => rfl, fun _ => ⟨rfl, rfl⟩⟩
  | pause =>
      rw [hnone rfl]
      refine hdone (planInReserve_backed_of_quiet h rfl fun _ hd => ?_)
      unfold decidePausing at hd
      obtain ⟨-, hd⟩ := Check.test_eq_ok.mp hd
      cases hd
      exact ⟨rfl, fun r => { r with paused := true }, fun _ => rfl, fun _ => ⟨rfl, rfl⟩⟩
  | unpause =>
      rw [hnone rfl]
      refine hdone (planInReserve_backed_of_quiet h rfl fun _ hd => ?_)
      unfold decideUnpausing at hd
      obtain ⟨-, hd⟩ := Check.test_eq_ok.mp hd
      cases hd
      exact ⟨rfl, fun r => { r with paused := false }, fun _ => rfl, fun _ => ⟨rfl, rfl⟩⟩
  | runway =>
      rw [hnone rfl]
      exact .bind (ends_ofExcept (fun _ _ => ends_pure h) fun _ _ => trivial)
  | _ =>
      rw [hnone rfl]
      exact ends_pure h

theorem serveReserve_read {c : ReserveCall} (h : c.isMutating = false) (run : Executor) (i : Nat)
    (m : Market) : (serveReserve run i c).stateAfter m = m := by
  cases c with
  | deposit | batchDeposit | revertDeposit | pay | batchPay | setProvider => cases h
  | setTreasury | emergencyWithdraw | pause | unpause => cases h
  | runway model dailyBurn => exact stateAfter_read ((m.reserve i).runway model dailyBurn) _ m
  | _ => rfl

theorem view_of_rejected_reserve {m m' : Market} {i : Nat} {c : ReserveCall} {e : Error}
    (h : serveReserve apply i c m = .error e m') : m'.view = m.view := by
  cases hmutating : c.isMutating with
  | true => exact (serveReserve_ends (apply_direct _) hmutating).of_error h
  | false =>
      have hread := serveReserve_read hmutating apply i m
      unfold stateAfter at hread
      rw [h] at hread
      exact congrArg view hread

/-- Calls on reserve `i` from `m₀` on, and between them anything that leaves the reserve alone and
takes nothing from `account`. The figure is what accepted calls have deposited out of the account
itself. An emergency withdrawal may be rejected but not accepted. -/
inductive LedgerRun (i : Nat) (account : Text) (m₀ : Market) : Int → Market → Prop
  | start : LedgerRun i account m₀ 0 m₀
  | accepted {own : Int} {m m' : Market} {c : ReserveCall} {reply : Reply}
      (before : LedgerRun i account m₀ own m) (usual : ∀ a, c ≠ .emergencyWithdraw a)
      (call : serveReserve apply i c m = .ok reply m') :
      LedgerRun i account m₀ (own + c.selfDeposited account) m'
  | rejected {own : Int} {m m' : Market} {c : ReserveCall} {e : Error}
      (before : LedgerRun i account m₀ own m) (call : serveReserve apply i c m = .error e m') :
      LedgerRun i account m₀ own m'
  | others {own : Int} {m m' : Market} (before : LedgerRun i account m₀ own m)
      (same : m'.reserves[i]? = m.reserves[i]?) (kept : m.held account ≤ m'.held account) :
      LedgerRun i account m₀ own m'

theorem LedgerRun.backed {i : Nat} {account : Text} {m₀ m : Market} {own : Int}
    (h : LedgerRun i account m₀ own m) (hstart : m₀.view.Backed i account 0) :
    m.view.Backed i account own := by
  induction h with
  | start => exact hstart
  | accepted _ usual call ih => exact (serveReserve_backed ih usual).of_ok call
  | rejected _ call ih =>
      rw [view_of_rejected_reserve call]
      exact ih
  | others _ same kept ih => exact ih.keep same kept

/-- Along every run of a fresh reserve without emergency withdrawals, what is accrued is at most
what its account holds and what the account has itself deposited. -/
theorem accrued_le_held {i : Nat} {m₀ m : Market} {account treasury : Text} {directory : Nat}
    {own : Int} (hfresh : m₀.reserves[i]? = some { account, treasury, directory })
    (hrun : LedgerRun i account m₀ own m) :
    (m.reserve i).totalAccrued ≤ m.held (m.reserve i).account + own := by
  have hheld : 0 ≤ m₀.held account := m₀.table.get_nonneg _
  have hstart : m₀.view.Backed i account 0 := by
    refine ⟨InfraReserve.view { account, treasury, directory }, ?_, rfl, ?_⟩
    · show (m₀.reserves.map InfraReserve.view)[i]? = _
      rw [List.getElem?_map, hfresh]
      rfl
    · rw [view_held, Int.add_zero]
      exact hheld
  obtain ⟨hkept, hcovered⟩ := (hrun.backed hstart).figures
  rw [hkept]
  exact hcovered

def sampleFunding : ReserveCall := .deposit (some "m1") (some 100) (some "payer")

def sampleFunded : Market := (serveReserve apply 0 sampleFunding).stateAfter sampleUnbacked

theorem sampleFunded_run : LedgerRun 0 "infra" sampleUnbacked 0 sampleFunded := by
  obtain ⟨reply, hpaid⟩ := exists_ok_of_outcome (a := serveReserve apply 0 sampleFunding)
    (s := sampleUnbacked) (by decide +kernel)
  have hother : 0 + sampleFunding.selfDeposited "infra" = 0 := by decide
  rw [← hother]
  exact .accepted (c := sampleFunding) .start nofun hpaid

theorem sample_accrued_le_held :
    LedgerRun 0 "infra" sampleUnbacked 0 sampleFunded ∧
      (sampleFunded.reserve 0).totalAccrued ≤
        sampleFunded.held (sampleFunded.reserve 0).account + 0 :=
  ⟨sampleFunded_run, accrued_le_held rfl sampleFunded_run⟩

/-- The same deposit, out of the account of the sample reserve. -/
def sampleSelfFunding : ReserveCall := .deposit (some "m1") (some 100) (some "infra")

def sampleSelfFunded : Market := (serveReserve apply 0 sampleSelfFunding).stateAfter sampleFunded

/-- A deposit that the account makes to itself is booked and brings in nothing: the sample reserve
holds half of what it has accrued. -/
theorem accrued_beyond_held :
    sampleUnbacked.reserves[0]? = some
        { account := "infra", treasury := "treasury", directory := 0 } ∧
      (∃ own, LedgerRun 0 "infra" sampleUnbacked own sampleSelfFunded) ∧
      (sampleSelfFunded.reserve 0).totalAccrued = 200 ∧
      sampleSelfFunded.held (sampleSelfFunded.reserve 0).account = 100 := by
  obtain ⟨reply, hpaid⟩ := exists_ok_of_outcome (a := serveReserve apply 0 sampleSelfFunding)
    (s := sampleFunded) (by decide +kernel)
  refine ⟨rfl, ⟨_, .accepted (c := sampleSelfFunding) sampleFunded_run nofun hpaid⟩, ?_, ?_⟩
  · decide +kernel
  · decide +kernel

end CurveMarket
