import Mathlib.Algebra.BigOperators.Group.Finset.Piecewise
import Mathlib.Algebra.BigOperators.Pi
import CurveMarket.Proofs.Market.Serving
import CurveMarket.Proofs.Revenue.Batch

/-! # The books of a reserve

What a model has accrued and what was paid for it add up to its deposits less the reverted ones, and
the totals are those of all models. Payments move money between the two figures of a model, so even
a batch that stops half-way, and whose undoing stops too, leaves the books balanced.
-/

namespace CurveMarket

open CurveMarket.Action Market
open Finset

/-! ## Balanced books -/

namespace ReserveView

/-- The totals are the sums of the figures of all models. -/
def Adds (r : ReserveView) : Prop :=
  ∃ models : Finset Text, (∀ x ∉ models, r.accrued x = 0 ∧ r.paid x = 0) ∧
    r.totalAccrued = ∑ x ∈ models, r.accrued x ∧ r.totalPaid = ∑ x ∈ models, r.paid x

/-- The figures of every model add up to what is due to it, and over all models to the totals. -/
structure Balanced (due : Text → Int) (r : ReserveView) : Prop where
  by_model : ∀ model, r.accrued model + r.paid model = due model
  totals : r.Adds

variable {due : Text → Int} {r r' : ReserveView} {model : Text} {amount : Int}

theorem Balanced.change (h : r.Balanced due) {a b : Int}
    (haccrued : r'.accrued = r.accrued + Pi.single model a)
    (hpaid : r'.paid = r.paid + Pi.single model b)
    (htotal : r'.totalAccrued = r.totalAccrued + a) (htotal' : r'.totalPaid = r.totalPaid + b) :
    r'.Balanced (due + Pi.single model (a + b)) where
  by_model := fun x => by
    rw [haccrued, hpaid, Pi.single_add, Pi.add_apply, Pi.add_apply, Pi.add_apply, Pi.add_apply,
      ← h.by_model x]
    omega
  totals := by
    obtain ⟨models, hothers, hsum, hsum'⟩ := h.totals
    have hwider (f : Text → Int) (hf : ∀ x ∉ models, f x = 0) (c : Int) :
        ∑ x ∈ insert model models, (f + Pi.single model c : Text → Int) x =
          ∑ x ∈ models, f x + c := by
      simp only [Pi.add_apply, sum_add_distrib]
      rw [sum_pi_single', if_pos (mem_insert_self _ _),
        sum_subset (subset_insert model models) fun x _ hx => hf x hx]
    refine ⟨insert model models, fun x hx => ?_, ?_, ?_⟩
    · rw [mem_insert, not_or] at hx
      rw [haccrued, hpaid, Pi.add_apply, Pi.add_apply, Pi.single_eq_of_ne hx.1,
        Pi.single_eq_of_ne hx.1, (hothers x hx.2).1, (hothers x hx.2).2]
      exact ⟨rfl, rfl⟩
    · rw [haccrued, hwider _ fun x hx => (hothers x hx).1, htotal, hsum]
    · rw [hpaid, hwider _ fun x hx => (hothers x hx).2, htotal', hsum']

theorem accrued_accrue (h : 0 ≤ r.accrued model + amount) :
    (r.accrue model amount).accrued = r.accrued + Pi.single model amount := by
  funext x
  show (if x = model then max (r.accrued model + amount) 0 else r.accrued x) = _
  by_cases hx : x = model
  · subst hx
    rw [if_pos rfl, Pi.add_apply, Pi.single_eq_same, Int.max_eq_left h]
  · rw [if_neg hx, Pi.add_apply, Pi.single_eq_of_ne hx, Int.add_zero]

theorem paid_settle (h : 0 ≤ r.paid model + amount) :
    (r.settle model amount).paid = r.paid + Pi.single model amount := by
  funext x
  show (if x = model then max (r.paid model + amount) 0 else r.paid x) = _
  by_cases hx : x = model
  · subst hx
    rw [if_pos rfl, Pi.add_apply, Pi.single_eq_same, Int.max_eq_left h]
  · rw [if_neg hx, Pi.add_apply, Pi.single_eq_of_ne hx, Int.add_zero]

theorem Balanced.accrue (h : r.Balanced due) (hle : 0 ≤ r.accrued model + amount) :
    (r.accrue model amount).Balanced (due + Pi.single model amount) := by
  have hchanged : (r.accrue model amount).Balanced _ := h.change (b := 0) (accrued_accrue hle)
    (by rw [Pi.single_zero, add_zero]; rfl) rfl (Int.add_zero _).symm
  rwa [Int.add_zero] at hchanged

theorem Balanced.settle (h : r.Balanced due) (hle : 0 ≤ r.accrued model + -amount)
    (hpaid : 0 ≤ r.paid model + amount) : (r.settle model amount).Balanced due := by
  have hchanged : (r.settle model amount).Balanced _ :=
    h.change (accrued_accrue hle) (paid_settle hpaid) rfl rfl
  rwa [neg_add_cancel, Pi.single_zero, add_zero] at hchanged

end ReserveView

/-! ## What calls book -/

/-- What an entry of a call books for each model. -/
def booked : Option Text → Option Int → Text → Int
  | some model, some amount => Pi.single model amount
  | _, _ => 0

/-- What a call deposits for each model, if it is accepted. -/
def ReserveCall.deposited : ReserveCall → Text → Int
  | .deposit model amount _ => booked model amount
  | .batchDeposit models amounts _ => ((models.zip amounts).map fun e => booked e.1 e.2).sum
  | _ => 0

/-- What a call takes back of the deposits for each model, if it is accepted. -/
def ReserveCall.reverted : ReserveCall → Text → Int
  | .revertDeposit model amount _ => booked model amount
  | _ => 0

section Decisions

variable {i : Nat} {m : Market} {r : InfraReserve} {due : Text → Int}

theorem decideBatchAccrual_spec {models : List (Option Text)} {amounts : List (Option Int)}
    {sender : Option Text} {d : ReservePlan Int}
    (h : decideBatchAccrual i models amounts sender m = .ok d) :
    ∃ entries : List (Text × Int), ∃ payer, sender = some payer ∧
      models.zip amounts = entries.map (fun e => (some e.1, some e.2)) ∧
      (∀ e ∈ entries, 0 < e.2) ∧
      d.effects = Effect.moves payer (m.reserve i).account
        ((entries.map (·.2)).foldr (· + ·) 0) ∧
      d.update = fun r => entries.foldl (fun r e => r.credit e.1 e.2) r := by
  obtain ⟨r, hopen, h⟩ := Check.bind_eq_ok.mp h
  obtain ⟨pairs, hpairs, h⟩ := Check.bind_eq_ok.mp h
  obtain ⟨payer, hpayer, h⟩ := Check.bind_eq_ok.mp h
  obtain ⟨entries, hentries, h⟩ := Check.bind_eq_ok.mp h
  obtain ⟨-, rfl⟩ := openReserve_eq_ok.mp hopen
  cases h
  obtain ⟨hentries, hadmitted⟩ := checkEntries_eq_ok.mp hentries
  have hpositive (e : Text × Int) (he : e ∈ entries) : 0 < e.2 := (hadmitted e he).2.2
  rw [(pairEntries_eq_ok hpairs).2] at hentries
  exact ⟨entries, payer, (requireAccount_eq_ok.mp hpayer).1, hentries, hpositive, rfl, rfl⟩

theorem decideReversal_spec {model : Option Text} {amount : Option Int} {recipient : Option Text}
    {d : ReservePlan Unit} (h : decideReversal i model amount recipient m = .ok d) :
    ∃ name a, model = some name ∧ amount = some a ∧ 0 < a ∧
      a ≤ (m.reserve i).accrued.get name ∧
      d.effects = Effect.moves (m.reserve i).account recipient a ∧
      d.update = fun r => r.debit name a := by
  obtain ⟨name, hname, h⟩ := Check.bind_eq_ok.mp h
  obtain ⟨a, ha, h⟩ := Check.bind_eq_ok.mp h
  obtain ⟨_, haccrued, h⟩ := Check.bind_eq_ok.mp h
  cases h
  obtain ⟨hamount, hpos⟩ := requirePositive_eq_ok.mp ha
  refine ⟨name, a, (requireModel_eq_ok.mp hname).1, hamount, hpos, ?_, rfl, rfl⟩
  exact Int.not_lt.mp (Check.guard_eq_ok.mp haccrued)

end Decisions

/-! ## What decisions do to the books -/

section Books

variable {i : Nat} {m : Market} {r : InfraReserve} {due : Text → Int}
  (h : r.view.Balanced due)
include h

theorem balanced_credit (model : Text) {amount : Int} (hpos : 0 < amount) :
    (r.credit model amount).view.Balanced (due + Pi.single model amount) := by
  rw [InfraReserve.view_credit]
  have hle : 0 ≤ r.accrued.get model := r.accrued.get_nonneg model
  refine h.accrue ?_
  show 0 ≤ r.accrued.get model + amount
  omega

theorem balanced_credits {entries : List (Text × Int)} (hpositive : ∀ e ∈ entries, 0 < e.2) :
    (entries.foldl (fun r e => r.credit e.1 e.2) r).view.Balanced
      (due + (entries.map fun e => (Pi.single e.1 e.2 : Text → Int)).sum) := by
  induction entries generalizing r due with
  | nil =>
      rw [List.map_nil, List.sum_nil, add_zero]
      exact h
  | cons e rest ih =>
      rw [List.map_cons, List.sum_cons, ← add_assoc]
      exact ih (balanced_credit h e.1 (hpositive e List.mem_cons_self)) fun e' he' =>
        hpositive e' (List.mem_cons_of_mem e he')

theorem balanced_debit {model : Text} {amount : Int} (hle : amount ≤ r.accrued.get model) :
    (r.debit model amount).view.Balanced (due - Pi.single model amount) := by
  rw [InfraReserve.view_debit, sub_eq_add_neg, ← Pi.single_neg]
  refine h.accrue ?_
  show 0 ≤ r.accrued.get model + -amount
  omega

theorem balanced_settled {model : Text} {amount : Int} (hpos : 0 < amount)
    (hle : amount ≤ r.accrued.get model) :
    ((r.debit model amount).recordPaid model amount).view.Balanced due := by
  rw [view_settle]
  have hpaid : 0 ≤ r.paid.get model := r.paid.get_nonneg model
  refine h.settle ?_ ?_
  · show 0 ≤ r.accrued.get model + -amount
    omega
  · show 0 ≤ r.paid.get model + amount
    omega

end Books

/-! ## Calls -/

theorem reserve_of_getElem? {m : Market} {i : Nat} {r : InfraReserve}
    (h : m.reserves[i]? = some r) : m.reserve i = r := getD_of_getElem? h

/-- The books of reserve `i` are balanced, with so much due to each model. -/
def BooksBalance (i : Nat) (due : Text → Int) (m : Market) : Prop :=
  ∃ r, m.reserves[i]? = some r ∧ r.view.Balanced due

/-- An executor that leaves a reserve in a call as it is. -/
def Executor.Spares (i : Nat) (run : Executor) : Prop := ∀ r, run.Matches (InReserve i r) run

theorem withCallbacks_spares (i depth : Nat) :
    (withCallbacks (serveWithin depth)).Spares i := fun r =>
  executor_matches (sheltered_reserve i r) depth

section Calls

variable {run : Executor} {i : Nat} (hrun : run.Spares i) {m : Market} {due : Text → Int}
include hrun

theorem planInReserve_changes {α : Type} {r : InfraReserve} (hr : m.reserves[i]? = some r)
    (action : Text) (plan : Market → Except Error (ReservePlan α)) :
    Ends (planInReserve run i action plan) m
      (fun _ m' => ∃ d, plan (m.enter (.reserve i)) = .ok d ∧ m'.reserves[i]? = some (d.update r))
      (fun _ m' => m'.reserves[i]? = some r) := by
  refine (guarded_follow_alike (hrun r) (P := fun _ m' => ∃ d,
    plan (m.enter (.reserve i)) = .ok d ∧ m'.reserves[i]? = some (d.update r)) ?_ ?_).ends.imp
    (fun _ _ h => h.2) ?_
  · exact fun _ => ⟨List.mem_cons_self, hr⟩
  · intro p hp u hinside
    obtain ⟨d, hd, rfl⟩ := Check.map_eq_ok.mp hp
    refine ends_modify ⟨d, hd, ?_⟩
    show (u.reserves.modify i d.update)[i]? = some (d.update r)
    rw [List.getElem?_modify_eq, hinside.2]
    rfl
  · rintro e u ⟨-, rfl | ⟨inside, hinside, rfl⟩⟩
    · exact hr
    · exact hinside.2

theorem planInReserve_books {α : Type} {P : Prop} {due' : Text → Int} (h : BooksBalance i due m)
    (action : Text) {plan : Market → Except Error (ReservePlan α)}
    (hplan : ∀ w r d, w.reserve i = r → r.view.Balanced due → plan w = .ok d →
      P ∧ (d.update r).view.Balanced due') :
    Ends (planInReserve run i action plan) m (fun _ m' => P ∧ BooksBalance i due' m')
      (fun _ m' => BooksBalance i due m') := by
  obtain ⟨r, hr, hbalanced⟩ := h
  refine (planInReserve_changes hrun hr action plan).imp ?_ fun _ _ h => ⟨r, h, hbalanced⟩
  rintro _ m' ⟨d, hd, hr'⟩
  have hbooked := hplan (m.enter (.reserve i)) r d (reserve_of_getElem? hr) hbalanced hd
  exact ⟨hbooked.1, _, hr', hbooked.2⟩

end Calls

/-! ## Payments -/

/-- Reserve `i` is in a call, and its books are balanced. -/
def InBooks (i : Nat) (due : Text → Int) (m : Market) : Prop :=
  .reserve i ∈ m.entered ∧ BooksBalance i due m

section Payments

variable {run : Executor} {i : Nat} (hrun : run.Spares i) {due : Text → Int}

theorem brackets_books {m : Market} (h : BooksBalance i due m) :
    Brackets (BooksBalance i due) (InBooks i due) (.reserve i) m where
  outside := h
  enter := fun _ => ⟨List.mem_cons_self, h⟩
  leave := fun _ _ _ hinside => hinside.2

theorem inBooks_updateReserve {m : Market} {r : InfraReserve} {f : InfraReserve → InfraReserve}
    (h : InReserve i r m) (hf : (f r).view.Balanced due) : InBooks i due (m.updateReserve i f) := by
  refine ⟨h.1, f r, ?_, hf⟩
  show (m.reserves.modify i f)[i]? = some (f r)
  rw [List.getElem?_modify_eq, h.2]
  rfl

include hrun

theorem Executor.Spares.matches_books : run.Matches (InBooks i due) run := by
  rintro e m ⟨hmark, r, hr, hbalanced⟩
  have hback {u : Market} (hinside : InReserve i r u) : InBooks i due u :=
    ⟨hinside.1, r, hinside.2, hbalanced⟩
  refine Alike.imp (hrun r e m ⟨hmark, hr⟩) ?_ ?_
  · rintro _ u v ⟨huv, hmarks, hinside⟩
    exact ⟨huv, hmarks, hback hinside⟩
  · rintro _ u v ⟨huv, hmarks, hinside⟩
    exact ⟨huv, hmarks, hback hinside⟩

/-- The transfer of a payment may set off anything, but not a change of the reserve, so what the
model has accrued still covers the payment after it. -/
theorem settle_books {s t : Market × List UndoStep} (h : Beside (InBooks i due) s t)
    (payment : Payment) :
    SameJournaled (InBooks i due) (settle run i payment) (settle run i payment) s t := by
  refine .check h fun name _ => .check h fun payee _ => .check h fun a ha => ?_
  refine .afterMarket h (.check h fun _ haccrued => ?_)
  obtain ⟨m, journal⟩ := s
  obtain ⟨_, journal'⟩ := t
  obtain ⟨rfl, ⟨hmark, r, hr, hbalanced⟩, hjournals⟩ := h
  have hle : a ≤ r.accrued.get name := by
    rw [reserve_of_getElem? hr] at haccrued
    exact Int.not_lt.mp (Check.guard_eq_ok.mp haccrued)
  have hsettled := balanced_settled hbalanced (requirePositive_eq_ok.mp ha).2 hle
  refine Alike.bind (.focus (Alike.imp (hrun r _ m ⟨hmark, hr⟩) ?_ ?_))
  · rintro _ u _ ⟨rfl, hmarks, hinside⟩
    exact Alike.bind (alike_modify (.ok rfl rfl
      ⟨⟨rfl, inBooks_updateReserve hinside hsettled, hjournals⟩, hmarks⟩))
  · rintro _ u _ ⟨rfl, hmarks, hinside⟩
    exact ⟨⟨rfl, ⟨hinside.1, r, hinside.2, hbalanced⟩, hjournals⟩, hmarks⟩

theorem settleAll_books {s t : Market × List UndoStep} (h : Beside (InBooks i due) s t)
    (payments : List Payment) :
    SameJournaled (InBooks i due) (settleAll run i payments) (settleAll run i payments) s t := by
  induction payments generalizing s t with
  | nil => exact .pure h _
  | cons payment rest ih =>
      refine .bind (settle_books hrun h payment) fun x _ _ hpaid => ?_
      refine .bind (.record hpaid fun m => hrun.matches_books x.2 m) fun _ _ _ hnoted => ?_
      exact .bind (ih hnoted) fun _ _ _ hrest => .pure hrest _

theorem pay_books {m : Market} (h : BooksBalance i due m) (payment : Payment) :
    Same (BooksBalance i due) (Market.pay run i payment) (Market.pay run i payment) m := by
  refine guarded_same (brackets_books h) fun _ u v hbeside => ?_
  refine .afterMarket hbeside (.check hbeside fun _ _ => ?_)
  exact .bind (settle_books hrun hbeside payment) fun _ _ _ h' => .pure h' _

/-- A batch that fails puts back the figures it found, which were balanced. -/
theorem batchPay_books {m : Market} (h : BooksBalance i due m) (payments : List Payment) :
    Same (BooksBalance i due) (batchPay run i payments) (batchPay run i payments) m := by
  refine guarded_same (brackets_books h) fun _ u v hbeside => ?_
  obtain ⟨-, old, hold, hbalanced⟩ := hbeside.holds
  refine .afterMarket hbeside (.check hbeside fun r hopen => ?_)
  have hr : r = old := (openReserve_eq_ok.mp hopen).2.symm.trans (reserve_of_getElem? hold)
  refine alike_unless (fun _ => ⟨hbeside, rfl⟩) fun _ => ?_
  refine SameJournaled.bind (.record hbeside ?_) fun _ _ _ h' => settleAll_books hrun h' payments
  rintro w ⟨hmark, now, hnow, -⟩
  refine alike_modify ⟨rfl, rfl, inBooks_updateReserve ⟨hmark, hnow⟩ ?_⟩
  rw [hr]
  exact ⟨hbalanced.by_model, hbalanced.totals⟩

end Payments

/-! ## Steps and runs -/

theorem sum_booked {pairs : List (Option Text × Option Int)} {entries : List (Text × Int)}
    (h : pairs = entries.map (fun e => (some e.1, some e.2))) :
    (pairs.map fun e => booked e.1 e.2).sum =
      (entries.map fun e => (Pi.single e.1 e.2 : Text → Int)).sum := by
  rw [h, List.map_map]
  rfl

theorem booked_nonneg {a : Int} (hpos : 0 < a) (name x : Text) :
    0 ≤ booked (some name) (some a) x := by
  show 0 ≤ (Pi.single name a : Text → Int) x
  rw [Pi.single_apply]
  split
  · omega
  · exact le_refl 0

/-- An accepted call books what it deposits or takes back, and nothing else; a rejected one leaves
the books as they were. -/
theorem serveReserve_books {run : Executor} {i : Nat} (hrun : run.Spares i) {due : Text → Int}
    {m : Market} (h : BooksBalance i due m) (c : ReserveCall) :
    Ends (serveReserve run i c) m
      (fun _ m' => (∀ x, 0 ≤ c.reverted x) ∧ BooksBalance i (due + c.deposited - c.reverted) m')
      (fun _ m' => BooksBalance i due m') := by
  have hdone {α : Type} {a : Action Market α} {reply : α → Reply} {Q : Market → Prop}
      (ha : Ends a m (fun _ m' => Q m') fun _ m' => BooksBalance i due m') :
      Ends (do return reply (← a)) m (fun _ m' => Q m') fun _ m' => BooksBalance i due m' :=
    .bind (ha.imp (fun _ _ hQ => ends_pure hQ) fun _ _ h => h)
  have hzero {m' : Market} (hbooks : BooksBalance i due m') :
      (∀ x, 0 ≤ (0 : Text → Int) x) ∧ BooksBalance i (due + 0 - 0) m' := by
    rw [add_zero, sub_zero]
    exact ⟨fun _ => le_refl 0, hbooks⟩
  have hquiet {α : Type} {a : Action Market α} {reply : α → Reply}
      (ha : Ends a m (fun _ m' => BooksBalance i due m') fun _ m' => BooksBalance i due m') :
      Ends (do return reply (← a)) m
        (fun _ m' => (∀ x, 0 ≤ (0 : Text → Int) x) ∧ BooksBalance i (due + 0 - 0) m')
        fun _ m' => BooksBalance i due m' :=
    hdone (ha.imp (fun _ _ => hzero) fun _ _ h => h)
  have hplain (action : Text) {plan : Market → Except Error (ReservePlan Unit)}
      (hplan : ∀ w r d, r.view.Balanced due → plan w = .ok d → (d.update r).view.Balanced due) :
      Ends (planInReserve run i action plan) m (fun _ m' => BooksBalance i due m')
        fun _ m' => BooksBalance i due m' := by
    refine (planInReserve_books hrun (P := True) h action ?_).imp (fun _ _ h => h.2) fun _ _ h => h
    exact fun w r d _ hr hd => ⟨trivial, hplan w r d hr hd⟩
  refine .bind (ends_get ?_)
  cases c with
  | deposit model amount sender =>
      refine hdone (planInReserve_books hrun h _ fun w r d _ hr hd => ?_)
      obtain ⟨name, a, _, rfl, rfl, -, -, hpos, -, hupdate⟩ := decideAccrual_eq_ok hd
      refine ⟨fun _ => le_refl 0, ?_⟩
      rw [hupdate]
      show (r.credit name a).view.Balanced (due + Pi.single name a - 0)
      rw [sub_zero]
      exact balanced_credit hr name hpos
  | batchDeposit models amounts sender =>
      refine hdone (planInReserve_books hrun h _ fun w r d _ hr hd => ?_)
      obtain ⟨entries, payer, -, hzip, hpositive, -, hupdate⟩ := decideBatchAccrual_spec hd
      refine ⟨fun _ => le_refl 0, ?_⟩
      rw [hupdate]
      show (entries.foldl (fun r e => r.credit e.1 e.2) r).view.Balanced
        (due + ((models.zip amounts).map fun e => booked e.1 e.2).sum - 0)
      rw [sum_booked hzip, sub_zero]
      exact balanced_credits hr hpositive
  | revertDeposit model amount recipient =>
      refine hdone (planInReserve_books hrun h _ fun w r d hw hr hd => ?_)
      obtain ⟨name, a, rfl, rfl, hpos, hle, -, hupdate⟩ := decideReversal_spec hd
      rw [hw] at hle
      refine ⟨booked_nonneg hpos name, ?_⟩
      rw [hupdate]
      show (r.debit name a).view.Balanced (due + 0 - Pi.single name a)
      rw [add_zero]
      exact balanced_debit hr hle
  | pay payment =>
      exact hquiet ((pay_books hrun h payment).ends.imp (fun _ _ h => h.2) fun _ _ h => h.2)
  | batchPay payments =>
      exact hquiet ((batchPay_books hrun h payments).ends.imp (fun _ _ h => h.2) fun _ _ h => h.2)
  | setProvider model name =>
      refine hquiet (.bind (ends_ofExcept (fun _ _ => ?_) fun _ _ => h))
      refine .bind (ends_ofExcept (fun _ _ => hplain _ fun _ _ _ hr hd => ?_) fun _ _ => h)
      cases hd
      exact ⟨hr.by_model, hr.totals⟩
  | setTreasury name =>
      refine hquiet (.bind (ends_ofExcept (fun _ _ => ?_) fun _ _ => h))
      refine hplain _ fun _ _ _ hr hd => ?_
      cases hd
      exact ⟨hr.by_model, hr.totals⟩
  | emergencyWithdraw amount =>
      refine hquiet (hplain _ fun w r d hr hd => ?_)
      obtain ⟨a, _, hd⟩ := Check.bind_eq_ok.mp hd
      obtain ⟨-, hd⟩ := Check.test_eq_ok.mp hd
      cases hd
      exact hr
  | pause =>
      refine hquiet (hplain _ fun w r d hr hd => ?_)
      unfold decidePausing at hd
      obtain ⟨-, hd⟩ := Check.test_eq_ok.mp hd
      cases hd
      exact ⟨hr.by_model, hr.totals⟩
  | unpause =>
      refine hquiet (hplain _ fun w r d hr hd => ?_)
      unfold decideUnpausing at hd
      obtain ⟨-, hd⟩ := Check.test_eq_ok.mp hd
      cases hd
      exact ⟨hr.by_model, hr.totals⟩
  | runway => exact .bind (ends_ofExcept (fun _ _ => ends_pure (hzero h)) fun _ _ => h)
  | _ => exact ends_pure (hzero h)

/-- No call takes a figure of its reserve to where it would stop at zero. Whatever its transfers set
off, an accepted call changes what a model has accrued and was paid, taken together, by exactly what
it deposits or takes back, and a rejected one does not change it. Totals, which do not stop
anywhere, stay the sums of the figures. -/
theorem serveReserve_exact {i : Nat} {m : Market} {r : InfraReserve}
    (hr : m.reserves[i]? = some r) (hadds : r.view.Adds) (depth : Nat) (c : ReserveCall) :
    Ends (serveReserve (withCallbacks (serveWithin depth)) i c) m
      (fun _ m' => BooksBalance i (r.accrued.get + r.paid.get + c.deposited - c.reverted) m')
      fun _ m' => BooksBalance i (r.accrued.get + r.paid.get) m' := by
  have hbefore : BooksBalance i (r.accrued.get + r.paid.get) m := ⟨r, hr, fun _ => rfl, hadds⟩
  exact (serveReserve_books (withCallbacks_spares i depth) hbefore c).imp (fun _ _ h => h.2)
    fun _ _ h => h

/-- Calls on reserve `i` from `m₀` on, each with whatever its transfers set off, and between them
anything that leaves the reserve alone. The first two figures are what accepted calls have deposited
for each model and what they have taken back. -/
inductive ReserveRun (i : Nat) (m₀ : Market) : (Text → Int) → (Text → Int) → Market → Prop
  | start : ReserveRun i m₀ 0 0 m₀
  | accepted {deposited reverted : Text → Int} {m m' : Market} {c : ReserveCall} {depth : Nat}
      {reply : Reply} (before : ReserveRun i m₀ deposited reverted m)
      (call : serveReserve (withCallbacks (serveWithin depth)) i c m = .ok reply m') :
      ReserveRun i m₀ (deposited + c.deposited) (reverted + c.reverted) m'
  | rejected {deposited reverted : Text → Int} {m m' : Market} {c : ReserveCall} {depth : Nat}
      {e : Error} (before : ReserveRun i m₀ deposited reverted m)
      (call : serveReserve (withCallbacks (serveWithin depth)) i c m = .error e m') :
      ReserveRun i m₀ deposited reverted m'
  | others {deposited reverted : Text → Int} {m m' : Market}
      (before : ReserveRun i m₀ deposited reverted m) (same : m'.reserves[i]? = m.reserves[i]?) :
      ReserveRun i m₀ deposited reverted m'

theorem ReserveRun.books {i : Nat} {m₀ m : Market} {deposited reverted : Text → Int}
    (h : ReserveRun i m₀ deposited reverted m) (hstart : BooksBalance i 0 m₀) :
    (∀ x, 0 ≤ reverted x) ∧ BooksBalance i (deposited - reverted) m := by
  induction h with
  | start =>
      rw [sub_self]
      exact ⟨fun _ => le_refl 0, hstart⟩
  | @accepted deposited reverted m m' c depth reply _ call ih =>
      obtain ⟨hpositive, hbooks⟩ :=
        (serveReserve_books (withCallbacks_spares i depth) ih.2 c).of_ok call
      have hdue : deposited - reverted + c.deposited - c.reverted =
          deposited + c.deposited - (reverted + c.reverted) := by
        rw [sub_add_eq_add_sub, sub_sub]
      rw [hdue] at hbooks
      exact ⟨fun x => Int.add_nonneg (ih.1 x) (hpositive x), hbooks⟩
  | @rejected _ _ _ _ c depth _ _ call ih =>
      exact ⟨ih.1, (serveReserve_books (withCallbacks_spares i depth) ih.2 c).of_error call⟩
  | others _ same ih =>
      obtain ⟨hpositive, r, hr, hbalanced⟩ := ih
      exact ⟨hpositive, r, same.trans hr, hbalanced⟩

/-- A batch with two entries for one model. -/
def sampleAccrual : ReserveCall :=
  .batchDeposit [some "m1", some "m2", some "m1"] [some 60, some 30, some 10] (some "payer")

def sampleAccrued : Market :=
  (serveReserve (withCallbacks (serveWithin 0)) 0 sampleAccrual).stateAfter sampleUnbacked

/-- The entries of one model add up. -/
example :
    (sampleAccrued.reserve 0).accrued.get "m1" = 70 ∧
      (sampleAccrued.reserve 0).totalAccrued = 100 := by
  decide +kernel

end CurveMarket
