import Mathlib.Algebra.BigOperators.Group.Finset.Piecewise
import CurveMarket.Proofs.Market.Progress
import CurveMarket.Proofs.Revenue.Batch

/-! # Instances by steps

Every call on a pool, a reserve or a splitter changes the records of its instance in place, and
never what others rely on: whose pool it is and where its money stands, and that a splitter's total
is the sum of its figures.
-/

namespace CurveMarket

open CurveMarket.Action Market

variable {asked : Operation → Prop} {run : Executor} {i : Nat} {m : Market}

/-! ## Pools -/

theorem commit_proceeds (pre post : PoolState) (events : List PoolEvent) (change : Int) :
    Proceeds asked (commit i pre post events change) m := by
  refine .afterGet (.test (.modify (.pools ?_)))
  exact .modify .refl (fun _ => ⟨rfl, rfl, rfl⟩) i m.pools

section Pools

variable (hrun : run.Proceeds asked)
include hrun

theorem inPool_proceeds {α : Type} (action : Text)
    (plan : Market → Pool → Except Error (PoolPlan α)) :
    Proceeds asked (inPool run i action plan) m := by
  refine .afterGet (guarded_proceeds (follow_proceeds hrun fun p hp m' => ?_))
  obtain ⟨d, -, rfl⟩ := Check.map_eq_ok.mp hp
  exact commit_proceeds _ _ _ _

theorem servePool_proceeds (c : PoolCall) : Proceeds asked (servePool run i c) m := by
  have hquiet {action : Text} {plan : Market → Pool → Except Error (PoolPlan Unit)} :
      Proceeds asked (do inPool run i action plan; return Reply.nothing) m :=
    .bind (inPool_proceeds hrun _ _) fun _ _ _ => .pure _
  refine .afterGet ?_
  cases c with
  | buy | sell => exact .map (inPool_proceeds hrun _ _)
  | depositFees | setParameters | setTradeCap | pause | unpause | withdrawTreasury => exact hquiet
  | spotPrice | buyQuote | sellQuote | stats | buyImpact | sellImpact =>
      exact .check fun _ _ => .pure _
  | _ => exact .pure _

end Pools

/-! ## Reserves -/

theorem updateReserve_proceeds {f : InfraReserve → InfraReserve}
    (hf : ∀ r : InfraReserve, r.SameRole (f r)) :
    Proceeds asked (modify (updateReserve i f)) m :=
  .modify (.reserves (.modify .refl hf i m.reserves))

/-- The plans leave the account and the directory of the reserve as they are. -/
def KeepsRole {α : Type} (plan : Except Error (ReservePlan α)) : Prop :=
  ∀ d, plan = .ok d → ∀ r : InfraReserve, r.SameRole (d.update r)

namespace KeepsRole

variable {α β : Type}

theorem pure {d : ReservePlan α} (h : ∀ r : InfraReserve, r.SameRole (d.update r)) :
    KeepsRole (pure d : Except Error (ReservePlan α)) := by
  intro d' hd
  cases hd
  exact h

theorem bind {v : Except Error β} {f : β → Except Error (ReservePlan α)}
    (hf : ∀ x, KeepsRole (f x)) : KeepsRole (v >>= f) := by
  intro d hd
  obtain ⟨x, -, hx⟩ := Check.bind_eq_ok.mp hd
  exact hf x d hx

theorem test {c : Prop} [Decidable c] {e : Error} {next : PUnit → Except Error (ReservePlan α)}
    (h : KeepsRole (next ⟨⟩)) : KeepsRole (if c then throw e >>= next else next ⟨⟩) := by
  intro d hd
  exact h d (Check.test_eq_ok.mp hd).2

end KeepsRole

theorem sameRole_credits (entries : List (Text × Int)) (r : InfraReserve) :
    r.SameRole (entries.foldl (fun r e => r.credit e.1 e.2) r) := by
  induction entries generalizing r with
  | nil => exact .refl r
  | cons e rest ih =>
      have hrest := ih (r.credit e.1 e.2)
      exact ⟨hrest.account, hrest.directory⟩

section Reserves

variable (hrun : run.Proceeds asked)
include hrun

theorem planInReserve_proceeds {α : Type} (action : Text)
    {plan : Market → Except Error (ReservePlan α)} (hplan : ∀ m, KeepsRole (plan m)) :
    Proceeds asked (planInReserve run i action plan) m := by
  refine guarded_proceeds (follow_proceeds hrun fun p hp m' => ?_)
  obtain ⟨d, hd, rfl⟩ := Check.map_eq_ok.mp hp
  exact updateReserve_proceeds (hplan _ d hd)

theorem deposit_proceeds (model : Option Text) (amount : Option Int) (sender : Option Text) :
    Proceeds asked (deposit run i model amount sender) m := by
  refine planInReserve_proceeds hrun _ fun m => ?_
  refine .bind fun r => .bind fun name => .bind fun a => .bind fun payer => ?_
  exact .pure fun _ => ⟨rfl, rfl⟩

theorem batchDeposit_proceeds (models : List (Option Text)) (amounts : List (Option Int))
    (sender : Option Text) : Proceeds asked (batchDeposit run i models amounts sender) m := by
  refine planInReserve_proceeds hrun _ fun m => ?_
  refine .bind fun r => .bind fun pairs => .bind fun payer => .bind fun entries => ?_
  exact .pure (sameRole_credits entries)

theorem revertDeposit_proceeds (model : Option Text) (amount : Option Int)
    (recipient : Option Text) : Proceeds asked (revertDeposit run i model amount recipient) m := by
  refine planInReserve_proceeds hrun _ fun m => ?_
  refine .bind fun name => .bind fun a => .bind fun _ => ?_
  exact .pure fun _ => ⟨rfl, rfl⟩

theorem settle_proceeds {s : Market × List UndoStep} (payment : Payment) :
    ProceedsJournaled asked (settle run i payment) s := by
  refine .check fun name _ => .check fun payee _ => .check fun a _ => ?_
  refine .afterMarket (.check fun _ _ => .bind (.lift (hrun _ _)) fun _ t => ?_)
  refine .bind (.change (.reserves ?_)) fun _ _ => .pure _
  exact .modify .refl (fun _ => ⟨rfl, rfl⟩) i t.1.reserves

theorem settleAll_proceeds {s : Market × List UndoStep} (payments : List Payment) :
    ProceedsJournaled asked (settleAll run i payments) s := by
  induction payments generalizing s with
  | nil => exact .pure _
  | cons payment rest ih =>
      refine .bind (settle_proceeds hrun payment) fun x _ => ?_
      exact .bind (.record (hrun x.2)) fun _ _ => .bind ih fun _ _ => .pure _

theorem pay_proceeds (payment : Payment) : Proceeds asked (pay run i payment) m := by
  refine guarded_proceeds (.afterMarket (.check fun _ _ => ?_))
  exact .bind (settle_proceeds hrun payment) fun _ _ => .pure _

theorem batchPay_proceeds (payments : List Payment) :
    Proceeds asked (batchPay run i payments) m := by
  refine guarded_proceeds (.afterMarket (.check fun old _ => .test ?_))
  refine .bind (.record fun m' => ?_) fun _ _ => settleAll_proceeds hrun payments
  exact updateReserve_proceeds fun _ => ⟨rfl, rfl⟩

theorem serveReserve_proceeds (c : ReserveCall) : Proceeds asked (serveReserve run i c) m := by
  have hquiet {a : Action Market Unit} (h : Proceeds asked a m) :
      Proceeds asked (do a; return Reply.nothing) m := .bind h fun _ _ _ => .pure _
  refine .afterGet ?_
  cases c with
  | deposit => exact hquiet (deposit_proceeds hrun _ _ _)
  | batchDeposit => exact .map (batchDeposit_proceeds hrun _ _ _)
  | revertDeposit => exact hquiet (revertDeposit_proceeds hrun _ _ _)
  | pay payment => exact .map (pay_proceeds hrun payment)
  | batchPay payments => exact .map (batchPay_proceeds hrun payments)
  | setProvider =>
      refine hquiet (.check fun _ _ => .check fun _ _ => ?_)
      exact planInReserve_proceeds hrun _ fun _ => .pure fun _ => ⟨rfl, rfl⟩
  | setTreasury =>
      refine hquiet (.check fun _ _ => ?_)
      exact planInReserve_proceeds hrun _ fun _ => .pure fun _ => ⟨rfl, rfl⟩
  | emergencyWithdraw =>
      refine hquiet (planInReserve_proceeds hrun _ fun _ => .bind fun _ => .test ?_)
      exact .pure fun _ => ⟨rfl, rfl⟩
  | pause =>
      refine hquiet (planInReserve_proceeds hrun _ fun m => ?_)
      unfold decidePausing
      exact .test (.pure fun _ => ⟨rfl, rfl⟩)
  | unpause =>
      refine hquiet (planInReserve_proceeds hrun _ fun m => ?_)
      unfold decideUnpausing
      exact .test (.pure fun _ => ⟨rfl, rfl⟩)
  | runway => exact .check fun _ _ => .pure _
  | _ => exact .pure _

end Reserves

/-! ## Splitters -/

/-- A change of one splitter that keeps its total the sum of its figures. -/
theorem tallied_modify {l : List Splitter} {f : Splitter → Splitter} (h : Tallied l)
    (hf : ∀ s, s.Adds → (f s).Adds) :
    Tallied (l.modify i f) := by
  intro s hs
  obtain ⟨j, hj⟩ := List.mem_iff_getElem?.mp hs
  rw [List.getElem?_modify] at hj
  obtain ⟨s₀, hs₀, heq⟩ := Option.map_eq_some_iff.mp hj
  have hkept := h s₀ (List.mem_of_getElem? hs₀)
  by_cases hplace : i = j
  · rw [if_pos hplace] at heq
    rw [← heq]
    exact hf s₀ hkept
  · rw [if_neg hplace] at heq
    rw [← heq]
    exact hkept

theorem adds_new (directory reserve governance : Nat) :
    ({ directory, reserve, governance } : Splitter).Adds := ⟨∅, fun _ _ => rfl, rfl⟩

theorem adds_splitter (h : Tallied m.splitters) (i : Nat) : (m.splitter i).Adds := by
  unfold splitter
  rw [List.getD_eq_getElem?_getD]
  cases hs : m.splitters[i]? with
  | none => exact adds_new 0 0 0
  | some s => exact h s (List.mem_of_getElem? hs)

theorem fees_record (s : Splitter) {x : FeeSplit} (hx : 0 ≤ x.amount) (model : Text) :
    (s.record x).fees.get model = s.fees.get model + if model = x.model then x.amount else 0 :=
  Tally.get_add_of_nonneg (Int.add_nonneg (s.fees.get_nonneg x.model) hx) model

theorem Splitter.Adds.record {s : Splitter} (h : s.Adds) {x : FeeSplit} (hx : 0 ≤ x.amount) :
    (s.record x).Adds := by
  obtain ⟨models, hothers, hsum⟩ := h
  refine ⟨insert x.model models, fun model hmodel => ?_, ?_⟩
  · rw [Finset.mem_insert, not_or] at hmodel
    rw [fees_record s hx, hothers model hmodel.2, if_neg hmodel.1, Int.add_zero]
  · have hwider : ∑ k ∈ models, s.fees.get k = ∑ k ∈ insert x.model models, s.fees.get k :=
      Finset.sum_subset (Finset.subset_insert _ _) fun k _ hk => hothers k hk
    simp only [fees_record s hx, Finset.sum_add_distrib, Finset.sum_ite_eq',
      if_pos (Finset.mem_insert_self x.model models)]
    rw [← hwider, ← hsum]
    rfl

theorem Splitter.Adds.recordAll {splits : List FeeSplit} (hsplits : ∀ x ∈ splits, 0 ≤ x.amount)
    {s : Splitter} (h : s.Adds) : (splits.foldl Splitter.record s).Adds := by
  induction splits generalizing s with
  | nil => exact h
  | cons x rest ih =>
      rw [List.forall_mem_cons] at hsplits
      exact ih hsplits.2 (h.record hsplits.1)

theorem FeeSplit.IsFair.amount_nonneg {x : FeeSplit} (h : x.IsFair) : 0 ≤ x.amount := by
  unfold FeeSplit.IsFair at h
  omega

/-- What is put back in the statistics of a splitter are figures that it had. -/
theorem account_proceeds {splits : List FeeSplit} (hsplits : ∀ x ∈ splits, x.IsFair)
    {s : Market × List UndoStep} : ProceedsJournaled asked (account i splits) s := by
  refine .ofSound fun hsound => .afterMarket (.bind (.record fun m' => ?_) fun _ t => ?_)
  · have hold := adds_splitter hsound.tallied i
    refine .modify (.splitters (.modify .refl (fun _ => ⟨rfl, rfl, rfl⟩) i _) fun h => ?_)
    exact tallied_modify h fun _ _ => hold
  · refine .change (.splitters (.modify .refl (fun s => ?_) i t.1.splitters) fun h => ?_)
    · exact ⟨foldl_record_keeps (fun _ _ => rfl) splits s,
        foldl_record_keeps (fun _ _ => rfl) splits s, foldl_record_keeps (fun _ _ => rfl) splits s⟩
    · exact tallied_modify h fun _ hs => hs.recordAll fun x hx => (hsplits x hx).amount_nonneg

section Splitters

variable (hrun : run.Proceeds asked) {s : Market × List UndoStep}
include hrun

theorem routeInfra_proceeds (splitter : Splitter) (payer : Text) (split : FeeSplit) :
    ProceedsJournaled asked (routeInfra run splitter payer split) s := by
  refine .ite (.bind (.lift (deposit_proceeds hrun _ _ _)) fun _ _ => ?_) (.pure _)
  exact .record fun _ => revertDeposit_proceeds hrun _ _ _

theorem routeProfit_proceeds (splitter : Splitter) (payer : Text) (split : FeeSplit) :
    ProceedsJournaled asked (routeProfit run splitter payer split) s := by
  refine .ite (.afterMarket ?_) (.pure _)
  cases (s.1.directory splitter.directory).pools.lookup split.model with
  | none => exact .throw _
  | some p => exact .lift (inPool_proceeds hrun _ _)

theorem routeAll_proceeds (payer : Text) (splits : List FeeSplit) :
    ProceedsJournaled asked (routeAll run i payer splits) s := by
  induction splits generalizing s with
  | nil => exact .pure _
  | cons split rest ih =>
      refine .bind (.afterMarket ?_) fun _ _ => ih
      exact .bind (routeInfra_proceeds hrun _ _ _) fun _ _ => routeProfit_proceeds hrun _ _ _

theorem disburse_proceeds (payer : Text) {splits : List FeeSplit}
    (hsplits : ∀ x ∈ splits, x.IsFair) :
    ProceedsJournaled asked (disburse run i payer splits) s :=
  .bind (account_proceeds hsplits) fun _ _ => routeAll_proceeds hrun payer splits

theorem serveSplitter_proceeds (c : SplitterCall) : Proceeds asked (serveSplitter run i c) m := by
  refine .afterGet ?_
  cases c with
  | depositFee =>
      refine .map (guarded_proceeds (.afterMarket (.check fun x hx => ?_)))
      have hfair : ∀ y ∈ [x.2], y.IsFair := by
        simpa using (decideSplit_eq_ok hx).1
      exact .bind (disburse_proceeds hrun _ hfair) fun _ _ => .pure _
  | batchDepositFees =>
      refine .map (guarded_proceeds (.afterMarket (.check fun x hx => ?_)))
      exact .bind (disburse_proceeds hrun _ (decideSplits_eq_ok hx).2.1) fun _ _ => .pure _
  | feeSplit => exact .check fun _ _ => .pure _
  | modelFees | totalFees => exact .pure _

end Splitters

end CurveMarket
