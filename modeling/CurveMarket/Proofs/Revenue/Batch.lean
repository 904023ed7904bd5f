import Mathlib.Algebra.Order.BigOperators.Group.List
import CurveMarket.Proofs.Revenue.Routing

/-! # Deposits of fees and their failure

A single deposit goes through or leaves no trace. A batch that fails takes back its statistics and
all infrastructure shares, but what pools got from the entries before the failure stays with them.
-/

namespace CurveMarket

open CurveMarket.Action Market

/-! ## What the checks establish -/

namespace FeeSplit

/-- The shares of a split are its whole amount and neither is negative. -/
def IsFair (x : FeeSplit) : Prop := 0 ≤ x.infra ∧ 0 ≤ x.profit ∧ x.infra + x.profit = x.amount

theorem sum_nonneg {splits : List FeeSplit} (h : ∀ x ∈ splits, x.IsFair) :
    0 ≤ (splits.map amount).sum := by
  refine List.sum_nonneg fun value hvalue => ?_
  rcases List.mem_map.mp hvalue with ⟨x, hx, rfl⟩
  have hfair := h x hx
  unfold IsFair at hfair
  omega

end FeeSplit

section Decide

variable {m : Market} {i : Nat} {payer : Text} {sender : Option Text}

theorem splitNow_eq_ok {model : Option Text} {amount : Option Int} {x : FeeSplit}
    (h : m.splitNow i model amount = .ok x) : x.IsFair := by
  unfold splitNow at h
  obtain ⟨share, -, h⟩ := Check.bind_eq_ok.mp h
  obtain ⟨a, -, h⟩ := Check.bind_eq_ok.mp h
  unfold FeeSplit.make at h
  split at h
  · cases h
    refine ⟨Int.natCast_nonneg _, Int.natCast_nonneg _, ?_⟩
    assumption
  · cases h

theorem preflight_eq_ok {splits : List FeeSplit} (h : m.preflight i splits sender = .ok payer) :
    sender = some payer ∧ (splits.map FeeSplit.amount).sum ≤ m.view.held payer := by
  unfold preflight at h
  obtain ⟨a, ha, h⟩ := Check.bind_eq_ok.mp h
  obtain ⟨_, hheld, h⟩ := Check.bind_eq_ok.mp h
  obtain ⟨-, h⟩ := Check.test_eq_ok.mp h
  cases h
  exact ⟨(requireAccount_eq_ok.mp ha).1, Int.not_lt.mp (Check.guard_eq_ok.mp hheld)⟩

theorem decideSplit_eq_ok {model : Option Text} {amount : Option Int} {split : FeeSplit}
    (h : decideSplit i model amount sender m = .ok (payer, split)) :
    split.IsFair ∧ split.amount ≤ m.view.held payer := by
  unfold decideSplit at h
  obtain ⟨_, -, h⟩ := Check.bind_eq_ok.mp h
  obtain ⟨x, hx, h⟩ := Check.bind_eq_ok.mp h
  obtain ⟨a, ha, h⟩ := Check.bind_eq_ok.mp h
  cases h
  have hmeans := (preflight_eq_ok ha).2
  refine ⟨splitNow_eq_ok hx, ?_⟩
  simpa using hmeans

theorem decideSplits_eq_ok {models : List (Option Text)} {amounts : List (Option Int)}
    {splits : List FeeSplit} (h : decideSplits i models amounts sender m = .ok (payer, splits)) :
    sender = some payer ∧ (∀ x ∈ splits, x.IsFair) ∧
      (splits.map FeeSplit.amount).sum ≤ m.view.held payer := by
  unfold decideSplits at h
  obtain ⟨_, -, h⟩ := Check.bind_eq_ok.mp h
  obtain ⟨_, -, h⟩ := Check.bind_eq_ok.mp h
  obtain ⟨xs, hxs, h⟩ := Check.bind_eq_ok.mp h
  obtain ⟨a, ha, h⟩ := Check.bind_eq_ok.mp h
  cases h
  obtain ⟨hsender, hmeans⟩ := preflight_eq_ok ha
  exact ⟨hsender, Check.forall_of_mapM_eq_ok (fun _ _ => splitNow_eq_ok) hxs, hmeans⟩

end Decide

/-! ## Statistics -/

theorem foldl_record_keeps {α : Type} {f : Splitter → α}
    (hf : ∀ s x, f (Splitter.record s x) = f s) (splits : List FeeSplit) (s : Splitter) :
    f (splits.foldl Splitter.record s) = f s := by
  induction splits generalizing s with
  | nil => rfl
  | cons x rest ih => exact (ih (s.record x)).trans (hf s x)

/-- A market with splits entered in the statistics of a splitter, and the journal that takes them
out. -/
def accounted (i : Nat) (splits : List FeeSplit) (m : Market) : Market × List UndoStep :=
  (m.updateSplitter i fun s => splits.foldl Splitter.record s,
    [modify (updateSplitter i fun s =>
      { s with fees := (m.splitter i).fees, total := (m.splitter i).total })])

theorem ends_account {i : Nat} {splits : List FeeSplit} {m : Market}
    {Q : Unit → Market × List UndoStep → Prop} {E : Error → Market × List UndoStep → Prop}
    (h : Q () (accounted i splits m)) : Ends (account i splits) (m, []) Q E := h

theorem routing_start {i : Nat} {payer : Text} {splits : List FeeSplit} {m : Market}
    (hfair : ∀ x ∈ splits, x.IsFair)
    (hmeans : (splits.map FeeSplit.amount).sum ≤ m.view.held payer) :
    Routing i payer (m.view.reserve (m.splitter i).reserve).account m.view 0
      (splits.map FeeSplit.amount).sum (accounted i splits m) := by
  have hnonneg := FeeSplit.sum_nonneg hfair
  have hheld (a : Text) : 0 ≤ m.view.held a := m.table.get_nonneg _
  constructor
  · rfl
  · exact getD_modify_of_keeps (foldl_record_keeps (fun _ _ => rfl) splits) m.splitters i i
  · exact getD_modify_of_keeps (foldl_record_keeps (fun _ _ => rfl) splits) m.splitters i i
  · rfl
  · intro change pools _
    refine (undoes_nil _).cons fun m₁ hm₁ => ends_modify ?_
    have hback : (m.splitters.modify i fun s => splits.foldl Splitter.record s).modify i
        (fun s => { s with fees := (m.splitter i).fees, total := (m.splitter i).total }) =
        m.splitters := by
      rw [List.modify_modify_eq]
      exact modify_of_fixed (foldl_record_keeps (f := fun s : Splitter =>
        { s with fees := (m.splitter i).fees, total := (m.splitter i).total })
        (fun _ _ => rfl) splits (m.splitter i))
    show ({ m₁.view with splitters := m₁.view.splitters.modify i _ } : MarketView) = _
    rw [hm₁]
    show ({ m.view.shifted change pools with
      splitters := (m.splitters.modify i _).modify i _ } : MarketView) = _
    rw [hback]
    rfl
  · omega
  · show 0 + _ ≤ m.view.held _
    by_cases hself : payer = (m.view.reserve (m.splitter i).reserve).account
    · rw [if_pos hself, ← hself]
      omega
    · rw [if_neg hself]
      have hzero := hheld (m.view.reserve (m.splitter i).reserve).account
      omega
  · exact hmeans

/-! ## One deposit -/

theorem depositFee_ends {run : Executor} {m : Market} (hrun : run.Direct m.callbacks) (i : Nat)
    (model : Option Text) (amount : Option Int) (sender : Option Text) :
    Ends (depositFee run i model amount sender) m (fun _ _ => True)
      (fun _ m' => m'.view = m.view) := by
  refine (guarded_ends (E := fun _ => True) trivial fun _ => ?_).imp (fun _ _ h => h)
    fun _ _ h => h.2
  have hnothing : Undoes [] (m.enter (.splitter i)).view (m.enter (.splitter i)).view :=
    undoes_nil _
  refine .bind (.bind (ends_get (ends_pure ?_)))
  refine .bind (ends_ofExcept (fun x hx => ?_) fun _ _ => ⟨trivial, hnothing⟩)
  rcases x with ⟨payer, split⟩
  obtain ⟨hfair, hmeans⟩ := decideSplit_eq_ok hx
  have hstart : Routing i payer _ (m.enter (.splitter i)).view 0 _
      (accounted i [split] (m.enter (.splitter i))) :=
    routing_start (by simpa using hfair) (by simpa using hmeans)
  refine .bind (.bind (ends_account (.bind ?_)))
  refine (route_ends hstart hrun hfair.1 hfair.2.1 ?_).imp ?_ ?_
  · simp [hfair.2.2]
  · intro _ t _
    exact ends_pure (ends_pure trivial)
  · intro _ t hundoes
    exact ⟨trivial, hundoes⟩

/-! ## Batches -/

/-- The splits that are handed out before the first that is refused. -/
def handedOut (run : Executor) (i : Nat) (payer : Text) :
    List FeeSplit → Market × List UndoStep → List FeeSplit
  | [], _ => []
  | split :: rest, s =>
    match route run i payer split s with
    | .ok _ t => split :: handedOut run i payer rest t
    | .error _ _ => []

/-- The splits that a batch hands out before the first that is refused. -/
def batchHandedOut (run : Executor) (i : Nat) (models : List (Option Text))
    (amounts : List (Option Int)) (sender : Option Text) (m : Market) : List FeeSplit :=
  if .splitter i ∈ m.entered then []
  else
    match decideSplits i models amounts sender m with
    | .ok (payer, splits) =>
      handedOut run i payer splits (accounted i splits (m.enter (.splitter i)))
    | .error _ => []

theorem handedOut_of_ok {run : Executor} {i : Nat} {payer : Text} {split : FeeSplit}
    {rest : List FeeSplit} {s t : Market × List UndoStep} {u : Unit}
    (h : route run i payer split s = .ok u t) :
    handedOut run i payer (split :: rest) s = split :: handedOut run i payer rest t := by
  rw [handedOut, h]

theorem handedOut_of_error {run : Executor} {i : Nat} {payer : Text} {split : FeeSplit}
    {rest : List FeeSplit} {s t : Market × List UndoStep} {e : Error}
    (h : route run i payer split s = .error e t) :
    handedOut run i payer (split :: rest) s = [] := by
  rw [handedOut, h]

namespace MarketView

def afterProfits (i : Nat) (payer : Text) (splits : List FeeSplit) (v : MarketView) :
    MarketView :=
  splits.foldl (fun v split => v.afterProfit i payer split) v

theorem afterProfit_of_zero {split : FeeSplit} (h : split.profit = 0) (i : Nat) (payer : Text)
    (v : MarketView) : v.afterProfit i payer split = v := by
  have hpos : ¬ 0 < split.profit := by omega
  exact if_neg hpos

theorem callbacks_afterProfit (i : Nat) (payer : Text) (split : FeeSplit) (v : MarketView) :
    (v.afterProfit i payer split).callbacks = v.callbacks := by
  unfold afterProfit
  split
  · split
    · rfl
    · rfl
  · rfl

theorem afterProfits_cons (i : Nat) (payer : Text) (x : FeeSplit) (rest : List FeeSplit)
    (v : MarketView) :
    v.afterProfits i payer (x :: rest) = (v.afterProfit i payer x).afterProfits i payer rest := rfl

theorem afterProfits_of_zero {splits : List FeeSplit} (h : ∀ x ∈ splits, x.profit = 0) (i : Nat)
    (payer : Text) (v : MarketView) : v.afterProfits i payer splits = v := by
  induction splits generalizing v with
  | nil => rfl
  | cons x rest ih =>
      rw [afterProfits_cons, afterProfit_of_zero (h x (List.mem_cons_self ..))]
      exact ih (fun y hy => h y (List.mem_cons_of_mem x hy)) v

theorem afterProfit_withEntered (i : Nat) (payer : Text) (split : FeeSplit) (v : MarketView)
    (sections : List Section) :
    ({ v with entered := sections } : MarketView).afterProfit i payer split =
      { v.afterProfit i payer split with entered := sections } := by
  unfold afterProfit
  by_cases hpos : 0 < split.profit
  · have hpools : (({ v with entered := sections } : MarketView).directory
        (({ v with entered := sections } : MarketView).splitter i).directory).pools =
          (v.directory (v.splitter i).directory).pools := rfl
    simp only [if_pos hpos, hpools]
    cases (v.directory (v.splitter i).directory).pools.lookup split.model with
    | none => rfl
    | some p => rfl
  · simp only [if_neg hpos]

theorem afterProfits_withEntered (i : Nat) (payer : Text) (splits : List FeeSplit)
    (v : MarketView) (sections : List Section) :
    ({ v with entered := sections } : MarketView).afterProfits i payer splits =
      { v.afterProfits i payer splits with entered := sections } := by
  induction splits generalizing v with
  | nil => rfl
  | cons x rest ih =>
      rw [afterProfits_cons, afterProfit_withEntered]
      exact ih (v.afterProfit i payer x)

end MarketView

/-- A refusal after some splits leaves the deposits with their pools, and nothing else, out of the
journal's reach. -/
theorem routeAll_ends {run : Executor} {i : Nat} {payer account : Text} (splits : List FeeSplit)
    {target : MarketView} {need rest : Int} {s : Market × List UndoStep}
    (h : Routing i payer account target need rest s) (hrun : run.Direct target.callbacks)
    (hfair : ∀ x ∈ splits, x.IsFair) (hle : (splits.map FeeSplit.amount).sum ≤ rest) :
    let handed := handedOut run i payer splits s
    Ends (routeAll run i payer splits) s (fun _ _ => True)
      (fun _ t => Undoes t.2 (target.afterProfits i payer handed) t.1.view ∧
        (target.afterProfits i payer handed).pooled =
          target.pooled + (handed.map FeeSplit.profit).sum) := by
  induction splits generalizing target need rest s with
  | nil => exact ends_pure trivial
  | cons x others ih =>
      have hx := hfair x (List.mem_cons_self ..)
      have hothers := fun y hy => hfair y (List.mem_cons_of_mem x hy)
      have hothersLe := FeeSplit.sum_nonneg hothers
      rcases hx with ⟨hinfra, hprofit, hsum⟩
      simp at hle
      have hroute := route_ends h hrun hinfra hprofit (by omega)
      refine .bind (ends_of (fun _ t ht => ?_) fun e t ht => ?_)
      · obtain ⟨⟨need', hafter⟩, hpooled⟩ := hroute.of_ok ht
        have hquiet : run.Direct (target.afterProfit i payer x).callbacks := by
          rw [MarketView.callbacks_afterProfit]
          exact hrun
        have hrest := ih hafter hquiet hothers (by omega)
        rw [handedOut_of_ok ht]
        refine hrest.imp (fun _ _ h => h) fun _ u hu => ⟨hu.1, ?_⟩
        have htotal := hu.2
        rw [hpooled] at htotal
        rw [MarketView.afterProfits_cons, htotal, List.map_cons, List.sum_cons]
        omega
      · have hundoes := hroute.of_error ht
        rw [handedOut_of_error ht]
        exact ⟨hundoes, (Int.add_zero _).symm⟩

theorem batchDepositFees_ends {run : Executor} {m : Market} (hrun : run.Direct m.callbacks)
    (i : Nat) (models : List (Option Text)) (amounts : List (Option Int)) (sender : Option Text) :
    let handed := batchHandedOut run i models amounts sender m
    Ends (batchDepositFees run i models amounts sender) m (fun _ _ => True)
      (fun _ m' => m'.view = m.view.afterProfits i (sender.getD default) handed ∧
        (m.view.afterProfits i (sender.getD default) handed).pooled =
          m.view.pooled + (handed.map FeeSplit.profit).sum) := by
  refine guarded_unwinds (E := fun _ v =>
    v = m.view.afterProfits i (sender.getD default)
      (batchHandedOut run i models amounts sender m) ∧ _) ?_ ?_
  · intro hentered
    have hnone : batchHandedOut run i models amounts sender m = [] := if_pos hentered
    rw [hnone]
    exact ⟨rfl, (Int.add_zero _).symm⟩
  · intro hfree
    refine .bind (.bind (ends_get (ends_pure ?_)))
    refine .bind (ends_ofExcept (fun x hx => ?_) fun e he => ?_)
    · rcases x with ⟨payer, splits⟩
      obtain ⟨hsender, hfair, hmeans⟩ := decideSplits_eq_ok hx
      cases hsender
      have hhanded : batchHandedOut run i models amounts (some payer) m =
          handedOut run i payer splits (accounted i splits (m.enter (.splitter i))) := by
        have hdecided : decideSplits i models amounts (some payer) m = .ok (payer, splits) := hx
        unfold batchHandedOut
        rw [if_neg hfree, hdecided]
      have hstart := routing_start (i := i) (m := m.enter (.splitter i)) hfair hmeans
      have hroute := routeAll_ends splits hstart hrun hfair (Int.le_refl _)
      refine .bind (.bind (ends_account (hroute.imp ?_ ?_)))
      · intro _ t _
        exact ends_pure trivial
      · intro _ t hfailed
        rcases hfailed with ⟨hundoes, hpooled⟩
        have hinside : (m.enter (.splitter i)).view.afterProfits i payer
            (batchHandedOut run i models amounts (some payer) m) = _ :=
          MarketView.afterProfits_withEntered i payer _ m.view (.splitter i :: m.entered)
        have houtside := MarketView.afterProfits_withEntered i payer
          (batchHandedOut run i models amounts (some payer) m) m.view m.entered
        rw [← hhanded, hinside] at hundoes hpooled
        exact ⟨_, rfl, hundoes, houtside.symm, hpooled⟩
    · have hnone : batchHandedOut run i models amounts sender m = [] := by
        have hdecided : decideSplits i models amounts sender m = .error e := he
        unfold batchHandedOut
        rw [if_neg hfree, hdecided]
      rw [hnone]
      exact ⟨_, rfl, undoes_nil _, rfl, (Int.add_zero _).symm⟩

theorem handedOut_fair {run : Executor} {i : Nat} {payer : Text} {splits : List FeeSplit}
    (h : ∀ x ∈ splits, x.IsFair) (s : Market × List UndoStep) :
    ∀ x ∈ handedOut run i payer splits s, x.IsFair := by
  induction splits generalizing s with
  | nil =>
      intro x hx
      cases hx
  | cons first rest ih =>
      intro x hx
      cases hroute : route run i payer first s with
      | ok u t =>
          rw [handedOut_of_ok hroute] at hx
          rcases List.mem_cons.mp hx with heq | hmem
          · rw [heq]
            exact h first (List.mem_cons_self ..)
          · exact ih (fun y hy => h y (List.mem_cons_of_mem first hy)) t x hmem
      | error e t =>
          rw [handedOut_of_error hroute] at hx
          cases hx

theorem batchHandedOut_fair (run : Executor) (i : Nat) (models : List (Option Text))
    (amounts : List (Option Int)) (sender : Option Text) (m : Market) :
    ∀ x ∈ batchHandedOut run i models amounts sender m, x.IsFair := by
  unfold batchHandedOut
  split
  · intro x hx
    cases hx
  · split
    · rename_i hdecided
      exact handedOut_fair (decideSplits_eq_ok hdecided).2.1 _
    · intro x hx
      cases hx

theorem profit_eq_zero_of_sum {splits : List FeeSplit} (hfair : ∀ x ∈ splits, x.IsFair)
    (hsum : (splits.map FeeSplit.profit).sum = 0) : ∀ x ∈ splits, x.profit = 0 := by
  have hnonneg : ∀ profit ∈ splits.map FeeSplit.profit, 0 ≤ profit := by
    intro profit hprofit
    rcases List.mem_map.mp hprofit with ⟨x, hx, rfl⟩
    exact (hfair x hx).2.1
  intro x hx
  exact List.all_zero_of_le_zero_le_of_sum_eq_zero hnonneg hsum (List.mem_map_of_mem hx)

/-- A batch that fails leaves the pool deposits of the entries handed out before the failure, and
nothing else. So it leaves no trace exactly when these entries had nothing for a pool. -/
theorem view_of_failed_batch {run : Executor} {m m' : Market} {i : Nat}
    {models : List (Option Text)} {amounts : List (Option Int)} {sender : Option Text} {e : Error}
    (hrun : run.Direct m.callbacks)
    (hfailed : batchDepositFees run i models amounts sender m = .error e m') :
    m'.view = m.view.afterProfits i (sender.getD default)
        (batchHandedOut run i models amounts sender m) ∧
      (m'.view = m.view ↔
        ∀ x ∈ batchHandedOut run i models amounts sender m, x.profit = 0) := by
  have hends := batchDepositFees_ends hrun i models amounts sender
  obtain ⟨hview, hpooled⟩ := hends.of_error hfailed
  refine ⟨hview, ?_, ?_⟩
  · intro hsame
    rw [← hview, hsame] at hpooled
    exact profit_eq_zero_of_sum (batchHandedOut_fair run i models amounts sender m) (by omega)
  · intro hzero
    rw [hview]
    exact MarketView.afterProfits_of_zero hzero ..

/-- A market whose second pool claims a reserve that its account does not hold. -/
def sampleUnbacked : Market where
  now := 0
  symbol := "asset"
  table := (BalanceTable.set ⟨"payer", "asset"⟩ 1000).stateAfter .empty
  tokens := [⟨{ name := "token", live := [1, 2] }, some .empty⟩]
  capabilities := [⟨0, 1, .null⟩, ⟨0, 2, .null⟩]
  pools := [
    { model := "m1", treasury := "treasury", account := "pool:m1", capability := 0
      state := { terms := default }, supply := 0, events := [] },
    { model := "m2", treasury := "treasury", account := "pool:m2", capability := 1
      state := { terms := default, reserve := 500 }, supply := 0, events := [] }]
  directories := [⟨some "treasury", [("m1", 0), ("m2", 1)]⟩]
  governances := [default]
  reserves := [{ account := "infra", treasury := "treasury", directory := 0 }]
  splitters := [{ directory := 0, reserve := 0, governance := 0 }]

def sampleBatch : Action Market BatchDeposit :=
  batchDepositFees apply 0 [some "m1", some "m2"] [some 100, some 100] (some "payer")

theorem view_of_failed_sample_batch :
    (sampleBatch.stateAfter sampleUnbacked).view =
      sampleUnbacked.view.afterProfits 0 "payer" [⟨"m1", 100, 80, 20⟩] := by
  obtain ⟨e, hfailed⟩ := exists_error_of_outcome (a := sampleBatch) (s := sampleUnbacked)
    (by decide +kernel)
  have hhanded : batchHandedOut apply 0 [some "m1", some "m2"] [some 100, some 100] (some "payer")
      sampleUnbacked = [⟨"m1", 100, 80, 20⟩] := by decide +kernel
  have hview := (view_of_failed_batch (apply_direct _) hfailed).1
  rw [hhanded] at hview
  exact hview

/-- The sample batch fails and its payer has lost the deposit with the first pool. -/
theorem sample_batch_keeps_deposit :
    (sampleBatch.outcome sampleUnbacked).isOk = false ∧
      sampleUnbacked.held "payer" = 1000 ∧
      (sampleBatch.stateAfter sampleUnbacked).held "payer" = 980 := by
  decide +kernel

end CurveMarket
