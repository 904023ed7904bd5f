import Mathlib.Algebra.Order.Ring.Int
import Mathlib.Algebra.BigOperators.Group.List.Basic
import CurveMarket.Proofs.Pool.Decision
import CurveMarket.Proofs.Revenue.Reserve

/-! # Routing revenue

The infrastructure shares of a batch are in the journal and can be taken back, while a deposit with
a pool stays. The reserve's account always covers what the journal would take back, whatever pools
have been paid in between, so a failed batch comes down to the pool deposits before the failure.
-/

namespace CurveMarket

open CurveMarket.Action Market

/-! ## Deposits with pools -/

/-- What a payment adds under each key. -/
def paid (payer payee : RowKey) (amount : Int) : RowKey → Int := fun k =>
  (if k = payee then amount else 0) - (if k = payer then amount else 0)

theorem transferred_eq_add (amounts : RowKey → Int) (payer payee : RowKey) (amount : Int) :
    transferred amounts payer payee amount = fun k => amounts k + paid payer payee amount k := by
  funext k
  rw [transferred_apply]
  unfold paid
  omega

namespace MarketView

/-- A view with other pools and with more or less under each key. -/
def shifted (change : RowKey → Int) (pools : List Pool) (v : MarketView) : MarketView :=
  { v with balances := fun k => v.balances k + change k, pools := pools }

theorem shifted_shifted (v : MarketView) (change change' : RowKey → Int)
    (pools pools' : List Pool) : (v.shifted change pools).shifted change' pools' =
      v.shifted (fun k => change k + change' k) pools' := by
  have hsum (k : RowKey) : v.balances k + change k + change' k =
      v.balances k + (change k + change' k) := by omega
  unfold shifted
  simp only [hsum]

theorem shifted_zero (v : MarketView) : v.shifted (fun _ => 0) v.pools = v := by
  unfold shifted
  simp only [Int.add_zero]

def depositPools (p : Nat) (payer : Text) (amount : Int) (v : MarketView) : List Pool :=
  let pool := v.pool p
  v.pools.modify p (committed pool.state (pool.state.afterDeposit amount)
    (v.supplyOf pool.capability) [.feesDeposited payer amount])

def afterDeposit (p : Nat) (payer : Text) (amount : Int) (v : MarketView) : MarketView :=
  v.shifted (paid ⟨payer, v.symbol⟩ ⟨(v.pool p).account, v.symbol⟩ amount)
    (v.depositPools p payer amount)

theorem afterPay_eq (payer payee : Text) (amount : Int) (v : MarketView) :
    v.afterPay payer payee amount =
      v.shifted (paid ⟨payer, v.symbol⟩ ⟨payee, v.symbol⟩ amount) v.pools := by
  show ({ v with balances := transferred v.balances _ _ amount } : MarketView) = _
  rw [transferred_eq_add]
  rfl

end MarketView

theorem depositFees_ends {run : Executor} {m : Market} (hrun : run.Direct m.callbacks) (p : Nat)
    {payer : Text} {amount : Int} :
    Ends (depositFees run p (some amount) (some payer)) m
      (fun _ m' => p < m.view.pools.length ∧ m'.view = m.view.afterDeposit p payer amount)
      (fun _ m' => m'.view = m.view) := by
  refine (inPool_ends hrun (fun _ => rfl) (.any ..)).imp ?_ fun _ _ h => h.2
  intro _ m' hdone
  rcases hdone with ⟨d, hd, -, u, hmoves, -, hview⟩
  obtain ⟨payer', a, hpayer, ⟨hamount, hpos⟩, heffects, hpost, hevents, -⟩ := decideDeposit_eq_ok hd
  cases hpayer
  cases hamount
  have hnonzero : amount ≠ 0 := by omega
  rw [heffects, MarketView.movesAll_moves_of_ne hnonzero] at hmoves
  cases hmoves with
  | transfer _ haccount _ _ =>
      have hlisted : p < m.view.pools.length :=
        lt_length_of_getD (fun x : Pool => x.account.isEmpty = false) haccount (by decide)
      refine ⟨hlisted, ?_⟩
      rw [hview, hpost, hevents, MarketView.afterPay_eq]
      rfl

/-! ## Taking a share back -/

namespace MarketView

/-- A view after `payer` has paid an infrastructure share to reserve `r`. -/
def afterShare (r : Nat) (payer model : Text) (amount : Int) (v : MarketView) : MarketView :=
  (v.afterPay payer (v.reserve r).account amount).updateReserve r (.accrue model amount)

theorem reserve_updateReserve {v : MarketView} {r : Nat} (h : r < v.reserves.length)
    (g : ReserveView → ReserveView) : (v.updateReserve r g).reserve r = g (v.reserve r) := by
  unfold reserve updateReserve
  rw [List.getD_eq_getElem _ _ (by simpa using h), List.getD_eq_getElem _ _ h]
  simp

theorem reserve_afterShare {v : MarketView} {r : Nat} (h : r < v.reserves.length)
    (payer model : Text) (amount : Int) :
    (v.afterShare r payer model amount).reserve r = (v.reserve r).accrue model amount :=
  reserve_updateReserve h _

theorem held_afterShare (v : MarketView) (r : Nat) (payer model : Text) (amount : Int)
    (account : Text) : (v.afterShare r payer model amount).held account =
      v.held account + gain payer (v.reserve r).account amount account := by
  show (v.afterPay payer (v.reserve r).account amount).held account = _
  exact held_afterPay ..

/-- Taking a share back undoes its transfer and its accrual, whatever else was paid. -/
theorem reversal_eq {v : MarketView} {r : Nat} {model : Text} {amount : Int} (hle : 0 ≤ amount)
    (haccrued : 0 ≤ (v.reserve r).accrued model) (payer : Text) (change : RowKey → Int)
    (pools : List Pool) :
    ((((v.afterShare r payer model amount).shifted change pools).afterPay (v.reserve r).account
      payer amount).updateReserve r (.accrue model (-amount))) = v.shifted change pools := by
  have hbalances : transferred (fun k => transferred v.balances ⟨payer, v.symbol⟩
      ⟨(v.reserve r).account, v.symbol⟩ amount k + change k) ⟨(v.reserve r).account, v.symbol⟩
        ⟨payer, v.symbol⟩ amount = fun k => v.balances k + change k := by
    funext k
    rw [transferred_apply, transferred_apply]
    omega
  have hreserve : (v.updateReserve r (.accrue model amount)).updateReserve r
      (.accrue model (-amount)) = v := by
    rw [updateReserve_updateReserve]
    exact updateReserve_of_fixed (ReserveView.accrue_neg_accrue model hle haccrued)
  have hreserves : (v.reserves.modify r (.accrue model amount)).modify r
      (.accrue model (-amount)) = v.reserves := congrArg MarketView.reserves hreserve
  show ({ v with
    balances := transferred (fun k => transferred v.balances ⟨payer, v.symbol⟩
      ⟨(v.reserve r).account, v.symbol⟩ amount k + change k) ⟨(v.reserve r).account, v.symbol⟩
        ⟨payer, v.symbol⟩ amount
    pools := pools
    reserves := (v.reserves.modify r _).modify r _ } : MarketView) = _
  rw [hbalances, hreserves]
  rfl

end MarketView

/-- A share can be taken back while the reserve's account holds it, whatever was paid since. -/
theorem revertDeposit_undoes {run : Executor} {m : Market} {v : MarketView} {r : Nat}
    {payer model : Text} {amount : Int} {change : RowKey → Int} {pools : List Pool}
    (hrun : run.Direct m.callbacks) (hfree : .reserve r ∉ m.entered)
    (hlisted : r < v.reserves.length) (hpayer : payer.isEmpty = false)
    (haccount : (v.reserve r).account.isEmpty = false)
    (hmodel : model.isEmpty = false) (hpos : 0 < amount)
    (haccrued : 0 ≤ (v.reserve r).accrued model)
    (hview : m.view = (v.afterShare r payer model amount).shifted change pools)
    (hheld : amount ≤ m.view.held (v.reserve r).account) :
    Succeeds (revertDeposit run r (some model) (some amount) (some payer)) m
      fun _ m' => m'.view = v.shifted change pools := by
  have hreserve : m.view.reserve r = (v.reserve r).accrue model amount := by
    rw [hview]
    exact MarketView.reserve_afterShare hlisted payer model amount
  have hholder : (m.view.reserve r).account = (v.reserve r).account := by
    rw [hreserve]
    rfl
  have hback : m.view.Moves (.transfer (m.view.reserve r).account payer amount)
      (m.view.afterPay (v.reserve r).account payer amount) := by
    rw [hholder]
    exact .transfer haccount hpayer (Int.le_of_lt hpos) hheld
  have hcredited : amount ≤ (m.view.reserve r).accrued model := by
    rw [hreserve]
    show amount ≤ if model = model then _ else _
    rw [if_pos rfl]
    omega
  refine (revertDeposit_succeeds hrun hfree hmodel hpos hcredited hback).imp ?_ fun _ _ h => h
  intro _ m' hm'
  rw [hm', hview]
  exact MarketView.reversal_eq (Int.le_of_lt hpos) haccrued payer change pools

/-! ## What routing keeps -/

theorem view_reserve_account (m : Market) (r : Nat) :
    (m.view.reserve r).account = (m.reserve r).account := by
  rw [view_reserve]
  rfl

/-- What holds while a batch is routed that a failure would take back to `target`. The journal would
take `need` from the reserve's account, and `rest` is still to be routed. The undoing may come after
any further deposits with pools, which change balances and pools only. -/
structure Routing (i : Nat) (payer account : Text) (target : MarketView) (need rest : Int)
    (s : Market × List UndoStep) : Prop where
  same : s.1.view = { target with
    balances := s.1.view.balances, reserves := s.1.view.reserves, splitters := s.1.view.splitters }
  reserve : (s.1.splitter i).reserve = (target.splitter i).reserve
  directory : (s.1.splitter i).directory = (target.splitter i).directory
  holder : (s.1.view.reserve (target.splitter i).reserve).account = account
  undo : ∀ change pools, need ≤ (s.1.view.shifted change pools).held account →
    Undoes s.2 (target.shifted change pools) (s.1.view.shifted change pools)
  nonneg : 0 ≤ need ∧ 0 ≤ rest
  covered : need + (if payer = account then rest else 0) ≤ s.1.view.held account
  means : rest ≤ s.1.view.held payer

namespace Routing

variable {run : Executor} {i : Nat} {payer account : Text} {target : MarketView} {need rest : Int}
  {s : Market × List UndoStep}

theorem callbacks_eq (h : Routing i payer account target need rest s) :
    s.1.callbacks = target.callbacks := by
  have heq : s.1.view.callbacks = target.callbacks := by rw [h.same]
  exact heq

theorem pools_eq (h : Routing i payer account target need rest s) :
    s.1.view.pools = target.pools := by
  rw [h.same]

theorem undoes (h : Routing i payer account target need rest s) :
    Undoes s.2 target s.1.view := by
  have hcovered := h.covered
  have hrest := h.nonneg.2
  have hneed : need ≤ s.1.view.held account := by
    split at hcovered
    · omega
    · omega
  have hundoes := h.undo (fun _ => 0) s.1.view.pools (by
    rw [MarketView.shifted_zero]
    exact hneed)
  rw [MarketView.shifted_zero, h.pools_eq, MarketView.shifted_zero] at hundoes
  exact hundoes

/-- Once a share is accrued, taking it back is the next step of the journal. -/
theorem afterInfra (h : Routing i payer account target need rest s)
    (hrun : run.Direct target.callbacks) {r : Nat} (hr : r = (target.splitter i).reserve)
    {model : Text} {amount : Int} (hfree : .reserve r ∉ s.1.entered)
    (hmodel : model.isEmpty = false) (hpos : 0 < amount) (hle : amount ≤ rest) {u : MarketView}
    (hmoves : s.1.view.Moves (.transfer payer (s.1.reserve r).account amount) u) {m₁ : Market}
    (hview : m₁.view = u.updateReserve r (ReserveView.accrue model amount)) :
    Routing i payer account target (need + amount) (rest - amount)
      (m₁, revertDeposit run r (some model) (some amount) (some payer) :: s.2) := by
  have hholder : (s.1.view.reserve r).account = account := by
    rw [hr]
    exact h.holder
  have haccrued : 0 ≤ (s.1.view.reserve r).accrued model := by
    rw [view_reserve]
    exact Tally.get_nonneg _ model
  have hsame := h.same
  have hcallbacks := h.callbacks_eq
  rw [← view_reserve_account] at hmoves
  cases hmoves with
  | transfer hpayer haccount _ hheld =>
      have hshare : m₁.view = s.1.view.afterShare r payer model amount := hview
      have hlisted : r < s.1.view.reserves.length :=
        lt_length_of_getD (fun x : ReserveView => x.account.isEmpty = false) haccount (by decide)
      have hheld₁ (a : Text) : m₁.view.held a =
          s.1.view.held a + MarketView.gain payer account amount a := by
        rw [hshare, MarketView.held_afterShare, hholder]
      have hsplitters : m₁.view.splitters = s.1.view.splitters := by
        rw [hview]
        rfl
      have hgain : MarketView.gain payer account amount account =
          amount - if payer = account then amount else 0 := MarketView.gain_self ..
      have hneed := h.nonneg
      have hcovered := h.covered
      have hmeans := h.means
      constructor
      · rw [hview]
        generalize s.1.view = v at hsame
        rw [hsame]
        rfl
      · show (m₁.view.splitters.getD i default).reserve = _
        rw [hsplitters]
        exact h.reserve
      · show (m₁.view.splitters.getD i default).directory = _
        rw [hsplitters]
        exact h.directory
      · rw [← hr, hshare, MarketView.reserve_afterShare hlisted]
        exact hholder
      · intro change pools hshifted
        have hsymbol : m₁.view.symbol = s.1.view.symbol := by
          rw [hview]
          rfl
        have hleft : need + amount ≤ s.1.view.held account +
            MarketView.gain payer account amount account + change ⟨account, s.1.view.symbol⟩ := by
          rw [← hheld₁, ← hsymbol]
          exact hshifted
        refine (h.undo change pools ?_).cons fun m₂ hm₂ => ?_
        · show need ≤ s.1.view.held account + change ⟨account, s.1.view.symbol⟩
          split at hgain
          · omega
          · omega
        · rw [hshare] at hm₂
          have hquiet : m₂.callbacks = target.callbacks := by
            rw [← hcallbacks]
            exact congrArg MarketView.callbacks hm₂
          have hentered : m₂.entered = s.1.entered := congrArg MarketView.entered hm₂
          refine revertDeposit_undoes (hquiet ▸ hrun) (hentered ▸ hfree) hlisted hpayer haccount
            hmodel hpos haccrued hm₂ ?_
          rw [hm₂, hholder, ← hshare]
          exact Int.le_trans (Int.le_add_of_nonneg_left hneed.1) hshifted
      · omega
      · show need + amount + _ ≤ m₁.view.held account
        rw [hheld₁, hgain]
        by_cases hself : payer = account
        · rw [if_pos hself] at hcovered ⊢
          rw [if_pos hself]
          omega
        · rw [if_neg hself] at hcovered ⊢
          rw [if_neg hself]
          omega
      · show rest - amount ≤ m₁.view.held payer
        rw [hheld₁]
        have hpaid := MarketView.neg_le_gain payer account payer (Int.le_of_lt hpos)
        omega

/-- What is left after a deposit with a pool is still covered, and the deposit is not undone. -/
theorem afterDeposit (h : Routing i payer account target need rest s) {p : Nat} {amount : Int}
    (hle : 0 ≤ amount) (hrest : amount ≤ rest) {m₁ : Market}
    (hview : m₁.view = s.1.view.afterDeposit p payer amount) :
    Routing i payer account (target.afterDeposit p payer amount) need (rest - amount)
      (m₁, s.2) := by
  have hsame := h.same
  have hshifted : m₁.view = s.1.view.shifted
      (paid ⟨payer, target.symbol⟩ ⟨(target.pool p).account, target.symbol⟩ amount)
      (target.depositPools p payer amount) := by
    rw [hview]
    generalize s.1.view = v at hsame
    rw [hsame]
    rfl
  have hheld (a : Text) : s.1.view.held a - (if a = payer then amount else 0) ≤
      m₁.view.held a := by
    have hsymbol : s.1.view.symbol = target.symbol := by rw [hsame]
    rw [hshifted]
    show _ ≤ s.1.view.held a + paid _ _ _ ⟨a, s.1.view.symbol⟩
    rw [hsymbol]
    unfold paid
    have hkey : (⟨a, target.symbol⟩ : RowKey) = ⟨payer, target.symbol⟩ ↔ a = payer := by simp
    simp only [hkey]
    split
    · omega
    · omega
  constructor
  · rw [hshifted]
    generalize s.1.view = v at hsame
    rw [hsame]
    rfl
  · show (m₁.view.splitters.getD i default).reserve = _
    rw [hview]
    exact h.reserve
  · show (m₁.view.splitters.getD i default).directory = _
    rw [hview]
    exact h.directory
  · show (m₁.view.reserves.getD _ default).account = _
    rw [hview]
    exact h.holder
  · intro change pools hneed
    have hundo := h.undo (fun k => paid ⟨payer, target.symbol⟩
      ⟨(target.pool p).account, target.symbol⟩ amount k + change k) pools
    rw [hshifted, MarketView.shifted_shifted] at hneed ⊢
    unfold MarketView.afterDeposit
    rw [MarketView.shifted_shifted]
    exact hundo hneed
  · have hnonneg := h.nonneg
    omega
  · show need + _ ≤ m₁.view.held account
    have hcovered := h.covered
    have hleft := hheld account
    by_cases hself : payer = account
    · rw [if_pos hself] at hcovered ⊢
      rw [if_pos hself.symm] at hleft
      omega
    · rw [if_neg hself] at hcovered ⊢
      rw [if_neg (Ne.symm hself)] at hleft
      omega
  · show rest - amount ≤ m₁.view.held payer
    have hmeans := h.means
    have hleft := hheld payer
    rw [if_pos rfl] at hleft
    omega

end Routing

/-! ## Both shares of a split -/

namespace MarketView

/-- A view after the rest of a split has gone to the pool of its model. -/
def afterProfit (i : Nat) (payer : Text) (split : FeeSplit) (v : MarketView) : MarketView :=
  if 0 < split.profit then
    match (v.directory (v.splitter i).directory).pools.lookup split.model with
    | some p => v.afterDeposit p payer split.profit
    | none => v
  else v

def pooled (v : MarketView) : Int := (v.pools.map fun p => p.state.reserve).sum

end MarketView

theorem sum_modify {α : Type} {f : α → α} {g : α → Int} {change : Int} {l : List α} {j : Nat}
    (h : j < l.length) (hf : g (f l[j]) = g l[j] + change) :
    ((l.modify j f).map g).sum = (l.map g).sum + change := by
  induction l generalizing j with
  | nil => exact absurd h (Nat.not_lt_zero j)
  | cons x rest ih =>
      cases j with
      | zero =>
          have hx : g (f x) = g x + change := hf
          simp [hx]
          omega
      | succ j =>
          have hrest := ih (Nat.lt_of_succ_lt_succ h) hf
          simp [hrest]
          omega

theorem pooled_afterDeposit {v : MarketView} {p : Nat} (h : p < v.pools.length) (payer : Text)
    (amount : Int) : (v.afterDeposit p payer amount).pooled = v.pooled + amount := by
  have hpool : v.pool p = v.pools[p] := List.getD_eq_getElem _ _ h
  refine sum_modify h ?_
  show (v.pool p).state.reserve + amount = _
  rw [hpool]

section Route

variable {run : Executor} {i : Nat} {payer account : Text} {target : MarketView} {need rest : Int}
  {s : Market × List UndoStep} {split : FeeSplit}

theorem routeInfra_ends (h : Routing i payer account target need rest s)
    (hrun : run.Direct target.callbacks) {sp : Splitter}
    (hreserve : sp.reserve = (target.splitter i).reserve) (hnonneg : 0 ≤ split.infra)
    (hle : split.infra ≤ rest) :
    Ends (routeInfra run sp payer split) s
      (fun _ t => ∃ need', Routing i payer account target need' (rest - split.infra) t)
      (fun _ t => Undoes t.2 target t.1.view) := by
  have hquiet := h.callbacks_eq
  have hundoes := h.undoes
  unfold routeInfra
  by_cases hpos : 0 < split.infra
  · rw [if_pos hpos]
    refine .bind (.focus ((deposit_ends (hquiet ▸ hrun)).imp ?_ ?_))
    · intro _ m₁ hdone
      rcases hdone with ⟨hfree, hmodel, -, u, hmoves, hview⟩
      exact ends_modify
        ⟨_, h.afterInfra hrun hreserve hfree hmodel hpos hle hmoves hview⟩
    · intro _ m₁ hview
      rw [hview]
      exact hundoes
  · have hzero : split.infra = 0 := by omega
    rw [if_neg hpos, hzero, Int.sub_zero]
    exact ends_pure ⟨need, h⟩

theorem routeProfit_ends (h : Routing i payer account target need rest s)
    (hrun : run.Direct target.callbacks) {sp : Splitter}
    (hdirectory : sp.directory = (target.splitter i).directory) (hnonneg : 0 ≤ split.profit)
    (hle : split.profit ≤ rest) :
    Ends (routeProfit run sp payer split) s
      (fun _ t => Routing i payer account (target.afterProfit i payer split) need
          (rest - split.profit) t ∧
        (target.afterProfit i payer split).pooled = target.pooled + split.profit)
      (fun _ t => Undoes t.2 target t.1.view) := by
  have hquiet := h.callbacks_eq
  have hundoes := h.undoes
  unfold routeProfit MarketView.afterProfit
  by_cases hpos : 0 < split.profit
  · have hsame : s.1.directory sp.directory =
        target.directory (target.splitter i).directory := by
      have hdirectories : s.1.view.directories = target.directories := by rw [h.same]
      rw [hdirectory]
      exact congrArg (List.getD · _ default) hdirectories
    simp only [if_pos hpos]
    refine .bind (.bind (ends_get (ends_pure ?_)))
    rw [hsame]
    cases (target.directory (target.splitter i).directory).pools.lookup split.model with
    | none => exact ends_throw hundoes
    | some p =>
        refine .focus ((depositFees_ends (hquiet ▸ hrun) p).imp ?_ ?_)
        · intro _ m₁ hdone
          rcases hdone with ⟨hlisted, hview⟩
          have hpools := h.pools_eq
          refine ⟨h.afterDeposit hnonneg hle hview, pooled_afterDeposit ?_ payer split.profit⟩
          rw [← hpools]
          exact hlisted
        · intro _ m₁ hview
          rw [hview]
          exact hundoes
  · have hzero : split.profit = 0 := by omega
    rw [if_neg hpos, if_neg hpos, hzero, Int.sub_zero]
    exact ends_pure ⟨h, (Int.add_zero _).symm⟩

theorem route_ends (h : Routing i payer account target need rest s)
    (hrun : run.Direct target.callbacks) (hinfra : 0 ≤ split.infra) (hprofit : 0 ≤ split.profit)
    (hle : split.infra + split.profit ≤ rest) :
    Ends (route run i payer split) s
      (fun _ t => (∃ need', Routing i payer account (target.afterProfit i payer split) need'
          (rest - (split.infra + split.profit)) t) ∧
        (target.afterProfit i payer split).pooled = target.pooled + split.profit)
      (fun _ t => Undoes t.2 target t.1.view) := by
  refine .bind (.bind (ends_get (ends_pure ?_)))
  refine .bind ((routeInfra_ends h hrun h.reserve hinfra (by omega)).imp ?_ fun _ _ h => h)
  intro _ t hafter
  rcases hafter with ⟨need', hrouting⟩
  refine (routeProfit_ends hrouting hrun h.directory hprofit (by omega)).imp ?_ fun _ _ h => h
  intro _ u hdone
  have hleft : rest - split.infra - split.profit = rest - (split.infra + split.profit) := by omega
  rw [← hleft]
  exact ⟨⟨need', hdone.1⟩, hdone.2⟩

end Route

end CurveMarket
