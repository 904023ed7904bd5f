import CurveMarket.Market.Service
import CurveMarket.Proofs.Market.Rollback

/-! # Calls on a pool

A mutating call either commits what it decided, with its effects carried out and no rule broken, or
leaves the view as it was.
-/

namespace CurveMarket

open CurveMarket.Action Market

namespace MarketView

theorem MovesAll.pool_eq {v w : MarketView} {es : List Effect} (h : v.MovesAll es w) (i : Nat) :
    w.pool i = v.pool i := by
  rw [h.eq]
  rfl

/-- From `v` a decided call on pool `i` gets to `w`. -/
def Commits {α : Type} (v : MarketView) (i : Nat) (d : PoolPlan α) (w : MarketView) : Prop :=
  ∃ u, v.MovesAll d.effects u ∧
    (v.pool i).state.stepViolations d.post (u.held (v.pool i).account) (some d.change) = [] ∧
    w = u.updatePool i (committed (v.pool i).state d.post (u.supplyOf (v.pool i).capability)
      d.events)

theorem pool_updatePool {v : MarketView} {i : Nat} (h : i < v.pools.length) (f : Pool → Pool) :
    (v.updatePool i f).pool i = f (v.pool i) := by
  unfold pool updatePool
  rw [List.getD_eq_getElem _ _ (by simpa using h), List.getD_eq_getElem _ _ h]
  simp

theorem Commits.exists_moves {α : Type} {v w : MarketView} {i : Nat} {d : PoolPlan α}
    (h : v.Commits i d w) (hlisted : i < v.pools.length) :
    w.pools.length = v.pools.length ∧ ∃ u, v.MovesAll d.effects u ∧
      (v.pool i).state.stepViolations d.post (u.held (v.pool i).account) (some d.change) = [] ∧
      w = u.updatePool i (committed (v.pool i).state d.post (u.supplyOf (v.pool i).capability)
        d.events) ∧
      w.pool i = committed (v.pool i).state d.post (u.supplyOf (v.pool i).capability) d.events
        (v.pool i) := by
  rcases h with ⟨u, hmoves, hnone, hw⟩
  have hpools : u.pools = v.pools := by rw [hmoves.eq]
  refine ⟨?_, u, hmoves, hnone, hw, ?_⟩
  · rw [hw]
    show (u.pools.modify i _).length = _
    rw [List.length_modify, hpools]
  · rw [hw, pool_updatePool (by rw [hpools]; exact hlisted), hmoves.pool_eq]

end MarketView

section Commit

variable {α : Type} {i : Nat} {m m₁ : Market} {d : PoolPlan α}

theorem commit_ends {pre post : PoolState} {events : List PoolEvent} {change : Int} :
    Ends (commit i pre post events change) m
      (fun _ m' => pre.stepViolations post (m.held (m.pool i).account) (some change) = [] ∧
        m' = m.updatePool i (committed pre post (m.supplyOf (m.pool i).capability) events))
      (fun e m' => m' = m ∧ ∃ broken, e = .violated broken ∧ broken ≠ [] ∧
        pre.stepViolations post (m.held (m.pool i).account) (some change) = broken) := by
  unfold commit
  refine .bind (ends_get (ends_unless (fun hbroken => ?_) fun hnone => ?_))
  · exact ⟨rfl, _, rfl, hbroken, rfl⟩
  · exact ends_modify ⟨not_not.mp hnone, rfl⟩

end Commit

/-- The errors that a call with a plan may end in are all in `E`. -/
structure PlanErrors {α : Type} (i : Nat) (m : Market) (plan : Except Error (PoolPlan α))
    (E : Error → Prop) : Prop where
  refusal : ∀ e, e.IsRefusal → E e
  decision : ∀ e, plan = .error e → E e
  broken : ∀ d u broken, plan = .ok d → m.view.MovesAll d.effects u →
    (m.pool i).state.stepViolations d.post (u.held (m.pool i).account) (some d.change) = broken →
    broken ≠ [] → E (.violated broken)

theorem PlanErrors.any {α : Type} (i : Nat) (m : Market) (plan : Except Error (PoolPlan α)) :
    PlanErrors i m plan fun _ => True where
  refusal := fun _ _ => trivial
  decision := fun _ _ => trivial
  broken := fun _ _ _ _ _ _ _ => trivial

/-- The plan of a call is made in its section, which no plan looks at. -/
theorem inPool_ends {run : Executor} {α : Type} {i : Nat} {action : Text}
    {plan : Market → Pool → Except Error (PoolPlan α)} {m : Market}
    (hrun : run.Direct m.callbacks) {E : Error → Prop}
    (hsection : ∀ p, plan (m.enter (.pool i)) p = plan m p)
    (herrors : PlanErrors i m (plan m (m.pool i)) E) :
    Ends (inPool run i action plan) m
      (fun x m' => ∃ d, plan m (m.pool i) = .ok d ∧ x = d.result ∧ m.view.Commits i d m'.view)
      (fun e m' => E e ∧ m'.view = m.view) := by
  refine .bind (ends_get (guarded_ends (herrors.refusal _ nofun) fun hfree => ?_))
  refine follow_ends (m := m.enter (.pool i)) hrun (Q := fun x m₂ => ∃ d,
    plan m (m.pool i) = .ok d ∧ x = d.result ∧ m.view.Commits i d (m₂.leave (.pool i)).view)
    herrors.refusal ?_ ?_
  · intro e he
    rw [hsection] at he
    cases hp : plan m (m.pool i) with
    | ok d =>
        rw [hp] at he
        cases he
    | error e' =>
        rw [hp] at he
        cases he
        exact herrors.decision e hp
  · intro p m₁ hp hmoves
    rw [hsection] at hp
    cases hd : plan m (m.pool i) with
    | error e =>
        rw [hd] at hp
        cases hp
    | ok d =>
        rw [hd] at hp
        cases hp
        have hmoves' := hmoves.withEntered m.entered
        have hpool : m₁.pool i = m.pool i := hmoves.pool_eq i
        refine commit_ends.imp ?_ ?_
        · rintro - m₂ ⟨hnone, rfl⟩
          rw [hpool] at hnone ⊢
          refine ⟨d, rfl, rfl, _, hmoves', hnone, ?_⟩
          have hentered : m₁.view.entered = .pool i :: m.entered := by rw [hmoves.eq]; rfl
          have hleft := entered_leave hfree hentered
          have hsupply := view_supplyOf m₁ (m.pool i).capability
          show ({ m₁.view.updatePool i (committed _ _ (m₁.supplyOf (m.pool i).capability) _) with
            entered := (m₁.leave (.pool i)).entered } : MarketView) = _
          rw [hleft, ← hsupply]
          rfl
        · rintro e m₂ ⟨rfl, broken, rfl, hne, hvio⟩
          rw [hpool] at hvio
          exact ⟨herrors.broken d _ broken hd hmoves' hvio hne, rfl⟩

/-- A call that succeeds has committed its plan. -/
theorem decided_of_ok {run : Executor} {α : Type} {i : Nat} {action : Text}
    {plan : Market → Pool → Except Error (PoolPlan α)} {m m' : Market} {x : α}
    (hrun : run.Direct m.callbacks) (hsection : ∀ p, plan (m.enter (.pool i)) p = plan m p)
    (h : inPool run i action plan m = .ok x m') :
    ∃ d, plan m (m.pool i) = .ok d ∧ x = d.result ∧ m.view.Commits i d m'.view :=
  (inPool_ends hrun hsection (.any i m _)).of_ok h

theorem inPool_succeeds {run : Executor} {α : Type} {i : Nat} {action : Text}
    {plan : Market → Pool → Except Error (PoolPlan α)} {m : Market}
    (hrun : run.Direct m.callbacks) (hsection : ∀ p, plan (m.enter (.pool i)) p = plan m p)
    (hidle : .pool i ∉ m.entered) {d : PoolPlan α} (hplan : plan m (m.pool i) = .ok d)
    {u : MarketView} (hmoves : m.view.MovesAll d.effects u)
    (hnone : (m.pool i).state.stepViolations d.post (u.held (m.pool i).account)
      (some d.change) = []) :
    Succeeds (inPool run i action plan) m fun x _ => x = d.result := by
  refine .bind (ends_get (guarded_succeeds hidle ?_))
  have hmoves' : (m.enter (.pool i)).view.MovesAll d.effects _ :=
    hmoves.withEntered (.pool i :: m.entered)
  refine follow_succeeds (m := m.enter (.pool i)) hrun (Q := fun x _ => x = d.result)
    (p := d.plan i (m.pool i).state) ?_ hmoves' ?_
  · rw [hsection, hplan]
    rfl
  · intro m₁ hview
    refine commit_ends.imp (fun _ _ _ => rfl) ?_
    rintro e m₂ ⟨-, broken, -, hne, hbroken⟩
    have hpool : m₁.pool i = m.pool i := by
      rw [← hview] at hmoves'
      exact hmoves'.pool_eq i
    have hheld : m₁.held (m.pool i).account = u.held (m.pool i).account := by
      rw [← view_held, hview]
      rfl
    rw [hpool, hheld] at hbroken
    exact hne (hbroken.symm.trans hnone)

/-! ## The calls of a pool -/

def Market.PoolPlan.bare {α : Type} (d : PoolPlan α) : PoolPlan Unit := { d with result := () }

/-- What a mutating call decides. Reads decide nothing. -/
def PoolCall.decision (i : Nat) (m : Market) (p : Pool) :
    PoolCall → Option (Except Error (PoolPlan Unit))
  | .buy amount minimum recipient deadline sender =>
      some ((decideBuy amount minimum recipient deadline sender m p).map PoolPlan.bare)
  | .sell tokens minimum recipient deadline sender =>
      some ((decideSell tokens minimum recipient deadline sender m p).map PoolPlan.bare)
  | .depositFees amount sender => some (decideDeposit amount sender p)
  | .setParameters ratio fee => some (decideParameters ratio fee p)
  | .setTradeCap cap => some (decideTradeCap cap p)
  | .pause => some (decidePause p)
  | .unpause => some (decideUnpause p)
  | .withdrawTreasury amount => some (decideWithdrawal i amount m p)
  | _ => none

theorem isSome_decision (i : Nat) (m : Market) (p : Pool) (c : PoolCall) :
    (c.decision i m p).isSome = c.isMutating := by
  cases c <;> rfl

theorem map_bare (plan : Except Error (PoolPlan Unit)) : plan.map PoolPlan.bare = plan := by
  cases plan with
  | ok d => rfl
  | error e => rfl

theorem PlanErrors.of_bare {α : Type} {i : Nat} {m : Market} {plan : Except Error (PoolPlan α)}
    {E : Error → Prop} (h : PlanErrors i m (plan.map PoolPlan.bare) E) :
    PlanErrors i m plan E := by
  constructor
  · exact h.refusal
  · intro e he
    rw [he] at h
    exact h.decision e rfl
  · intro d u broken hd
    rw [hd] at h
    exact h.broken d.bare u broken rfl

section Serve

variable {run : Executor} {i : Nat} {m : Market} {E : Error → Prop}
  {plan : Except Error (PoolPlan Unit)}

theorem inPool_bare_ends {α : Type} {action : Text}
    {decide : Market → Pool → Except Error (PoolPlan α)} (hrun : run.Direct m.callbacks)
    (herrors : PlanErrors i m plan E) (hsection : ∀ p, decide (m.enter (.pool i)) p = decide m p)
    (hdecide : (decide m (m.pool i)).map PoolPlan.bare = plan) :
    Ends (inPool run i action decide) m
      (fun _ m' => ∃ d, plan = .ok d ∧ m.view.Commits i d m'.view)
      (fun e m' => E e ∧ m'.view = m.view) := by
  rw [← hdecide] at herrors
  refine (inPool_ends hrun hsection herrors.of_bare).imp ?_ fun _ _ h => h
  intro _ m' hok
  rcases hok with ⟨d, hd, -, hcommits⟩
  rw [hd] at hdecide
  exact ⟨d.bare, hdecide.symm, hcommits⟩

theorem servePool_ends (hrun : run.Direct m.callbacks) {c : PoolCall}
    (hc : c.decision i m (m.pool i) = some plan) (herrors : PlanErrors i m plan E) :
    Ends (servePool run i c) m
      (fun _ m' => ∃ d, plan = .ok d ∧ m.view.Commits i d m'.view)
      (fun e m' => E e ∧ m'.view = m.view) := by
  have hquiet {action : Text} {decide : Market → Pool → Except Error (PoolPlan Unit)}
      (hsection : ∀ p, decide (m.enter (.pool i)) p = decide m p)
      (hdecide : some (decide m (m.pool i)) = some plan) :
      Ends (do inPool run i action decide; return Reply.nothing) m
        (fun _ m' => ∃ d, plan = .ok d ∧ m.view.Commits i d m'.view)
        (fun e m' => E e ∧ m'.view = m.view) :=
    .bind (inPool_bare_ends hrun herrors hsection
      ((map_bare _).trans (Option.some.inj hdecide)))
  unfold servePool
  refine .bind (ends_get ?_)
  cases c with
  | buy => exact .map (inPool_bare_ends hrun herrors (fun _ => rfl) (Option.some.inj hc))
  | sell => exact .map (inPool_bare_ends hrun herrors (fun _ => rfl) (Option.some.inj hc))
  | depositFees => exact hquiet (fun _ => rfl) hc
  | setParameters => exact hquiet (fun _ => rfl) hc
  | setTradeCap => exact hquiet (fun _ => rfl) hc
  | pause => exact hquiet (fun _ => rfl) hc
  | unpause => exact hquiet (fun _ => rfl) hc
  | withdrawTreasury => exact hquiet (fun _ => rfl) hc
  | _ => cases hc

end Serve

theorem commits_of_accepted {i : Nat} {m m' : Market} {c : PoolCall} {reply : Reply}
    (hmutating : c.isMutating = true) (h : servePool apply i c m = .ok reply m') :
    ∃ d, c.decision i m (m.pool i) = some (.ok d) ∧ m.view.Commits i d m'.view := by
  rw [← isSome_decision i m (m.pool i)] at hmutating
  obtain ⟨plan, hc⟩ := Option.isSome_iff_exists.mp hmutating
  have hends := servePool_ends (apply_direct _) hc (.any i m plan)
  obtain ⟨d, rfl, hcommits⟩ := hends.of_ok h
  exact ⟨d, hc, hcommits⟩

/-- A rejected call leaves the view as it was. -/
theorem view_of_rejected {i : Nat} {m m' : Market} {c : PoolCall} {e : Error}
    (hmutating : c.isMutating = true) (h : servePool apply i c m = .error e m') :
    m'.view = m.view := by
  rw [← isSome_decision i m (m.pool i)] at hmutating
  obtain ⟨plan, hc⟩ := Option.isSome_iff_exists.mp hmutating
  exact ((servePool_ends (apply_direct _) hc (.any i m plan)).of_error h).2

theorem stateAfter_read {α β : Type} (v : Except Error α) (f : α → β) (m : Market) :
    (do return f (← v) : Action Market β).stateAfter m = m := by
  cases v with
  | ok x => rfl
  | error e => rfl

theorem servePool_read {c : PoolCall} (h : c.isMutating = false) (run : Executor) (i : Nat)
    (m : Market) : (servePool run i c).stateAfter m = m := by
  cases c with
  | buy => cases h
  | sell => cases h
  | depositFees => cases h
  | setParameters => cases h
  | setTradeCap => cases h
  | pause => cases h
  | unpause => cases h
  | withdrawTreasury => cases h
  | spotPrice => exact stateAfter_read (m.pool i).spotPrice (fun n => Reply.int n) m
  | buyQuote amount => exact stateAfter_read ((m.pool i).buyQuote amount) Reply.int m
  | sellQuote tokens => exact stateAfter_read ((m.pool i).sellQuote tokens) Reply.int m
  | stats => exact stateAfter_read (m.pool i).stats Reply.stats m
  | buyImpact amount => exact stateAfter_read ((m.pool i).buyImpact amount) Reply.impact m
  | sellImpact tokens => exact stateAfter_read ((m.pool i).sellImpact tokens) Reply.impact m
  | _ => rfl

end CurveMarket
