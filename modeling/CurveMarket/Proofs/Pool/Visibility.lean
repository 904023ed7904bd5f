import CurveMarket.Proofs.Market.Entry

/-! # Reads of a pool during its calls

A pool answers reads from what its last call left. While a mutating call runs it keeps that, so all
that runs inside reads what could be read before the call; when the call succeeds, the next state
and the supply at that moment take its place together.
-/

namespace CurveMarket

open CurveMarket.Action Market

/-! ## Answers of a pool -/

/-- What a pool answers from its last commit: its state and all figures that follow from the state
and the supply. Reads that depend on the clock or on the ledgers are not among them. -/
def Pool.answer? (p : Pool) : PoolCall → Option (Except Error Reply)
  | .state => some (.ok (.state p.state))
  | .terms => some (.ok (.terms p.state.terms))
  | .reserve => some (.ok (.int p.state.reserve))
  | .events => some (.ok (.events p.events))
  | .supply => some (.ok (.int p.supply))
  | .spotPrice => some (p.spotPrice.map fun n : Nat => Reply.int n)
  | .buyQuote amount => some ((p.buyQuote amount).map .int)
  | .sellQuote tokens => some ((p.sellQuote tokens).map .int)
  | .phase => some (.ok (.phase p.state.phase))
  | .phaseInfo => some (.ok (.phaseInfo p.state.phaseInfo))
  | .stats => some (p.stats.map .stats)
  | .buyImpact amount => some ((p.buyImpact amount).map .impact)
  | .sellImpact tokens => some ((p.sellImpact tokens).map .impact)
  | _ => none

theorem servePool_of_answer {i : Nat} {m : Market} {q : PoolCall} {v : Except Error Reply}
    (h : (m.pool i).answer? q = some v) (run : Executor) :
    servePool run i q m = (liftM v : Action Market Reply) m := by
  have hmap {β : Type} (v : Except Error β) (f : β → Reply) :
      (do return f (← v) : Action Market Reply) m = (liftM (v.map f) : Action Market Reply) m := by
    cases v with
    | ok x => rfl
    | error e => rfl
  cases q with
  | spotPrice | buyQuote | sellQuote | stats | buyImpact | sellImpact =>
      cases h
      exact hmap _ _
  | state | terms | reserve | events | supply | phase | phaseInfo =>
      cases h
      rfl
  | _ => cases h

/-- What an operation on an object gives if pool `i` is seen as `p`. -/
def shown? (i : Nat) (p : Pool) : Object → Operation → Option (Except Error Reply)
  | .pool j, .pool q => if j = i then p.answer? q else none
  | _, _ => none

def serveOnShowing (i : Nat) (p : Pool) (call : Nested) (target : Text) (o : Object)
    (operation : Operation) : Action Market Served :=
  match shown? i p o operation with
  | some v => do return ((← v) : Served)
  | none => serveOn call target o operation

/-- Serves a request as `serve` does, with the answers of pool `i` given from `p`. -/
def serveShowing (i : Nat) (p : Pool) (call : Nested) : Nested
  | .mk target operation name => do
    let o ← resolve target
    let served ← serveOnShowing i p call target o operation
    nameObject name served

section Showing

variable {i : Nat} {p : Pool} {m : Market}

theorem pool_of_getElem? (h : m.pools[i]? = some p) : m.pool i = p := getD_of_getElem? h

theorem getElem?_of_listed (h : i < m.pools.length) : m.pools[i]? = some (m.pool i) := by
  unfold pool
  rw [List.getD_eq_getElem _ _ h]
  exact List.getElem?_eq_getElem h

theorem serveOn_of_shown {o : Object} {operation : Operation} {v : Except Error Reply}
    (h : shown? i p o operation = some v) (hpool : m.pool i = p) (call : Nested) (target : Text) :
    serveOn call target o operation m = (do return ((← v) : Served) : Action Market Served) m := by
  cases o with
  | pool j =>
      cases operation with
      | pool q =>
          by_cases hj : j = i
          · subst hj
            have hanswer : (m.pool j).answer? q = some v := by
              rw [hpool]
              exact (if_pos rfl).symm.trans h
            have hread := servePool_of_answer hanswer (withCallbacks call)
            cases v with
            | ok r => exact bind_of_ok hread
            | error e => exact bind_of_error hread
          · cases (if_neg hj).symm.trans h
      | _ => cases h
  | _ => cases h

variable {call call' : Nested} (hcall : Nested.Matches (InPool i p) call call')
include hcall

theorem serveOnShowing_same (h : InPool i p m) (target : Text) (o : Object)
    (operation : Operation) :
    Same (InPool i p) (serveOn call target o operation)
      (serveOnShowing i p call' target o operation) m := by
  unfold serveOnShowing
  cases hshown : shown? i p o operation with
  | none => exact serveOn_same (sheltered_pool i p) hcall h target o operation
  | some v =>
      have hread := serveOn_of_shown hshown (pool_of_getElem? h.2) call target
      cases v with
      | ok r => exact .ok hread rfl ⟨rfl, rfl, h⟩
      | error e => exact .error hread rfl ⟨rfl, rfl, h⟩

theorem serveShowing_matches :
    Nested.Matches (InPool i p) (serve call) (serveShowing i p call') := by
  have hI := sheltered_pool i p
  intro r m h
  obtain ⟨target, operation, name⟩ := r
  refine .bind (.of_sparing hI h (resolve_sparing target)) fun o m₁ h₁ => ?_
  refine .bind (serveOnShowing_same hcall h₁ target o operation) fun served m₂ h₂ => ?_
  exact .of_sparing hI h₂ (nameObject_sparing name served)

end Showing

/-! ## One call -/

section Call

variable {i : Nat} {m : Market} {run run' : Executor}

theorem pool_updatePool_of_getElem? {p : Pool} (h : m.pools[i]? = some p) (f : Pool → Pool) :
    (m.updatePool i f).pool i = f p := by
  refine pool_of_getElem? ?_
  show (m.pools.modify i f)[i]? = some (f p)
  rw [List.getElem?_modify_eq, h]
  rfl

/-- A mutating call keeps the record of its pool, and puts what it decided in its place when it
succeeds, with the supply at that moment. -/
theorem inPool_commits {α : Type} (hlisted : i < m.pools.length)
    (hrun : run.Matches (InPool i (m.pool i)) run') (action : Text)
    (decide : Market → Pool → Except Error (PoolPlan α)) :
    Alike (inPool run i action decide) (inPool run' i action decide) m m
      (fun _ u v => u = v ∧ ∃ d, decide (m.enter (.pool i)) (m.pool i) = .ok d ∧
        u.pool i = committed (m.pool i).state d.post (u.supplyOf (m.pool i).capability) d.events
          (m.pool i))
      (fun _ u v => u = v ∧ u.pool i = m.pool i) := by
  refine .bind (.ok rfl rfl ((guarded_follow_alike hrun (I := InPool i (m.pool i)) ?_ ?_).imp
    (fun _ _ _ h => h) ?_))
  · exact fun _ => ⟨List.mem_cons_self, getElem?_of_listed hlisted⟩
  · intro plan hplan u hinside
    obtain ⟨d, hd, rfl⟩ := Check.map_eq_ok.mp hplan
    have hpool := pool_of_getElem? hinside.2
    refine commit_ends.imp ?_ fun _ _ hbroken => hbroken.1
    rintro - u' ⟨-, rfl⟩
    refine ⟨d, hd, ?_⟩
    rw [hpool]
    exact pool_updatePool_of_getElem? hinside.2 _
  · rintro e u _ ⟨rfl, rfl | ⟨inside, hinside, rfl⟩⟩
    · exact ⟨rfl, rfl⟩
    · exact ⟨rfl, pool_of_getElem? hinside.2⟩

theorem decision_enter (c : PoolCall) (i : Nat) (m : Market) (s : Section) (p : Pool) :
    c.decision i (m.enter s) p = c.decision i m p := by
  cases c <;> rfl

theorem servePool_commits (hlisted : i < m.pools.length)
    (hrun : run.Matches (InPool i (m.pool i)) run') {c : PoolCall}
    (hmutating : c.isMutating = true) :
    Alike (servePool run i c) (servePool run' i c) m m
      (fun _ u v => u = v ∧ ∃ d, c.decision i m (m.pool i) = some (.ok d) ∧
        u.pool i = committed (m.pool i).state d.post (u.supplyOf (m.pool i).capability) d.events
          (m.pool i))
      (fun _ u v => u = v ∧ u.pool i = m.pool i) := by
  refine servePool_alike hmutating fun action decide hdecide => ?_
  refine (inPool_commits hlisted hrun action decide).imp ?_ fun _ _ _ h => h
  rintro x u v ⟨huv, d, hd, hpool⟩
  refine ⟨huv, d.bare, ?_, hpool⟩
  rw [← decision_enter, hdecide, hd]
  rfl

end Call

/-- In `m` pool `i` answers as `p` does. -/
def Shows (i : Nat) (p : Pool) (m : Market) : Prop :=
  ∀ q v, p.answer? q = some v → ∀ run, servePool run i q m = (liftM v : Action Market Reply) m

theorem shows_pool (i : Nat) (m : Market) : Shows i (m.pool i) m :=
  fun _ _ hv run => servePool_of_answer hv run

/-- A mutating call ends as it would if the pool answered all that runs inside from its record
before the call. It answers from that record again if the call fails, and otherwise from the state
that the call decided on with the supply that the call leaves. -/
theorem no_half_finished_call {i : Nat} {m : Market} {c : PoolCall} (depth : Nat)
    (hlisted : i < m.pools.length) (hmutating : c.isMutating = true) :
    Shows i (m.pool i) m ∧
    servePool (withCallbacks (serveWithin depth)) i c m =
      servePool (withCallbacks (nest (serveShowing i (m.pool i)) depth)) i c m ∧
    Ends (servePool (withCallbacks (serveWithin depth)) i c) m
      (fun _ m' => ∃ d, c.decision i m (m.pool i) = some (.ok d) ∧
        Shows i (committed (m.pool i).state d.post (m'.supplyOf (m.pool i).capability) d.events
          (m.pool i)) m')
      (fun _ m' => Shows i (m.pool i) m') := by
  have hnested : Nested.Matches (InPool i (m.pool i)) (nest serve depth)
      (nest (serveShowing i (m.pool i)) depth) :=
    nest_matches (fun _ _ => serveShowing_matches) depth
  rw [serveWithin_eq_nest]
  have hcommits := servePool_commits hlisted
    (withCallbacks_matches (sheltered_pool i (m.pool i)) hnested) hmutating
  refine ⟨shows_pool i m, ?_, ?_⟩
  · cases hcommits with
    | ok left right post => rw [left, right, post.1]
    | error left right post => rw [left, right, post.1]
  · unfold Ends
    cases hcommits with
    | ok left right post =>
        obtain ⟨-, d, hd, hpool⟩ := post
        rw [left]
        refine ⟨d, hd, ?_⟩
        rw [← hpool]
        exact shows_pool i _
    | error left right post =>
        rw [left]
        show Shows i (m.pool i) _
        rw [← post.2]
        exact shows_pool i _

/-- A market in which the next effect on the asset reads the reserve of the pool. -/
def sampleWatched : Market := { sampleTrading with
  names := [("pool", .pool 0)]
  callbacks := [(.asset, ⟨[.mk "pool" (.pool .reserve) none], .after, 0, false⟩)] }

theorem no_half_finished_deposit :
    0 < sampleWatched.pools.length ∧ sampleInflow.isMutating = true ∧
    Ends (servePool (withCallbacks (serveWithin 0)) 0 sampleInflow) sampleWatched
      (fun _ m' => ∃ d,
        sampleInflow.decision 0 sampleWatched (sampleWatched.pool 0) = some (.ok d) ∧
        Shows 0 (committed (sampleWatched.pool 0).state d.post
          (m'.supplyOf (sampleWatched.pool 0).capability) d.events (sampleWatched.pool 0)) m')
      (fun _ m' => Shows 0 (sampleWatched.pool 0) m') :=
  ⟨by decide, rfl, (no_half_finished_call 0 (by decide) rfl).2.2⟩

/-- The read sees the reserve before the deposit, though the asset has moved. -/
example :
    let m := (servePool (withCallbacks (serveWithin 0)) 0 sampleInflow).stateAfter
      sampleWatched
    m.heard.map (fun x => match x.answer with | .ok (.int n) => n | _ => 0) = [37] ∧ m.held "pool" = 47 ∧
      (m.pool 0).state.reserve = 47 := by
  decide +kernel

end CurveMarket
