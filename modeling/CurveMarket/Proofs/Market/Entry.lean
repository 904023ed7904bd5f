import CurveMarket.Proofs.Market.Serving
import CurveMarket.Proofs.Pool.Acceptance

/-! # One call at a time

While a mutating call runs, its instance refuses every other one, whatever runs inside the call and
however deep. So the call ends as it would in a market where those calls are refused from outside,
before they can look at anything, and every section that was entered is left again.
-/

namespace CurveMarket

open CurveMarket.Action Market

/-! ## Calls on instances -/

/-- A call on an instance that lets one mutating call in at a time. -/
inductive InstanceCall where
  | pool (i : Nat) (call : PoolCall)
  | reserve (i : Nat) (call : ReserveCall)
  | splitter (i : Nat) (call : SplitterCall)

def PoolCall.action? : PoolCall → Option Text
  | .buy .. => some "buy"
  | .sell .. => some "sell"
  | .depositFees .. => some "deposit_fees"
  | .setParameters .. => some "set_parameters"
  | .setTradeCap .. => some "set_max_trade_bps"
  | .pause => some "pause"
  | .unpause => some "unpause"
  | .withdrawTreasury .. => some "withdraw_treasury"
  | _ => none

def ReserveCall.action? : ReserveCall → Option Text
  | .deposit .. => some "deposit"
  | .batchDeposit .. => some "batch_deposit"
  | .revertDeposit .. => some "revert_deposit"
  | .pay .. => some "pay_infrastructure_cost"
  | .batchPay .. => some "batch_pay"
  | .setProvider .. => some "set_provider"
  | .setTreasury .. => some "set_treasury"
  | .emergencyWithdraw .. => some "emergency_withdraw"
  | .pause => some "pause"
  | .unpause => some "unpause"
  | _ => none

def SplitterCall.action? : SplitterCall → Option Text
  | .depositFee .. => some "deposit_fee"
  | .batchDepositFees .. => some "batch_deposit_fees"
  | _ => none

/-- What a call on a reserve checks before it enters its section. -/
def ReserveCall.checkArguments : ReserveCall → Except Error Unit
  | .setProvider model name => do
    let _ ← requireModel model
    let _ ← requireAccount "Invalid provider" name
    return ()
  | .setTreasury name => do
    let _ ← requireAccount "Invalid treasury" name
    return ()
  | _ => pure ()

namespace InstanceCall

/-- The mark that a mutating call puts on its instance. -/
def mark : InstanceCall → Section
  | pool i _ => .pool i
  | reserve i _ => .reserve i
  | splitter i _ => .splitter i

def serve (run : Executor) : InstanceCall → Action Market Reply
  | pool i c => servePool run i c
  | reserve i c => serveReserve run i c
  | splitter i c => serveSplitter run i c

def action? : InstanceCall → Option Text
  | pool _ c => c.action?
  | reserve _ c => c.action?
  | splitter _ c => c.action?

def isMutating : InstanceCall → Bool
  | pool _ c => c.isMutating
  | reserve _ c => c.isMutating
  | splitter _ c => c.isMutating

def checkArguments : InstanceCall → Except Error Unit
  | reserve _ c => c.checkArguments
  | _ => pure ()

/-- The instance as errors call it. -/
def owner (m : Market) : InstanceCall → Text
  | pool i _ => (m.pool i).ownerName
  | reserve _ _ => InfraReserve.ownerName
  | splitter _ _ => Splitter.ownerName

/-- The error of a mutating call on an instance in a call already: the error of its arguments, if
these are checked first, or else the one of the section. -/
def refusal? (m : Market) (c : InstanceCall) : Option Error :=
  c.action?.map fun action =>
    match c.checkArguments with
    | .ok () => .reentrant action (c.owner m)
    | .error e => e

theorem isSome_refusal? (c : InstanceCall) (m : Market) : (c.refusal? m).isSome = c.isMutating := by
  cases c with
  | pool i c => cases c <;> rfl
  | reserve i c => cases c <;> rfl
  | splitter i c => cases c <;> rfl

/-- The call as the sealed instance of a section takes it: mutating calls are refused at once, and
nothing happens; other calls, and calls on other instances, are what they were. -/
def barred (s : Section) (c : InstanceCall) (a : Action Market Reply) : Action Market Reply :=
  fun m =>
    if c.mark = s then
      match c.refusal? m with
      | some e => .error e m
      | none => a m
    else a m

end InstanceCall

/-! ## Refusals -/

/-- From `m` the action fails with the error, and nothing has happened. -/
def Refuses {α : Type} (e : Error) (a : Action Market α) (m : Market) : Prop := a m = .error e m

namespace Refuses

variable {α β : Type} {e : Error} {a : Action Market β} {m : Market}

theorem bind {f : β → Action Market α} (h : Refuses e a m) : Refuses e (a >>= f) m :=
  bind_of_error h

theorem map {f : β → α} (h : Refuses e a m) : Refuses e (f <$> a) m := bind_of_error h

theorem afterGet {f : Market → Action Market α} (h : Refuses e (f m) m) :
    Refuses e (get >>= f) m := h

theorem check {v : Except Error β} {f : β → Action Market α} (herror : ∀ e', v = .error e' → e' = e)
    (hok : ∀ x, v = .ok x → Refuses e (f x) m) : Refuses e (liftM v >>= f) m := by
  cases v with
  | ok x => exact hok x rfl
  | error e' =>
      cases herror e' rfl
      exact rfl

end Refuses

section Refusals

variable {m : Market} {e : Error} (run : Executor) {i : Nat}

theorem guarded_of_entered {α : Type} {s : Section} {owner action : Text} {body : Journaled α}
    (h : s ∈ m.entered) : Refuses (.reentrant action owner) (guarded s owner action body) m :=
  if_pos h

theorem servePool_of_entered (h : .pool i ∈ m.entered) {c : PoolCall}
    (hrefusal : (InstanceCall.pool i c).refusal? m = some e) :
    Refuses e (servePool run i c) m := by
  have hcall {α : Type} (action : Text) (plan : Market → Pool → Except Error (PoolPlan α)) :
      Refuses (.reentrant action (m.pool i).ownerName) (inPool run i action plan) m :=
    .afterGet (guarded_of_entered h)
  refine .afterGet ?_
  cases c with
  | buy | sell =>
      cases hrefusal
      exact .map (hcall _ _)
  | depositFees | setParameters | setTradeCap | pause | unpause | withdrawTreasury =>
      cases hrefusal
      exact .bind (hcall _ _)
  | _ => cases hrefusal

theorem serveReserve_of_entered (h : .reserve i ∈ m.entered) {c : ReserveCall}
    (hrefusal : (InstanceCall.reserve i c).refusal? m = some e) :
    Refuses e (serveReserve run i c) m := by
  have hcall {α : Type} (action : Text) (body : Journaled α) :
      Refuses (.reentrant action InfraReserve.ownerName) (inReserve i action body) m :=
    guarded_of_entered h
  refine .afterGet ?_
  cases c with
  | deposit | revertDeposit | emergencyWithdraw | pause | unpause =>
      cases hrefusal
      exact .bind (hcall _ _)
  | batchDeposit | pay | batchPay =>
      cases hrefusal
      exact .map (hcall _ _)
  | setProvider model name =>
      cases Option.some.inj hrefusal
      refine .bind (.check (fun e' hmodel => ?_) fun _ hmodel => .check (fun e' hname => ?_)
        fun _ hname => ?_)
      · simp only [InstanceCall.checkArguments, ReserveCall.checkArguments, hmodel]
        rfl
      · simp only [InstanceCall.checkArguments, ReserveCall.checkArguments, hmodel, hname]
        rfl
      · simp only [InstanceCall.checkArguments, ReserveCall.checkArguments, hmodel, hname]
        exact hcall _ _
  | setTreasury name =>
      cases Option.some.inj hrefusal
      refine .bind (.check (fun e' hname => ?_) fun _ hname => ?_)
      · simp only [InstanceCall.checkArguments, ReserveCall.checkArguments, hname]
        rfl
      · simp only [InstanceCall.checkArguments, ReserveCall.checkArguments, hname]
        exact hcall _ _
  | _ => cases hrefusal

theorem serveSplitter_of_entered (h : .splitter i ∈ m.entered) {c : SplitterCall}
    (hrefusal : (InstanceCall.splitter i c).refusal? m = some e) :
    Refuses e (serveSplitter run i c) m := by
  refine .afterGet ?_
  cases c with
  | depositFee | batchDepositFees =>
      cases hrefusal
      exact .map (guarded_of_entered h)
  | _ => cases hrefusal

theorem serve_of_entered {c : InstanceCall} (hentered : c.mark ∈ m.entered)
    (hrefusal : c.refusal? m = some e) : Refuses e (c.serve run) m := by
  cases c with
  | pool i c => exact servePool_of_entered run hentered hrefusal
  | reserve i c => exact serveReserve_of_entered run hentered hrefusal
  | splitter i c => exact serveSplitter_of_entered run hentered hrefusal

end Refusals

/-! ## Requests around a sealed instance -/

/-- The partners of a splitter, with the instance of the section sealed. -/
def Partners.around (s : Section) (partners : Partners) : Partners where
  pool := fun i c => (InstanceCall.pool i c).barred s (partners.pool i c)
  reserve := fun i c => (InstanceCall.reserve i c).barred s (partners.reserve i c)

/-- Serves a call with the instance of the section sealed, for the partners of a splitter too. -/
def InstanceCall.serveAround (s : Section) (run : Executor) (c : InstanceCall) :
    Action Market Reply :=
  c.barred s <| match c with
    | pool i call => servePool run i call
    | reserve i call => serveReserve run i call
    | splitter i call => serveSplitterVia ((Partners.direct run).around s) i call

/-- The call on an instance that an operation on an object stands for. -/
def instanceCall? : Object → Operation → Option InstanceCall
  | .pool i, .pool c => some (.pool i c)
  | .pool i, .shared c => (sharedPoolCall c).map (.pool i)
  | .reserve i, .reserve c => some (.reserve i c)
  | .reserve i, .shared c => (sharedReserveCall c).map (.reserve i)
  | .splitter i, .splitter c => some (.splitter i c)
  | _, _ => none

def serveOnAround (s : Section) (call : Nested) (target : Text) (o : Object)
    (operation : Operation) : Action Market Served :=
  match instanceCall? o operation with
  | some c => do return ((← c.serveAround s (withCallbacks call)) : Served)
  | none => serveOn call target o operation

/-- Serves a request as `serve` does, with the instance of the section sealed. -/
def serveAround (s : Section) (call : Nested) : Nested
  | .mk target operation name => do
    let o ← resolve target
    let served ← serveOnAround s call target o operation
    nameObject name served

theorem serveOn_of_instanceCall {o : Object} {operation : Operation} {c : InstanceCall}
    (h : instanceCall? o operation = some c) (call : Nested) (target : Text) :
    serveOn call target o operation = do return ((← c.serve (withCallbacks call)) : Served) := by
  cases operation with
  | pool | reserve | splitter =>
      cases o <;> cases h
      rfl
  | shared c =>
      cases o with
      | pool | reserve => cases c <;> cases h <;> rfl
      | _ => cases h
  | _ => cases o <;> cases h

section Sealed

variable {I : Market → Prop} (hI : Sheltered I) {s : Section}
  (hmark : ∀ m, I m → s ∈ m.entered) {m : Market}
include hmark

/-- Where the instance is in a call, sealing it changes nothing. -/
theorem barred_same {c : InstanceCall} {run : Executor} {a : Action Market Reply} (h : I m)
    (ha : Same I (c.serve run) a m) : Same I (c.serve run) (c.barred s a) m := by
  have hkeeps (hbarred : c.barred s a m = a m) : Same I (c.serve run) (c.barred s a) m := by
    unfold Same
    cases ha with
    | ok left right post => exact .ok left (hbarred.trans right) post
    | error left right post => exact .error left (hbarred.trans right) post
  by_cases hs : c.mark = s
  · cases hrefusal : c.refusal? m with
    | none =>
        refine hkeeps ?_
        unfold InstanceCall.barred
        rw [if_pos hs, hrefusal]
    | some e =>
        refine .error (serve_of_entered run ?_ hrefusal) ?_ ⟨rfl, rfl, h⟩
        · rw [hs]
          exact hmark m h
        · unfold InstanceCall.barred
          rw [if_pos hs, hrefusal]
  · refine hkeeps ?_
    unfold InstanceCall.barred
    rw [if_neg hs]

include hI

theorem partners_around_matches {run run' : Executor} (hrun : run.Matches I run') :
    (Partners.direct run).Matches I ((Partners.direct run').around s) where
  pool := fun i c _ h =>
    barred_same hmark (c := .pool i c) h (servePool_same hrun (hI.encloses h _) c)
  reserve := fun i c _ h =>
    barred_same hmark (c := .reserve i c) h (serveReserve_same hrun (hI.encloses h _) c)

theorem serveAround_same {run run' : Executor} (hrun : run.Matches I run') (h : I m)
    (c : InstanceCall) : Same I (c.serve run) (c.serveAround s run') m := by
  refine barred_same hmark h ?_
  cases c with
  | pool i c => exact servePool_same hrun (hI.encloses h _) c
  | reserve i c => exact serveReserve_same hrun (hI.encloses h _) c
  | splitter i c =>
      show Same I (serveSplitter run i c) _ m
      rw [← serveSplitterVia_direct]
      exact serveSplitterVia_same (partners_around_matches hI hmark hrun) (hI.encloses h _) c

theorem serveAround_matches {call call' : Nested} (hcall : Nested.Matches I call call') :
    Nested.Matches I (serve call) (serveAround s call') := by
  intro r m h
  obtain ⟨target, operation, name⟩ := r
  refine .bind (.of_sparing hI h (resolve_sparing target)) fun o m₁ h₁ => ?_
  refine .bind ?_ fun served m₂ h₂ => .of_sparing hI h₂ (nameObject_sparing name served)
  unfold serveOnAround
  cases hc : instanceCall? o operation with
  | none => exact serveOn_same hI hcall h₁ target o operation
  | some c =>
      rw [serveOn_of_instanceCall hc]
      exact .bind (serveAround_same hI hmark (withCallbacks_matches hI hcall) h₁ c)
        fun _ _ h₂ => .pure h₂ _

end Sealed

/-! ## Whole calls -/

theorem serve_same_around {run run' : Executor} {c : InstanceCall} {m : Market}
    (hrun : run.Matches (fun u => c.mark ∈ u.entered) run') :
    Same (fun _ => True) (c.serve run) (c.serve run') m := by
  cases c with
  | pool i c => exact servePool_same hrun (encloses_mark _ m) c
  | reserve i c => exact serveReserve_same hrun (encloses_mark _ m) c
  | splitter i c => exact serveSplitter_same (sheltered_mark _) hrun (encloses_mark _ m) c

namespace Market

def submitAll (m : Market) (requests : List Request) : Market :=
  requests.foldl (fun m r => (m.submit r).2.2) m

theorem entered_submit (m : Market) (r : Request) : (m.submit r).2.2.entered = m.entered := by
  have hserved :=
    (serveWithin_matches sheltered_true (m.waiting + r.carried) r m trivial).ends
  unfold submit
  dsimp only
  cases hr : serveWithin (m.waiting + r.carried) r m with
  | ok reply m' => exact (hserved.of_ok hr).1
  | error e m' => exact (hserved.of_error hr).1

theorem entered_submitAll (m : Market) (requests : List Request) :
    (m.submitAll requests).entered = m.entered := by
  unfold submitAll
  induction requests generalizing m with
  | nil => rfl
  | cons r rest ih => exact (ih _).trans (entered_submit m r)

end Market

/-- An instance in a call refuses every mutating call, and nothing happens. A call ends as it would
with its instance sealed in this way against all that runs inside, and no request leaves an instance
entered. -/
theorem one_call_at_a_time (c : InstanceCall) (m : Market) :
    (c.isMutating = true → c.mark ∈ m.entered →
      ∃ e, c.refusal? m = some e ∧ ∀ run, c.serve run m = .error e m) ∧
    (∀ depth, c.serve (withCallbacks (serveWithin depth)) m =
      c.serve (withCallbacks (nest (serveAround c.mark) depth)) m) ∧
    ∀ requests, (m.submitAll requests).entered = m.entered := by
  refine ⟨fun hmutating hentered => ?_, fun depth => ?_, entered_submitAll m⟩
  · rw [← c.isSome_refusal? m] at hmutating
    obtain ⟨e, he⟩ := Option.isSome_iff_exists.mp hmutating
    exact ⟨e, he, fun run => serve_of_entered run hentered he⟩
  · have hI := sheltered_mark c.mark
    have hnested : Nested.Matches (fun u => c.mark ∈ u.entered) (nest serve depth)
        (nest (serveAround c.mark) depth) :=
      nest_matches (fun _ _ => serveAround_matches hI fun _ h => h) depth
    rw [serveWithin_eq_nest]
    exact (serve_same_around (withCallbacks_matches hI hnested)).eq

def sampleInflow : PoolCall := .depositFees (some 10) (some "trader")

/-- A market in which a deposit with the pool makes a second one from inside. -/
def sampleReentered : Market := { sampleTrading with
  names := [("pool", .pool 0)]
  callbacks := [(.asset, ⟨[.mk "pool" (.pool sampleInflow) none], .after, 0, false⟩)] }

theorem sample_inflow_refused_inside :
    (InstanceCall.pool 0 sampleInflow).isMutating = true ∧
    .pool 0 ∈ (sampleReentered.enter (.pool 0)).entered ∧
    ∃ e, (InstanceCall.pool 0 sampleInflow).refusal? (sampleReentered.enter (.pool 0)) = some e ∧
      ∀ run, (InstanceCall.pool 0 sampleInflow).serve run (sampleReentered.enter (.pool 0)) =
        .error e (sampleReentered.enter (.pool 0)) :=
  ⟨rfl, by decide, (one_call_at_a_time (.pool 0 sampleInflow) _).1 rfl (by decide)⟩

/-- The second deposit is refused, the first one goes through, and the pool is free again. -/
example :
    let m := (servePool (withCallbacks (serveWithin 0)) 0 sampleInflow).stateAfter sampleReentered
    m.heard.map (fun x => match x.answer with | .error e => e.message | .ok _ => "") =
        [Text.ofString "reentrant call to deposit_fees on pool model"] ∧
      (m.pool 0).state.reserve = 47 ∧ m.entered = [] := by
  decide +kernel

end CurveMarket
