import CurveMarket.Market.Callback
import CurveMarket.Proofs.Pool.Call
import CurveMarket.Proofs.Revenue.Batch

/-! # Failed requests

While no callback waits, effects act on the ledgers alone, and a request for a mutating call that
is refused leaves the market as it was. A batch deposit of fees is the one exception.
-/

namespace CurveMarket

open CurveMarket.Action Market

theorem withCallbacks_direct (call : Nested) : Executor.Direct (withCallbacks call) [] := by
  intro e m hnone
  have htake : takeCallback e.target m = .ok none m := by
    unfold takeCallback
    rw [hnone]
    rfl
  exact bind_of_ok htake

/-- The mutating calls of pools and reserves, and the deposit of one fee. -/
def Operation.isAtomic : Operation → Bool
  | .pool c => c.isMutating
  | .reserve c => c.isMutating
  | .splitter (.depositFee _ _ _) => true
  | .shared .pause => true
  | .shared .unpause => true
  | _ => false

/-- From `m` the action succeeds or leaves the view as it was. -/
def Traceless {α : Type} (a : Action Market α) (m : Market) : Prop :=
  Ends a m (fun _ _ => True) fun _ m' => m'.view = m.view

namespace Traceless

variable {α β : Type} {a : Action Market α} {m : Market}

theorem throw {e : Error} : Traceless (throw e : Action Market α) m := ends_throw rfl

theorem of_ends {Q : α → Market → Prop} {E : Error → Market → Prop} (h : Ends a m Q E)
    (hE : ∀ e m', E e m' → m'.view = m.view) : Traceless a m :=
  h.imp (fun _ _ _ => trivial) hE

theorem bind {f : α → Action Market β} (h : Traceless a m)
    (hf : ∀ x m', Succeeds (f x) m' fun _ _ => True) : Traceless (a >>= f) m := by
  refine Ends.bind (h.imp ?_ fun _ _ h => h)
  intro x m' _
  exact (hf x m').imp (fun _ _ h => h) fun _ _ h => h.elim

theorem map {f : α → β} (h : Traceless a m) : Traceless (f <$> a) m :=
  Ends.map (h.imp (fun _ _ h => h) fun _ _ h => h)

theorem afterGet {f : Market → Action Market α} (h : Traceless (f m) m) :
    Traceless (get >>= f) m := Ends.bind (ends_get h)

end Traceless

section Serve

variable {run : Executor} {m : Market} (hrun : run.Direct m.callbacks)
include hrun

theorem servePool_traceless {c : PoolCall} (h : c.isMutating = true) (i : Nat) :
    Traceless (servePool run i c) m := by
  have hsome : (c.decision i m (m.pool i)).isSome = true := by
    rw [isSome_decision]
    exact h
  obtain ⟨plan, hplan⟩ := Option.isSome_iff_exists.mp hsome
  have hends := servePool_ends hrun hplan (.any i m plan)
  exact .of_ends hends fun _ _ hE => hE.2

theorem serveShared_traceless {call : SharedCall} (h : call = .pause ∨ call = .unpause)
    (target : Text) (o : Object) : Traceless (serveShared run target o call) m := by
  have hmisdirected : Traceless (misdirected target : Action Market Reply) m := .throw
  rcases h with hpause | hunpause
  · subst hpause
    cases o with
    | pool i => exact servePool_traceless hrun (c := .pause) rfl i
    | reserve i => exact serveReserve_ends hrun (c := .pause) rfl
    | _ => exact .afterGet hmisdirected
  · subst hunpause
    cases o with
    | pool i => exact servePool_traceless hrun (c := .unpause) rfl i
    | reserve i => exact serveReserve_ends hrun (c := .unpause) rfl
    | _ => exact .afterGet hmisdirected

theorem serveObject_traceless {op : Operation} (h : op.isAtomic = true) (target : Text)
    (o : Object) : Traceless (serveObject run target o op) m := by
  have hplain {a : Action Market Reply} (ha : Traceless a m) :
      Traceless (do return ((← a : Reply) : Served)) m := ha.bind fun _ _ => ends_pure trivial
  cases op with
  | shared call =>
      have hcall : call = .pause ∨ call = .unpause := by
        cases call with
        | pause => exact .inl rfl
        | unpause => exact .inr rfl
        | _ => cases h
      have hshared := hplain (serveShared_traceless hrun hcall target o)
      cases o <;> exact hshared
  | pool c =>
      cases o with
      | pool i => exact hplain (servePool_traceless hrun h i)
      | _ => exact .throw
  | reserve c =>
      cases o with
      | reserve i => exact hplain (serveReserve_ends hrun h)
      | _ => exact .throw
  | splitter c =>
      cases c with
      | depositFee model amount sender =>
          cases o with
          | splitter i =>
              have hdeposit : Traceless (depositFee run i model amount sender) m :=
                depositFee_ends hrun i model amount sender
              exact hplain (.afterGet hdeposit.map)
          | _ => exact .throw
      | _ => cases h
  | _ => cases h

end Serve

theorem resolve_ends {name : Text} {m : Market} :
    Ends (resolve name) m (fun _ m' => m' = m) (fun _ m' => m' = m) := by
  unfold resolve
  refine .bind (ends_get ?_)
  cases m.find? name with
  | some o => exact ends_pure rfl
  | none => exact ends_throw rfl

theorem nameObject_succeeds (name : Option Text) (served : Served) (m : Market) :
    Succeeds (nameObject name served) m fun _ _ => True := by
  cases name with
  | none => exact ends_pure trivial
  | some n =>
      rcases served with ⟨reply, object⟩
      cases object with
      | none => exact ends_pure trivial
      | some o => exact Ends.bind (ends_modify (ends_pure trivial))

theorem serveOn_traceless (call : Nested) {m : Market}
    (hrun : (withCallbacks call).Direct m.callbacks) {op : Operation} (h : op.isAtomic = true)
    (target : Text) (o : Object) : Traceless (serveOn call target o op) m := by
  have hobject := serveObject_traceless hrun h target o
  cases op with
  | pool c =>
      cases o with
      | market => exact .throw
      | _ => exact hobject
  | reserve c =>
      cases o with
      | market => exact .throw
      | _ => exact hobject
  | splitter c =>
      cases o with
      | market => exact .throw
      | _ => exact hobject
  | shared call' =>
      cases o with
      | market => exact .throw
      | _ => exact hobject
  | _ => cases h

theorem serve_traceless (call : Nested) {m : Market} (hquiet : m.callbacks = [])
    {op : Operation} (h : op.isAtomic = true) (target : Text) (name : Option Text) :
    Traceless (serve call (.mk target op name)) m := by
  have hrun : (withCallbacks call).Direct m.callbacks := by
    rw [hquiet]
    exact withCallbacks_direct call
  refine Ends.bind (resolve_ends.imp ?_ ?_)
  · intro o m' hsame
    rw [hsame]
    exact (serveOn_traceless call hrun h target o).bind fun served m' => nameObject_succeeds ..
  · intro _ m' hsame
    rw [hsame]

theorem serveWithin_traceless (depth : Nat) {m : Market} (hquiet : m.callbacks = [])
    {op : Operation} (h : op.isAtomic = true) (target : Text) (name : Option Text) :
    Traceless (serveWithin depth (.mk target op name)) m := by
  cases depth with
  | zero => exact serve_traceless _ hquiet h target name
  | succ depth => exact serve_traceless _ hquiet h target name

/-- While no callback waits, a mutating call of a pool or a reserve and the deposit of a fee leave
no trace when they fail. -/
theorem view_of_failed_submit {m : Market} {target : Text} {op : Operation} {name : Option Text}
    {e : Error} (hquiet : m.callbacks = []) (hop : op.isAtomic = true)
    (hfailed : (m.submit (.mk target op name)).1 = .error e) :
    (m.submit (.mk target op name)).2.2.view = m.view := by
  have hends := serveWithin_traceless (m.waiting + (Request.mk target op name).carried) hquiet hop
    target name
  unfold submit at hfailed ⊢
  dsimp only at hfailed ⊢
  cases hresult : serveWithin _ (.mk target op name) m with
  | ok reply m' =>
      rw [hresult] at hfailed
      cases hfailed
  | error e' m' =>
      have hview : m'.view = m.view := hends.of_error hresult
      exact hview

def sampleNamed : Market := { sampleUnbacked with names := [("pool", .pool 1)] }

/-- A deposit that goes through on the ledger and breaks a rule at the commit. -/
def sampleRequest : Request := .mk "pool" (.pool (.depositFees (some 100) (some "payer"))) none

theorem view_of_failed_sample_submit :
    (sampleNamed.submit sampleRequest).1.isOk = false ∧
      (sampleNamed.submit sampleRequest).2.2.view = sampleNamed.view := by
  have hfails : (sampleNamed.submit sampleRequest).1.isOk = false := by decide +kernel
  cases hanswer : (sampleNamed.submit sampleRequest).1 with
  | ok reply =>
      rw [hanswer] at hfails
      cases hfails
  | error e => exact ⟨rfl, view_of_failed_submit rfl rfl hanswer⟩

end CurveMarket
