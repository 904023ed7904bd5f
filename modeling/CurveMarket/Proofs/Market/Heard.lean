import CurveMarket.Proofs.Market.Ledgers
import CurveMarket.Proofs.Market.Runs

/-! # What a market hears

Every request that is answered is noted with its answer, the requests that were run from inside it
before it. The credits of a run are the accepted credits among what is heard in it, one by one.
-/

namespace CurveMarket

open CurveMarket.Action

def Exchange.credited (x : Exchange) : Int := (x.credit?.bind (·.2)).getD 0

namespace Market

def LedgerEvent.credit? : LedgerEvent → Option (Option Text × Option Int)
  | .credit account amount => some (account, amount)
  | _ => none

theorem LedgerEvent.credited_eq (e : LedgerEvent) : e.credited = (e.credit?.bind (·.2)).getD 0 := by
  cases e with
  | credit _ amount =>
      cases amount with
      | none => rfl
      | some _ => rfl
  | _ => rfl

/-- What a market came to hear on its way to another: nothing else was asked for, and it is by
these credits that the reserve asset was made. -/
structure Hears (asked : Operation → Prop) (m m' : Market) (calls : List Exchange)
    (events : List LedgerEvent) : Prop where
  heard : m'.heard = m.heard ++ calls
  wanted : ∀ x ∈ calls, asked x.request.operation
  credits : events.filterMap LedgerEvent.credit? = calls.filterMap Exchange.credit?
  credited : (events.map LedgerEvent.credited).sum = (calls.map Exchange.credited).sum

section Steps

variable {asked : Operation → Prop} {m m' : Market}

theorem Hears.refl (m : Market) : Hears asked m m [] [] where
  heard := (List.append_nil _).symm
  wanted := List.forall_mem_nil _
  credits := rfl
  credited := rfl

theorem Hears.trans {u : Market} {calls calls' : List Exchange} {events events' : List LedgerEvent}
    (h : Hears asked m u calls events) (h' : Hears asked u m' calls' events') :
    Hears asked m m' (calls ++ calls') (events ++ events') where
  heard := by rw [h'.heard, h.heard, List.append_assoc]
  wanted := List.forall_mem_append.mpr ⟨h.wanted, h'.wanted⟩
  credits := by rw [List.filterMap_append, List.filterMap_append, h.credits, h'.credits]
  credited := by
    rw [List.map_append, List.map_append, List.sum_append, List.sum_append, h.credited,
      h'.credited]

theorem SameRecords.heard (h : m.SameRecords m') : m'.heard = m.heard := by rw [h]

theorem Hears.of_same {event : LedgerEvent} (hevent : event.credit? = none)
    (h : m'.heard = m.heard) : Hears asked m m' [] [event] where
  heard := h.trans (List.append_nil _).symm
  wanted := List.forall_mem_nil _
  credits := List.filterMap_cons_none hevent
  credited := by simp [LedgerEvent.credited_eq, hevent]

theorem Hears.of_note {event : LedgerEvent} {x : Exchange} (hx : asked x.request.operation)
    (hcredit : event.credit? = x.credit?) (h : m'.heard = m.heard ++ [x]) :
    Hears asked m m' [x] [event] where
  heard := h
  wanted := List.forall_mem_singleton.mpr hx
  credits := by simp [List.filterMap_cons, hcredit]
  credited := by simp [LedgerEvent.credited_eq, hcredit, Exchange.credited]

theorem Step.hears {event : LedgerEvent} (h : Step asked m event m') :
    ∃ calls, Hears asked m m' calls [event] := by
  cases h with
  | effect done => exact ⟨[], .of_same rfl ((apply_keepsRecords _ m).of_ok done).heard⟩
  | @credit target account amount name _ wanted found accepted =>
      let r : Request := .mk target (.asset (.credit account amount)) name
      have hfound : m.find? r.target = some .asset := found
      have hheard := ((credit_keepsRecords apply _ _ m).of_ok accepted).heard
      refine ⟨_, .of_note (x := m.exchange r (.ok .nothing)) wanted ?_ (congrArg (· ++ _) hheard)⟩
      unfold Exchange.credit? exchange
      rw [hfound]
      rfl
  | answered wanted other => exact ⟨_, .of_note wanted other.symm rfl⟩
  | transfer accepted =>
      exact ⟨[], .of_same rfl ((serveToken_keepsRecords _ _ _ m).of_ok accepted).heard⟩
  | write _ accepted =>
      exact ⟨[], .of_same rfl ((serveTable_keepsRecords _ m).of_ok accepted).heard⟩
  | quiet same => exact ⟨[], .of_same rfl (by rw [same])⟩
  | _ => exact ⟨[], .of_same rfl rfl⟩

/-- In a run the credits are the accepted ones among the requests that are answered. -/
theorem RunsTo.hears {ts : List Transition} (h : RunsTo asked m m' ts) :
    ∃ calls, Hears asked m m' calls (ts.map (·.event)) := by
  induction h with
  | refl m => exact ⟨[], .refl m⟩
  | cons first _ ih =>
      obtain ⟨calls, hcalls⟩ := first.hears
      obtain ⟨calls', hcalls'⟩ := ih
      exact ⟨calls ++ calls', hcalls.trans hcalls'⟩

theorem Reaches.heard_prefix (h : Reaches asked m m') : m.heard <+: m'.heard := by
  obtain ⟨ts, hts⟩ := h
  obtain ⟨calls, hcalls⟩ := hts.hears
  exact ⟨calls, hcalls.heard.symm⟩

end Steps

/-! ## Answers -/

/-- The answers that requests get one after another, each after those of the requests that were run
from inside it. -/
def answersTo (m : Market) : List Request → List Answer
  | [] => []
  | r :: rest => (m.submit r).2.1 ++ (m.submit r).1 :: (m.submit r).2.2.answersTo rest

section Answers

variable {asked : Operation → Prop} {m : Market}

/-- While a request is served, no answer is forgotten. -/
theorem serve_heard_prefix {call : Nested} (hcall : call.Proceeds asked) {r : Request}
    (hr : r.Within asked) (h : m.Sound asked) :
    Ends (serve call r) m (fun _ m' => m.heard <+: m'.heard) fun _ m' => m.heard <+: m'.heard := by
  rcases m.credit_or_other r with ⟨target, account, amount, name, rfl, hfound⟩ | hother
  · refine (serve_credit_ends hfound account amount name).imp ?_ ?_
    · rintro _ m' ⟨-, haccepted⟩
      rw [((credit_keepsRecords apply _ _ m).of_ok haccepted).heard]
    · rintro _ m' rfl
      exact List.prefix_rfl
  · exact (serve_proceeds hcall hr hother h).imp (fun _ _ => Reaches.heard_prefix)
      fun _ _ => Reaches.heard_prefix

theorem serveWithin_heard_prefix (depth : Nat) {r : Request} (hr : r.Within asked)
    (h : m.Sound asked) : Ends (serveWithin depth r) m (fun _ m' => m.heard <+: m'.heard)
      fun _ m' => m.heard <+: m'.heard := by
  cases depth with
  | zero => exact serve_heard_prefix refusal_proceeds hr h
  | succ depth => exact serve_heard_prefix (serveWithin_proceeds depth) hr h

/-- What is heard when a request is submitted are the answers that are given back. -/
theorem answers_submit {r : Request} (hr : r.Within asked) (h : m.Sound asked) :
    ∃ calls, (m.submit r).2.2.heard = m.heard ++ calls ∧
      calls.map Exchange.answer = (m.submit r).2.1 ++ [(m.submit r).1] := by
  have hends := serveWithin_heard_prefix (m.waiting + r.carried) hr h
  unfold submit
  dsimp only
  cases hserved : serveWithin (m.waiting + r.carried) r m with
  | ok reply m' =>
      obtain ⟨inside, hinside⟩ := hends.of_ok hserved
      refine ⟨inside ++ [m.exchange r (.ok reply)], ?_, ?_⟩
      · rw [← List.append_assoc, hinside]
        rfl
      · simp only [← hinside, List.drop_left, List.map_append]
        rfl
  | error e m' =>
      obtain ⟨inside, hinside⟩ := hends.of_error hserved
      refine ⟨inside ++ [m.exchange r (.error e)], ?_, ?_⟩
      · rw [← List.append_assoc, hinside]
        rfl
      · simp only [← hinside, List.drop_left, List.map_append]
        rfl

theorem answers_submitAll {requests : List Request} (hrequests : ∀ r ∈ requests, r.Within asked)
    (h : m.Sound asked) : ∃ calls, (m.submitAll requests).heard = m.heard ++ calls ∧
      calls.map Exchange.answer = m.answersTo requests := by
  induction requests generalizing m with
  | nil => exact ⟨[], (List.append_nil _).symm, rfl⟩
  | cons r rest ih =>
      rw [List.forall_mem_cons] at hrequests
      obtain ⟨first, hheard, hfirst⟩ := answers_submit hrequests.1 h
      obtain ⟨others, hall, hothers⟩ := ih hrequests.2 ((submit_reaches hrequests.1 h).sound h)
      refine ⟨first ++ others, ?_, ?_⟩
      · rw [← List.append_assoc, ← hheard]
        exact hall
      · rw [List.map_append, hfirst, hothers, List.append_assoc]
        rfl

end Answers

end Market

end CurveMarket
