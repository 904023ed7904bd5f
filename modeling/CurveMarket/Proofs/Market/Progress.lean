import CurveMarket.Proofs.Check
import CurveMarket.Proofs.Market.Nesting
import CurveMarket.Proofs.Market.Step

/-! # Calls by steps

Calls on pools, reserves and splitters change a market by steps, in success, in failure and in a
failed rollback. So do the callbacks that run inside, as long as what they ask for does; undo steps
are kept to the same by the journals that hold them.
-/

namespace CurveMarket

open CurveMarket.Action Market

namespace Market

/-- From `m`, if it is sound, the action proceeds by steps, however it ends. -/
def Proceeds {α : Type} (asked : Operation → Prop) (a : Action Market α) (m : Market) : Prop :=
  m.Sound asked → Ends a m (fun _ m' => Reaches asked m m') fun _ m' => Reaches asked m m'

namespace Proceeds

variable {α β : Type} {asked : Operation → Prop} {a : Action Market β} {f : β → Action Market α}
  {m : Market}

theorem pure (x : α) : Proceeds asked (pure x) m := fun _ => ends_pure (.refl m)

theorem throw (e : Error) : Proceeds asked (throw e : Action Market α) m :=
  fun _ => ends_throw (.refl m)

theorem modify {g : Market → Market} {event : LedgerEvent} (h : Step asked m event (g m)) :
    Proceeds asked (modify g : Action Market PUnit) m := fun _ => ends_modify h.reaches

theorem bind (h : Proceeds asked a m)
    (hf : ∀ x m', a m = .ok x m' → Proceeds asked (f x) m') : Proceeds asked (a >>= f) m := by
  intro hsound
  refine Ends.bind (ends_of ?_ fun _ _ herror => (h hsound).of_error herror)
  intro x m' hok
  have hreaches := (h hsound).of_ok hok
  have hends := hf x m' hok (hreaches.sound hsound)
  exact hends.imp (fun _ _ => hreaches.trans) fun _ _ => hreaches.trans

theorem map {f : β → α} (h : Proceeds asked a m) : Proceeds asked (f <$> a) m :=
  fun hsound => Ends.map ((h hsound).imp (fun _ _ h => h) fun _ _ h => h)

theorem afterGet {f : Market → Action Market α} (h : Proceeds asked (f m) m) :
    Proceeds asked (get >>= f) m := fun hsound => Ends.bind (ends_get (h hsound))

theorem check {v : Except Error β} (hok : ∀ x, v = .ok x → Proceeds asked (f x) m) :
    Proceeds asked (liftM v >>= f) m :=
  fun hsound => Ends.bind (ends_ofExcept (fun x hx => hok x hx hsound) fun _ _ => .refl m)

theorem test {c : Prop} [Decidable c] {e : Error} {next : PUnit → Action Market α}
    (h : Proceeds asked (next ⟨⟩) m) :
    Proceeds asked (if c then MonadExcept.throw e >>= next else next ⟨⟩) m :=
  fun hsound => ends_unless (fun _ => .refl m) fun _ => h hsound

theorem tryCatch {a : EStateM Error Market α} {f : Error → EStateM Error Market α}
    (h : Proceeds asked a m) (hf : ∀ e m', Proceeds asked (f e) m') :
    Proceeds asked (MonadExcept.tryCatch a f) m := by
  intro hsound
  refine Ends.tryCatch ((h hsound).imp (fun _ _ h => h) ?_)
  intro e m' hreaches
  exact (hf e m' (hreaches.sound hsound)).imp (fun _ _ => hreaches.trans) fun _ _ => hreaches.trans

end Proceeds

end Market

def Executor.Proceeds (asked : Operation → Prop) (run : Executor) : Prop :=
  ∀ e m, Market.Proceeds asked (run e) m

/-- Carried requests that ask for nothing else are run and heard by steps. -/
def Market.Nested.Proceeds (asked : Operation → Prop) (call : Nested) : Prop :=
  ∀ r, r.Within asked → ∀ m, Market.Proceeds asked (hear call r) m

/-! ## Callbacks -/

section Callbacks

variable {asked : Operation → Prop} {m : Market}

theorem apply_proceeds (e : Effect) (m : Market) : Proceeds asked (apply e) m := by
  intro _
  refine ends_of ?_ ?_
  · intro _ m' hdone
    exact (Step.effect hdone).reaches
  · intro err m' herror
    rw [((apply_ends e m).of_error herror).2.1]
    exact .refl m

/-- What is heard of a request is a step of its own, unless it is an accepted credit. -/
theorem hear_proceeds {call : Nested} {r : Request} (hr : asked r.operation)
    (hother : ∀ reply m', call r m = .ok reply m' → (m.exchange r (.ok reply)).credit? = none)
    (h : Proceeds asked (call r) m) : Proceeds asked (hear call r) m := by
  intro hsound
  have hends := h hsound
  unfold Ends at hends ⊢
  cases hcall : call r m with
  | ok reply m' =>
      rw [hcall] at hends
      rw [hear_of_ok hcall]
      exact hends.trans (Step.answered hr (hother reply m' hcall)).reaches
  | error e m' =>
      rw [hcall] at hends
      rw [hear_of_error hcall]
      exact hends.trans (Step.answered hr rfl).reaches

variable {call : Nested} (hcall : call.Proceeds asked)
include hcall

theorem runSteps_proceeds (propagate : Bool) {steps : List Request}
    (hsteps : ∀ r ∈ steps, r.Within asked) : Proceeds asked (runSteps call propagate steps) m := by
  induction steps generalizing m with
  | nil => exact .pure _
  | cons r rest ih =>
      rw [List.forall_mem_cons] at hsteps
      refine .bind (hcall r hsteps.1 m) fun answer m' _ => ?_
      cases answer with
      | ok => exact ih hsteps.2
      | error e =>
          cases propagate with
          | false => exact ih hsteps.2
          | true => exact .throw e

omit hcall in
variable (asked) in
/-- What is taken from the waiting callbacks, with what is left of them. -/
theorem takeCallback_eq (target : CallbackTarget) (m : Market) :
    ∃ taken left, takeCallback target m = .ok taken { m with callbacks := left } ∧
      (Waits asked m.callbacks →
        Waits asked left ∧ ∀ c, taken = some c → ∀ r ∈ c.steps, r.Within asked) := by
  unfold takeCallback
  cases hlookup : m.callbacks.lookup target with
  | none => exact ⟨none, m.callbacks, rfl, fun hwaits => ⟨hwaits, nofun⟩⟩
  | some c =>
      have hmem : (target, c) ∈ m.callbacks := by
        obtain ⟨before, after, heq, -⟩ := List.lookup_eq_some_iff.mp hlookup
        rw [heq]
        simp
      have hothers (hwaits : Waits asked m.callbacks) :
          Waits asked (m.callbacks.filter fun x => x.1 ≠ target) :=
        fun x hx => hwaits x (List.mem_filter.mp hx).1
      by_cases hnext : c.skip = 0
      · refine ⟨some c, _, if_pos hnext, fun hwaits => ⟨hothers hwaits, ?_⟩⟩
        intro _ heq
        cases heq
        exact hwaits _ hmem
      · refine ⟨none, _, if_neg hnext, fun hwaits => ⟨?_, nofun⟩⟩
        intro x hx
        rcases List.mem_append.mp hx with hold | hnew
        · exact hothers hwaits x hold
        · rw [List.mem_singleton.mp hnew]
          exact hwaits (target, c) hmem

theorem withCallbacks_proceeds : (withCallbacks call).Proceeds asked := by
  intro e m hsound
  obtain ⟨taken, left, htake, hwaits⟩ := takeCallback_eq asked e.target m
  obtain ⟨hleft, hsteps⟩ := hwaits hsound.waits
  have hfirst : Reaches asked m { m with callbacks := left } :=
    .of_quiet rfl fun _ => hleft
  have hrest {a : Action Market Unit} (h : Proceeds asked a { m with callbacks := left }) :
      Ends a { m with callbacks := left } (fun _ => Reaches asked m) fun _ => Reaches asked m :=
    (h (hfirst.sound hsound)).imp (fun _ _ => hfirst.trans) fun _ _ => hfirst.trans
  refine .bind ?_
  unfold Ends
  rw [htake]
  cases taken with
  | none => exact hrest (apply_proceeds e _)
  | some c =>
      obtain ⟨steps, moment, skip, propagate⟩ := c
      have hsteps := hsteps _ rfl
      cases moment with
      | before =>
          refine hrest (.bind (runSteps_proceeds hcall propagate hsteps) fun _ m' _ => ?_)
          exact apply_proceeds e m'
      | after =>
          refine hrest (.bind (apply_proceeds e _) fun _ _ _ => ?_)
          exact runSteps_proceeds hcall propagate hsteps

end Callbacks

/-! ## Journals -/

namespace Market

/-- Every undo step of the journal proceeds by steps, whenever it is run. -/
def JournalProceeds (asked : Operation → Prop) (journal : List UndoStep) : Prop :=
  ∀ undo ∈ journal, ∀ m, Proceeds asked undo m

/-- From `s`, if it is sound, the action proceeds by steps and so does the journal it leaves,
however it ends. -/
def ProceedsJournaled {α : Type} (asked : Operation → Prop) (a : Journaled α)
    (s : Market × List UndoStep) : Prop :=
  s.1.Sound asked → JournalProceeds asked s.2 →
    Ends a s (fun _ t => Reaches asked s.1 t.1 ∧ JournalProceeds asked t.2)
      fun _ t => Reaches asked s.1 t.1 ∧ JournalProceeds asked t.2

namespace ProceedsJournaled

variable {α β : Type} {asked : Operation → Prop} {a : Journaled β} {f : β → Journaled α}
  {s : Market × List UndoStep}

theorem pure (x : α) : ProceedsJournaled asked (pure x) s :=
  fun _ hjournal => ends_pure ⟨.refl s.1, hjournal⟩

theorem throw (e : Error) : ProceedsJournaled asked (throw e : Journaled α) s :=
  fun _ hjournal => ends_throw ⟨.refl s.1, hjournal⟩

theorem bind (h : ProceedsJournaled asked a s)
    (hf : ∀ x t, ProceedsJournaled asked (f x) t) : ProceedsJournaled asked (a >>= f) s := by
  intro hsound hjournal
  refine Ends.bind ((h hsound hjournal).imp ?_ fun _ _ h => h)
  intro x t hdone
  refine (hf x t (hdone.1.sound hsound) hdone.2).imp ?_ ?_
  · exact fun _ _ hrest => ⟨hdone.1.trans hrest.1, hrest.2⟩
  · exact fun _ _ hrest => ⟨hdone.1.trans hrest.1, hrest.2⟩

theorem check {v : Except Error β} (hok : ∀ x, v = .ok x → ProceedsJournaled asked (f x) s) :
    ProceedsJournaled asked (liftM v >>= f) s :=
  fun hsound hjournal => Ends.bind
    (ends_ofExcept (fun x hx => hok x hx hsound hjournal) fun _ _ => ⟨.refl s.1, hjournal⟩)

theorem test {c : Prop} [Decidable c] {e : Error} {next : PUnit → Journaled α}
    (h : ProceedsJournaled asked (next ⟨⟩) s) :
    ProceedsJournaled asked (if c then MonadExcept.throw e >>= next else next ⟨⟩) s :=
  fun hsound hjournal => ends_unless (fun _ => ⟨.refl s.1, hjournal⟩) fun _ => h hsound hjournal

theorem ite {c : Prop} [Decidable c] {a b : Journaled α} (ha : ProceedsJournaled asked a s)
    (hb : ProceedsJournaled asked b s) : ProceedsJournaled asked (if c then a else b) s := by
  by_cases h : c
  · rw [if_pos h]
    exact ha
  · rw [if_neg h]
    exact hb

theorem afterMarket {f : Market → Journaled α} (h : ProceedsJournaled asked (f s.1) s) :
    ProceedsJournaled asked (Journaled.market >>= f) s :=
  fun hsound hjournal => Ends.bind (Ends.bind (ends_get (ends_pure (h hsound hjournal))))

theorem ofSound (h : s.1.Sound asked → ProceedsJournaled asked a s) :
    ProceedsJournaled asked a s := fun hsound => h hsound hsound

theorem lift {a : Action Market α} (h : Proceeds asked a s.1) :
    ProceedsJournaled asked (Journaled.lift a) s := by
  intro hsound hjournal
  refine .focus ((h hsound).imp ?_ ?_)
  · exact fun _ _ hreaches => ⟨hreaches, hjournal⟩
  · exact fun _ _ hreaches => ⟨hreaches, hjournal⟩

theorem record {undo : UndoStep} (h : ∀ m, Proceeds asked undo m) :
    ProceedsJournaled asked (Journaled.record undo) s :=
  fun _ hjournal => ends_modify ⟨.refl s.1, List.forall_mem_cons.mpr ⟨h, hjournal⟩⟩

theorem change {g : Market → Market} {event : LedgerEvent} (h : Step asked s.1 event (g s.1)) :
    ProceedsJournaled asked (Journaled.change g) s :=
  fun _ hjournal => ends_modify ⟨h.reaches, hjournal⟩

end ProceedsJournaled

theorem unwind_proceeds {asked : Operation → Prop} {journal : List UndoStep} {m : Market}
    (h : JournalProceeds asked journal) : Proceeds asked (unwind journal) m := by
  induction journal generalizing m with
  | nil => exact .pure _
  | cons undo rest ih =>
      have hboth := List.forall_mem_cons.mp h
      exact .bind (hboth.1 m) fun _ _ _ => ih hboth.2

end Market

section Journals

variable {asked : Operation → Prop} {run : Executor} (hrun : run.Proceeds asked)
  {s : Market × List UndoStep}
include hrun

theorem perform_proceeds (e : Effect) : ProceedsJournaled asked (Journaled.perform run e) s :=
  .bind (.lift (hrun e s.1)) fun _ _ => .record (hrun e.inverse)

theorem performAll_proceeds (effects : List Effect) :
    ProceedsJournaled asked (Journaled.performAll run effects) s := by
  induction effects generalizing s with
  | nil => exact .pure _
  | cons e rest ih => exact .bind (perform_proceeds hrun e) fun _ _ => ih

theorem follow_proceeds {α : Type} {plan : Market → Except Error (Plan α)}
    (hfinish : ∀ p, plan s.1 = .ok p → ∀ m, Proceeds asked p.finish m) :
    ProceedsJournaled asked (Journaled.follow run plan) s := by
  refine .afterMarket (.check fun p hp => .bind (performAll_proceeds hrun _) fun _ t => ?_)
  exact .bind (.lift (hfinish p hp t.1)) fun _ _ => .pure _

end Journals

/-! ## Sections -/

theorem guarded_proceeds {α : Type} {asked : Operation → Prop} {m : Market} {s : Section}
    {owner action : Text} {body : Journaled α}
    (hbody : ProceedsJournaled asked body (m.enter s, [])) :
    Proceeds asked (guarded s owner action body) m := by
  intro hsound
  have hleave (u : Market) : Reaches asked u (u.leave s) := .of_quiet rfl id
  have henter : Reaches asked m (m.enter s) := .of_quiet rfl id
  have hinside := hbody (henter.sound hsound) (List.forall_mem_nil _)
  unfold Ends
  by_cases hfree : s ∈ m.entered
  · have hrefused : guarded s owner action body m = .error (.reentrant action owner) m :=
      if_pos hfree
    rw [hrefused]
    exact .refl m
  · cases hresult : body (m.enter s, []) with
    | ok x u =>
        rw [guarded_of_ok hfree hresult]
        exact (henter.trans (hinside.of_ok hresult).1).trans (hleave u.1)
    | error e u =>
        obtain ⟨hreaches, hjournal⟩ := hinside.of_error hresult
        have hfailed := henter.trans hreaches
        have hunwound := unwind_proceeds (m := u.1) hjournal (hfailed.sound hsound)
        rw [guarded_of_error hfree hresult]
        cases hundone : unwind u.2 u.1 with
        | ok _ m' => exact (hfailed.trans (hunwound.of_ok hundone)).trans (hleave m')
        | error e' m' => exact (hfailed.trans (hunwound.of_error hundone)).trans (hleave m')

end CurveMarket
