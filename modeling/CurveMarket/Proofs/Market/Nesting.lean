import CurveMarket.Proofs.Market.Shelter

/-! # Calls inside calls

Carried requests run from inside a call, at its effects and again at the effects of its unwinding.
Two ways to run them that agree on the markets with a sheltered property make executors, journals,
sections and plans agree there.
-/

namespace CurveMarket

open CurveMarket.Action Market

/-! ## Callbacks -/

section Callbacks

variable {I : Market → Prop} {call call' : Nested} {m m' : Market} {r : Request}

theorem hear_of_ok {reply : Reply} (h : call r m = .ok reply m') :
    hear call r m = .ok (.ok reply) (m'.note (m.exchange r (.ok reply))) := by
  simp only [hear, h]

theorem hear_of_error {e : Error} (h : call r m = .error e m') :
    hear call r m = .ok (.error e) (m'.note (m.exchange r (.error e))) := by
  simp only [hear, h]

variable (hI : Sheltered I) (hcall : call.Matches I call')
include hI hcall

theorem hear_same (r : Request) (h : I m) : Same I (hear call r) (hear call' r) m := by
  have hnoted {m' : Market} (h : I m') (x : Exchange) : I (m'.note x) :=
    hI.spares h (.of_eq rfl rfl rfl rfl)
  cases hcall r m h with
  | ok left right post =>
      obtain ⟨rfl, hmarks, hkept⟩ := post
      exact .ok (hear_of_ok left) (hear_of_ok right) ⟨rfl, hmarks, hnoted hkept _⟩
  | error left right post =>
      obtain ⟨rfl, hmarks, hkept⟩ := post
      exact .ok (hear_of_error left) (hear_of_error right) ⟨rfl, hmarks, hnoted hkept _⟩

theorem runSteps_same (propagate : Bool) (steps : List Request) (h : I m) :
    Same I (runSteps call propagate steps) (runSteps call' propagate steps) m := by
  induction steps generalizing m with
  | nil => exact .pure h _
  | cons r rest ih =>
      refine .bind (hear_same hI hcall r h) fun answer m' h' => ?_
      cases answer with
      | ok => exact ih h'
      | error e =>
          cases propagate with
          | false => exact ih h'
          | true => exact .throw h' e

theorem withCallbacks_matches :
    (withCallbacks call).Matches I (withCallbacks call') := by
  intro e m h
  refine .bind (.of_sparing hI h (takeCallback_sparing _ m)) fun c m' h' => ?_
  have heffect {m : Market} (h : I m) : Same I (apply e) (apply e) m :=
    .of_sparing hI h (apply_sparing e m)
  cases c with
  | none => exact heffect h'
  | some c =>
      obtain ⟨steps, moment, skip, propagate⟩ := c
      cases moment with
      | before =>
          exact .bind (runSteps_same hI hcall propagate steps h') fun _ _ h'' => heffect h''
      | after =>
          exact .bind (heffect h') fun _ _ h'' => runSteps_same hI hcall propagate steps h''

end Callbacks

/-! ## Journals -/

section Journals

variable {I : Market → Prop} {run run' : Executor} (hrun : run.Matches I run')
  {s t : Market × List UndoStep}
include hrun

theorem perform_same (h : Beside I s t) (e : Effect) :
    SameJournaled I (Journaled.perform run e) (Journaled.perform run' e) s t :=
  .bind (.lift h (hrun e s.1 h.holds)) fun _ _ _ h' => .record h' fun m => hrun e.inverse m

theorem performAll_same (h : Beside I s t) (effects : List Effect) :
    SameJournaled I (Journaled.performAll run effects) (Journaled.performAll run' effects) s t := by
  induction effects generalizing s t with
  | nil => exact .pure h _
  | cons e rest ih => exact .bind (perform_same hrun h e) fun _ _ _ h' => ih h'

omit hrun in
theorem unwind_same {journal journal' : List UndoStep}
    (hjournals : JournalsMatch I journal journal') {m : Market} (h : I m) :
    Same I (unwind journal) (unwind journal') m := by
  induction hjournals generalizing m with
  | nil => exact .pure h _
  | cons hstep _ ih => exact .bind (hstep m h) fun _ _ h' => ih h'

end Journals

/-! ## Sections -/

section Sections

variable {α : Type} {I : Market → Prop} {m : Market} {s : Section} {owner action : Text}
  {body body' : Journaled α}

theorem guarded_of_ok {u : Market × List UndoStep} {x : α} (hfree : s ∉ m.entered)
    (hbody : body (m.enter s, []) = .ok x u) :
    guarded s owner action body m = .ok x (u.1.leave s) := by
  unfold guarded
  rw [if_neg hfree, hbody]

theorem guarded_of_error {u : Market × List UndoStep} {e : Error} (hfree : s ∉ m.entered)
    (hbody : body (m.enter s, []) = .error e u) :
    guarded s owner action body m = match unwind u.2 u.1 with
      | .ok _ m' => .error e (m'.leave s)
      | .error e' m' => .error e' (m'.leave s) := by
  unfold guarded
  rw [if_neg hfree]
  cases hunwound : unwind u.2 u.1 with
  | ok _ m' => simp only [hbody, hunwound]
  | error e' m' => simp only [hbody, hunwound]

theorem free_of_guarded {x : α} {m' : Market} (h : guarded s owner action body m = .ok x m') :
    s ∉ m.entered := by
  intro hentered
  unfold guarded at h
  rw [if_pos hentered] at h
  cases h

theorem guarded_eq_ok {x : α} {m' : Market} (h : guarded s owner action body m = .ok x m') :
    ∃ u, body (m.enter s, []) = .ok x u ∧ m' = u.1.leave s := by
  by_cases hfree : s ∈ m.entered
  · unfold guarded at h
    rw [if_pos hfree] at h
    cases h
  · cases hbody : body (m.enter s, []) with
    | ok y u =>
        rw [guarded_of_ok hfree hbody] at h
        cases h
        exact ⟨u, rfl, rfl⟩
    | error e u =>
        rw [guarded_of_error hfree hbody] at h
        split at h
        · cases h
        · cases h

/-- Two bodies that end alike in one section. What fails is unwound in markets with the property;
what succeeds may have changed the instance of the section for good. -/
theorem guarded_alike {Q : α → Market → Prop} (hfree : s ∉ m.entered)
    (hbody : Alike body body' (m.enter s, []) (m.enter s, [])
      (fun x u v => u.1 = v.1 ∧ Q x (u.1.leave s))
      (fun _ u v => Beside I u v ∧ u.1.entered = s :: m.entered)) :
    Alike (guarded s owner action body) (guarded s owner action body') m m
      (fun x u v => u = v ∧ Q x u)
      (fun _ u v => u = v ∧ ∃ inside, I inside ∧ inside.entered = s :: m.entered ∧
        u = inside.leave s) := by
  cases hbody with
  | ok left right post =>
      refine .ok (guarded_of_ok hfree left) (guarded_of_ok hfree right) ⟨?_, post.2⟩
      rw [post.1]
  | @error e u v left right post =>
      obtain ⟨hbeside, hmarks⟩ := post
      have hleft : guarded s owner action body m = _ := guarded_of_error hfree left
      have hright : guarded s owner action body' m = _ := guarded_of_error hfree right
      rw [← hbeside.market] at hright
      cases unwind_same hbeside.journals hbeside.holds with
      | ok left' right' post' =>
          obtain ⟨rfl, hmarks', hkept⟩ := post'
          rw [left'] at hleft
          rw [right'] at hright
          exact .error hleft hright ⟨rfl, _, hkept, hmarks'.trans hmarks, rfl⟩
      | error left' right' post' =>
          obtain ⟨rfl, hmarks', hkept⟩ := post'
          rw [left'] at hleft
          rw [right'] at hright
          exact .error hleft hright ⟨rfl, _, hkept, hmarks'.trans hmarks, rfl⟩

end Sections

/-! ## Plans -/

section Plans

variable {α : Type} {I : Market → Prop} {run run' : Executor} (hrun : run.Matches I run')
  {s t : Market × List UndoStep} {plan : Market → Except Error (Plan α)}
include hrun

/-- Two calls that follow one plan agree up to its last step. -/
theorem follow_alike (h : Beside I s t)
    {Q : α → Market × List UndoStep → Market × List UndoStep → Prop}
    {E : Error → Market × List UndoStep → Market × List UndoStep → Prop}
    (herror : ∀ e u v, Beside I u v → u.1.entered = s.1.entered → E e u v)
    (hfinish : ∀ p, plan s.1 = .ok p → ∀ u v, Beside I u v → u.1.entered = s.1.entered →
      Alike (Journaled.lift p.finish) (Journaled.lift p.finish) u v
        (fun _ u' v' => Q p.result u' v') E) :
    Alike (Journaled.follow run plan) (Journaled.follow run' plan) s t Q E := by
  obtain ⟨m, journal⟩ := s
  obtain ⟨_, journal'⟩ := t
  obtain rfl : m = _ := h.market
  refine .bind (.ok rfl rfl (alike_check (fun e _ => herror e _ _ h rfl) fun p hp => ?_))
  refine .bind (Alike.imp (performAll_same hrun h p.effects) ?_ ?_)
  · rintro _ u v ⟨hbeside, hmarks⟩
    refine .bind ((hfinish p hp u v hbeside hmarks).imp ?_ fun _ _ _ h => h)
    exact fun _ _ _ => alike_pure
  · rintro e u v ⟨hbeside, hmarks⟩
    exact herror e u v hbeside hmarks

theorem follow_same (h : Beside I s t)
    (hfinish : ∀ p, plan s.1 = .ok p → ∀ m, I m → Same I p.finish p.finish m) :
    SameJournaled I (Journaled.follow run plan) (Journaled.follow run' plan) s t := by
  refine follow_alike hrun h (fun _ _ _ hbeside hmarks => ⟨hbeside, hmarks⟩) ?_
  intro p hp u v hbeside hmarks
  exact (SameJournaled.lift hbeside (hfinish p hp u.1 hbeside.holds)).later hmarks

/-- Calls that follow one plan in one section agree up to its last step, which changes the market
as `P` says or not at all. -/
theorem guarded_follow_alike {m : Market} {s : Section} {owner action : Text}
    {P : α → Market → Prop} (hstart : s ∉ m.entered → I (m.enter s))
    (hfinish : ∀ p, plan (m.enter s) = .ok p → ∀ u, I u →
      Ends p.finish u (fun _ u' => P p.result (u'.leave s)) (fun _ u' => u' = u)) :
    Alike (guarded s owner action (Journaled.follow run plan))
      (guarded s owner action (Journaled.follow run' plan)) m m
      (fun x u v => u = v ∧ P x u)
      (fun _ u v => u = v ∧ (u = m ∨ ∃ inside, I inside ∧ u = inside.leave s)) := by
  by_cases hs : s ∈ m.entered
  · exact .error (if_pos hs) (if_pos hs) ⟨rfl, .inl rfl⟩
  have hbeside : Beside I (m.enter s, []) (m.enter s, []) := ⟨rfl, hstart hs, .nil⟩
  refine (guarded_alike (I := I) hs (follow_alike hrun hbeside ?_ ?_)).imp (fun _ _ _ h => h) ?_
  · exact fun _ _ _ hbeside hmarks => ⟨hbeside, hmarks⟩
  · rintro p hp ⟨u, journal⟩ ⟨_, journal'⟩ ⟨rfl, hinside, hjournals⟩ hmarks
    refine .focus ((Ends.alike (hfinish p hp u hinside)).imp ?_ ?_)
    · rintro _ u' _ ⟨rfl, hP⟩
      exact ⟨rfl, hP⟩
    · rintro _ u' _ ⟨rfl, rfl⟩
      exact ⟨⟨rfl, hinside, hjournals⟩, hmarks⟩
  · rintro _ u _ ⟨rfl, inside, hinside, -, rfl⟩
    exact ⟨rfl, .inr ⟨inside, hinside, rfl⟩⟩

end Plans

end CurveMarket
