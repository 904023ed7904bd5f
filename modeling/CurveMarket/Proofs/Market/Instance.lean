import CurveMarket.Proofs.Check
import CurveMarket.Proofs.Market.Nesting
import CurveMarket.Proofs.Pool.Call

/-! # Calls on pools and reserves, side by side

Two executors that match inside a call make the call end alike. A call opens its section in a market
with one property and is carried out in markets with another; for a call inside another call both
are the sheltered property of the outer one.
-/

namespace CurveMarket

open CurveMarket.Action Market

/-- A call of the section, made in `m`, is carried out in markets with `I`, and begins and ends in
markets with `J`. -/
structure Brackets (J I : Market → Prop) (s : Section) (m : Market) : Prop where
  outside : J m
  enter : s ∉ m.entered → I (m.enter s)
  leave : ∀ u, s ∉ m.entered → u.entered = s :: m.entered → I u → J (u.leave s)

/-- The call may change its instance in any way. -/
structure Encloses (J I : Market → Prop) (s : Section) (m : Market) : Prop
    extends Brackets J I s m where
  ignores : s ∉ m.entered → Ignores I s

theorem Sheltered.encloses {I : Market → Prop} (hI : Sheltered I) {m : Market} (h : I m)
    (s : Section) : Encloses I I s m where
  outside := h
  enter := fun _ => hI.enter s h
  leave := fun _ hfree _ hkept => hI.leave h hfree hkept
  ignores := fun hfree => hI.ignores h hfree

/-- A call bears the mark of its section as long as it runs. -/
theorem encloses_mark (s : Section) (m : Market) :
    Encloses (fun _ => True) (fun u => s ∈ u.entered) s m where
  outside := trivial
  enter := fun _ => List.mem_cons_self
  leave := fun _ _ _ _ => trivial
  ignores := fun _ => ignores_mark s s

theorem guarded_same {α : Type} {J I : Market → Prop} {s : Section} {owner action : Text}
    {body body' : Journaled α} {m : Market} (h : Brackets J I s m)
    (hbody : s ∉ m.entered → ∀ u v, Beside I u v → SameJournaled I body body' u v) :
    Same J (guarded s owner action body) (guarded s owner action body') m := by
  by_cases hs : s ∈ m.entered
  · have hrefused (body : Journaled α) :
        guarded s owner action body m = .error (.reentrant action owner) m := if_pos hs
    exact .error (hrefused body) (hrefused body') ⟨rfl, rfl, h.outside⟩
  · have hleft {u : Market} (hmarks : u.entered = s :: m.entered) (hkept : I u) :
        (u.leave s).entered = m.entered ∧ J (u.leave s) :=
      ⟨entered_leave hs hmarks, h.leave u hs hmarks hkept⟩
    have hstart : Beside I (m.enter s, []) (m.enter s, []) := ⟨rfl, h.enter hs, .nil⟩
    have hinside : Alike body body' (m.enter s, []) (m.enter s, [])
        (fun _ u v => u.1 = v.1 ∧ (u.1.leave s).entered = m.entered ∧ J (u.1.leave s))
        (fun _ u v => Beside I u v ∧ u.1.entered = s :: m.entered) := by
      refine Alike.imp (hbody hs _ _ hstart) ?_ fun _ _ _ h => h
      rintro _ u v ⟨hbeside, hmarks⟩
      exact ⟨hbeside.market, hleft hmarks hbeside.holds⟩
    refine (guarded_alike hs hinside).imp (fun _ _ _ h => h) ?_
    rintro _ u v ⟨rfl, inside, hkept, hmarks, rfl⟩
    exact ⟨rfl, hleft hmarks hkept⟩

/-! ## Pools -/

section Pools

variable {J I : Market → Prop} {run run' : Executor} (hrun : run.Matches I run') {i : Nat}
  {m : Market}

theorem commit_same (hi : Ignores I (.pool i)) (h : I m) (pre post : PoolState)
    (events : List PoolEvent) (change : Int) :
    Same I (commit i pre post events change) (commit i pre post events change) m := by
  refine .afterGet (alike_unless (fun _ => ⟨rfl, rfl, h⟩) fun _ => ?_)
  exact alike_modify ⟨rfl, rfl, hi _ _ h (.pool i _ m)⟩

/-- The mutating calls of a pool are carried out in one way. -/
theorem servePool_alike {c : PoolCall} (hmutating : c.isMutating = true)
    {Q : Market → Market → Prop} {E : Error → Market → Market → Prop}
    (hcall : ∀ {α : Type} (action : Text) (decide : Market → Pool → Except Error (PoolPlan α)),
      (∀ m p, c.decision i m p = some ((decide m p).map PoolPlan.bare)) →
      Alike (inPool run i action decide) (inPool run' i action decide) m m
        (fun _ u v => Q u v) E) :
    Alike (servePool run i c) (servePool run' i c) m m (fun _ u v => Q u v) E := by
  have hquiet {action : Text} {decide : Market → Pool → Except Error (PoolPlan Unit)}
      (hdecide : ∀ m p, c.decision i m p = some (decide m p)) :
      Alike (do inPool run i action decide; return Reply.nothing)
        (do inPool run' i action decide; return Reply.nothing) m m (fun _ u v => Q u v) E := by
    refine .bind ((hcall action decide fun m p => ?_).imp ?_ fun _ _ _ h => h)
    · rw [map_bare]
      exact hdecide m p
    · exact fun _ _ _ hQ => .ok rfl rfl hQ
  unfold servePool
  refine .bind (.ok rfl rfl ?_)
  cases c with
  | buy => exact .map (hcall _ _ fun _ _ => rfl)
  | sell => exact .map (hcall _ _ fun _ _ => rfl)
  | depositFees => exact hquiet fun _ _ => rfl
  | setParameters => exact hquiet fun _ _ => rfl
  | setTradeCap => exact hquiet fun _ _ => rfl
  | pause => exact hquiet fun _ _ => rfl
  | unpause => exact hquiet fun _ _ => rfl
  | withdrawTreasury => exact hquiet fun _ _ => rfl
  | _ => cases hmutating

include hrun

theorem inPool_same {α : Type} (h : Encloses J I (.pool i) m) (action : Text)
    (plan : Market → Pool → Except Error (PoolPlan α)) :
    Same J (inPool run i action plan) (inPool run' i action plan) m := by
  refine .afterGet (guarded_same h.toBrackets fun hfree u v hbeside => ?_)
  refine follow_same hrun hbeside fun p hp m' hm' => ?_
  obtain ⟨d, -, rfl⟩ := Check.map_eq_ok.mp hp
  exact commit_same (h.ignores hfree) hm' _ _ _ _

theorem servePool_same (h : Encloses J I (.pool i) m) (c : PoolCall) :
    Same J (servePool run i c) (servePool run' i c) m := by
  by_cases hmutating : c.isMutating = true
  · exact servePool_alike hmutating fun action decide _ => inPool_same hrun h action decide
  · refine .afterGet ?_
    have hread {β : Type} {v : Except Error β} {f : β → Reply} :
        Same J (do return f (← v)) (do return f (← v)) m :=
      .check h.outside fun _ _ => .pure h.outside _
    cases c with
    | spotPrice | buyQuote | sellQuote | stats | buyImpact | sellImpact => exact hread
    | buy | sell | depositFees | setParameters | setTradeCap | pause | unpause
    | withdrawTreasury => exact absurd rfl hmutating
    | _ => exact .pure h.outside _

end Pools

/-! ## Reserves -/

section Reserves

variable {J I : Market → Prop} {run run' : Executor} (hrun : run.Matches I run') {i : Nat}

theorem updateReserve_same (hi : Ignores I (.reserve i)) {m : Market} (h : I m)
    (f : InfraReserve → InfraReserve) :
    Same I (modify (updateReserve i f)) (modify (updateReserve i f)) m :=
  alike_modify ⟨rfl, rfl, hi _ _ h (.reserve i f m)⟩

include hrun

theorem planInReserve_same {α : Type} {m : Market} (h : Encloses J I (.reserve i) m) (action : Text)
    (plan : Market → Except Error (ReservePlan α)) :
    Same J (planInReserve run i action plan) (planInReserve run' i action plan) m := by
  refine guarded_same h.toBrackets fun hfree u v hbeside => ?_
  refine follow_same hrun hbeside fun p hp m' hm' => ?_
  obtain ⟨d, -, rfl⟩ := Check.map_eq_ok.mp hp
  exact updateReserve_same (h.ignores hfree) hm' d.update

variable (hi : Ignores I (.reserve i)) {s t : Market × List UndoStep} (h : Beside I s t)
include hi h

theorem settle_same (payment : Payment) :
    SameJournaled I (settle run i payment) (settle run' i payment) s t := by
  refine .check h fun name _ => .check h fun payee _ => .check h fun a _ => ?_
  refine .afterMarket h (.check h fun _ _ => ?_)
  refine .bind (.lift h (hrun _ s.1 h.holds)) fun _ u v h' => ?_
  refine .bind (.change h' (hi _ _ h'.holds (.reserve i _ u.1)) rfl) fun _ _ _ h'' => ?_
  exact .pure h'' _

theorem settleAll_same (payments : List Payment) :
    SameJournaled I (settleAll run i payments) (settleAll run' i payments) s t := by
  induction payments generalizing s t with
  | nil => exact .pure h _
  | cons payment rest ih =>
      refine .bind (settle_same hrun hi h payment) fun x _ _ h' => ?_
      refine .bind (.record h' fun m => hrun x.2 m) fun _ _ _ h'' => ?_
      exact .bind (ih h'') fun _ _ _ h''' => .pure h''' _

omit hi h

theorem pay_same {m : Market} (h : Encloses J I (.reserve i) m) (payment : Payment) :
    Same J (pay run i payment) (pay run' i payment) m := by
  refine guarded_same h.toBrackets fun hfree u v hbeside => ?_
  refine .afterMarket hbeside (.check hbeside fun _ _ => ?_)
  exact .bind (settle_same hrun (h.ignores hfree) hbeside payment) fun _ _ _ h' => .pure h' _

theorem batchPay_same {m : Market} (h : Encloses J I (.reserve i) m) (payments : List Payment) :
    Same J (batchPay run i payments) (batchPay run' i payments) m := by
  refine guarded_same h.toBrackets fun hfree u v hbeside => ?_
  have hi := h.ignores hfree
  refine .afterMarket hbeside (.check hbeside fun old _ => ?_)
  refine alike_unless (fun _ => ⟨hbeside, rfl⟩) fun _ => ?_
  refine SameJournaled.bind (.record hbeside fun m hm => updateReserve_same hi hm _) ?_
  exact fun _ _ _ h' => settleAll_same hrun hi h' payments

theorem serveReserve_same {m : Market} (h : Encloses J I (.reserve i) m) (c : ReserveCall) :
    Same J (serveReserve run i c) (serveReserve run' i c) m := by
  have hplan {α : Type} (action : Text) (plan : Market → Except Error (ReservePlan α)) :
      Same J (planInReserve run i action plan) (planInReserve run' i action plan) m :=
    planInReserve_same hrun h action plan
  have hquiet {a b : Action Market Unit} (hab : Same J a b m) :
      Same J (do a; return Reply.nothing) (do b; return Reply.nothing) m :=
    .bind hab fun _ _ h' => .pure h' _
  refine .afterGet ?_
  cases c with
  | deposit | revertDeposit | emergencyWithdraw | pause | unpause => exact hquiet (hplan _ _)
  | batchDeposit => exact .map (hplan _ _)
  | pay payment => exact .map (pay_same hrun h payment)
  | batchPay payments => exact .map (batchPay_same hrun h payments)
  | setProvider =>
      exact hquiet (.check h.outside fun _ _ => .check h.outside fun _ _ => hplan _ _)
  | setTreasury => exact hquiet (.check h.outside fun _ _ => hplan _ _)
  | runway => exact .check h.outside fun _ _ => .pure h.outside _
  | _ => exact .pure h.outside _

end Reserves

end CurveMarket
