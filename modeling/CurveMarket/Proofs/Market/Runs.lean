import CurveMarket.Proofs.Ledger.Total
import CurveMarket.Proofs.Market.Conduct
import CurveMarket.Proofs.Market.Entry

/-! # Requests by steps

A request proceeds by steps as long as the requests that it carries do, and these are nested at most
so deep. So whatever is submitted to a market, the market gets by steps to where it ends.
-/

namespace CurveMarket

open CurveMarket.Action Market

variable {asked : Operation → Prop} {m : Market}

/-! ## Requests that no callback runs in -/

/-- An action on one ledger of the market, which is as it was when the action is refused. -/
theorem answer_ends {σ : Type} {part : Market → σ} {replace : Market → σ → Market}
    {a : Action σ Unit} (hrefused : Ends a (part m) (fun _ _ => True) fun _ s => s = part m)
    (hback : replace m (part m) = m) :
    Ends (do focus part replace a; return Reply.nothing) m
      (fun reply _ => reply = .nothing) fun _ m' => m' = m := by
  refine .bind (.focus (hrefused.imp (fun _ _ _ => ends_pure rfl) ?_))
  intro _ s hsame
  rw [hsame]
  exact hback

theorem answer_proceeds {σ : Type} {part : Market → σ} {replace : Market → σ → Market}
    {a : Action σ Unit} {event : LedgerEvent}
    (hrefused : Ends a (part m) (fun _ _ => True) fun _ s => s = part m)
    (hback : replace m (part m) = m)
    (hstep : ∀ m', (do focus part replace a; return Reply.nothing) m = .ok .nothing m' →
      Step asked m event m') :
    Proceeds asked (do focus part replace a; return Reply.nothing) m := by
  intro _
  have hends := answer_ends hrefused hback
  refine ends_of ?_ ?_
  · intro reply m' hok
    obtain rfl : reply = .nothing := hends.of_ok hok
    exact (hstep m' hok).reaches
  · intro e m' herror
    rw [hends.of_error herror]
    exact .refl m

theorem resolve_eq_ok {name : Text} {o : Object} {m' : Market} :
    resolve name m = .ok o m' ↔ m.find? name = some o ∧ m = m' := by
  constructor
  · have hends : Ends (resolve name) m (fun o m' => m.find? name = some o ∧ m = m')
        fun _ _ => True := by
      refine .bind (ends_get ?_)
      cases m.find? name with
      | none => exact ends_throw trivial
      | some _ => exact ends_pure ⟨rfl, rfl⟩
    exact hends.of_ok
  · rintro ⟨hfound, rfl⟩
    unfold resolve
    have hget : (MonadState.get : Action Market Market) m = .ok m m := rfl
    rw [bind_of_ok hget, hfound]
    rfl

theorem resolve_proceeds (name : Text) : Proceeds asked (resolve name) m := by
  refine .afterGet ?_
  cases m.find? name with
  | none => exact .throw _
  | some o => exact .pure o

theorem resolveCapability_proceeds (name : Text) :
    Proceeds asked (resolveCapability name) m := by
  refine .bind (resolve_proceeds name) fun o m' _ => ?_
  cases o with
  | capability i => exact .pure i
  | _ => exact .throw _

theorem resolveTarget_proceeds (name : Text) : Proceeds asked (resolveTarget name) m := by
  refine .bind (resolve_proceeds name) fun o m' _ => ?_
  cases o with
  | asset => exact .pure _
  | capability i => exact .pure _
  | _ => exact .throw _

theorem modify_quiet {g : Market → Market} (same : m.SameBooks (g m))
    (waits : Waits asked m.callbacks → Waits asked (g m).callbacks) :
    Proceeds asked (modify g : Action Market PUnit) m := .modify (.quiet same waits)

theorem onSideAsset_proceeds (i : Nat) (a : Text → Action BalanceTable Unit) :
    Proceeds asked (onSideAsset i a) m := by
  refine .afterGet (.bind (fun _ => ?_) fun _ _ _ => .pure _)
  exact .focus (ends_of (fun _ _ _ => .of_quiet rfl id) fun _ _ _ => .of_quiet rfl id)

theorem serveSideAsset_proceeds (i : Nat) (c : AssetCall) :
    Proceeds asked (serveSideAsset i c) m := by
  unfold serveSideAsset
  cases c with
  | transfer => exact onSideAsset_proceeds _ _
  | credit => exact onSideAsset_proceeds _ _
  | _ => exact .afterGet (.pure _)

theorem serveToken_proceeds (target : Text) (t : Nat) (c : AssetCall) :
    Proceeds asked (serveToken target t c) m := by
  cases c with
  | transfer sender recipient amount =>
      have hstep {m' : Market}
          (h : serveToken target t (.transfer sender recipient amount) m = .ok .nothing m') :
          Step asked m .other m' := .transfer h
      refine .afterGet (answer_proceeds ?_ (putTokenLedger_self m t) fun _ => hstep)
      exact .focus ((transferUnits_total ..).imp (fun _ _ _ => trivial) fun _ _ h => by rw [h])
  | balanceOf | totalSupply => exact .afterGet (.pure _)
  | credit | symbol => exact .throw _

theorem serveCapabilityBalance_proceeds (target : Text) (c : Nat) (call : AssetCall) :
    Proceeds asked (serveCapabilityBalance target c call) m := by
  cases call with
  | balanceOf | totalSupply => exact .afterGet (.pure _)
  | _ => exact .throw _

theorem serveTable_proceeds {c : TableCall} (h : asked (.table c)) :
    Proceeds asked (serveTable c) m := by
  cases c with
  | set account asset amount =>
      exact answer_proceeds (BalanceTable.set_writes _ _ _) rfl fun m' hdone => .write h hdone
  | add account asset change =>
      exact answer_proceeds (BalanceTable.add_writes _ _ _) rfl fun m' hdone => .write h hdone
  | subtract account asset amount =>
      exact answer_proceeds (BalanceTable.subtract_writes _ _ _) rfl fun m' hdone =>
        .write h hdone
  | move asset sender recipient amount =>
      refine answer_proceeds ?_ rfl fun m' hdone => .write h hdone
      exact (BalanceTable.move_total ..).imp (fun _ _ _ => trivial) fun _ _ h => h
  | _ => exact .afterGet (.pure _)

theorem serveTokenRights_proceeds (target : Text) (t : Nat) (c : CapabilityCall) :
    Proceeds asked (serveTokenRights target t c) m := by
  cases c with
  | revoke name =>
      refine .bind (resolveCapability_proceeds name) fun c m' _ => .afterGet ?_
      exact .bind (.modify (.revoke t _)) fun _ _ _ => .pure _
  | isAuthorized name =>
      exact .bind (resolveCapability_proceeds name) fun c m' _ => .afterGet (.pure _)
  | _ => exact .throw _

theorem onGovernance_proceeds (i : Nat) (a : Action Governance Unit) :
    Proceeds asked (onGovernance i a) m := by
  refine .bind (fun _ => ?_) fun _ _ _ => .pure _
  exact .focus (ends_of (fun _ _ _ => .of_quiet rfl id) fun _ _ _ => .of_quiet rfl id)

theorem serveGovernance_proceeds (i : Nat) (c : GovernanceCall) :
    Proceeds asked (serveGovernance i c) m := by
  cases c with
  | rate | defaultRate => exact .afterGet (.pure _)
  | _ => exact onGovernance_proceeds _ _

theorem nameObject_proceeds (name : Option Text) (served : Served) :
    Proceeds asked (nameObject name served) m := by
  cases name with
  | none => exact .pure _
  | some n =>
      obtain ⟨reply, object⟩ := served
      cases object with
      | none => exact .pure _
      | some o => exact .bind (modify_quiet rfl id) fun _ _ _ => .pure _

/-! ## Pools and directories -/

theorem servedPool_proceeds (i : Nat) : Proceeds asked (servedPool i) m := .afterGet (.pure _)

theorem openPool_proceeds (model : Option Text) (capability : Nat) (terms : Option Terms)
    (state : Option PoolState) (treasury account : Option Text) :
    Proceeds asked (openPool model capability terms state treasury account) m := by
  unfold openPool
  cases model with
  | none => exact .throw _
  | some name =>
      refine .test (.check fun t _ => .afterGet (.check fun s _ => ?_))
      exact .bind (.modify (.pools (.append .refl _ _))) fun _ _ _ => .pure _

/-- The pool that was opened, where the account is the one that goes with the model. -/
theorem openPool_listed {name : Text} {capability : Nat} {terms : Option Terms}
    {state : Option PoolState} {treasury : Option Text} {i : Nat} {m' : Market}
    (h : openPool (some name) capability terms state treasury none m = .ok i m') :
    ∃ p, m'.pools[i]? = some p ∧ p.model = name ∧ p.account = Pool.defaultAccount name := by
  unfold openPool at h
  obtain ⟨-, h⟩ := test_eq_ok.mp h
  obtain ⟨t, m₁, ht, h⟩ := bind_eq_ok.mp h
  obtain ⟨-, rfl⟩ := ofExcept_eq_ok.mp ht
  obtain ⟨_, _, hget, h⟩ := bind_eq_ok.mp h
  cases hget
  obtain ⟨s, m₁, hs, h⟩ := bind_eq_ok.mp h
  obtain ⟨-, rfl⟩ := ofExcept_eq_ok.mp hs
  cases h
  exact ⟨_, List.getElem?_concat_length, rfl, rfl⟩

theorem Directory.GrowsTo.add (d : Directory) (entry : Text × Nat) :
    d.GrowsTo { d with pools := d.pools ++ [entry] } := ⟨rfl, List.prefix_append _ _⟩

/-- A pool that is opened under its model and with the account that goes with it can be listed. -/
theorem registered_add {pools : List Pool} {directories : List Directory} {directory i : Nat}
    {name : Text} (h : Registered pools directories)
    (hpool : ∃ p, pools[i]? = some p ∧ p.model = name ∧ p.account = Pool.defaultAccount name) :
    Registered pools (directories.modify directory fun d =>
      { d with pools := d.pools ++ [(name, i)] }) := by
  intro d hd e he
  obtain ⟨j, hj⟩ := List.mem_iff_getElem?.mp hd
  rw [List.getElem?_modify] at hj
  obtain ⟨d₀, hd₀, heq⟩ := Option.map_eq_some_iff.mp hj
  have hold := h d₀ (List.mem_of_getElem? hd₀)
  by_cases hplace : directory = j
  · rw [if_pos hplace] at heq
    rw [← heq] at he
    rcases List.mem_append.mp he with hbefore | hnew
    · exact hold e hbefore
    · rw [List.mem_singleton.mp hnew]
      exact hpool
  · rw [if_neg hplace] at heq
    rw [← heq] at he
    exact hold e he

theorem registered_append {pools : List Pool} {directories : List Directory}
    (h : Registered pools directories) (treasury : Option Text) :
    Registered pools (directories ++ [⟨treasury, []⟩]) :=
  List.forall_mem_append.mpr ⟨h, List.forall_mem_singleton.mpr (List.forall_mem_nil _)⟩

theorem createPool_proceeds (directory : Nat) (model : Option Text) (capability : Nat)
    (terms : Option Terms) (state : Option PoolState) :
    Proceeds asked (createPool directory model capability terms state) m := by
  refine .check fun name hname => .afterGet (.test ?_)
  refine .bind (openPool_proceeds _ _ _ _ _ _) fun i m' hopened => ?_
  refine .bind (.modify (.directories ?_ fun h => ?_)) fun _ _ _ => .pure _
  · exact .modify .refl (fun d => .add d _) directory m'.directories
  · rw [(requireModel_eq_ok.mp hname).1] at hopened
    exact registered_add h (openPool_listed hopened)

theorem lookUpPool_proceeds (directory : Nat) (model : Option Text) :
    Proceeds asked (lookUpPool directory model) m := by
  refine .afterGet ?_
  dsimp only
  cases model.bind fun name => (m.directory directory).pools.lookup name with
  | none => exact .throw _
  | some i => exact .pure i

theorem serveDirectory_proceeds (i : Nat) (c : DirectoryCall) :
    Proceeds asked (serveDirectory i c) m := by
  cases c with
  | createPool request =>
      refine .bind (resolveCapability_proceeds _) fun c m' _ => ?_
      exact .bind (createPool_proceeds _ _ _ _ _) fun j _ _ => servedPool_proceeds j
  | lookUp model => exact .bind (lookUpPool_proceeds i model) fun j _ _ => servedPool_proceeds j
  | _ => exact .afterGet (.pure _)

/-! ## Requests that act through effects -/

section Effects

variable {run : Executor} (hrun : run.Proceeds asked)
include hrun

theorem serveAsset_proceeds {c : AssetCall} (h : Object.asset.credit? (.asset c) = none) :
    Proceeds asked (serveAsset run c) m := by
  cases c with
  | transfer => exact .bind (hrun _ m) fun _ _ _ => .pure _
  | credit => cases h
  | _ => exact .afterGet (.pure _)

theorem serveCapability_proceeds (target : Text) (c : Nat) (call : CapabilityCall) :
    Proceeds asked (serveCapability run target c call) m := by
  cases call with
  | mint | burn => exact .bind (hrun _ m) fun _ _ _ => .pure _
  | isRevoked => exact .afterGet (.pure _)
  | _ => exact .throw _

theorem serveShared_proceeds (target : Text) (o : Object) (c : SharedCall) :
    Proceeds asked (serveShared run target o c) m := by
  unfold serveShared
  split
  · exact servePool_proceeds hrun _
  · exact serveReserve_proceeds hrun _
  · refine .afterGet ?_
    split
    · exact .pure _
    · exact .throw _

theorem serveObject_proceeds (target : Text) {o : Object} {op : Operation} (h : asked op)
    (hother : o.credit? op = none) : Proceeds asked (serveObject run target o op) m := by
  have hplain {a : Action Market Reply} (ha : Proceeds asked a m) :
      Proceeds asked (do return ((← a) : Served)) m := .bind ha fun _ _ _ => .pure _
  unfold serveObject
  cases op with
  | shared c => exact hplain (serveShared_proceeds hrun target o c)
  | asset c =>
      cases o with
      | asset => exact hplain (serveAsset_proceeds hrun hother)
      | sideAsset i => exact hplain (serveSideAsset_proceeds i c)
      | token t => exact hplain (serveToken_proceeds target t c)
      | capability i => exact hplain (serveCapabilityBalance_proceeds target i c)
      | _ => exact .throw _
  | table c =>
      cases o with
      | table => exact hplain (serveTable_proceeds h)
      | _ => exact .throw _
  | capability c =>
      cases o with
      | token t => exact hplain (serveTokenRights_proceeds target t c)
      | capability i => exact hplain (serveCapability_proceeds hrun target i c)
      | _ => exact .throw _
  | pool c =>
      cases o with
      | pool i => exact hplain (servePool_proceeds hrun c)
      | _ => exact .throw _
  | directory c =>
      cases o with
      | directory i => exact serveDirectory_proceeds i c
      | _ => exact .throw _
  | governance c =>
      cases o with
      | governance i => exact hplain (serveGovernance_proceeds i c)
      | _ => exact .throw _
  | reserve c =>
      cases o with
      | reserve i => exact hplain (serveReserve_proceeds hrun c)
      | _ => exact .throw _
  | splitter c =>
      cases o with
      | splitter i => exact hplain (serveSplitter_proceeds hrun c)
      | _ => exact .throw _
  | _ => cases o <;> exact .throw _

end Effects

theorem Market.credit_or_other (m : Market) (r : Request) :
    (∃ target account amount name, r = .mk target (.asset (.credit account amount)) name ∧
      m.find? target = some .asset) ∨
    ∀ o, m.find? r.target = some o → o.credit? r.operation = none := by
  obtain ⟨target, op, name⟩ := r
  refine or_iff_not_imp_right.mpr fun hcredit => ?_
  push Not at hcredit
  obtain ⟨o, hfound, hne⟩ := hcredit
  obtain ⟨⟨account, amount⟩, hc⟩ := Option.ne_none_iff_exists'.mp hne
  obtain ⟨rfl, hop⟩ := Object.credit?_eq_some.mp hc
  obtain rfl : op = .asset (.credit account amount) := hop
  exact ⟨target, account, amount, name, rfl, hfound⟩

/-! ## Requests that carry others -/

theorem runGuarded_proceeds (owner action : Text) (inner : Option Text) :
    Proceeds asked (runGuarded owner action inner) m := by
  refine .afterGet (.bind (.tryCatch ?_ fun _ _ => .afterGet (.pure _)) fun x _ _ => ?_)
  · refine .bind (guarded_proceeds ?_) fun _ _ _ => .afterGet (.pure _)
    refine .afterMarket (.bind (.record fun _ => .pure _) fun _ t => ?_)
    cases inner with
    | none => exact .pure _
    | some again => exact .bind (.lift (guarded_proceeds (.pure _))) fun _ _ => .pure _
  · cases x with
    | error r => exact .pure _
    | ok r => exact .pure _

section Carried

variable {call : Nested} (hcall : call.Proceeds asked)
include hcall

theorem journalEntries_proceeds {entries : List JournalEntry}
    (h : ∀ step, .record step ∈ entries → step.Within asked) {s : Market × List UndoStep} :
    ProceedsJournaled asked (journalEntries call entries) s := by
  have hrun := withCallbacks_proceeds hcall
  induction entries generalizing s with
  | nil => exact .pure _
  | cons e rest ih =>
      have hrest {s : Market × List UndoStep} :
          ProceedsJournaled asked (journalEntries call rest) s :=
        ih fun step hstep => h step (List.mem_cons_of_mem _ hstep)
      have hissue (name : Text) (effect : Nat → Effect) :
          ProceedsJournaled asked
            (do
              let c ← resolveCapability name
              Journaled.perform (withCallbacks call) (effect c)
              journalEntries call rest) s := by
        refine .bind (.lift (resolveCapability_proceeds name)) fun c _ => ?_
        exact .bind (perform_proceeds hrun _) fun _ _ => hrest
      unfold journalEntries
      cases e with
      | transfer sender recipient amount =>
          exact .ite hrest (.bind (perform_proceeds hrun _) fun _ _ => hrest)
      | mint name account amount => exact hissue name fun c => .mint c account amount
      | burn name account amount => exact hissue name fun c => .burn c account amount
      | record step =>
          refine .bind (.record fun m => ?_) fun _ _ => hrest
          exact .bind (hcall step (h step List.mem_cons_self) m) fun _ _ _ => .pure _

theorem runJournal_proceeds {entries : List JournalEntry}
    (h : ∀ step, .record step ∈ entries → step.Within asked) (rollback : Bool) :
    Proceeds asked (runJournal call entries rollback) m := by
  intro hsound
  have hends := journalEntries_proceeds hcall h (s := (m, [])) hsound (List.forall_mem_nil _)
  unfold Ends
  cases hentries : journalEntries call entries (m, []) with
  | error e s =>
      rw [runJournal_of_error hentries]
      exact (hends.of_error hentries).1
  | ok u s =>
      obtain ⟨hreaches, hjournal⟩ := hends.of_ok hentries
      cases rollback with
      | false =>
          rw [runJournal_of_ok hentries]
          exact hreaches
      | true =>
          have hunwound := unwind_proceeds hjournal (hreaches.sound hsound)
          cases hunwind : unwind s.2 s.1 with
          | ok _ m' =>
              rw [runJournal_of_unwound hentries hunwind]
              exact hreaches.trans (hunwound.of_ok hunwind)
          | error e m' =>
              rw [runJournal_of_stuck hentries hunwind]
              exact hreaches.trans (hunwound.of_error hunwind)

theorem serveMarket_proceeds {target : Text} {name : Option Text} {operation : Operation}
    (h : (Request.mk target operation name).Within asked) :
    Proceeds asked (serveMarket call operation) m := by
  unfold serveMarket
  cases operation with
  | setNow | tick => exact .bind (modify_quiet rfl id) fun _ _ _ => .pure _
  | newAsset symbol =>
      cases symbol with
      | none => exact .throw _
      | some s =>
          refine .test (.afterGet (.bind (.bind ?_ fun _ _ _ => .pure _) fun _ _ _ => .pure _))
          exact modify_quiet rfl id
  | newToken id shared =>
      cases id with
      | none => exact .throw _
      | some t =>
          refine .test (.afterGet (.bind (.bind ?_ fun _ _ _ => .pure _) fun _ _ _ => .pure _))
          exact .modify (.newToken t shared)
  | newCapability token holder =>
      refine .bind (resolve_proceeds token) fun o m' _ => ?_
      cases o with
      | token t =>
          have hstep : Step asked m' .other _ := .newCapability t holder
          exact fun _ => hstep.reaches
      | _ => exact .throw _
  | newPool request treasury account =>
      refine .bind (resolveCapability_proceeds _) fun c _ _ => ?_
      exact .bind (openPool_proceeds _ _ _ _ _ _) fun i _ _ => servedPool_proceeds i
  | newDirectory treasury =>
      refine .afterGet (.bind (.bind (.modify (.directories (.append .refl _ _) fun hold => ?_))
        fun _ _ _ => .pure _) fun _ _ _ => .pure _)
      exact registered_append hold treasury
  | newGovernance rate overrides =>
      refine .check fun g _ => .afterGet (.bind (.bind ?_ fun _ _ _ => .pure _)
        fun _ _ _ => .pure _)
      exact modify_quiet rfl id
  | newReserve treasury account =>
      refine .bind (resolve_proceeds _) fun o _ _ => ?_
      cases o with
      | directory d =>
          refine .check fun t _ => .check fun a _ => .afterGet ?_
          refine .bind (.bind (.modify (.reserves (.append .refl _ _))) fun _ _ _ => .pure _)
            fun _ _ _ => .pure _
      | _ => exact .throw _
  | newSplitter =>
      refine .bind (resolve_proceeds _) fun o _ _ => ?_
      cases o with
      | directory d =>
          refine .bind (resolve_proceeds _) fun o _ _ => ?_
          cases o with
          | reserve r =>
              refine .bind (resolve_proceeds _) fun o _ _ => ?_
              cases o with
              | governance g =>
                  refine .afterGet (.bind (.bind (.modify (.splitters (.append .refl _ _)
                    fun hold => ?_)) fun _ _ _ => .pure _) fun _ _ _ => .pure _)
                  exact List.forall_mem_append.mpr
                    ⟨hold, List.forall_mem_singleton.mpr (adds_new ..)⟩
              | _ => exact .throw _
          | _ => exact .throw _
      | _ => exact .throw _
  | armCallback waitsFor steps moment skip propagate =>
      refine .bind (resolveTarget_proceeds waitsFor) fun t m' _ => ?_
      refine .bind (modify_quiet rfl fun hwaits => ?_) fun _ _ _ => .pure _
      refine List.forall_mem_append.mpr ⟨fun x hx => hwaits x (List.mem_filter.mp hx).1, ?_⟩
      exact List.forall_mem_singleton.mpr h.steps
  | runJournal entries rollback =>
      exact .bind (runJournal_proceeds hcall h.entries rollback) fun _ _ _ => .pure _
  | runGuarded owner action inner =>
      exact .bind (runGuarded_proceeds owner action inner) fun _ _ _ => .pure _
  | _ => exact .throw _

theorem serveOn_proceeds {target : Text} {name : Option Text} {operation : Operation}
    (h : (Request.mk target operation name).Within asked) {o : Object}
    (hother : o.credit? operation = none) : Proceeds asked (serveOn call target o operation) m := by
  have hrun := withCallbacks_proceeds hcall
  unfold serveOn
  cases operation with
  | malformed e => exact .throw e
  | _ =>
      cases o with
      | market => exact serveMarket_proceeds hcall h
      | _ => exact serveObject_proceeds hrun target h.operation hother

theorem serve_proceeds {r : Request} (hr : r.Within asked)
    (hother : ∀ o, m.find? r.target = some o → o.credit? r.operation = none) :
    Proceeds asked (serve call r) m := by
  obtain ⟨target, operation, name⟩ := r
  refine .bind (resolve_proceeds target) fun o m' ho => ?_
  obtain ⟨hfound, rfl⟩ := resolve_eq_ok.mp ho
  refine .bind (serveOn_proceeds hcall hr (hother o hfound)) fun served _ _ => ?_
  exact nameObject_proceeds name served

omit hcall in
/-- A credit of the reserve asset comes down to a change of the table. -/
theorem serve_credit_ends {target : Text} (h : m.find? target = some .asset)
    (account : Option Text) (amount : Option Int) (name : Option Text) :
    Ends (serve call (.mk target (.asset (.credit account amount)) name)) m
      (fun reply m' => reply = .nothing ∧
        serveAsset apply (.credit account amount) m = .ok .nothing m') fun _ m' => m' = m := by
  have hends : Ends (serveAsset (withCallbacks call) (.credit account amount)) m
      (fun reply _ => reply = .nothing) fun _ m' => m' = m :=
    .bind (ends_get (answer_ends
      ((creditUnits_total ..).imp (fun _ _ _ => trivial) fun _ _ h => h) rfl))
  have hfound : resolve target m = .ok .asset m := resolve_eq_ok.mpr ⟨h, rfl⟩
  refine .bind ?_
  unfold Ends
  rw [hfound]
  refine Ends.bind (.bind (ends_of (fun reply m' hok => ?_) fun _ _ => hends.of_error))
  obtain rfl : reply = .nothing := hends.of_ok hok
  refine ends_pure ?_
  cases name with
  | none => exact ends_pure ⟨rfl, hok⟩
  | some n => exact ends_pure ⟨rfl, hok⟩

/-- What is asked of carried requests holds of the requests that carry them. An accepted credit is
made and heard in one step. -/
theorem hear_serve_proceeds : Nested.Proceeds asked (serve call) := by
  intro r hr m
  rcases m.credit_or_other r with ⟨target, account, amount, name, rfl, hfound⟩ | hother
  · intro _
    unfold Ends
    cases hserved : serve call (.mk target (.asset (.credit account amount)) name) m with
    | ok reply m' =>
        obtain ⟨rfl, haccepted⟩ := (serve_credit_ends hfound ..).of_ok hserved
        rw [hear_of_ok hserved]
        exact (Step.credit hr.operation hfound haccepted).reaches
    | error e m' =>
        obtain rfl := (serve_credit_ends hfound ..).of_error hserved
        rw [hear_of_error hserved]
        exact (Step.answered hr.operation rfl).reaches
  · refine hear_proceeds hr.operation (fun _ _ _ => ?_) (serve_proceeds hcall hr hother)
    exact Option.bind_eq_none_iff.mpr hother

end Carried

/-- Where requests are nested too deep, they are refused. -/
theorem refusal_proceeds : Nested.Proceeds asked fun r => throw (.noObject r.target) :=
  fun _ hr _ => hear_proceeds hr.operation nofun (.throw _)

theorem serveWithin_proceeds (depth : Nat) : Nested.Proceeds asked (serveWithin depth) := by
  induction depth with
  | zero => exact hear_serve_proceeds refusal_proceeds
  | succ depth ih => exact hear_serve_proceeds ih

theorem executor_proceeds (depth : Nat) :
    (withCallbacks (serveWithin depth)).Proceeds asked :=
  withCallbacks_proceeds (serveWithin_proceeds depth)

/-! ## Runs of requests -/

namespace Market

/-- A request is submitted by having it heard. -/
theorem hear_submit (m : Market) (r : Request) :
    hear (serveWithin (m.waiting + r.carried)) r m = .ok (m.submit r).1 (m.submit r).2.2 := by
  unfold hear submit
  dsimp only
  cases serveWithin (m.waiting + r.carried) r m with
  | ok => rfl
  | error => rfl

theorem submit_reaches {r : Request} (hr : r.Within asked) (h : m.Sound asked) :
    Reaches asked m (m.submit r).2.2 :=
  (serveWithin_proceeds (m.waiting + r.carried) r hr m h).of_ok (hear_submit m r)

theorem submitAll_reaches {requests : List Request} (hrequests : ∀ r ∈ requests, r.Within asked)
    (h : m.Sound asked) : Reaches asked m (m.submitAll requests) := by
  induction requests generalizing m with
  | nil => exact .refl m
  | cons r rest ih =>
      rw [List.forall_mem_cons] at hrequests
      have hfirst := submit_reaches hrequests.1 h
      exact hfirst.trans (ih hrequests.2 (hfirst.sound h))

theorem make_eq_ok {symbol : Option Text} {now : Int} (h : Market.make symbol now = .ok m) :
    ∃ s names, m = { now, symbol := s, names } := by
  unfold Market.make at h
  cases symbol with
  | none => cases h
  | some s =>
      dsimp only at h
      split at h
      · cases h
      · cases h
        exact ⟨s, _, rfl⟩

theorem sound_make {symbol : Option Text} {now : Int} (h : Market.make symbol now = .ok m) :
    m.Sound asked := by
  obtain ⟨s, names, rfl⟩ := make_eq_ok h
  exact ⟨List.forall_mem_nil _, List.forall_mem_nil _, List.forall_mem_nil _⟩

end Market

/-- A market as it is made. -/
def sampleFresh : Market where
  now := 0
  symbol := "USDC"
  names := [("world", .market), ("asset", .asset), ("table", .table)]

end CurveMarket
