import CurveMarket.Market.Callback
import CurveMarket.Proofs.Market.Partners

/-! # Requests, side by side

Most requests leave marks and instances alone, whatever callbacks wait. The others carry effects out
or run carried requests, and end alike when these do. So two ways to run carried requests that agree
on the markets with a sheltered property make two that agree there, one layer further out.
-/

namespace CurveMarket

open CurveMarket.Action Market

/-! ## Requests that act on nothing sheltered -/

section Spared

variable {m : Market}

theorem resolve_sparing (name : Text) : Sparing (resolve name) m := by
  refine .afterGet ?_
  cases m.find? name with
  | none => exact .throw _
  | some o => exact .pure o

theorem resolveCapability_sparing (name : Text) : Sparing (resolveCapability name) m := by
  refine .bind (resolve_sparing name) fun o m' _ => ?_
  cases o with
  | capability i => exact .pure i
  | _ => exact .throw _

theorem resolveTarget_sparing (name : Text) : Sparing (resolveTarget name) m := by
  refine .bind (resolve_sparing name) fun o m' _ => ?_
  cases o with
  | asset => exact .pure _
  | capability i => exact .pure _
  | _ => exact .throw _

theorem onSideAsset_sparing (i : Nat) (a : Text → Action BalanceTable Unit) :
    Sparing (onSideAsset i a) m :=
  .afterGet (.bind (.focus fun _ => .of_eq rfl rfl rfl rfl) fun _ _ _ => .pure _)

theorem serveSideAsset_sparing (i : Nat) (c : AssetCall) : Sparing (serveSideAsset i c) m := by
  unfold serveSideAsset
  cases c with
  | transfer => exact onSideAsset_sparing _ _
  | credit => exact onSideAsset_sparing _ _
  | _ => exact .afterGet (.pure _)

theorem serveToken_sparing (target : Text) (i : Nat) (c : AssetCall) :
    Sparing (serveToken target i c) m := by
  cases c with
  | transfer =>
      exact .afterGet (.bind (.focus (spares_putTokenLedger m i)) fun _ _ _ => .pure _)
  | credit => exact .throw _
  | symbol => exact .throw _
  | _ => exact .afterGet (.pure _)

theorem serveCapabilityBalance_sparing (target : Text) (i : Nat) (c : AssetCall) :
    Sparing (serveCapabilityBalance target i c) m := by
  cases c with
  | balanceOf => exact .afterGet (.pure _)
  | totalSupply => exact .afterGet (.pure _)
  | _ => exact .throw _

theorem onTable_sparing (a : Action BalanceTable Unit) : Sparing (onTable a) m :=
  .bind (.focus fun _ => .of_eq rfl rfl rfl rfl) fun _ _ _ => .pure _

theorem serveTable_sparing (c : TableCall) : Sparing (serveTable c) m := by
  cases c with
  | set | add | subtract | move => exact onTable_sparing _
  | _ => exact .afterGet (.pure _)

theorem serveTokenRights_sparing (target : Text) (i : Nat) (c : CapabilityCall) :
    Sparing (serveTokenRights target i c) m := by
  cases c with
  | revoke name =>
      refine .bind (resolveCapability_sparing name) fun c m' _ => .afterGet ?_
      exact .bind (.modify (.of_eq rfl rfl rfl rfl)) fun _ _ _ => .pure _
  | isAuthorized name =>
      exact .bind (resolveCapability_sparing name) fun c m' _ => .afterGet (.pure _)
  | _ => exact .throw _

theorem servedPool_sparing (i : Nat) : Sparing (servedPool i) m := .afterGet (.pure _)

theorem openPool_sparing (model : Option Text) (capability : Nat) (terms : Option Terms)
    (state : Option PoolState) (treasury account : Option Text) :
    Sparing (openPool model capability terms state treasury account) m := by
  unfold openPool
  cases model with
  | none => exact .throw _
  | some name =>
      refine .test ?_
      refine .check fun t _ => .afterGet (.check fun s _ => ?_)
      refine .bind (.modify ?_) fun _ _ _ => .pure _
      exact { entered := rfl, pools := List.prefix_append _ _, reserves := List.prefix_rfl,
              splitters := List.prefix_rfl }

theorem createPool_sparing (directory : Nat) (model : Option Text) (capability : Nat)
    (terms : Option Terms) (state : Option PoolState) :
    Sparing (createPool directory model capability terms state) m := by
  refine .check fun name _ => .afterGet (.test ?_)
  refine .bind (openPool_sparing _ _ _ _ _ _) fun i m' _ => ?_
  exact .bind (.modify (.of_eq rfl rfl rfl rfl)) fun _ _ _ => .pure _

theorem lookUpPool_sparing (directory : Nat) (model : Option Text) :
    Sparing (lookUpPool directory model) m := by
  refine .afterGet ?_
  dsimp only
  cases model.bind fun name => (m.directory directory).pools.lookup name with
  | none => exact .throw _
  | some i => exact .pure i

theorem serveDirectory_sparing (i : Nat) (c : DirectoryCall) : Sparing (serveDirectory i c) m := by
  cases c with
  | createPool request =>
      refine .bind (resolveCapability_sparing _) fun c m' _ => ?_
      exact .bind (createPool_sparing _ _ _ _ _) fun j _ _ => servedPool_sparing j
  | lookUp model => exact .bind (lookUpPool_sparing i model) fun j _ _ => servedPool_sparing j
  | _ => exact .afterGet (.pure _)

theorem onGovernance_sparing (i : Nat) (a : Action Governance Unit) :
    Sparing (onGovernance i a) m :=
  .bind (.focus fun _ => .of_eq rfl rfl rfl rfl) fun _ _ _ => .pure _

theorem serveGovernance_sparing (i : Nat) (c : GovernanceCall) :
    Sparing (serveGovernance i c) m := by
  cases c with
  | rate => exact .afterGet (.pure _)
  | defaultRate => exact .afterGet (.pure _)
  | _ => exact onGovernance_sparing _ _

theorem push_sparing {α : Type} {items : List α} {put : List α → Market → Market} {item : α}
    (h : m.Spares (put (items ++ [item]) m)) : Sparing (push items put item) m :=
  .bind (.modify h) fun _ _ _ => .pure _

theorem nameObject_sparing (name : Option Text) (served : Served) :
    Sparing (nameObject name served) m := by
  cases name with
  | none => exact .pure _
  | some n =>
      obtain ⟨reply, object⟩ := served
      cases object with
      | none => exact .pure _
      | some o => exact .bind (.modify (.of_eq rfl rfl rfl rfl)) fun _ _ _ => .pure _

end Spared

/-! ## Requests that act through effects -/

section Effects

variable {I : Market → Prop} (hI : Sheltered I) {m : Market} (h : I m)
include hI h

theorem Same.spared {α : Type} {a : Action Market α} (ha : Sparing a m) : Same I a a m :=
  .of_sparing hI h ha

variable {run run' : Executor} (hrun : run.Matches I run')
include hrun

omit hI in
theorem effect_same (e : Effect) : Same I (do run e; return Reply.nothing)
    (do run' e; return Reply.nothing) m :=
  .bind (hrun e m h) fun _ _ h' => .pure h' _

theorem serveAsset_same (c : AssetCall) : Same I (serveAsset run c) (serveAsset run' c) m := by
  cases c with
  | transfer => exact effect_same h hrun _
  | credit =>
      refine .spared hI h (.afterGet ?_)
      exact .bind (.focus fun _ => .of_eq rfl rfl rfl rfl) fun _ _ _ => .pure _
  | _ => exact .spared hI h (.afterGet (.pure _))

theorem serveCapability_same (target : Text) (i : Nat) (c : CapabilityCall) :
    Same I (serveCapability run target i c) (serveCapability run' target i c) m := by
  cases c with
  | mint => exact effect_same h hrun _
  | burn => exact effect_same h hrun _
  | isRevoked => exact .spared hI h (.afterGet (.pure _))
  | _ => exact .throw h _

theorem serveShared_same (target : Text) (o : Object) (c : SharedCall) :
    Same I (serveShared run target o c) (serveShared run' target o c) m := by
  have hpool (i : Nat) (c : PoolCall) : Same I (servePool run i c) (servePool run' i c) m :=
    servePool_same hrun (hI.encloses h _) c
  have hreserve (i : Nat) (c : ReserveCall) :
      Same I (serveReserve run i c) (serveReserve run' i c) m :=
    serveReserve_same hrun (hI.encloses h _) c
  unfold serveShared
  split
  · exact hpool _ _
  · exact hreserve _ _
  · refine .spared hI h (.afterGet ?_)
    split
    · exact .pure _
    · exact .throw _

theorem serveObject_same (target : Text) (o : Object) (op : Operation) :
    Same I (serveObject run target o op) (serveObject run' target o op) m := by
  have hplain {a b : Action Market Reply} (hab : Same I a b m) :
      Same I (do return ((← a) : Served)) (do return ((← b) : Served)) m :=
    .bind hab fun _ _ h' => .pure h' _
  have hspared {a : Action Market Reply} (ha : Sparing a m) :
      Same I (do return ((← a) : Served)) (do return ((← a) : Served)) m :=
    hplain (.spared hI h ha)
  unfold serveObject
  cases op with
  | shared c => exact hplain (serveShared_same hI h hrun target o c)
  | asset c =>
      cases o with
      | asset => exact hplain (serveAsset_same hI h hrun c)
      | sideAsset i => exact hspared (serveSideAsset_sparing i c)
      | token i => exact hspared (serveToken_sparing target i c)
      | capability i => exact hspared (serveCapabilityBalance_sparing target i c)
      | _ => exact .throw h _
  | table c =>
      cases o with
      | table => exact hspared (serveTable_sparing c)
      | _ => exact .throw h _
  | capability c =>
      cases o with
      | token i => exact hspared (serveTokenRights_sparing target i c)
      | capability i => exact hplain (serveCapability_same hI h hrun target i c)
      | _ => exact .throw h _
  | pool c =>
      cases o with
      | pool i => exact hplain (servePool_same hrun (hI.encloses h _) c)
      | _ => exact .throw h _
  | directory c =>
      cases o with
      | directory i => exact .spared hI h (serveDirectory_sparing i c)
      | _ => exact .throw h _
  | governance c =>
      cases o with
      | governance i => exact hspared (serveGovernance_sparing i c)
      | _ => exact .throw h _
  | reserve c =>
      cases o with
      | reserve i => exact hplain (serveReserve_same hrun (hI.encloses h _) c)
      | _ => exact .throw h _
  | splitter c =>
      cases o with
      | splitter i => exact hplain (serveSplitter_same hI hrun (hI.encloses h _) c)
      | _ => exact .throw h _
  | _ => cases o <;> exact .throw h _

end Effects

/-! ## Requests that carry others -/

section Journals

variable {call : Nested} {entries : List JournalEntry} {m m' : Market}
  {s : Market × List UndoStep}

theorem runJournal_of_error {rollback : Bool} {e : Error}
    (h : journalEntries call entries (m, []) = .error e s) :
    runJournal call entries rollback m = .error e s.1 := by
  unfold runJournal
  rw [h]

theorem runJournal_of_ok (h : journalEntries call entries (m, []) = .ok () s) :
    runJournal call entries false m = .ok (.lengths s.2.length s.2.length) s.1 := by
  unfold runJournal
  rw [h]
  rfl

theorem runJournal_of_unwound (h : journalEntries call entries (m, []) = .ok () s)
    (hunwind : unwind s.2 s.1 = .ok () m') :
    runJournal call entries true m = .ok (.lengths s.2.length 0) m' := by
  unfold runJournal
  rw [h]
  simp only [hunwind, if_pos]

theorem runJournal_of_stuck {e : Error} (h : journalEntries call entries (m, []) = .ok () s)
    (hunwind : unwind s.2 s.1 = .error e m') : runJournal call entries true m = .error e m' := by
  unfold runJournal
  rw [h]
  simp only [hunwind, if_pos]

end Journals

section Carried

variable {I : Market → Prop} (hI : Sheltered I) {m : Market}
include hI

theorem runGuarded_same (h : I m) (owner action : Text) (inner : Option Text) :
    Same I (runGuarded owner action inner) (runGuarded owner action inner) m := by
  have hinner (again : Text) {m : Market} (h : I m) :
      Same I (guarded .loose owner again (pure ())) (guarded .loose owner again (pure ())) m :=
    guarded_same (hI.encloses h _).toBrackets fun _ _ _ hbeside => .pure hbeside _
  refine .afterGet (.bind (.tryCatch ?_ fun _ _ h' => .afterGet (.pure h' _)) fun x _ h' => ?_)
  · refine .bind (guarded_same (hI.encloses h _).toBrackets fun _ _ _ hbeside => ?_) fun _ _ h' =>
      .afterGet (.pure h' _)
    refine .afterMarket hbeside (.bind (.record hbeside fun _ hm => .pure hm _) fun _ _ _ h' => ?_)
    cases inner with
    | none => exact .pure h' _
    | some again => exact .bind (.lift h' (hinner again h'.holds)) fun _ _ _ h'' => .pure h'' _
  · cases x with
    | error r => exact .pure h' _
    | ok r => exact .pure h' _

variable {call call' : Nested} (hcall : call.Matches I call')
include hcall

theorem journalEntries_same {s t : Market × List UndoStep} (h : Beside I s t)
    (entries : List JournalEntry) :
    SameJournaled I (journalEntries call entries) (journalEntries call' entries) s t := by
  have hrun := withCallbacks_matches hI hcall
  induction entries generalizing s t with
  | nil => exact .pure h _
  | cons e rest ih =>
      have hissue (name : Text) (effect : Nat → Effect) :
          SameJournaled I
            (do
              let c ← resolveCapability name
              Journaled.perform (withCallbacks call) (effect c)
              journalEntries call rest)
            (do
              let c ← resolveCapability name
              Journaled.perform (withCallbacks call') (effect c)
              journalEntries call' rest) s t := by
        refine .bind (.lift h (.of_sparing hI h.holds (resolveCapability_sparing name))) ?_
        intro c _ _ h'
        exact .bind (perform_same hrun h' _) fun _ _ _ h'' => ih h''
      unfold journalEntries
      cases e with
      | transfer sender recipient amount =>
          refine alike_ite (fun _ => ih h) fun _ => ?_
          exact SameJournaled.bind (perform_same hrun h _) fun _ _ _ h' => ih h'
      | mint name account amount => exact hissue name fun c => .mint c account amount
      | burn name account amount => exact hissue name fun c => .burn c account amount
      | record step =>
          refine .bind (.record h fun _ hm => ?_) fun _ _ _ h' => ih h'
          exact .bind (hear_same hI hcall step hm) fun _ _ h' => .pure h' _

theorem runJournal_same (h : I m) (entries : List JournalEntry) (rollback : Bool) :
    Same I (runJournal call entries rollback) (runJournal call' entries rollback) m := by
  have hstart : Beside I (m, []) (m, []) := ⟨rfl, h, .nil⟩
  have hentries := journalEntries_same hI hcall hstart entries
  cases hentries with
  | error left right post =>
      refine .error (runJournal_of_error left) ((runJournal_of_error right).trans ?_)
        ⟨rfl, post.2, post.1.holds⟩
      rw [post.1.market]
  | @ok _ u v left right post =>
      obtain ⟨u, journal⟩ := u
      obtain ⟨v, journal'⟩ := v
      obtain ⟨⟨rfl, hkept, hjournals⟩, hmarks⟩ := post
      have hlength : journal.length = journal'.length := List.Forall₂.length_eq hjournals
      cases rollback with
      | false =>
          refine .ok (runJournal_of_ok left) ((runJournal_of_ok right).trans ?_) ⟨rfl, hmarks, hkept⟩
          rw [hlength]
      | true =>
          cases unwind_same hjournals hkept with
          | ok left' right' post' =>
              refine .ok (runJournal_of_unwound left left')
                ((runJournal_of_unwound right right').trans ?_)
                ⟨rfl, post'.2.1.trans hmarks, post'.2.2⟩
              rw [hlength, post'.1]
          | error left' right' post' =>
              refine .error (runJournal_of_stuck left left')
                ((runJournal_of_stuck right right').trans ?_)
                ⟨rfl, post'.2.1.trans hmarks, post'.2.2⟩
              rw [post'.1]

theorem serveMarket_same (h : I m) (operation : Operation) :
    Same I (serveMarket call operation) (serveMarket call' operation) m := by
  have hspared {a : Action Market Served} (ha : Sparing a m) : Same I a a m := .of_sparing hI h ha
  unfold serveMarket
  cases operation with
  | setNow => exact hspared (.bind (.modify (.of_eq rfl rfl rfl rfl)) fun _ _ _ => .pure _)
  | tick => exact hspared (.bind (.modify (.of_eq rfl rfl rfl rfl)) fun _ _ _ => .pure _)
  | newAsset symbol =>
      cases symbol with
      | none => exact .throw h _
      | some s =>
          refine hspared (.test (.afterGet ?_))
          exact .bind (push_sparing (.of_eq rfl rfl rfl rfl)) fun _ _ _ => .pure _
  | newToken id shared =>
      cases id with
      | none => exact .throw h _
      | some t =>
          refine hspared (.test (.afterGet ?_))
          exact .bind (push_sparing (.of_eq rfl rfl rfl rfl)) fun _ _ _ => .pure _
  | newCapability token holder =>
      refine hspared (.bind (resolve_sparing token) fun o m' _ => ?_)
      cases o with
      | token t =>
          refine .afterGet (.bind (push_sparing (.of_eq rfl rfl rfl rfl)) fun _ _ _ => ?_)
          exact .bind (.modify (.of_eq rfl rfl rfl rfl)) fun _ _ _ => .pure _
      | _ => exact .throw _
  | newPool request treasury account =>
      refine hspared (.bind (resolveCapability_sparing _) fun c _ _ => ?_)
      exact .bind (openPool_sparing _ _ _ _ _ _) fun i _ _ => servedPool_sparing i
  | newDirectory treasury =>
      refine hspared (.afterGet ?_)
      exact .bind (push_sparing (.of_eq rfl rfl rfl rfl)) fun _ _ _ => .pure _
  | newGovernance rate overrides =>
      refine hspared (.check fun g _ => .afterGet ?_)
      exact .bind (push_sparing (.of_eq rfl rfl rfl rfl)) fun _ _ _ => .pure _
  | newReserve treasury account =>
      refine hspared (.bind (resolve_sparing _) fun o _ _ => ?_)
      cases o with
      | directory d =>
          refine .check fun t _ => .check fun a _ => .afterGet ?_
          refine .bind (push_sparing ?_) fun _ _ _ => .pure _
          exact { entered := rfl, pools := List.prefix_rfl, reserves := List.prefix_append _ _,
                  splitters := List.prefix_rfl }
      | _ => exact .throw _
  | newSplitter =>
      refine hspared (.bind (resolve_sparing _) fun o _ _ => ?_)
      cases o with
      | directory d =>
          refine .bind (resolve_sparing _) fun o _ _ => ?_
          cases o with
          | reserve r =>
              refine .bind (resolve_sparing _) fun o _ _ => ?_
              cases o with
              | governance g =>
                  refine .afterGet (.bind (push_sparing ?_) fun _ _ _ => .pure _)
                  exact { entered := rfl, pools := List.prefix_rfl, reserves := List.prefix_rfl,
                          splitters := List.prefix_append _ _ }
              | _ => exact .throw _
          | _ => exact .throw _
      | _ => exact .throw _
  | armCallback target steps moment skip propagate =>
      refine hspared (.bind (resolveTarget_sparing target) fun t _ _ => ?_)
      exact .bind (.modify (.of_eq rfl rfl rfl rfl)) fun _ _ _ => .pure _
  | runJournal entries rollback =>
      exact .bind (runJournal_same hI hcall h entries rollback) fun _ _ h' => .pure h' _
  | runGuarded owner action inner =>
      exact .bind (runGuarded_same hI h owner action inner) fun _ _ h' => .pure h' _
  | _ => exact .throw h _

theorem serveOn_same (h : I m) (target : Text) (o : Object) (operation : Operation) :
    Same I (serveOn call target o operation) (serveOn call' target o operation) m := by
  have hrun := withCallbacks_matches hI hcall
  unfold serveOn
  cases operation with
  | malformed e => exact .throw h e
  | _ =>
      cases o with
      | market => exact serveMarket_same hI hcall h _
      | _ => exact serveObject_same hI h hrun target _ _

/-- What agrees on carried requests agrees on the requests that carry them. -/
theorem serve_matches : Nested.Matches I (serve call) (serve call') := by
  intro r m h
  obtain ⟨target, operation, name⟩ := r
  refine .bind (.of_sparing hI h (resolve_sparing target)) fun o m₁ h₁ => ?_
  refine .bind (serveOn_same hI hcall h₁ target o operation) fun served m₂ h₂ => ?_
  exact .of_sparing hI h₂ (nameObject_sparing name served)

end Carried

/-! ## Layers -/

/-- Carried requests nested at most so deep, each of them served by the layer. -/
def nest (layer : Nested → Nested) : Nat → Nested
  | 0 => layer fun r => throw (.noObject r.target)
  | depth + 1 => layer (nest layer depth)

theorem serveWithin_eq_nest (depth : Nat) : serveWithin depth = nest serve depth := by
  induction depth with
  | zero => rfl
  | succ depth ih =>
      unfold nest
      rw [← ih]
      rfl

theorem nest_matches {I : Market → Prop} {layer layer' : Nested → Nested}
    (hlayer : ∀ call call', Nested.Matches I call call' →
      Nested.Matches I (layer call) (layer' call')) (depth : Nat) :
    Nested.Matches I (nest layer depth) (nest layer' depth) := by
  induction depth with
  | zero => exact hlayer _ _ fun _ _ h => .throw h _
  | succ depth ih => exact hlayer _ _ ih

/-- Requests leave a sheltered property and the marks as they are. -/
theorem serveWithin_matches {I : Market → Prop} (hI : Sheltered I) (depth : Nat) :
    Nested.Matches I (serveWithin depth) (serveWithin depth) := by
  rw [serveWithin_eq_nest]
  exact nest_matches (fun _ _ => serve_matches hI) depth

/-- Effects with their callbacks leave a sheltered property and the marks as they are. -/
theorem executor_matches {I : Market → Prop} (hI : Sheltered I) (depth : Nat) :
    (withCallbacks (serveWithin depth)).Matches I (withCallbacks (serveWithin depth)) :=
  withCallbacks_matches hI (serveWithin_matches hI depth)

end CurveMarket
