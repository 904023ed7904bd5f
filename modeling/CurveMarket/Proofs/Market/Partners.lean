import CurveMarket.Market.Service
import CurveMarket.Proofs.Market.Instance

/-! # Splitters and their partners

A splitter hands money on through calls on its reserve and on pools. Here these calls are a
parameter of its own ones; with the pools and reserves of the market they are the calls that the
market serves.
-/

namespace CurveMarket

open CurveMarket.Action Market

/-- The calls on pools and reserves that a splitter makes. -/
structure Partners where
  pool : Nat → PoolCall → Action Market Reply
  reserve : Nat → ReserveCall → Action Market Reply

def Partners.direct (run : Executor) : Partners := ⟨servePool run, serveReserve run⟩

def silently (a : Action Market Reply) : Action Market Unit := (fun _ => ()) <$> a

theorem silently_reply (a : Action Market Unit) :
    silently (do a; return Reply.nothing) = a := by
  funext m
  cases h : a m with
  | ok x m' =>
      show EStateM.map _ (EStateM.bind a _) m = _
      simp only [EStateM.map, EStateM.bind, h]
      rfl
  | error e m' =>
      show EStateM.map _ (EStateM.bind a _) m = _
      simp only [EStateM.map, EStateM.bind, h]

namespace Market

section Via

variable (partners : Partners)

def routeInfraVia (s : Splitter) (payer : Text) (split : FeeSplit) : Journaled Unit :=
  if 0 < split.infra then do
    Journaled.lift (silently (partners.reserve s.reserve
      (.deposit (some split.model) (some split.infra) (some payer))))
    Journaled.record (silently (partners.reserve s.reserve
      (.revertDeposit (some split.model) (some split.infra) (some payer))))
  else pure ()

def routeProfitVia (s : Splitter) (payer : Text) (split : FeeSplit) : Journaled Unit :=
  if 0 < split.profit then do
    match ((← Journaled.market).directory s.directory).pools.lookup split.model with
    | some p =>
      Journaled.lift (silently (partners.pool p (.depositFees (some split.profit) (some payer))))
    | none => throw (.poolNotFound "Pool does not exist")
  else pure ()

def routeVia (i : Nat) (payer : Text) (split : FeeSplit) : Journaled Unit := do
  let s := (← Journaled.market).splitter i
  routeInfraVia partners s payer split
  routeProfitVia partners s payer split

def routeAllVia (i : Nat) (payer : Text) : List FeeSplit → Journaled Unit
  | [] => pure ()
  | split :: rest => do
    routeVia partners i payer split
    routeAllVia i payer rest

def disburseVia (i : Nat) (payer : Text) (splits : List FeeSplit) : Journaled Unit := do
  account i splits
  routeAllVia partners i payer splits

/-- A mutating call on a splitter: who pays is decided together with what is handed out. -/
def inSplitterVia {α β : Type} (i : Nat) (action : Text)
    (decide : Market → Except Error (Text × β)) (splits : β → List FeeSplit) (result : β → α) :
    Action Market α :=
  inSplitter i action do
    let x ← decide (← Journaled.market)
    disburseVia partners i x.1 (splits x.2)
    return result x.2

/-- A call on a splitter that acts through the partners. -/
def serveSplitterVia (i : Nat) (call : SplitterCall) : Action Market Reply := do
  let m ← get
  match call with
  | .depositFee model amount sender =>
    .split <$> inSplitterVia partners i "deposit_fee" (decideSplit i model amount sender)
      (fun split => [split]) id
  | .batchDepositFees models amounts sender =>
    .batch <$> inSplitterVia partners i "batch_deposit_fees"
      (decideSplits i models amounts sender) id BatchDeposit.ofSplits
  | .feeSplit model amount => do return .split (← m.feeSplit i model amount)
  | .modelFees model => return .int ((m.splitter i).fees.get? model)
  | .totalFees => return .int (m.splitter i).total

end Via

/-! ## The market's own splitters -/

section Direct

variable (run : Executor)

theorem silently_deposit (i : Nat) (model : Option Text) (amount : Option Int)
    (sender : Option Text) :
    silently (serveReserve run i (.deposit model amount sender)) =
      deposit run i model amount sender := silently_reply _

theorem silently_revertDeposit (i : Nat) (model : Option Text) (amount : Option Int)
    (recipient : Option Text) :
    silently (serveReserve run i (.revertDeposit model amount recipient)) =
      revertDeposit run i model amount recipient := silently_reply _

theorem silently_depositFees (i : Nat) (amount : Option Int) (sender : Option Text) :
    silently (servePool run i (.depositFees amount sender)) = depositFees run i amount sender :=
  silently_reply _

theorem routeVia_direct (i : Nat) (payer : Text) (split : FeeSplit) :
    routeVia (.direct run) i payer split = route run i payer split := by
  unfold routeVia route routeInfraVia routeProfitVia Partners.direct
  simp only [silently_deposit, silently_revertDeposit, silently_depositFees]
  rfl

theorem routeAllVia_direct (i : Nat) (payer : Text) (splits : List FeeSplit) :
    routeAllVia (.direct run) i payer splits = routeAll run i payer splits := by
  induction splits with
  | nil => rfl
  | cons split rest ih =>
      unfold routeAllVia routeAll
      rw [routeVia_direct, ih]

theorem serveSplitterVia_direct (i : Nat) (c : SplitterCall) :
    serveSplitterVia (.direct run) i c = serveSplitter run i c := by
  have hdisburse : disburseVia (.direct run) = disburse run := by
    funext i payer splits
    unfold disburseVia disburse
    rw [routeAllVia_direct]
  unfold serveSplitterVia inSplitterVia
  rw [hdisburse]
  rfl

end Direct

end Market

/-! ## Side by side -/

/-- The two ways to make calls make them alike. -/
structure Partners.Matches (I : Market → Prop) (partners partners' : Partners) : Prop where
  pool : ∀ i c m, I m → Same I (partners.pool i c) (partners'.pool i c) m
  reserve : ∀ i c m, I m → Same I (partners.reserve i c) (partners'.reserve i c) m

theorem partners_direct_matches {I : Market → Prop} (hI : Sheltered I) {run run' : Executor}
    (hrun : run.Matches I run') : (Partners.direct run).Matches I (.direct run') where
  pool := fun _ c _ h => servePool_same hrun (hI.encloses h _) c
  reserve := fun _ c _ h => serveReserve_same hrun (hI.encloses h _) c

section Splitters

variable {J I : Market → Prop} {partners partners' : Partners}
  (hpartners : partners.Matches I partners')

section Routing

variable {s t : Market × List UndoStep} (h : Beside I s t)
include h

theorem account_same {i : Nat} (hi : Ignores I (.splitter i)) (splits : List FeeSplit) :
    SameJournaled I (account i splits) (account i splits) s t := by
  have hchange {m : Market} (h : I m) (f : Splitter → Splitter) : I (m.updateSplitter i f) :=
    hi _ _ h (.splitter i f m)
  refine .afterMarket h (.bind (.record h fun m hm => ?_) fun _ _ _ h' => ?_)
  · exact alike_modify ⟨rfl, rfl, hchange hm _⟩
  · exact .change h' (hchange h'.holds _) rfl

include hpartners

theorem routeInfraVia_same (splitter : Splitter) (payer : Text) (split : FeeSplit) :
    SameJournaled I (routeInfraVia partners splitter payer split)
      (routeInfraVia partners' splitter payer split) s t := by
  have hcall (c : ReserveCall) {m : Market} (hm : I m) :
      Same I (silently (partners.reserve splitter.reserve c))
        (silently (partners'.reserve splitter.reserve c)) m :=
    .map (hpartners.reserve splitter.reserve c m hm)
  refine alike_ite (fun _ => ?_) fun _ => SameJournaled.pure h _
  exact SameJournaled.bind (.lift h (hcall _ h.holds)) fun _ _ _ h' =>
    .record h' fun _ hm => hcall _ hm

theorem routeProfitVia_same (splitter : Splitter) (payer : Text) (split : FeeSplit) :
    SameJournaled I (routeProfitVia partners splitter payer split)
      (routeProfitVia partners' splitter payer split) s t := by
  refine alike_ite (fun _ => SameJournaled.afterMarket h ?_) fun _ => SameJournaled.pure h _
  cases (s.1.directory splitter.directory).pools.lookup split.model with
  | none => exact .throw h _
  | some p => exact .lift h (.map (hpartners.pool p _ s.1 h.holds))

theorem routeAllVia_same (i : Nat) (payer : Text) (splits : List FeeSplit) :
    SameJournaled I (routeAllVia partners i payer splits) (routeAllVia partners' i payer splits)
      s t := by
  induction splits generalizing s t with
  | nil => exact .pure h _
  | cons split rest ih =>
      refine .bind (.afterMarket h ?_) fun _ _ _ h' => ih h'
      exact .bind (routeInfraVia_same hpartners h _ payer split) fun _ _ _ h' =>
        routeProfitVia_same hpartners h' _ payer split

theorem disburseVia_same {i : Nat} (hi : Ignores I (.splitter i)) (payer : Text)
    (splits : List FeeSplit) :
    SameJournaled I (disburseVia partners i payer splits) (disburseVia partners' i payer splits)
      s t :=
  .bind (account_same h hi splits) fun _ _ _ h' => routeAllVia_same hpartners h' i payer splits

end Routing

include hpartners

theorem inSplitterVia_same {α β : Type} {i : Nat} {m : Market}
    (h : Encloses J I (.splitter i) m) (action : Text)
    (decide : Market → Except Error (Text × β)) (splits : β → List FeeSplit) (result : β → α) :
    Same J (inSplitterVia partners i action decide splits result)
      (inSplitterVia partners' i action decide splits result) m := by
  refine guarded_same h.toBrackets fun hfree u v hbeside => ?_
  refine .afterMarket hbeside (.check hbeside fun x _ => ?_)
  refine .bind (disburseVia_same hpartners hbeside (h.ignores hfree) x.1 (splits x.2)) ?_
  exact fun _ _ _ h' => .pure h' _

theorem serveSplitterVia_same {i : Nat} {m : Market} (h : Encloses J I (.splitter i) m)
    (c : SplitterCall) :
    Same J (serveSplitterVia partners i c) (serveSplitterVia partners' i c) m := by
  refine .afterGet ?_
  cases c with
  | depositFee => exact .map (inSplitterVia_same hpartners h _ _ _ _)
  | batchDepositFees => exact .map (inSplitterVia_same hpartners h _ _ _ _)
  | feeSplit => exact .check h.outside fun _ _ => .pure h.outside _
  | modelFees => exact .pure h.outside _
  | totalFees => exact .pure h.outside _

end Splitters

theorem serveSplitter_same {J I : Market → Prop} (hI : Sheltered I) {run run' : Executor}
    (hrun : run.Matches I run') {i : Nat} {m : Market} (h : Encloses J I (.splitter i) m)
    (c : SplitterCall) : Same J (serveSplitter run i c) (serveSplitter run' i c) m := by
  rw [← serveSplitterVia_direct, ← serveSplitterVia_direct]
  exact serveSplitterVia_same (partners_direct_matches hI hrun) h c

end CurveMarket
