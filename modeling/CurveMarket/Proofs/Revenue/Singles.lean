import CurveMarket.Proofs.Revenue.Deposit

/-! # A batch of fees and its entries in turn

A batch checks and enters all of its deposits before it routes the first, while single deposits do
both one after another. Routing neither looks at the statistics of a splitter nor changes them, and
it changes nothing that a check of a later deposit looks at, but for the means of the payer, which
it lowers by no more than what it routes. So the single deposits get through as well, and in the end
all is as the batch leaves it.
-/

namespace CurveMarket

open CurveMarket.Action Market MarketView

namespace Market

def depositFeesInTurn (run : Executor) (i : Nat) (sender : Option Text) :
    List (Option Text × Option Int) → Action Market (List FeeSplit)
  | [] => pure []
  | entry :: rest => do
    let split ← depositFee run i entry.1 entry.2 sender
    let others ← depositFeesInTurn run i sender rest
    return split :: others

end Market

/-! ## What routing leaves alone -/

namespace MarketView

/-- From `v` to `w` a payer has spent at most `loss`, and nothing that checks look at has changed. -/
structure Spends (payer : Text) (loss : Int) (v w : MarketView) : Prop where
  same : w = { v with
    balances := w.balances, tokens := w.tokens, pools := w.pools, reserves := w.reserves }
  paused : ∀ r, (w.reserve r).paused = (v.reserve r).paused
  means : v.held payer - loss ≤ w.held payer

variable {v u w : MarketView} {payer : Text} {a b : Int}

theorem Spends.refl (payer : Text) (v : MarketView) : Spends payer 0 v v where
  same := rfl
  paused := fun _ => rfl
  means := by omega

theorem Spends.trans (h : Spends payer a v u) (h' : Spends payer b u w) :
    Spends payer (a + b) v w where
  same := by
    rw [h'.same, h.same]
  paused := fun r => (h'.paused r).trans (h.paused r)
  means := by
    have hfirst := h.means
    have hsecond := h'.means
    omega

theorem Deposited.spends {r : Nat} {e : Text × Int} (hpos : 0 < e.2)
    (h : Deposited r payer [e] v w) : Spends payer e.2 v w where
  same := by
    rw [h.eq]
  paused := by
    intro r'
    obtain ⟨u, hmoves, rfl⟩ := h
    have hreserves : u.reserves = v.reserves := by rw [hmoves.eq]
    have hkept := getD_modify_of_keeps (f := ReserveView.accrueAll [e]) (g := ReserveView.paused)
      (fun _ => rfl) u.reserves r r'
    rw [hreserves] at hkept
    show ((u.reserves.modify r _).getD r' default).paused = _
    rw [hreserves]
    exact hkept
  means := by
    obtain ⟨u, hmoves, rfl⟩ := h
    have hheld := held_of_moves hmoves payer
    have hlost := neg_le_gain payer (v.reserve r).account payer hpos.le
    simp only [List.map_cons, List.map_nil, List.sum_cons, List.sum_nil, Int.add_zero] at hheld
    show _ ≤ u.held payer
    omega

theorem spends_afterDeposit (p : Nat) (hpos : 0 < a) (v : MarketView) :
    Spends payer a v (v.afterDeposit p payer a) where
  same := rfl
  paused := fun _ => rfl
  means := by
    have hheld := held_afterPay v payer (v.pool p).account a payer
    have hlost := neg_le_gain payer (v.pool p).account payer hpos.le
    rw [afterPay_eq] at hheld
    have hsame : (v.afterDeposit p payer a).held payer =
        (v.shifted (paid ⟨payer, v.symbol⟩ ⟨(v.pool p).account, v.symbol⟩ a) v.pools).held payer :=
      rfl
    omega

def withSplitters (l : List Splitter) (v : MarketView) : MarketView := { v with splitters := l }

theorem Deposited.withSplitters {r : Nat} {entries : List (Text × Int)}
    (h : Deposited r payer entries v w) (l : List Splitter) :
    Deposited r payer entries (v.withSplitters l) (w.withSplitters l) := by
  obtain ⟨u, hmoves, rfl⟩ := h
  have hframe : (v.withSplitters l).MovesAll
      (Effect.moves payer (v.reserve r).account (entries.map (·.2)).sum) _ :=
    hmoves.frame rfl rfl rfl rfl
  refine ⟨_, hframe, ?_⟩
  rw [hmoves.eq]
  rfl

end MarketView

/-! ## Routing beside other splitters -/

section Routing

variable {run : Executor} {payer : Text} {l : List Splitter}

section Deposits

variable {m m' t : Market} {amount : Int}

theorem callbacks_withSplitters (ht : t.view = m.view.withSplitters l) :
    t.callbacks = m.callbacks := congrArg MarketView.callbacks ht

variable (hrun : run.Direct m.callbacks) (ht : t.view = m.view.withSplitters l)
include hrun ht

theorem deposit_withSplitters {r : Nat} {model : Text}
    (h : deposit run r (some model) (some amount) (some payer) m = .ok () m') :
    m.view.Spends payer amount m'.view ∧
      Succeeds (deposit run r (some model) (some amount) (some payer)) t
        fun _ t' => t'.view = m'.view.withSplitters l := by
  obtain ⟨hopen, _, _, ⟨heq, e, hentry, rfl⟩, hpayer, hadmitted, hdone⟩ :=
    (deposit_takes hrun (some model, some amount)).of_ok h
  cases heq
  cases hentry
  have hadmits := hadmitted e List.mem_cons_self
  have hopen' : t.view.Open r := by
    rw [ht]
    exact hopen
  have hadmits' : t.view.Admits r e := by
    rw [ht]
    exact hadmits
  have hdone' := hdone.withSplitters l
  rw [← ht] at hdone'
  obtain ⟨d, hd, htakes⟩ := decideAccrual_of_admits ((view_open t r).mp hopen').2 hpayer hadmits'
  refine ⟨hdone.spends hadmits.2.2, ?_⟩
  exact planInReserve_of_takes ((callbacks_withSplitters ht) ▸ hrun) rfl hopen' hd htakes hdone'

theorem depositFees_withSplitters {p : Nat}
    (h : depositFees run p (some amount) (some payer) m = .ok () m') :
    m.view.Spends payer amount m'.view ∧
      Succeeds (depositFees run p (some amount) (some payer)) t
        fun _ t' => t'.view = m'.view.withSplitters l := by
  obtain ⟨-, hview⟩ := (depositFees_ends hrun p).of_ok h
  obtain ⟨d, hd, -, u, hmoves, hnone, -⟩ := decided_of_ok hrun (fun _ => rfl) h
  obtain ⟨_, _, -, ⟨hamount, hpos⟩, -⟩ := decideDeposit_eq_ok hd
  cases hamount
  refine ⟨by rw [hview]; exact spends_afterDeposit p hpos _, ?_⟩
  obtain ⟨_, _, hget, hguarded⟩ := bind_eq_ok.mp h
  cases hget
  have hentered : t.entered = m.entered := congrArg MarketView.entered ht
  have hpools : t.pools = m.pools := congrArg MarketView.pools ht
  have hpool : t.pool p = m.pool p := congrArg (List.getD · p default) hpools
  have hrun' : run.Direct t.callbacks := (callbacks_withSplitters ht) ▸ hrun
  have hframe : (m.view.withSplitters l).MovesAll d.effects _ := hmoves.frame rfl rfl rfl rfl
  rw [← ht] at hframe
  have hdone : Succeeds (depositFees run p (some amount) (some payer)) t fun _ _ => True := by
    refine (inPool_succeeds hrun' (fun _ => rfl) ?_ (d := d) ?_ hframe ?_).imp
      (fun _ _ _ => trivial) fun _ _ h => h
    · rw [hentered]
      exact free_of_guarded hguarded
    · rw [hpool]
      exact hd
    · have hheld : ({ t.view with balances := u.balances, tokens := u.tokens } : MarketView).held
          (m.pool p).account = u.held (m.pool p).account := by
        rw [hmoves.eq, ht]
        rfl
      rw [hpool, hheld]
      exact hnone
  obtain ⟨_, t', ht', -⟩ := hdone.exists_ok
  refine ends_of (fun _ t'' h'' => ?_) fun e t'' h'' => ?_
  · have hview' := ((depositFees_ends hrun' p).of_ok h'').2
    rw [hview', hview, ht]
    rfl
  · cases ht'.symm.trans h''

end Deposits

theorem lift_eq_ok {α : Type} {a : Action Market α} {x : α} {s s' : Market × List UndoStep} :
    Journaled.lift a s = .ok x s' ↔ ∃ m, a s.1 = .ok x m ∧ (m, s.2) = s' := by
  unfold Journaled.lift focus
  cases a s.1 with
  | ok y m => simp
  | error e m => simp

variable {s s' t : Market × List UndoStep} {sp : Splitter} {split : FeeSplit}

section Shares

variable (hrun : run.Direct s.1.callbacks) (ht : t.1.view = s.1.view.withSplitters l)
include hrun ht

theorem routeInfra_withSplitters (hle : 0 ≤ split.infra)
    (h : routeInfra run sp payer split s = .ok () s') :
    s.1.view.Spends payer split.infra s'.1.view ∧
      Succeeds (routeInfra run sp payer split) t
        fun _ t' => t'.1.view = s'.1.view.withSplitters l := by
  unfold routeInfra at h ⊢
  by_cases hpos : 0 < split.infra
  · rw [if_pos hpos] at h ⊢
    obtain ⟨_, s₁, hlifted, hrecord⟩ := bind_eq_ok.mp h
    obtain ⟨m₁, hdeposit, rfl⟩ := lift_eq_ok.mp hlifted
    cases hrecord
    obtain ⟨hspends, hagain⟩ := deposit_withSplitters hrun ht hdeposit
    exact ⟨hspends, .bind (.focus (hagain.imp (fun _ _ h => ends_modify h) fun _ _ h => h))⟩
  · have hzero : split.infra = 0 := by omega
    rw [if_neg hpos] at h ⊢
    cases h
    rw [hzero]
    exact ⟨.refl payer _, ends_pure ht⟩

theorem routeProfit_withSplitters (hle : 0 ≤ split.profit)
    (h : routeProfit run sp payer split s = .ok () s') :
    s.1.view.Spends payer split.profit s'.1.view ∧
      Succeeds (routeProfit run sp payer split) t
        fun _ t' => t'.1.view = s'.1.view.withSplitters l := by
  have hdirectories : t.1.directories = s.1.directories := congrArg MarketView.directories ht
  have hdirectory : t.1.directory sp.directory = s.1.directory sp.directory :=
    congrArg (List.getD · sp.directory default) hdirectories
  unfold routeProfit at h ⊢
  by_cases hpos : 0 < split.profit
  · rw [if_pos hpos] at h ⊢
    obtain ⟨m, s₁, hmarket, h⟩ := bind_eq_ok.mp h
    cases hmarket
    cases hpool : (s.1.directory sp.directory).pools.lookup split.model with
    | none =>
        rw [hpool] at h
        cases h
    | some p =>
        rw [hpool] at h
        obtain ⟨m₁, hdeposit, rfl⟩ := lift_eq_ok.mp h
        obtain ⟨hspends, hagain⟩ := depositFees_withSplitters hrun ht hdeposit
        refine ⟨hspends, .bind (.bind (ends_get (ends_pure ?_)))⟩
        rw [hdirectory, hpool]
        exact .focus hagain
  · have hzero : split.profit = 0 := by omega
    rw [if_neg hpos] at h ⊢
    cases h
    rw [hzero]
    exact ⟨.refl payer _, ends_pure ht⟩

/-- A split that is routed would be routed all the same with other statistics in the splitters. -/
theorem route_withSplitters {i : Nat}
    (hreserve : (t.1.splitter i).reserve = (s.1.splitter i).reserve)
    (hdirectory : (t.1.splitter i).directory = (s.1.splitter i).directory) (hfair : split.IsFair)
    (h : route run i payer split s = .ok () s') :
    s.1.view.Spends payer split.amount s'.1.view ∧
      Succeeds (route run i payer split) t
        fun _ t' => t'.1.view = s'.1.view.withSplitters l := by
  obtain ⟨hinfra, hprofit, hsum⟩ := hfair
  obtain ⟨m, s₁, hmarket, h⟩ := bind_eq_ok.mp h
  cases hmarket
  obtain ⟨_, s₁, hfirst, hsecond⟩ := bind_eq_ok.mp h
  obtain ⟨hspends, hagain⟩ := routeInfra_withSplitters hrun ht hinfra hfirst
  have hsame : routeInfra run (t.1.splitter i) payer split =
      routeInfra run (s.1.splitter i) payer split := by
    unfold routeInfra
    rw [hreserve]
  have hsame' : routeProfit run (t.1.splitter i) payer split =
      routeProfit run (s.1.splitter i) payer split := by
    unfold routeProfit
    rw [hdirectory]
  have hcallbacks : s₁.1.callbacks = s.1.callbacks := by
    have heq : s₁.1.view.callbacks = s.1.view.callbacks := by rw [hspends.same]
    exact heq
  have hlater (t' : Market × List UndoStep) (ht' : t'.1.view = s₁.1.view.withSplitters l) :=
    routeProfit_withSplitters (hcallbacks ▸ hrun) ht' hprofit hsecond
  obtain ⟨_, t₁, -, ht₁⟩ := hagain.exists_ok
  refine ⟨hsum ▸ hspends.trans (hlater t₁ ht₁).1, .bind (.bind (ends_get (ends_pure ?_)))⟩
  show Ends (routeInfra run (t.1.splitter i) payer split >>= fun _ =>
    routeProfit run (t.1.splitter i) payer split) t _ _
  rw [hsame, hsame']
  refine .bind (hagain.imp ?_ fun _ _ h => h)
  intro _ t' ht'
  exact (hlater t' ht').2

end Shares

end Routing

/-! ## Deposits that are decided -/

section Decisions

variable {i : Nat} {m t : Market} {sender : Option Text}

/-- A deposit passes its own checks and would be split so. -/
def Splits (i : Nat) (m : Market) (entry : Option Text × Option Int) (split : FeeSplit) : Prop :=
  m.checkDeposit i entry.1 entry.2 = .ok () ∧ m.splitNow i entry.1 entry.2 = .ok split

/-- The two splitters hand out to the same instances at the same rates. -/
structure RoutesAlike (a b : Splitter) : Prop where
  directory : a.directory = b.directory
  reserve : a.reserve = b.reserve
  governance : a.governance = b.governance

theorem RoutesAlike.symm {a b : Splitter} (h : RoutesAlike a b) : RoutesAlike b a :=
  ⟨h.directory.symm, h.reserve.symm, h.governance.symm⟩

theorem RoutesAlike.trans {a b c : Splitter} (h : RoutesAlike a b) (h' : RoutesAlike b c) :
    RoutesAlike a c :=
  ⟨h.directory.trans h'.directory, h.reserve.trans h'.reserve, h.governance.trans h'.governance⟩

theorem routesAlike_record (splits : List FeeSplit) (l : List Splitter) (i : Nat) :
    RoutesAlike ((l.modify i fun p => splits.foldl Splitter.record p).getD i default)
      (l.getD i default) where
  directory := getD_modify_of_keeps (foldl_record_keeps (fun _ _ => rfl) splits) l i i
  reserve := getD_modify_of_keeps (foldl_record_keeps (fun _ _ => rfl) splits) l i i
  governance := getD_modify_of_keeps (foldl_record_keeps (fun _ _ => rfl) splits) l i i

/-- How a deposit is split depends on the directory and the rates alone. -/
theorem Splits.of_alike {entry : Option Text × Option Int} {split : FeeSplit}
    (h : Splits i m entry split) (hroutes : RoutesAlike (t.splitter i) (m.splitter i))
    (hdirectories : t.directories = m.directories) (hgovernances : t.governances = m.governances) :
    Splits i t entry split := by
  have hpool : t.hasPool (t.splitter i).directory entry.1 =
      m.hasPool (m.splitter i).directory entry.1 := by
    unfold hasPool Market.directory
    rw [hroutes.directory, hdirectories]
  have hrate : t.governance (t.splitter i).governance = m.governance (m.splitter i).governance := by
    unfold governance
    rw [hroutes.governance, hgovernances]
  unfold Splits checkDeposit splitNow at h ⊢
  rw [hpool, hrate]
  exact h

theorem decideSplits_splits {models : List (Option Text)} {amounts : List (Option Int)}
    {payer : Text} {splits : List FeeSplit}
    (h : decideSplits i models amounts sender m = .ok (payer, splits)) :
    List.Forall₂ (Splits i m) (models.zip amounts) splits ∧ IsAccount sender payer ∧
      ((m.reserve (m.splitter i).reserve).paused = true → ∀ x ∈ splits, x.infra ≤ 0) := by
  obtain ⟨pairs, hpairs, h⟩ := Check.bind_eq_ok.mp h
  obtain ⟨_, hchecked, h⟩ := Check.bind_eq_ok.mp h
  obtain ⟨xs, hxs, h⟩ := Check.bind_eq_ok.mp h
  obtain ⟨a, ha, h⟩ := Check.bind_eq_ok.mp h
  cases h
  obtain ⟨-, rfl⟩ := pairEntries_eq_ok hpairs
  have hpassed := Check.forall_of_forM_eq_ok hchecked
  refine ⟨(List.forall₂_and_left _ _).mpr ⟨hpassed, Check.forall₂_of_mapM_eq_ok hxs⟩, ?_⟩
  obtain ⟨_, hpayer, ha⟩ := Check.bind_eq_ok.mp ha
  obtain ⟨_, -, ha⟩ := Check.bind_eq_ok.mp ha
  obtain ⟨hopen, ha⟩ := Check.test_eq_ok.mp ha
  cases ha
  refine ⟨requireAccount_eq_ok.mp hpayer, fun hpaused x hx => ?_⟩
  by_contra hpos
  refine hopen ?_
  rw [hpaused, Bool.true_and, List.any_eq_true]
  exact ⟨x, hx, by simpa using hpos⟩

theorem preflight_of_means {payer : Text} {x : FeeSplit} (hpayer : IsAccount sender payer)
    (hmeans : x.amount ≤ m.held payer)
    (hpaused : (m.reserve (m.splitter i).reserve).paused = true → x.infra ≤ 0) :
    m.preflight i [x] sender = .ok payer := by
  have hopen : ¬ ((m.reserve (m.splitter i).reserve).paused &&
      [x].any fun s => 0 < s.infra) = true := by
    intro hrefused
    rw [Bool.and_eq_true] at hrefused
    have hnone := hpaused hrefused.1
    have hsome : 0 < x.infra := by simpa using hrefused.2
    omega
  unfold preflight
  rw [Check.bind_eq_ok]
  refine ⟨payer, requireAccount_eq_ok.mpr hpayer, Check.bind_eq_ok.mpr ⟨(), ?_, ?_⟩⟩
  · exact Check.guard_eq_ok.mpr (by simpa using hmeans)
  · exact Check.test_eq_ok.mpr ⟨hopen, rfl⟩

theorem decideSplit_of_splits {entry : Option Text × Option Int} {payer : Text} {x : FeeSplit}
    (h : Splits i m entry x) (hpreflight : m.preflight i [x] sender = .ok payer) :
    decideSplit i entry.1 entry.2 sender m = .ok (payer, x) := by
  unfold decideSplit
  rw [Check.bind_eq_ok]
  refine ⟨(), h.1, Check.bind_eq_ok.mpr ⟨x, h.2, Check.bind_eq_ok.mpr ⟨payer, hpreflight, rfl⟩⟩⟩

end Decisions

/-! ## Single deposits -/

section Singles

variable {run : Executor} {i : Nat} {sender : Option Text} {payer : Text}

theorem depositFee_succeeds {t : Market} {entry : Option Text × Option Int} {x : FeeSplit}
    (hfree : .splitter i ∉ t.entered) (hdecided : decideSplit i entry.1 entry.2 sender t =
      .ok (payer, x)) {w : MarketView} (hw : w.entered = t.entered)
    (hroute : Succeeds (route run i payer x) (accounted i [x] (t.enter (.splitter i)))
      fun _ u => u.1.view = { w with entered := .splitter i :: t.entered }) :
    Succeeds (depositFee run i entry.1 entry.2 sender) t fun y t' => y = x ∧ t'.view = w := by
  refine guarded_succeeds hfree (.bind (.bind (ends_get (ends_pure ?_))))
  refine .bind (ends_ofExcept_ok hdecided (.bind (.bind (ends_account (.bind (hroute.imp ?_ ?_))))))
  · intro _ u hview
    refine ends_pure (ends_pure ⟨rfl, ?_⟩)
    rw [view_leave hfree (congrArg MarketView.entered hview), hview, ← hw]
  · exact fun _ _ h => h

/-- The market of a batch in progress, and one where the entries before were deposited in turn.
The entries that are left have been split and can be paid. -/
structure InStep (i : Nat) (payer : Text) (entries : List (Option Text × Option Int))
    (splits : List FeeSplit) (s t : Market) : Prop where
  view : t.view = { s.view with splitters := t.splitters, entered := t.entered }
  entered : s.entered = .splitter i :: t.entered
  free : .splitter i ∉ t.entered
  routes : RoutesAlike (t.splitter i) (s.splitter i)
  decided : List.Forall₂ (Splits i t) entries splits
  fair : ∀ x ∈ splits, x.IsFair
  means : (splits.map FeeSplit.amount).sum ≤ t.held payer
  paused : (t.reserve (t.splitter i).reserve).paused = true → ∀ x ∈ splits, x.infra ≤ 0

/-- What a deposit in turn leaves as it was, but for the statistics it enters. -/
structure Enters (i : Nat) (splits : List FeeSplit) (t t' : Market) : Prop where
  entered : t'.entered = t.entered
  callbacks : t'.callbacks = t.callbacks
  splitters : t'.splitters = t.splitters.modify i fun p => splits.foldl Splitter.record p

section Step

variable {entry : Option Text × Option Int} {entries : List (Option Text × Option Int)}
  {x : FeeSplit} {splits : List FeeSplit}

/-- Both are in step again after a split that costs the payer no more than its amount. -/
theorem InStep.after {s s' t t' : Market} (h : InStep i payer (entry :: entries) (x :: splits) s t)
    (hspends : s.view.Spends payer x.amount s'.view)
    (hafter : t'.view = { s'.view with
      splitters := t.splitters.modify i fun p => [x].foldl Splitter.record p
      entered := t.entered }) :
    InStep i payer entries splits s' t' ∧ Enters i [x] t t' := by
  have hsame := hspends.same
  have hentered : t'.entered = t.entered := congrArg MarketView.entered hafter
  have hsplitters : t'.splitters = t.splitters.modify i fun p => [x].foldl Splitter.record p :=
    congrArg MarketView.splitters hafter
  have hcallbacks : t'.view.callbacks = t.view.callbacks := by rw [hafter, hsame, h.view]
  have hdirectories : t'.view.directories = t.view.directories := by rw [hafter, hsame, h.view]
  have hgovernances : t'.view.governances = t.view.governances := by rw [hafter, hsame, h.view]
  have hmark : s'.view.entered = s.view.entered := by rw [hsame]
  have hroutes : RoutesAlike (t'.splitter i) (t.splitter i) := by
    unfold Market.splitter
    rw [hsplitters]
    exact routesAlike_record [x] t.splitters i
  have hkept : s'.splitter i = s.splitter i := by
    have heq : s'.view.splitters = s.view.splitters := by rw [hsame]
    exact congrArg (List.getD · i default) heq
  have hothers := (List.forall₂_cons.mp h.decided).2
  refine ⟨⟨?_, ?_, hentered ▸ h.free, ?_, ?_, fun y hy => h.fair y (List.mem_cons_of_mem x hy),
    ?_, ?_⟩, hentered, hcallbacks, hsplitters⟩
  · rw [hentered, hsplitters]
    exact hafter
  · rw [hentered]
    exact hmark.trans h.entered
  · rw [hkept]
    exact hroutes.trans h.routes
  · exact hothers.imp fun e y hy => hy.of_alike hroutes hdirectories hgovernances
  · have hmeans := h.means
    have hleft := hspends.means
    have hbefore : t.held payer = s.view.held payer := by
      rw [← view_held, h.view]
      rfl
    have hheld : t'.held payer = s'.view.held payer := by
      rw [← view_held, hafter]
      rfl
    rw [List.map_cons, List.sum_cons] at hmeans
    omega
  · intro hpaused y hy
    refine h.paused ?_ y (List.mem_cons_of_mem x hy)
    have hbefore : ((t.reserve (t.splitter i).reserve)).paused =
        (s.view.reserve (t.splitter i).reserve).paused := by
      have heq : t.view.reserve (t.splitter i).reserve =
          s.view.reserve (t.splitter i).reserve := by
        rw [h.view]
        rfl
      rw [← heq, view_reserve]
      rfl
    have hnow : (t'.reserve (t'.splitter i).reserve).paused =
        (s'.view.reserve (t.splitter i).reserve).paused := by
      have heq : t'.view.reserve (t.splitter i).reserve =
          s'.view.reserve (t.splitter i).reserve := by
        rw [hafter]
        rfl
      rw [← heq, view_reserve, hroutes.reserve]
      rfl
    rw [hbefore, ← hspends.paused, ← hnow]
    exact hpaused

variable {s s' : Market × List UndoStep} {t : Market} (hrun : run.Direct t.callbacks)
  (hpayer : IsAccount sender payer)
include hrun hpayer

/-- When the batch routes the next split, the next entry can be deposited. -/
theorem InStep.next (h : InStep i payer (entry :: entries) (x :: splits) s.1 t)
    (hrouted : route run i payer x s = .ok () s') :
    ∃ t', depositFee run i entry.1 entry.2 sender t = .ok x t' ∧
      s'.1.splitters = s.1.splitters ∧ InStep i payer entries splits s'.1 t' ∧
      Enters i [x] t t' := by
  have hview := h.view
  have hquiet : t.callbacks = s.1.callbacks := congrArg MarketView.callbacks hview
  have hfirst := (List.forall₂_cons.mp h.decided).1
  have hrest : 0 ≤ (splits.map FeeSplit.amount).sum :=
    FeeSplit.sum_nonneg fun y hy => h.fair y (List.mem_cons_of_mem x hy)
  have hmeans := h.means
  rw [List.map_cons, List.sum_cons] at hmeans
  -- The deposit enters its own statistics first, and then routes as the batch does.
  have hroutes := (routesAlike_record [x] t.splitters i).trans h.routes
  have hinside : (accounted i [x] (t.enter (.splitter i))).1.view = s.1.view.withSplitters
      (t.splitters.modify i fun p => [x].foldl Splitter.record p) := by
    show ({ t.view with splitters := _, entered := .splitter i :: t.entered } : MarketView) = _
    rw [hview, ← h.entered]
    rfl
  obtain ⟨hspends, hroute⟩ := route_withSplitters (i := i) (hquiet ▸ hrun) hinside hroutes.reserve
    hroutes.directory (h.fair x List.mem_cons_self) hrouted
  have hmark : s'.1.entered = .splitter i :: t.entered := by
    have heq : s'.1.view.entered = s.1.view.entered := by rw [hspends.same]
    exact heq.trans h.entered
  have hdecided := decideSplit_of_splits hfirst (preflight_of_means hpayer (by omega)
    fun hpaused => h.paused hpaused x List.mem_cons_self)
  have hdeposit := depositFee_succeeds (w := { s'.1.view with
    splitters := t.splitters.modify i fun p => [x].foldl Splitter.record p
    entered := t.entered }) h.free hdecided rfl (hroute.imp (fun _ u hu => by
      rw [hu, ← hmark]
      rfl) fun _ _ h => h)
  have hsplitters : s'.1.view.splitters = s.1.view.splitters := by rw [hspends.same]
  obtain ⟨_, t', hdone, rfl, hafter⟩ := hdeposit.exists_ok
  exact ⟨t', hdone, hsplitters, h.after hspends hafter⟩

theorem InStep.all (h : InStep i payer entries splits s.1 t)
    (hrouted : routeAll run i payer splits s = .ok () s') :
    ∃ t', depositFeesInTurn run i sender entries t = .ok splits t' ∧
      s'.1.splitters = s.1.splitters ∧ InStep i payer [] [] s'.1 t' ∧ Enters i splits t t' := by
  induction splits generalizing entries s t with
  | nil =>
      cases h.decided
      cases hrouted
      exact ⟨t, rfl, rfl, h, rfl, rfl, (List.modify_id ..).symm⟩
  | cons x rest ih =>
      cases entries with
      | nil => cases h.decided
      | cons entry others =>
          obtain ⟨_, s₁, hfirst, hrest⟩ := bind_eq_ok.mp hrouted
          obtain ⟨t₁, hdeposit, hkept, hstep, hfirst⟩ := h.next hrun hpayer hfirst
          obtain ⟨t₂, hdeposits, hkept', hdone, hothers⟩ :=
            ih (hfirst.callbacks ▸ hrun) hstep hrest
          refine ⟨t₂, ?_, hkept'.trans hkept, hdone, hothers.entered.trans hfirst.entered,
            hothers.callbacks.trans hfirst.callbacks, ?_⟩
          · exact bind_eq_ok.mpr ⟨x, t₁, hdeposit, bind_eq_ok.mpr ⟨rest, t₂, hdeposits, rfl⟩⟩
          · rw [hothers.splitters, hfirst.splitters, List.modify_modify_eq]
            rfl

end Step

end Singles

/-- When a batch of fees is accepted, its entries are accepted one after another as well. The
single deposits are split as the batch is, and leave what it leaves. -/
theorem fee_batch_eq_singles {run : Executor} {m m' : Market} {i : Nat}
    {models : List (Option Text)} {amounts : List (Option Int)} {sender : Option Text}
    {b : BatchDeposit} (hrun : run.Direct m.callbacks)
    (h : batchDepositFees run i models amounts sender m = .ok b m') :
    ∃ m'', depositFeesInTurn run i sender (models.zip amounts) m = .ok b.splits m'' ∧
      m''.view = m'.view := by
  have hfree := free_of_guarded h
  obtain ⟨s, hbody, rfl⟩ := guarded_eq_ok h
  obtain ⟨_, _, hmarket, hbody⟩ := bind_eq_ok.mp hbody
  cases hmarket
  obtain ⟨⟨payer, splits⟩, _, hdecision, hbody⟩ := bind_eq_ok.mp hbody
  obtain ⟨hdecided, rfl⟩ := ofExcept_eq_ok.mp hdecision
  obtain ⟨_, s', hdisbursed, hresult⟩ := bind_eq_ok.mp hbody
  cases hresult
  obtain ⟨_, s₀, haccounted, hrouted⟩ := bind_eq_ok.mp hdisbursed
  cases haccounted
  obtain ⟨hsplits, hpayer, hpaused⟩ := decideSplits_splits hdecided
  obtain ⟨-, hfair, hmeans⟩ := decideSplits_eq_ok hdecided
  have hstart : InStep i payer (models.zip amounts) splits
      (accounted i splits (m.enter (.splitter i))).1 m := {
    view := rfl
    entered := rfl
    free := hfree
    routes := (routesAlike_record splits m.splitters i).symm
    decided := hsplits
    fair := hfair
    means := hmeans
    paused := hpaused }
  obtain ⟨t, hdeposits, hkept, hdone, henters⟩ := hstart.all hrun hpayer hrouted
  refine ⟨t, hdeposits, ?_⟩
  have hsplitters : t.splitters = s.1.splitters := henters.splitters.trans hkept.symm
  have hmark : s.1.entered = .splitter i :: m.entered := by
    rw [hdone.entered, henters.entered]
  rw [view_leave hfree hmark, hdone.view, hsplitters, henters.entered]
  rfl

/-- Two deposits for one model out of the account of the reserve, which gets a share of each. -/
def sampleFees : Action Market BatchDeposit :=
  batchDepositFees apply 0 [some "m1", some "m1"] [some 40, some 7] (some "infra")

theorem sample_batch_eq_singles :
    ∃ b m'', sampleFees sampleAccrued = .ok b (sampleFees.stateAfter sampleAccrued) ∧
      depositFeesInTurn apply 0 (some "infra") [(some "m1", some 40), (some "m1", some 7)]
        sampleAccrued = .ok b.splits m'' ∧
      m''.view = (sampleFees.stateAfter sampleAccrued).view := by
  obtain ⟨b, haccepted⟩ := exists_ok_of_outcome (a := sampleFees) (s := sampleAccrued)
    (by decide +kernel)
  obtain ⟨m'', hturn, hview⟩ := fee_batch_eq_singles (apply_direct _) haccepted
  exact ⟨b, m'', haccepted, hturn, hview⟩

end CurveMarket
