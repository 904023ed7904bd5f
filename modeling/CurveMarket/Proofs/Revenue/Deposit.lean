import CurveMarket.Proofs.Revenue.Backing
import CurveMarket.Proofs.Revenue.Settlement

/-! # Deposits that are let through

Which entries a reserve takes, and what they leave, as a relation of views. A payer other than the
reserve's own account can pay for entries at once exactly when it can pay for one after another.
-/

namespace CurveMarket

open CurveMarket.Action Market

namespace Market

def depositInTurn (run : Executor) (i : Nat) (sender : Option Text) :
    List (Option Text × Option Int) → Action Market Unit
  | [] => pure ()
  | entry :: rest => do
    deposit run i entry.1 entry.2 sender
    depositInTurn run i sender rest

end Market

namespace MarketView

variable {i : Nat} {v u w : MarketView} {payer : Text} {entry : Text × Int}
  {entries : List (Text × Int)}

/-- How deposits change a view if the payer pays for all of them at once. -/
def Deposited (i : Nat) (payer : Text) (entries : List (Text × Int)) (v w : MarketView) : Prop :=
  ∃ u, v.MovesAll (Effect.moves payer (v.reserve i).account (entries.map (·.2)).sum) u ∧
    w = u.updateReserve i (.accrueAll entries)

theorem accrueAll_keeps {α : Type} {f : ReserveView → α} (h : ∀ r name a, f (r.accrue name a) = f r)
    (entries : List (Text × Int)) (r : ReserveView) : f (r.accrueAll entries) = f r := by
  induction entries generalizing r with
  | nil => rfl
  | cons e rest ih => exact (ih (r.accrue e.1 e.2)).trans (h r e.1 e.2)

theorem Deposited.keeps {α : Type} {f : ReserveView → α}
    (hf : ∀ r name a, f (r.accrue name a) = f r) (h : Deposited i payer entries v w) :
    f (w.reserve i) = f (v.reserve i) := by
  obtain ⟨u, hmoves, rfl⟩ := h
  rw [reserve_updateReserve_of_keeps (accrueAll_keeps hf entries), hmoves.eq]
  rfl

theorem MovesAll.unique {es : List Effect} (h : v.MovesAll es w) (h' : v.MovesAll es u) :
    w = u := by
  induction h generalizing u with
  | nil =>
      cases h'
      rfl
  | cons first _ ih =>
      cases h' with
      | cons first' others' =>
          rw [first'.unique first] at others'
          exact ih others'

theorem Deposited.unique (h : Deposited i payer entries v w) (h' : Deposited i payer entries v u) :
    w = u := by
  obtain ⟨v₁, hmoves, rfl⟩ := h
  obtain ⟨v₂, hmoves', rfl⟩ := h'
  rw [hmoves.unique hmoves']

theorem Deposited.eq (h : Deposited i payer entries v w) :
    w = { v with balances := w.balances, tokens := w.tokens, reserves := w.reserves } := by
  obtain ⟨u, hmoves, rfl⟩ := h
  rw [hmoves.eq]
  rfl

theorem Deposited.isOpen (h : Deposited i payer entries v w) (hopen : v.Open i) : w.Open i := by
  have hpaused := h.keeps (f := ReserveView.paused) fun _ _ _ => rfl
  refine ⟨?_, hpaused.trans hopen.2⟩
  rw [h.eq]
  exact hopen.1

theorem Deposited.admits (h : Deposited i payer entries v w) :
    w.Admits i entry ↔ v.Admits i entry := by
  have hdirectory := h.keeps (f := ReserveView.directory) fun _ _ _ => rfl
  have hdirectories : w.directories = v.directories := by rw [h.eq]
  unfold Admits directory
  rw [hdirectory, hdirectories]

theorem deposited_nil : Deposited i payer [] v w ↔ w = v := by
  unfold Deposited Effect.moves
  simp only [List.map_nil, List.sum_nil, if_true]
  constructor
  · intro h
    obtain ⟨u, hmoves, rfl⟩ := h
    cases hmoves
    exact updateReserve_id v
  · intro h
    rw [h]
    exact ⟨v, .nil v, (updateReserve_id v).symm⟩

theorem afterPay_afterPay (v : MarketView) (payer payee : Text) (a b : Int) :
    (v.afterPay payer payee a).afterPay payer payee b = v.afterPay payer payee (a + b) := by
  have hsum : transferred (transferred v.balances ⟨payer, v.symbol⟩ ⟨payee, v.symbol⟩ a)
      ⟨payer, v.symbol⟩ ⟨payee, v.symbol⟩ b =
        transferred v.balances ⟨payer, v.symbol⟩ ⟨payee, v.symbol⟩ (a + b) := by
    funext k
    simp only [transferred_apply]
    split
    · split
      · omega
      · omega
    · split
      · omega
      · omega
  exact congrArg (fun balances => ({ v with balances := balances } : MarketView)) hsum

theorem afterPay_zero (v : MarketView) (payer payee : Text) : v.afterPay payer payee 0 = v := by
  have hsame : transferred v.balances ⟨payer, v.symbol⟩ ⟨payee, v.symbol⟩ 0 = v.balances := by
    funext k
    simp [transferred_apply]
  exact congrArg (fun balances => ({ v with balances := balances } : MarketView)) hsame

/-- A payer who is not the payee can pay in two parts what can be paid at once. -/
theorem movesAll_moves_add {payee : Text} {a b : Int} (hne : payer ≠ payee) (ha : 0 < a)
    (hb : 0 ≤ b) : v.MovesAll (Effect.moves payer payee (a + b)) w ↔
      ∃ u, v.MovesAll (Effect.moves payer payee a) u ∧
        u.MovesAll (Effect.moves payer payee b) w := by
  have hsum : a + b ≠ 0 := by omega
  have hfirst : a ≠ 0 := by omega
  have hleft : (v.afterPay payer payee a).held payer = v.held payer - a := by
    rw [held_afterPay]
    unfold gain
    rw [if_neg hne, if_pos rfl]
    omega
  rw [movesAll_moves_of_ne hsum]
  constructor
  · intro h
    cases h with
    | transfer hpayer hpayee hle hheld =>
        refine ⟨_, (movesAll_moves_of_ne hfirst).mpr (.transfer hpayer hpayee ha.le (by omega)), ?_⟩
        rw [← afterPay_afterPay]
        by_cases hzero : b = 0
        · rw [hzero, afterPay_zero]
          exact .nil _
        · exact (movesAll_moves_of_ne hzero).mpr (.transfer hpayer hpayee hb (by omega))
  · intro h
    obtain ⟨u, hu, hw⟩ := h
    rw [movesAll_moves_of_ne hfirst] at hu
    cases hu with
    | transfer hpayer hpayee hle hheld =>
        obtain ⟨rfl, rfl⟩ | ⟨_, _, heq, heq', hpos, hcovered, rfl⟩ := movesAll_moves hw
        · rw [Int.add_zero]
          exact .transfer hpayer hpayee hle hheld
        · cases heq
          cases heq'
          rw [afterPay_afterPay]
          exact .transfer hpayer hpayee (by omega) (by omega)

/-- Deposits are let through together when they are one after another, if the payer gets nothing
back by them. -/
theorem deposited_cons (hne : payer ≠ (v.reserve i).account) (hpos : 0 < entry.2)
    (hrest : ∀ e ∈ entries, 0 < e.2) :
    Deposited i payer (entry :: entries) v w ↔
      ∃ u, Deposited i payer [entry] v u ∧ Deposited i payer entries u w := by
  have hnonneg : 0 ≤ (entries.map (·.2)).sum := by
    refine List.sum_nonneg fun a ha => ?_
    obtain ⟨e, he, rfl⟩ := List.mem_map.mp ha
    exact (hrest e he).le
  have hone : ([entry].map (·.2)).sum = entry.2 := by simp
  have hdone (u : MarketView) : (u.updateReserve i (.accrueAll [entry])).updateReserve i
      (.accrueAll entries) = u.updateReserve i (.accrueAll (entry :: entries)) :=
    updateReserve_updateReserve u _ _
  have haccount {u : MarketView} (hu : Deposited i payer [entry] v u) :=
    hu.keeps (f := ReserveView.account) fun _ _ _ => rfl
  unfold Deposited at haccount ⊢
  rw [hone] at haccount ⊢
  rw [List.map_cons, List.sum_cons]
  constructor
  · intro h
    obtain ⟨u, hmoves, rfl⟩ := h
    obtain ⟨u₁, hfirst, hothers⟩ := (movesAll_moves_add hne hpos hnonneg).mp hmoves
    refine ⟨_, ⟨u₁, hfirst, rfl⟩, u.updateReserve i (.accrueAll [entry]), ?_, (hdone u).symm⟩
    rw [haccount ⟨u₁, hfirst, rfl⟩]
    exact movesAll_updateReserve.mpr ⟨u, hothers, rfl⟩
  · intro h
    obtain ⟨_, ⟨u₁, hfirst, rfl⟩, u, hothers, rfl⟩ := h
    rw [haccount ⟨u₁, hfirst, rfl⟩, movesAll_updateReserve] at hothers
    obtain ⟨u₂, hothers, rfl⟩ := hothers
    exact ⟨u₂, (movesAll_moves_add hne hpos hnonneg).mpr ⟨u₁, hfirst, hothers⟩, hdone u₂⟩

end MarketView

/-! ## Deposits -/

section Deposits

open MarketView

variable {run : Executor} {i : Nat} {m : Market} {payer : Text} {sender : Option Text}

/-- A plan takes checked entries of a payer and books them. -/
structure Takes {α : Type} (i : Nat) (m : Market) (payer : Text) (entries : List (Text × Int))
    (d : ReservePlan α) : Prop where
  unpaused : (m.reserve i).paused = false
  named : payer.isEmpty = false
  admitted : ∀ e ∈ entries, m.view.Admits i e
  effects : d.effects = Effect.moves payer (m.reserve i).account (entries.map (·.2)).sum
  update : ∀ r, (d.update r).view = r.view.accrueAll entries

theorem takes_of_decideAccrual {model : Option Text} {amount : Option Int} {d : ReservePlan Unit}
    (h : decideAccrual i model amount sender m = .ok d) :
    ∃ payer e, sender = some payer ∧ (model, amount) = (some e.1, some e.2) ∧
      Takes i m payer [e] d := by
  obtain ⟨r, hr, h⟩ := Check.bind_eq_ok.mp h
  obtain ⟨name, hname, h⟩ := Check.bind_eq_ok.mp h
  obtain ⟨a, ha, h⟩ := Check.bind_eq_ok.mp h
  obtain ⟨payer, hpayer, h⟩ := Check.bind_eq_ok.mp h
  cases h
  obtain ⟨hunpaused, rfl⟩ := openReserve_eq_ok.mp hr
  obtain ⟨rfl, hnamed, hpool⟩ := requirePooledModel_eq_ok.mp hname
  obtain ⟨rfl, hpositive⟩ := requirePositive_eq_ok.mp ha
  obtain ⟨rfl, hfilled⟩ := requireAccount_eq_ok.mp hpayer
  refine ⟨payer, (name, a), rfl, rfl, hunpaused, hfilled, ?_, by simp, fun r => ?_⟩
  · simpa using ⟨hnamed, hpool, hpositive⟩
  · exact InfraReserve.view_credit r name a

theorem decideAccrual_of_admits {e : Text × Int} (hunpaused : (m.reserve i).paused = false)
    (hpayer : payer.isEmpty = false) (h : m.view.Admits i e) :
    ∃ d, decideAccrual i (some e.1) (some e.2) (some payer) m = .ok d ∧ Takes i m payer [e] d := by
  obtain ⟨hnamed, hpool, hpositive⟩ := h
  have hplan : decideAccrual i (some e.1) (some e.2) (some payer) m = .ok {
      effects := Effect.moves payer (m.reserve i).account e.2
      update := fun r => r.credit e.1 e.2
      result := () } := by
    unfold decideAccrual
    rw [Check.bind_eq_ok]
    refine ⟨_, openReserve_eq_ok.mpr ⟨hunpaused, rfl⟩, Check.bind_eq_ok.mpr ?_⟩
    refine ⟨_, requirePooledModel_eq_ok.mpr ⟨rfl, hnamed, hpool⟩, Check.bind_eq_ok.mpr ?_⟩
    refine ⟨_, requirePositive_eq_ok.mpr ⟨rfl, hpositive⟩, Check.bind_eq_ok.mpr ?_⟩
    exact ⟨_, requireAccount_eq_ok.mpr ⟨rfl, hpayer⟩, rfl⟩
  refine ⟨_, hplan, hunpaused, hpayer, ?_, by simp, fun r => InfraReserve.view_credit r e.1 e.2⟩
  simpa using ⟨hnamed, hpool, hpositive⟩

theorem pairEntries_iff {entries pairs : List (Option Text × Option Int)} :
    pairEntries (entries.map Prod.fst) (entries.map Prod.snd) = .ok pairs ↔
      entries ≠ [] ∧ entries = pairs := by
  have hzip : (entries.map Prod.fst).zip (entries.map Prod.snd) = entries := by
    rw [List.zip_map']
    simp
  unfold pairEntries
  rw [if_neg (by simp), hzip]
  cases entries with
  | nil => simp
  | cons entry rest => simp

theorem takes_of_decideBatchAccrual {entries : List (Option Text × Option Int)}
    {d : ReservePlan Int}
    (h : decideBatchAccrual i (entries.map Prod.fst) (entries.map Prod.snd) sender m = .ok d) :
    ∃ payer taken, sender = some payer ∧ entries ≠ [] ∧
      entries = taken.map (fun e => (some e.1, some e.2)) ∧ Takes i m payer taken d := by
  obtain ⟨r, hr, h⟩ := Check.bind_eq_ok.mp h
  obtain ⟨pairs, hpairs, h⟩ := Check.bind_eq_ok.mp h
  obtain ⟨payer, hpayer, h⟩ := Check.bind_eq_ok.mp h
  obtain ⟨taken, htaken, h⟩ := Check.bind_eq_ok.mp h
  cases h
  obtain ⟨hunpaused, rfl⟩ := openReserve_eq_ok.mp hr
  obtain ⟨hsome, rfl⟩ := pairEntries_iff.mp hpairs
  obtain ⟨rfl, hfilled⟩ := requireAccount_eq_ok.mp hpayer
  obtain ⟨hentries, hadmitted⟩ := checkEntries_eq_ok.mp htaken
  exact ⟨payer, taken, rfl, hsome, hentries, hunpaused, hfilled, hadmitted, rfl,
    InfraReserve.view_credits taken⟩

theorem decideBatchAccrual_of_admits {taken : List (Text × Int)} (hsome : taken ≠ [])
    (hunpaused : (m.reserve i).paused = false) (hpayer : payer.isEmpty = false)
    (h : ∀ e ∈ taken, m.view.Admits i e) {entries : List (Option Text × Option Int)}
    (hentries : entries = taken.map fun e => (some e.1, some e.2)) :
    ∃ d, decideBatchAccrual i (entries.map Prod.fst) (entries.map Prod.snd) (some payer) m =
      .ok d ∧ Takes i m payer taken d := by
  have hplan : decideBatchAccrual i (entries.map Prod.fst) (entries.map Prod.snd) (some payer) m =
      .ok {
        effects := Effect.moves payer (m.reserve i).account ((taken.map (·.2)).foldr (· + ·) 0)
        update := fun r => taken.foldl (fun r e => r.credit e.1 e.2) r
        result := (taken.map (·.2)).foldr (· + ·) 0 } := by
    unfold decideBatchAccrual
    rw [Check.bind_eq_ok]
    refine ⟨_, openReserve_eq_ok.mpr ⟨hunpaused, rfl⟩, Check.bind_eq_ok.mpr ?_⟩
    refine ⟨entries, pairEntries_iff.mpr ⟨by simpa [hentries] using hsome, rfl⟩, ?_⟩
    refine Check.bind_eq_ok.mpr ⟨_, requireAccount_eq_ok.mpr ⟨rfl, hpayer⟩, ?_⟩
    exact Check.bind_eq_ok.mpr ⟨_, checkEntries_eq_ok.mpr ⟨hentries, h⟩, rfl⟩
  exact ⟨_, hplan, hunpaused, hpayer, h, rfl, InfraReserve.view_credits taken⟩

section Plans

variable {α : Type} {action : Text} {plan : Market → Except Error (ReservePlan α)}
  (hrun : run.Direct m.callbacks) (hsection : plan (m.enter (.reserve i)) = plan m)
include hrun hsection

theorem planInReserve_takes {P : Text → List (Text × Int) → Prop}
    (hplan : ∀ d, plan m = .ok d → ∃ payer taken, P payer taken ∧ Takes i m payer taken d) :
    Ends (planInReserve run i action plan) m
      (fun _ m' => m.view.Open i ∧ ∃ payer taken, P payer taken ∧ payer.isEmpty = false ∧
        (∀ e ∈ taken, m.view.Admits i e) ∧ Deposited i payer taken m.view m'.view)
      fun _ _ => True := by
  refine (planInReserve_ends hrun hsection).imp ?_ fun _ _ _ => trivial
  intro _ m' h
  obtain ⟨hfree, d, u, hd, -, hmoves, hupdate⟩ := h
  obtain ⟨payer, taken, hP, htakes⟩ := hplan d hd
  refine ⟨(view_open m i).mpr ⟨hfree, htakes.unpaused⟩, payer, taken, hP, htakes.named,
    htakes.admitted, u, ?_, hupdate _ htakes.update⟩
  rw [htakes.effects] at hmoves
  rw [view_reserve]
  exact hmoves

theorem planInReserve_of_takes {payer : Text} {taken : List (Text × Int)} {d : ReservePlan α}
    (hopen : m.view.Open i) (hd : plan m = .ok d) (htakes : Takes i m payer taken d)
    {w : MarketView} (h : Deposited i payer taken m.view w) :
    Succeeds (planInReserve run i action plan) m fun _ m' => m'.view = w := by
  obtain ⟨u, hmoves, rfl⟩ := h
  rw [view_reserve] at hmoves
  refine planInReserve_succeeds hrun hsection ((view_open m i).mp hopen).1 hd ?_ htakes.update
  rw [htakes.effects]
  exact hmoves

end Plans

section Calls

variable (hrun : run.Direct m.callbacks)
include hrun

theorem batchDeposit_takes (entries : List (Option Text × Option Int)) :
    Ends (batchDeposit run i (entries.map Prod.fst) (entries.map Prod.snd) sender) m
      (fun _ m' => m.view.Open i ∧ ∃ payer taken, (sender = some payer ∧ entries ≠ [] ∧
        entries = taken.map fun e => (some e.1, some e.2)) ∧ payer.isEmpty = false ∧
        (∀ e ∈ taken, m.view.Admits i e) ∧ Deposited i payer taken m.view m'.view)
      fun _ _ => True := by
  refine planInReserve_takes hrun (decideBatchAccrual_enter ..) fun d hd => ?_
  obtain ⟨payer, taken, hsender, hsome, hentries, htakes⟩ := takes_of_decideBatchAccrual hd
  exact ⟨payer, taken, ⟨hsender, hsome, hentries⟩, htakes⟩

theorem deposit_takes (entry : Option Text × Option Int) :
    Ends (deposit run i entry.1 entry.2 sender) m
      (fun _ m' => m.view.Open i ∧ ∃ payer taken, (sender = some payer ∧
        ∃ e, entry = (some e.1, some e.2) ∧ taken = [e]) ∧ payer.isEmpty = false ∧
        (∀ e ∈ taken, m.view.Admits i e) ∧ Deposited i payer taken m.view m'.view)
      fun _ _ => True := by
  refine planInReserve_takes hrun rfl fun d hd => ?_
  obtain ⟨payer, e, hsender, hentry, htakes⟩ := takes_of_decideAccrual hd
  exact ⟨payer, [e], ⟨hsender, e, hentry, rfl⟩, htakes⟩

/-- Entries that are deposited in turn are let through together. -/
theorem depositInTurn_takes (hne : sender ≠ some (m.view.reserve i).account)
    {entries : List (Option Text × Option Int)} (hsome : entries ≠ []) :
    Ends (depositInTurn run i sender entries) m
      (fun _ m' => m.view.Open i ∧ ∃ payer taken, sender = some payer ∧
        entries = taken.map (fun e => (some e.1, some e.2)) ∧ payer.isEmpty = false ∧
        (∀ e ∈ taken, m.view.Admits i e) ∧ Deposited i payer taken m.view m'.view)
      fun _ _ => True := by
  induction entries generalizing m with
  | nil => exact absurd rfl hsome
  | cons entry rest ih =>
      refine .bind ((deposit_takes hrun entry).imp ?_ fun _ _ h => h)
      intro _ t hfirst
      obtain ⟨hopen, payer, _, ⟨rfl, e, rfl, rfl⟩, hpayer, hadmitted, hfirst⟩ := hfirst
      have hadmits := hadmitted e List.mem_cons_self
      by_cases hrest : rest = []
      · subst hrest
        exact ends_pure ⟨hopen, payer, [e], rfl, rfl, hpayer, hadmitted, hfirst⟩
      · have hquiet : m.callbacks = t.callbacks := by
          have heq : t.view.callbacks = m.view.callbacks := by rw [hfirst.eq]
          exact heq.symm
        have haccount := hfirst.keeps (f := ReserveView.account) fun _ _ _ => rfl
        have hpayee : payer ≠ (m.view.reserve i).account := fun heq => hne (by rw [heq])
        refine (ih (hquiet ▸ hrun) (by rw [haccount]; exact hne) hrest).imp ?_ fun _ _ h => h
        intro _ u hothers
        obtain ⟨-, _, taken, heq, rfl, -, hadmitted', hothers⟩ := hothers
        cases heq
        have hthere : ∀ e' ∈ taken, m.view.Admits i e' := fun e' he' =>
          hfirst.admits.mp (hadmitted' e' he')
        refine ⟨hopen, payer, e :: taken, rfl, rfl, hpayer, ?_, ?_⟩
        · simpa using ⟨hadmits, fun name a => hthere (name, a)⟩
        · exact (deposited_cons hpayee hadmits.2.2 fun e' he' => (hthere e' he').2.2).mpr
            ⟨t.view, hfirst, hothers⟩

theorem batchDeposit_of_deposited {taken : List (Text × Int)} (hsome : taken ≠ [])
    (hopen : m.view.Open i) (hpayer : payer.isEmpty = false) (h : ∀ e ∈ taken, m.view.Admits i e)
    {w : MarketView} (hdone : Deposited i payer taken m.view w)
    {entries : List (Option Text × Option Int)}
    (hentries : entries = taken.map fun e => (some e.1, some e.2)) :
    Succeeds (batchDeposit run i (entries.map Prod.fst) (entries.map Prod.snd) (some payer)) m
      fun _ m' => m'.view = w := by
  obtain ⟨d, hd, htakes⟩ := decideBatchAccrual_of_admits hsome ((view_open m i).mp hopen).2 hpayer
    h hentries
  exact planInReserve_of_takes hrun (decideBatchAccrual_enter ..) hopen hd htakes hdone

/-- Entries that are let through together can be deposited in turn. -/
theorem depositInTurn_of_deposited (hne : payer ≠ (m.view.reserve i).account)
    {taken : List (Text × Int)} (hopen : m.view.Open i) (hpayer : payer.isEmpty = false)
    (h : ∀ e ∈ taken, m.view.Admits i e) {w : MarketView}
    (hdone : Deposited i payer taken m.view w) :
    Succeeds (depositInTurn run i (some payer) (taken.map fun e => (some e.1, some e.2))) m
      fun _ m' => m'.view = w := by
  induction taken generalizing m with
  | nil => exact ends_pure (deposited_nil.mp hdone).symm
  | cons e rest ih =>
      have hadmits := h e List.mem_cons_self
      have hothers : ∀ e' ∈ rest, m.view.Admits i e' := fun e' he' =>
        h e' (List.mem_cons_of_mem e he')
      obtain ⟨u, hfirst, hrest⟩ := (deposited_cons hne hadmits.2.2 fun e' he' =>
        (hothers e' he').2.2).mp hdone
      obtain ⟨d, hd, htakes⟩ := decideAccrual_of_admits ((view_open m i).mp hopen).2 hpayer hadmits
      have hstill := hfirst.isOpen hopen
      have haccount := hfirst.keeps (f := ReserveView.account) fun _ _ _ => rfl
      have hthere : ∀ e' ∈ rest, u.Admits i e' := fun e' he' => hfirst.admits.mpr (hothers e' he')
      have hquiet : u.callbacks = m.view.callbacks := by rw [hfirst.eq]
      refine .bind ((planInReserve_of_takes hrun rfl hopen hd htakes hfirst).imp ?_ fun _ _ h => h)
      rintro - t rfl
      have hcallbacks : t.callbacks = m.callbacks := hquiet
      exact ih (hcallbacks ▸ hrun) (by rw [haccount]; exact hne) hstill hthere hrest

end Calls

end Deposits

end CurveMarket
