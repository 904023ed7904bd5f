import Mathlib.Algebra.Group.Pi.Lemmas
import Mathlib.Algebra.BigOperators.Group.List.Basic
import CurveMarket.Proofs.Market.Runs

/-! # Figures that revenue moves

What accounts hold, what models have accrued and what pools have in reserve, as one list of books. A
call enters its own changes, and callbacks that run inside it enter theirs; the books tell them
apart.
-/

namespace CurveMarket

open CurveMarket.Action Market MarketView

/-- What an account holds of the reserve asset, what a model has accrued in a reserve, or what a
pool has in reserve. -/
inductive Book where
  | held (account : Text)
  | accrued (reserve : Nat) (model : Text)
  | pool (i : Nat)
deriving DecidableEq

def Book.payment (payer payee : Text) (amount : Int) : Book → Int :=
  Pi.single (.held payee) amount - Pi.single (.held payer) amount

@[simp] theorem Book.payment_zero (payer payee : Text) : payment payer payee 0 = 0 := by
  simp [payment]

@[simp] theorem Book.payment_held (payer payee : Text) (amount : Int) (account : Text) :
    payment payer payee amount (.held account) = gain payer payee amount account := by
  simp [payment, gain, Pi.single_apply]

@[simp] theorem Book.payment_accrued (payer payee : Text) (amount : Int) (r : Nat) (model : Text) :
    payment payer payee amount (.accrued r model) = 0 := by
  simp [payment]

@[simp] theorem Book.payment_pool (payer payee : Text) (amount : Int) (i : Nat) :
    payment payer payee amount (.pool i) = 0 := by
  simp [payment]

namespace Market

def book (m : Market) : Book → Int
  | .held account => m.held account
  | .accrued r model => (m.reserve r).accrued.get model
  | .pool i => (m.pool i).state.reserve

/-- On the way from `m`, a callback that waited for the asset has its steps run, which take the
market from `u` to `u'`. -/
def Calls (asked : Operation → Prop) (depth : Nat) (m u u' : Market) : Prop :=
  ∃ w c, Reaches asked m w ∧ w.callbacks.lookup .asset = some c ∧ Reaches asked w u ∧
    runSteps (serveWithin depth) c.propagate c.steps u = .ok () u'

/-- What callbacks have changed, each between the market before it and the one after it. -/
def stray (hooks : List (Market × Market)) (b : Book) : Int :=
  (hooks.map fun h => h.2.book b - h.1.book b).sum

/-- The books have changed as told, but for what callbacks did in between. -/
structure Books (asked : Operation → Prop) (depth : Nat) (change : Book → Int)
    (hooks : List (Market × Market)) (m m' : Market) : Prop where
  hooked : ∀ h ∈ hooks, Calls asked depth m h.1 h.2
  quiet : m.callbacks = [] → hooks = [] ∧ m'.callbacks = []
  books : ∀ b, m'.book b = m.book b + change b + stray hooks b

/-- The books have changed as told, but for what some callbacks did. -/
def Booked (asked : Operation → Prop) (depth : Nat) (change : Book → Int) (m m' : Market) : Prop :=
  ∃ hooks, Books asked depth change hooks m m'

section Booked

variable {asked : Operation → Prop} {depth : Nat} {change change' : Book → Int} {m m' u : Market}

theorem Calls.earlier {v v' : Market} (hreaches : Reaches asked m u)
    (h : Calls asked depth u v v') : Calls asked depth m v v' := by
  obtain ⟨w, c, hw, hrest⟩ := h
  exact ⟨w, c, hreaches.trans hw, hrest⟩

theorem Booked.of_change (hquiet : m.callbacks = [] → m'.callbacks = [])
    (hbooks : ∀ b, m'.book b = m.book b + change b) : Booked asked depth change m m' := by
  refine ⟨[], List.forall_mem_nil _, fun hnone => ⟨rfl, hquiet hnone⟩, fun b => ?_⟩
  rw [hbooks]
  exact (Int.add_zero _).symm

theorem Booked.of_same (callbacks : m'.callbacks = m.callbacks) (books : m'.book = m.book) :
    Booked asked depth 0 m m' :=
  .of_change callbacks.trans fun b => by rw [books, Pi.zero_apply, Int.add_zero]

/-- A change with one callback before it or after it. -/
theorem Booked.of_call (hsome : m.callbacks ≠ []) {v v' : Market}
    (hcalls : Calls asked depth m v v')
    (hbooks : ∀ b, m'.book b = m.book b + change b + (v'.book b - v.book b)) :
    Booked asked depth change m m' := by
  refine ⟨[(v, v')], List.forall_mem_singleton.mpr hcalls, fun hnone => absurd hnone hsome, ?_⟩
  intro b
  rw [hbooks]
  simp [stray]

theorem Booked.trans (hreaches : Reaches asked m u) (h : Booked asked depth change m u)
    (h' : Booked asked depth change' u m') : Booked asked depth (change + change') m m' := by
  obtain ⟨hooks, hhooked, hquiet, hbooks⟩ := h
  obtain ⟨hooks', hhooked', hquiet', hbooks'⟩ := h'
  have hlater (h : Market × Market) (hmem : h ∈ hooks') := (hhooked' h hmem).earlier hreaches
  refine ⟨hooks ++ hooks', List.forall_mem_append.mpr ⟨hhooked, hlater⟩, fun hnone => ?_, ?_⟩
  · obtain ⟨hfirst, hbetween⟩ := hquiet hnone
    obtain ⟨hlast, hafter⟩ := hquiet' hbetween
    exact ⟨by rw [hfirst, hlast, List.append_nil], hafter⟩
  · intro b
    have hall : stray (hooks ++ hooks') b = stray hooks b + stray hooks' b := by
      unfold stray
      rw [List.map_append, List.sum_append]
    rw [hbooks', hbooks, hall, Pi.add_apply]
    omega

theorem Booked.inside {s : Section} (h : Booked asked depth change (m.enter s) u) :
    Booked asked depth change m (u.leave s) := by
  obtain ⟨hooks, hhooked, hquiet, hbooks⟩ := h
  have henter : Reaches asked m (m.enter s) := .of_quiet rfl id
  exact ⟨hooks, fun h hmem => (hhooked h hmem).earlier henter, hquiet, hbooks⟩

end Booked

/-! ## Effects -/

section Effects

variable {asked : Operation → Prop} {depth : Nat} {m : Market} {payer payee : Text} {amount : Int}

theorem apply_transfer_books (payer payee : Text) (amount : Int) (m : Market) :
    Ends (apply (.transfer payer payee amount)) m
      (fun _ m' => m'.callbacks = m.callbacks ∧
        ∀ b, m'.book b = m.book b + Book.payment payer payee amount b)
      fun _ _ => True := by
  refine .bind (ends_get (.focus ((transferUnits_ends ..).imp ?_ fun _ _ _ => trivial)))
  rintro - t ⟨_, _, _, ⟨hpayer, -⟩, ⟨hpayee, -⟩, hamount, -, -, hget⟩
  cases hpayer
  cases hpayee
  cases hamount
  refine ⟨rfl, fun b => ?_⟩
  cases b with
  | held account =>
      show t.get ⟨account, m.symbol⟩ = m.table.get ⟨account, m.symbol⟩ + _
      rw [hget, transferred_apply, Book.payment_held]
      simp only [gain, RowKey.mk.injEq, and_true]
      omega
  | accrued r model =>
      rw [Book.payment_accrued, Int.add_zero]
      rfl
  | pool i =>
      rw [Book.payment_pool, Int.add_zero]
      rfl

/-- Only a callback that waits for the target is taken. -/
theorem takeCallback_ends (target : CallbackTarget) (m : Market) :
    Ends (takeCallback target) m
      (fun taken m' => (m.callbacks = [] → taken = none ∧ m'.callbacks = []) ∧
        ∀ c, taken = some c → m.callbacks.lookup target = some c)
      fun _ _ => True := by
  unfold Ends takeCallback
  cases hlookup : m.callbacks.lookup target with
  | none => exact ⟨fun hnone => ⟨rfl, hnone⟩, nofun⟩
  | some c =>
      have hsome : m.callbacks ≠ [] := by
        intro hnone
        rw [hnone] at hlookup
        cases hlookup
      by_cases hskip : c.skip = 0
      · simp only [if_pos hskip]
        exact ⟨fun hnone => absurd hnone hsome, fun _ heq => heq⟩
      · simp only [if_neg hskip]
        exact ⟨fun hnone => absurd hnone hsome, nofun⟩

theorem transfer_booked (hsound : m.Sound asked) :
    Ends (withCallbacks (serveWithin depth) (.transfer payer payee amount)) m
      (fun _ m' => Booked asked depth (Book.payment payer payee amount) m m') fun _ _ => True := by
  have hafter := apply_transfer_books payer payee amount
  obtain ⟨taken, left, htake, hwaits⟩ := takeCallback_eq asked .asset m
  obtain ⟨hquiet, hlookup⟩ := (takeCallback_ends .asset m).of_ok htake
  have hfirst : Reaches asked m { m with callbacks := left } :=
    .of_quiet rfl fun _ => (hwaits hsound.waits).1
  refine .bind (ends_of (fun taken' u hu => ?_) fun _ _ _ => trivial)
  cases htake.symm.trans hu
  cases taken with
  | none =>
      refine (hafter _).imp (fun _ m' h => ?_) fun _ _ h => h
      exact .of_change (fun hnone => h.1.trans (hquiet hnone).2) h.2
  | some c =>
      have hsome : m.callbacks ≠ [] := fun hnone => nomatch (hquiet hnone).1
      have hwaited := hlookup c rfl
      obtain ⟨steps, moment, skip, propagate⟩ := c
      cases moment with
      | before =>
          refine .bind (ends_of (fun _ v hcalls => ?_) fun _ _ _ => trivial)
          refine (hafter v).imp (fun _ m' h => ?_) fun _ _ h => h
          refine .of_call hsome ⟨m, _, .refl m, hwaited, hfirst, hcalls⟩ fun b => ?_
          rw [h.2]
          show _ = m.book b + _ + (v.book b - m.book b)
          omega
      | after =>
          refine .bind (ends_of (fun _ v hpaid => ?_) fun _ _ _ => trivial)
          refine ends_of (fun _ m' hcalls => ?_) fun _ _ _ => trivial
          have hreached := hfirst.trans (Step.effect hpaid).reaches
          refine .of_call hsome ⟨m, _, .refl m, hwaited, hreached, hcalls⟩ fun b => ?_
          rw [((hafter _).of_ok hpaid).2]
          show _ = m.book b + _ + (m'.book b - (m.book b + _))
          omega

end Effects

/-! ## Calls that make one payment -/

section Plans

variable {α : Type} {asked : Operation → Prop} {depth : Nat} {m : Market} {change : Book → Int}
  {payer payee : Text} {amount : Int}

theorem guarded_ends_body {s : Section} {owner action : Text} {body : Journaled α}
    {Q : α → Market → Prop}
    (h : Ends body (m.enter s, []) (fun x u => Q x (u.1.leave s)) fun _ _ => True) :
    Ends (guarded s owner action body) m Q fun _ _ => True := by
  refine ends_of (fun x m' hdone => ?_) fun _ _ _ => trivial
  obtain ⟨u, hu, rfl⟩ := guarded_eq_ok hdone
  exact h.of_ok hu

/-- A call that follows a plan with one payment and changes its instance at the end. While it runs
nothing else changes that instance. -/
theorem guarded_payment_booked (hsound : m.Sound asked) {I : Market → Prop} (hI : Sheltered I)
    {s : Section}
    {owner action : Text} {plan : Market → Except Error (Plan α)} (hstart : I (m.enter s))
    (hplan : ∀ p, plan (m.enter s) = .ok p → amount ≠ 0 ∧
      p.effects = Effect.moves payer payee amount ∧
      ∀ u, I u → Ends p.finish u (fun _ u' => Booked asked depth change u u') fun _ _ => True) :
    Ends (guarded s owner action
        (Journaled.follow (withCallbacks (serveWithin depth)) plan)) m
      (fun _ m' => Booked asked depth (Book.payment payer payee amount + change) m m')
      fun _ _ => True := by
  have hentered : (m.enter s).Sound asked := Reaches.sound (.of_quiet rfl id) hsound
  refine guarded_ends_body (.bind (.bind (ends_get (ends_pure (.bind (ends_ofExcept ?_ ?_))))))
  · intro p hp
    obtain ⟨hnonzero, heffects, hfinish⟩ := hplan p hp
    rw [heffects, Effect.moves, if_neg hnonzero]
    have hpaid : Ends (withCallbacks (serveWithin depth) (.transfer payer payee amount))
        (m.enter s) (fun _ u => Reaches asked (m.enter s) u ∧
          Booked asked depth (Book.payment payer payee amount) (m.enter s) u ∧ I u)
        fun _ _ => True := by
      have hproceeds := executor_proceeds depth (.transfer payer payee amount) _ hentered
      have hsame := executor_matches hI depth (.transfer payer payee amount) _ hstart
      exact ends_of (fun _ u hu => ⟨hproceeds.of_ok hu, (transfer_booked hentered).of_ok hu,
        (hsame.ends.of_ok hu).2⟩) fun _ _ _ => trivial
    refine .bind (.bind (.bind (.focus (hpaid.imp (fun _ u hu => ?_) fun _ _ h => h))))
    refine ends_modify (ends_pure (.bind (.focus ((hfinish u hu.2.2).imp ?_ fun _ _ h => h))))
    exact fun _ u' hu' => ends_pure (hu.2.1.trans hu.1 hu').inside
  · exact fun _ _ => trivial

end Plans

/-! ## Deposits with a reserve and with a pool -/

section Deposits

variable {asked : Operation → Prop} {depth : Nat} {m : Market} {payer : Text} {amount : Int}

theorem book_updateReserve {r : Nat} {x : InfraReserve} (hx : m.reserves[r]? = some x)
    {model : Text} (hle : 0 ≤ amount) (b : Book) :
    (m.updateReserve r (·.credit model amount)).book b =
      m.book b + (Pi.single (.accrued r model) amount : Book → Int) b := by
  cases b with
  | accrued r' model' =>
      have hadded := Tally.get_add_of_nonneg (Int.add_nonneg (x.accrued.get_nonneg model) hle)
      show ((m.reserves.modify r _).getD r' default).accrued.get model' =
        (m.reserves.getD r' default).accrued.get model' + _
      have hlisted := (List.getElem?_eq_some_iff.mp hx).1
      rw [getD_modify, Pi.single_apply]
      by_cases hr : r' = r
      · rw [hr, if_pos ⟨rfl, hlisted⟩, getD_of_getElem? hx]
        refine (hadded model').trans ?_
        by_cases hmodel : model' = model
        · rw [hmodel, if_pos rfl, if_pos rfl]
        · rw [if_neg hmodel, if_neg fun h => hmodel (Book.accrued.inj h).2]
      · rw [if_neg fun h => hr h.1, if_neg fun h => hr (Book.accrued.inj h).1, Int.add_zero]
  | held | pool =>
      rw [Pi.single_apply, if_neg nofun, Int.add_zero]
      rfl

theorem book_updatePool {i : Nat} {p : Pool} (hp : m.pools[i]? = some p) (f : Pool → Pool)
    (b : Book) : (m.updatePool i f).book b =
      m.book b + (Pi.single (.pool i) ((f p).state.reserve - p.state.reserve) : Book → Int) b := by
  cases b with
  | pool j =>
      show ((m.pools.modify i f).getD j default).state.reserve =
        (m.pools.getD j default).state.reserve + _
      have hlisted := (List.getElem?_eq_some_iff.mp hp).1
      rw [getD_modify, Pi.single_apply]
      by_cases hj : j = i
      · rw [hj, if_pos ⟨rfl, hlisted⟩, if_pos rfl, getD_of_getElem? hp]
        omega
      · rw [if_neg fun h => hj h.1, if_neg fun h => hj (Book.pool.inj h), Int.add_zero]
  | held | accrued =>
      rw [Pi.single_apply, if_neg nofun, Int.add_zero]
      rfl

/-- A deposit with a reserve moves its amount to the reserve's account and accrues it. -/
theorem deposit_booked (hsound : m.Sound asked) {r : Nat} {x : InfraReserve}
    (hx : m.reserves[r]? = some x) {model : Text} :
    Ends (deposit (withCallbacks (serveWithin depth)) r (some model) (some amount) (some payer)) m
      (fun _ m' => Booked asked depth
        (Book.payment payer x.account amount + Pi.single (.accrued r model) amount) m m')
      fun _ _ => True := by
  refine guarded_payment_booked hsound (sheltered_reserve r x) ⟨List.mem_cons_self, hx⟩
    fun p hp => ?_
  obtain ⟨d, hd, rfl⟩ := Check.map_eq_ok.mp hp
  obtain ⟨_, _, _, hname, ha, hsender, -, hpos, heffects, hupdate⟩ := decideAccrual_eq_ok hd
  cases hname
  cases ha
  cases hsender
  have haccount : ((m.enter (.reserve r)).reserve r).account = x.account :=
    congrArg InfraReserve.account (getD_of_getElem? hx)
  refine ⟨by omega, by rw [← haccount]; exact heffects, fun u hu => ?_⟩
  show Ends (modify (updateReserve r d.update)) u _ _
  rw [hupdate]
  exact ends_modify (.of_change id fun b => book_updateReserve hu.2 hpos.le b)

/-- A deposit with a pool moves its amount to the pool's account and adds it to the reserve. -/
theorem depositFees_booked (hsound : m.Sound asked) {i : Nat} {p : Pool}
    (hp : m.pools[i]? = some p) :
    Ends (depositFees (withCallbacks (serveWithin depth)) i (some amount) (some payer)) m
      (fun _ m' => Booked asked depth
        (Book.payment payer p.account amount + Pi.single (.pool i) amount) m m')
      fun _ _ => True := by
  have hpool : m.pool i = p := getD_of_getElem? hp
  refine .bind (ends_get ?_)
  rw [hpool]
  refine guarded_payment_booked hsound (sheltered_pool i p) ⟨List.mem_cons_self, hp⟩ fun q hq => ?_
  obtain ⟨d, hd, rfl⟩ := Check.map_eq_ok.mp hq
  obtain ⟨_, _, hsender, ⟨hamount, hpos⟩, heffects, hpost, -, -⟩ := decideDeposit_eq_ok hd
  cases hsender
  cases hamount
  refine ⟨by omega, heffects, fun u hu => ?_⟩
  refine .bind (ends_get (ends_unless (fun _ => trivial) fun _ => ends_modify ?_))
  refine .of_change id fun b => ?_
  have hadded : (p.state.afterDeposit amount).reserve - p.state.reserve = amount := by
    show p.state.reserve + amount - p.state.reserve = amount
    omega
  rw [book_updatePool hu.2]
  show _ + (Pi.single _ (d.post.reserve - p.state.reserve) : Book → Int) b = _
  rw [hpost, hadded]

end Deposits

end Market

end CurveMarket
