import Mathlib.Algebra.BigOperators.Pi
import CurveMarket.Proofs.Revenue.Books
import CurveMarket.Proofs.Revenue.Singles

/-! # Conservation of revenue

A deposit of fees takes its amount from the payer, accrues the infrastructure share for the model
and adds the rest to the model's pool, to the last unit and whatever runs inside the call. The
statistics of the splitter add up at every moment.
-/

namespace CurveMarket

open CurveMarket.Action Market MarketView

namespace Market

/-! ## Calls with what they change -/

/-- The market gets from one state to the other by steps that keep what is sheltered, and the books
change as told, but for what callbacks do. -/
structure Posts (asked : Operation → Prop) (depth : Nat) (change : Book → Int) (m m' : Market) :
    Prop where
  reaches : Reaches asked m m'
  sheltered : ∀ I, Sheltered I → I m → I m'
  booked : Booked asked depth change m m'

section Posts

variable {asked : Operation → Prop} {depth : Nat} {change change' : Book → Int} {m m' u : Market}

theorem Posts.refl (m : Market) : Posts asked depth 0 m m :=
  ⟨.refl m, fun _ _ h => h, .of_same rfl rfl⟩

theorem Posts.trans (h : Posts asked depth change m u) (h' : Posts asked depth change' u m') :
    Posts asked depth (change + change') m m' :=
  ⟨h.reaches.trans h'.reaches, fun I hI hm => h'.sheltered I hI (h.sheltered I hI hm),
    h.booked.trans h.reaches h'.booked⟩

theorem posts_of {α : Type} {a : Action Market α} (hproceeds : Proceeds asked a m)
    (hsound : m.Sound asked) (hsame : ∀ I, Sheltered I → I m → Same I a a m)
    (hbooked : Ends a m (fun _ m' => Booked asked depth change m m') fun _ _ => True) :
    Ends a m (fun _ m' => Posts asked depth change m m') fun _ _ => True := by
  refine ends_of (fun x m' hdone => ?_) fun _ _ _ => trivial
  exact
    { reaches := (hproceeds hsound).of_ok hdone
      sheltered := fun I hI hm => ((hsame I hI hm).ends.of_ok hdone).2
      booked := hbooked.of_ok hdone }

end Posts

/-! ## Where shares go -/

section Places

variable {m u : Market} {d : Nat} {model : Text} {p : Nat}

theorem lookup_of_prefix {l l' : List (Text × Nat)} (h : l <+: l') (hp : l.lookup model = some p) :
    l'.lookup model = some p := by
  obtain ⟨rest, rfl⟩ := h
  obtain ⟨before, after, rfl, hfirst⟩ := List.lookup_eq_some_iff.mp hp
  refine List.lookup_eq_some_iff.mpr ⟨before, after ++ rest, ?_, hfirst⟩
  rw [List.append_assoc, List.cons_append]

/-- A directory keeps the pools that it lists. -/
theorem Evolves.lookup (h : m.Evolves u) (hp : (m.directory d).pools.lookup model = some p) :
    (u.directory d).pools.lookup model = some p := by
  unfold directory at hp ⊢
  rw [List.getD_eq_getElem?_getD] at hp
  cases hd : m.directories[d]? with
  | none =>
      rw [hd] at hp
      cases hp
  | some x =>
      rw [hd] at hp
      obtain ⟨x', hx', hgrows⟩ := h.directories d x hd
      rw [getD_of_getElem? hx']
      exact lookup_of_prefix hgrows.pools hp

theorem mem_of_lookup {l : List (Text × Nat)} (hp : l.lookup model = some p) : (model, p) ∈ l := by
  obtain ⟨before, after, heq, -⟩ := List.lookup_eq_some_iff.mp hp
  rw [heq]
  simp

/-- A pool that a directory lists under a model is a pool of that model. -/
theorem Registered.lookup (h : Registered m.pools m.directories)
    (hp : (m.directory d).pools.lookup model = some p) :
    ∃ x, m.pools[p]? = some x ∧ x.model = model ∧ x.account = Pool.defaultAccount model := by
  have hmem := mem_of_lookup hp
  have hlisted : m.directory d ∈ m.directories := by
    unfold directory at hmem ⊢
    rw [List.getD_eq_getElem?_getD] at hmem ⊢
    cases hd : m.directories[d]? with
    | none =>
        rw [hd] at hmem
        cases hmem
    | some x => exact List.mem_of_getElem? hd
  exact h _ hlisted _ hmem

def poolOf (m : Market) (d : Nat) (model : Text) : Nat :=
  ((m.directory d).pools.lookup model).getD 0

/-- What handing a split out changes, with directory `d` and reserve `r`. -/
def handOut (m : Market) (d r : Nat) (payer : Text) (x : FeeSplit) : Book → Int :=
  Book.payment payer (m.reserve r).account x.infra + Pi.single (.accrued r x.model) x.infra +
    (Book.payment payer (m.pool (m.poolOf d x.model)).account x.profit +
      Pi.single (.pool (m.poolOf d x.model)) x.profit)

end Places

/-! ## Routing -/

section Routing

variable {asked : Operation → Prop} {depth : Nat} {m u : Market} {payer : Text} {x : FeeSplit}
  {journal : List UndoStep}

theorem routeInfra_posts {s : Splitter} {r : InfraReserve} (hsound : u.Sound asked)
    (hr : u.reserves[s.reserve]? = some r) (hle : 0 ≤ x.infra) :
    Ends (routeInfra (withCallbacks (serveWithin depth)) s payer x) (u, journal)
      (fun _ t => Posts asked depth
        (Book.payment payer r.account x.infra + Pi.single (.accrued s.reserve x.model) x.infra)
        u t.1)
      fun _ _ => True := by
  unfold routeInfra
  by_cases hpos : 0 < x.infra
  · rw [if_pos hpos]
    refine .bind (.focus (Ends.imp (posts_of (deposit_proceeds (executor_proceeds depth) _ _ _) hsound ?_
      (deposit_booked hsound hr)) (fun _ _ h => ends_modify h) fun _ _ h => h))
    intro I hI h
    exact planInReserve_same (executor_matches hI depth) (hI.encloses h _) _ _
  · have hzero : x.infra = 0 := by omega
    rw [if_neg hpos, hzero, Book.payment_zero, Pi.single_zero, add_zero]
    exact ends_pure (.refl u)

theorem routeProfit_posts {s : Splitter} {p : Nat} {pool : Pool} (hsound : u.Sound asked)
    (hp : (u.directory s.directory).pools.lookup x.model = some p) (hpool : u.pools[p]? = some pool)
    (hle : 0 ≤ x.profit) :
    Ends (routeProfit (withCallbacks (serveWithin depth)) s payer x) (u, journal)
      (fun _ t => Posts asked depth
        (Book.payment payer pool.account x.profit + Pi.single (.pool p) x.profit) u t.1)
      fun _ _ => True := by
  unfold routeProfit
  by_cases hpos : 0 < x.profit
  · rw [if_pos hpos]
    refine .bind (.bind (ends_get (ends_pure ?_)))
    rw [hp]
    refine .focus (posts_of (inPool_proceeds (executor_proceeds depth) _ _) hsound ?_
      (depositFees_booked hsound hpool))
    intro I hI h
    exact inPool_same (executor_matches hI depth) (hI.encloses h _) _ _
  · have hzero : x.profit = 0 := by omega
    rw [if_neg hpos, hzero, Book.payment_zero, Pi.single_zero, add_zero]
    exact ends_pure (.refl u)

variable {i : Nat} {s : Splitter} {r : InfraReserve} (hs : m.splitters[i]? = some s)
  (hr : m.reserves[s.reserve]? = some r)
include hs hr

/-- Where the shares of a split go is settled by what the market was when the routing began. -/
theorem route_posts (hregistered : Registered m.pools m.directories) {p : Nat}
    (hp : (m.directory s.directory).pools.lookup x.model = some p) (hfair : x.IsFair)
    (hevolves : m.Evolves u) (hsound : u.Sound asked) :
    Ends (route (withCallbacks (serveWithin depth)) i payer x) (u, journal)
      (fun _ t => Posts asked depth (m.handOut s.directory s.reserve payer x) u t.1)
      fun _ _ => True := by
  obtain ⟨s', hs', hrole⟩ := hevolves.splitters i s hs
  obtain ⟨r', hr', hreserve⟩ := hevolves.reserves _ r hr
  obtain ⟨pool, hpool, -, -⟩ := hregistered.lookup hp
  have hhand : m.handOut s.directory s.reserve payer x =
      Book.payment payer r'.account x.infra + Pi.single (.accrued s'.reserve x.model) x.infra +
        (Book.payment payer pool.account x.profit + Pi.single (.pool p) x.profit) := by
    have hrecord : m.reserve s.reserve = r := getD_of_getElem? hr
    have hplace : m.poolOf s.directory x.model = p := by rw [poolOf, hp, Option.getD_some]
    have hrecord' : m.pool p = pool := getD_of_getElem? hpool
    unfold handOut
    rw [hplace, hrecord, hrecord', hreserve.account, hrole.reserve]
  have hsplitter : u.splitter i = s' := getD_of_getElem? hs'
  have hinfra : u.reserves[s'.reserve]? = some r' := by
    rw [hrole.reserve]
    exact hr'
  refine .bind (.bind (ends_get (ends_pure ?_)))
  rw [hhand, hsplitter]
  refine .bind ((routeInfra_posts hsound hinfra hfair.1).imp ?_ fun _ _ h => h)
  rintro - ⟨v, journal'⟩ hposted
  have hlater := hevolves.trans hposted.reaches.evolves
  obtain ⟨pool', hpool', hsame⟩ := hlater.pools p pool hpool
  have hp' : (v.directory s'.directory).pools.lookup x.model = some p := by
    rw [hrole.directory]
    exact hlater.lookup hp
  rw [← hsame.account]
  refine (routeProfit_posts (hposted.reaches.sound hsound) hp' hpool' hfair.2.1).imp ?_ ?_
  · exact fun _ _ h => hposted.trans h
  · exact fun _ _ h => h

theorem routeAll_posts (hregistered : Registered m.pools m.directories) {splits : List FeeSplit}
    (hlisted : ∀ x ∈ splits, ∃ p, (m.directory s.directory).pools.lookup x.model = some p)
    (hfair : ∀ x ∈ splits, x.IsFair) (hevolves : m.Evolves u) (hsound : u.Sound asked) :
    Ends (routeAll (withCallbacks (serveWithin depth)) i payer splits) (u, journal)
      (fun _ t => Posts asked depth
        (splits.map (m.handOut s.directory s.reserve payer)).sum u t.1)
      fun _ _ => True := by
  induction splits generalizing u journal with
  | nil => exact ends_pure (.refl u)
  | cons x rest ih =>
      rw [List.forall_mem_cons] at hlisted hfair
      obtain ⟨p, hp⟩ := hlisted.1
      refine .bind (Ends.imp (route_posts hs hr hregistered hp hfair.1 hevolves hsound) ?_
        fun _ _ h => h)
      rintro - ⟨v, journal'⟩ hposted
      have hlater := hevolves.trans hposted.reaches.evolves
      refine (ih hlisted.2 hfair.2 hlater (hposted.reaches.sound hsound)).imp ?_ fun _ _ h => h
      intro _ t hrest
      rw [List.map_cons, List.sum_cons]
      exact hposted.trans hrest

end Routing

end Market

/-! ## Splits -/

/-- A deposit as it is parted at the rate of its model. -/
structure Market.Parted (m : Market) (i : Nat) (entry : Option Text × Option Int) (x : FeeSplit) :
    Prop where
  entry_eq : entry = (some x.model, some x.amount)
  infra_eq : x.infra =
    x.amount * (m.governance (m.splitter i).governance).rate x.model / (bpsWhole : Int)
  whole : x.infra + x.profit = x.amount

theorem fee_eq_div {amount : Int} {rate f : Nat}
    (h : fee (some amount) (some (rate : Int)) = .ok f) :
    (f : Int) = amount * rate / (bpsWhole : Int) := by
  unfold fee requireRate at h
  obtain ⟨a, ha, h⟩ := Check.bind_eq_ok.mp h
  obtain ⟨r, hr, h⟩ := Check.bind_eq_ok.mp h
  obtain ⟨r', hr', hr⟩ := Check.bind_eq_ok.mp hr
  obtain ⟨-, hr⟩ := Check.test_eq_ok.mp hr
  cases hr
  cases h
  have hamount := Option.some.inj (requireNonNegative_eq_ok.mp ha)
  have hrate := Int.ofNat.inj (Option.some.inj (requireNonNegative_eq_ok.mp hr'))
  rw [hamount, hrate]
  rfl

section Splits

variable {m : Market} {i : Nat} {entry : Option Text × Option Int} {x : FeeSplit}

theorem Splits.parted (h : Splits i m entry x) : m.Parted i entry x := by
  obtain ⟨model, amount⟩ := entry
  obtain ⟨hchecked, hsplit⟩ := h
  obtain ⟨name, hname, -⟩ := Check.bind_eq_ok.mp hchecked
  obtain ⟨rfl, -⟩ := requireModel_eq_ok.mp hname
  obtain ⟨share, hshare, hsplit⟩ := Check.bind_eq_ok.mp hsplit
  obtain ⟨a, ha, hmade⟩ := Check.bind_eq_ok.mp hsplit
  obtain rfl := requireInt_eq_ok.mp ha
  have hinfra := fee_eq_div (fee_of_charge hshare)
  unfold FeeSplit.make at hmade
  split at hmade
  · next hwhole =>
      cases hmade
      exact ⟨rfl, hinfra, hwhole⟩
  · cases hmade

theorem Splits.listed (h : Splits i m entry x) :
    ∃ p, (m.directory (m.splitter i).directory).pools.lookup x.model = some p := by
  have hentry := h.parted.entry_eq
  obtain ⟨_, -, hchecked⟩ := Check.bind_eq_ok.mp h.1
  obtain ⟨_, -, hchecked⟩ := Check.bind_eq_ok.mp hchecked
  obtain ⟨hpool, -⟩ := Check.test_eq_ok.mp hchecked
  rw [hentry] at hpool
  exact Option.isSome_iff_exists.mp (by simpa [hasPool] using hpool)

end Splits

/-! ## Sums by model -/

def sumOf (model : Text) (f : FeeSplit → Int) (splits : List FeeSplit) : Int :=
  ((splits.filter fun x => x.model = model).map f).sum

theorem sumOf_cons (model : Text) (f : FeeSplit → Int) (x : FeeSplit) (rest : List FeeSplit) :
    sumOf model f (x :: rest) = (if x.model = model then f x else 0) + sumOf model f rest := by
  unfold sumOf
  by_cases h : x.model = model
  · simp [h]
  · simp [h]

theorem sum_ite_eq_sumOf (model : Text) (f : FeeSplit → Int) (splits : List FeeSplit) :
    (splits.map fun x => if x.model = model then f x else 0).sum = sumOf model f splits := by
  induction splits with
  | nil => rfl
  | cons x rest ih => rw [List.map_cons, List.sum_cons, ih, sumOf_cons]

theorem fees_recordAll {splits : List FeeSplit} (hfair : ∀ x ∈ splits, x.IsFair) (s : Splitter)
    (model : Text) : (splits.foldl Splitter.record s).fees.get model =
      s.fees.get model + sumOf model FeeSplit.amount splits := by
  induction splits generalizing s with
  | nil => exact (Int.add_zero _).symm
  | cons x rest ih =>
      rw [List.forall_mem_cons] at hfair
      refine (ih hfair.2 (s.record x)).trans ?_
      rw [fees_record s hfair.1.amount_nonneg, sumOf_cons]
      simp only [eq_comm]
      omega

theorem total_recordAll (splits : List FeeSplit) (s : Splitter) :
    (splits.foldl Splitter.record s).total = s.total + (splits.map FeeSplit.amount).sum := by
  induction splits generalizing s with
  | nil => exact (Int.add_zero _).symm
  | cons x rest ih =>
      refine (ih (s.record x)).trans ?_
      rw [List.map_cons, List.sum_cons]
      exact Int.add_assoc ..

theorem defaultAccount_inj {model model' : Text} :
    Pool.defaultAccount model = Pool.defaultAccount model' ↔ model = model' := by
  refine ⟨fun h => ?_, congrArg _⟩
  have hpoints := congrArg Text.points h
  exact congrArg Text.mk (List.append_cancel_left hpoints)

/-! ## What a split changes -/

namespace Market

section HandOut

variable {m : Market} {d r : Nat} {payer : Text} {x : FeeSplit}

theorem handOut_accrued (model : Text) : m.handOut d r payer x (.accrued r model) =
    if x.model = model then x.infra else 0 := by
  simp [handOut, Pi.single_apply, eq_comm]

theorem handOut_held (account : Text) : m.handOut d r payer x (.held account) =
    gain payer (m.reserve r).account x.infra account +
      gain payer (m.pool (m.poolOf d x.model)).account x.profit account := by
  simp [handOut]

variable (hregistered : Registered m.pools m.directories)
  (hlisted : ∃ p, (m.directory d).pools.lookup x.model = some p)
include hregistered hlisted

/-- Pools of different models are different pools, with different accounts. -/
theorem place_eq_iff {model : Text} {p : Nat} (hp : (m.directory d).pools.lookup model = some p) :
    (m.poolOf d x.model = p ↔ x.model = model) ∧
      ((m.pool (m.poolOf d x.model)).account = (m.pool p).account ↔ x.model = model) := by
  obtain ⟨q, hq⟩ := hlisted
  obtain ⟨pool, hpool, hmodel, haccount⟩ := hregistered.lookup hp
  obtain ⟨pool', hpool', hmodel', haccount'⟩ := hregistered.lookup hq
  have hplace : m.poolOf d x.model = q := by rw [poolOf, hq, Option.getD_some]
  have hrecord : m.pool p = pool := getD_of_getElem? hpool
  have hrecord' : m.pool q = pool' := getD_of_getElem? hpool'
  rw [hplace, hrecord, hrecord', haccount, haccount', defaultAccount_inj]
  refine ⟨⟨fun h => ?_, fun h => ?_⟩, Iff.rfl⟩
  · rw [h, hpool] at hpool'
    cases hpool'
    exact hmodel'.symm.trans hmodel
  · rw [h, hp] at hq
    exact (Option.some.inj hq).symm

theorem handOut_pool {model : Text} {p : Nat}
    (hp : (m.directory d).pools.lookup model = some p) :
    m.handOut d r payer x (.pool p) = if x.model = model then x.profit else 0 := by
  have hplace := (place_eq_iff hregistered hlisted hp).1
  have hprofit : m.handOut d r payer x (.pool p) =
      if m.poolOf d x.model = p then x.profit else 0 := by
    simp [handOut, Pi.single_apply, eq_comm]
  simp only [hprofit, hplace]

variable (haway : ∀ e ∈ (m.directory d).pools,
  (m.pool e.2).account ≠ (m.reserve r).account ∧ payer ≠ (m.pool e.2).account)
include haway

theorem handOut_account {model : Text} {p : Nat}
    (hp : (m.directory d).pools.lookup model = some p) :
    m.handOut d r payer x (.held (m.pool p).account) = if x.model = model then x.profit else 0 := by
  have hplace : (m.pool p).account = (m.pool (m.poolOf d x.model)).account ↔ x.model = model :=
    eq_comm.trans (place_eq_iff hregistered hlisted hp).2
  obtain ⟨hreserve, hpayer⟩ := haway _ (mem_of_lookup hp)
  rw [handOut_held]
  unfold gain
  rw [if_neg hreserve, if_neg hpayer.symm, if_neg hpayer.symm]
  simp only [hplace, Int.sub_zero, Int.zero_add]

omit hregistered in
theorem handOut_payer (hpayer : payer ≠ (m.reserve r).account)
    (hwhole : x.infra + x.profit = x.amount) :
    m.handOut d r payer x (.held payer) = -x.amount := by
  obtain ⟨p, hp⟩ := hlisted
  obtain ⟨-, hpool⟩ := haway _ (mem_of_lookup hp)
  have hplace : m.poolOf d x.model = p := by rw [poolOf, hp, Option.getD_some]
  rw [handOut_held, hplace]
  unfold gain
  rw [if_neg hpayer, if_neg hpool, if_pos rfl, if_pos rfl]
  omega

end HandOut

end Market

/-! ## Deposits of fees -/

section Deposits

variable {asked : Operation → Prop} {depth i : Nat} {m m' : Market} {s : Splitter}
  {r : InfraReserve} (hsound : m.Sound asked) (hs : m.splitters[i]? = some s)
  (hr : m.reserves[s.reserve]? = some r)
include hsound hs hr

/-- Splits are entered in the statistics, where they stay, and handed out. -/
theorem disburse_distributes {payer : Text} {splits : List FeeSplit}
    (hsplits : ∀ x ∈ splits, x.IsFair ∧
      ∃ p, (m.directory s.directory).pools.lookup x.model = some p) :
    Ends (disburse (withCallbacks (serveWithin depth)) i payer splits) (m.enter (.splitter i), [])
      (fun _ u => u.1.splitters[i]? = some (splits.foldl Splitter.record s) ∧
        Booked asked depth (splits.map (m.handOut s.directory s.reserve payer)).sum
          (m.enter (.splitter i)) u.1)
      fun _ _ => True := by
  have hfair (x : FeeSplit) (hx : x ∈ splits) : x.IsFair := (hsplits x hx).1
  have hdirectory : (splits.foldl Splitter.record s).directory = s.directory :=
    foldl_record_keeps (fun _ _ => rfl) splits s
  have hreserve : (splits.foldl Splitter.record s).reserve = s.reserve :=
    foldl_record_keeps (fun _ _ => rfl) splits s
  have hlisted (x : FeeSplit) (hx : x ∈ splits) : ∃ p,
      (m.directory (splits.foldl Splitter.record s).directory).pools.lookup x.model = some p := by
    rw [hdirectory]
    exact (hsplits x hx).2
  have hentered : (accounted i splits (m.enter (.splitter i))).1.splitters[i]? =
      some (splits.foldl Splitter.record s) := by
    show (m.splitters.modify i _)[i]? = _
    rw [List.getElem?_modify, hs]
    simp
  have hstays : m.reserves[(splits.foldl Splitter.record s).reserve]? = some r := by
    rw [hreserve]
    exact hr
  have hrecorded : Reaches asked (m.enter (.splitter i))
      (accounted i splits (m.enter (.splitter i))).1 := by
    refine Step.reaches (.splitters (.modify .refl (fun _ => ?_) i _) fun h => ?_)
    · exact ⟨foldl_record_keeps (fun _ _ => rfl) splits _,
        foldl_record_keeps (fun _ _ => rfl) splits _, foldl_record_keeps (fun _ _ => rfl) splits _⟩
    · exact tallied_modify h fun _ hs => hs.recordAll fun x hx => (hfair x hx).amount_nonneg
  have hsound' := hrecorded.sound (Reaches.sound (.of_quiet rfl id) hsound)
  refine .bind (ends_account ((routeAll_posts hentered hstays hsound'.registered hlisted hfair
    (.refl _) hsound').imp ?_ fun _ _ h => h))
  intro _ u hposted
  refine ⟨?_, ?_⟩
  · exact (hposted.sheltered _ (sheltered_splitter i _) ⟨List.mem_cons_self, hentered⟩).2
  · have hsame : Booked asked depth 0 (m.enter (.splitter i))
        (accounted i splits (m.enter (.splitter i))).1 := .of_same rfl rfl
    have hbooked := hsame.trans hrecorded hposted.booked
    rw [zero_add, hdirectory, hreserve] at hbooked
    exact hbooked

end Deposits

/-- Deposits that have been handed out: what the payer has lost, the model accrued and the pool
gained, with what was entered for it, up to what callbacks have done. -/
structure Market.Distributes (asked : Operation → Prop) (depth i : Nat) (payer : Text)
    (entries : List (Option Text × Option Int)) (splits : List FeeSplit) (m m' : Market) :
    Prop where
  parted : List.Forall₂ (m.Parted i) entries splits
  fees : ∀ model, (m'.splitter i).fees.get model =
    (m.splitter i).fees.get model + sumOf model FeeSplit.amount splits
  total : (m'.splitter i).total = (m.splitter i).total + (splits.map FeeSplit.amount).sum
  books : ∃ hooks, (∀ h ∈ hooks, Calls asked depth m h.1 h.2) ∧ (m.callbacks = [] → hooks = []) ∧
    m'.held payer =
      m.held payer - (splits.map FeeSplit.amount).sum + stray hooks (.held payer) ∧
    ∀ model,
      (m'.reserve (m.splitter i).reserve).accrued.get model =
        (m.reserve (m.splitter i).reserve).accrued.get model + sumOf model FeeSplit.infra splits +
          stray hooks (.accrued (m.splitter i).reserve model) ∧
      ∀ p, (m.directory (m.splitter i).directory).pools.lookup model = some p →
        (m'.pool p).state.reserve =
          (m.pool p).state.reserve + sumOf model FeeSplit.profit splits + stray hooks (.pool p) ∧
        m'.held (m.pool p).account =
          m.held (m.pool p).account + sumOf model FeeSplit.profit splits +
            stray hooks (.held (m.pool p).account)

section Distribution

variable {asked : Operation → Prop} {depth i : Nat} {m m' : Market} {s : Splitter}
  {r : InfraReserve} {payer : Text} {entries : List (Option Text × Option Int)}
  {splits : List FeeSplit}

theorem sum_handOut {b : Book} {f : FeeSplit → Int} {d r : Nat}
    (h : ∀ x ∈ splits, m.handOut d r payer x b = f x) :
    (splits.map (m.handOut d r payer)).sum b = (splits.map f).sum := by
  rw [Pi.list_sum_apply, List.map_map]
  exact congrArg List.sum (List.map_congr_left h)

theorem forall_of_forall₂ {α β : Type} {R : α → β → Prop} {P : β → Prop} {l : List α} {l' : List β}
    (h : List.Forall₂ R l l') (hP : ∀ a b, R a b → P b) : ∀ b ∈ l', P b := by
  induction h with
  | nil => exact List.forall_mem_nil _
  | cons hfirst _ ih => exact List.forall_mem_cons.mpr ⟨hP _ _ hfirst, ih⟩

theorem distributes_of_booked (hs : m.splitters[i]? = some s) (hr : m.reserves[s.reserve]? = some r)
    (hregistered : Registered m.pools m.directories) (hpayer : payer ≠ r.account)
    (haway : ∀ e ∈ (m.directory s.directory).pools,
      (m.pool e.2).account ≠ r.account ∧ payer ≠ (m.pool e.2).account)
    (hsplits : List.Forall₂ (Splits i m) entries splits)
    (hentered : m'.splitters[i]? = some (splits.foldl Splitter.record s))
    (hbooked : Booked asked depth (splits.map (m.handOut s.directory s.reserve payer)).sum m m') :
    m.Distributes asked depth i payer entries splits m' := by
  have hsplitter : m.splitter i = s := getD_of_getElem? hs
  have hsplitter' : m'.splitter i = splits.foldl Splitter.record s := getD_of_getElem? hentered
  have hreserve : m.reserve s.reserve = r := getD_of_getElem? hr
  have hfair := forall_of_forall₂ hsplits fun _ _ h => splitNow_eq_ok h.2
  have hwhole := forall_of_forall₂ hsplits fun _ _ h => h.parted.whole
  have hlisted := forall_of_forall₂ hsplits fun _ _ h => h.listed
  rw [hsplitter] at hlisted
  rw [← hreserve] at haway hpayer
  refine ⟨hsplits.imp fun _ _ h => h.parted, ?_, ?_, ?_⟩
  · rw [hsplitter, hsplitter']
    exact fees_recordAll hfair s
  · rw [hsplitter, hsplitter']
    exact total_recordAll splits s
  · obtain ⟨hooks, hhooked, hquiet, hbooks⟩ := hbooked
    rw [hsplitter]
    refine ⟨hooks, hhooked, fun hnone => (hquiet hnone).1, ?_, fun model =>
      ⟨?_, fun p hp => ⟨?_, ?_⟩⟩⟩
    · have hlost := hbooks (.held payer)
      have hsum : (splits.map fun x => -x.amount).sum = -(splits.map FeeSplit.amount).sum := by
        rw [List.sum_neg, List.map_map]
        rfl
      rw [sum_handOut fun x hx => handOut_payer (hlisted x hx) haway hpayer (hwhole x hx), hsum,
        ← sub_eq_add_neg] at hlost
      exact hlost
    · have haccrued := hbooks (.accrued s.reserve model)
      rw [sum_handOut fun x _ => handOut_accrued model, sum_ite_eq_sumOf] at haccrued
      exact haccrued
    · have hgained := hbooks (.pool p)
      rw [sum_handOut fun x hx => handOut_pool hregistered (hlisted x hx) hp,
        sum_ite_eq_sumOf] at hgained
      exact hgained
    · have hgained := hbooks (.held (m.pool p).account)
      rw [sum_handOut fun x hx => handOut_account hregistered (hlisted x hx) haway hp,
        sum_ite_eq_sumOf] at hgained
      exact hgained

theorem length_of_pairEntries {models : List (Option Text)} {amounts : List (Option Int)}
    (h : pairEntries models amounts = .ok entries) : models.length = amounts.length := by
  unfold pairEntries at h
  by_contra hne
  rw [if_pos hne] at h
  cases h

theorem decideSplit_splits {model : Option Text} {amount : Option Int} {sender : Option Text}
    {x : FeeSplit} (h : decideSplit i model amount sender m = .ok (payer, x)) :
    Splits i m (model, amount) x ∧ sender = some payer := by
  obtain ⟨_, hchecked, h⟩ := Check.bind_eq_ok.mp h
  obtain ⟨y, hy, h⟩ := Check.bind_eq_ok.mp h
  obtain ⟨_, hpayer, h⟩ := Check.bind_eq_ok.mp h
  cases h
  exact ⟨⟨hchecked, hy⟩, (preflight_eq_ok hpayer).1⟩

end Distribution

theorem BatchDeposit.totals {splits : List FeeSplit}
    (h : ∀ x ∈ splits, x.infra + x.profit = x.amount) :
    (ofSplits splits).totalInfra + (ofSplits splits).totalProfit =
      (ofSplits splits).totalAmount := by
  induction splits with
  | nil => rfl
  | cons x rest ih =>
      rw [List.forall_mem_cons] at h
      have hrest := ih h.2
      simp only [ofSplits, List.map_cons, List.foldr_cons] at hrest ⊢
      omega

section Conservation

variable {asked : Operation → Prop} {depth i : Nat} {m m' : Market} {s : Splitter}
  {r : InfraReserve} {payer : Text} (hsound : m.Sound asked) (hs : m.splitters[i]? = some s)
  (hr : m.reserves[s.reserve]? = some r) (hpayer : payer ≠ r.account)
  (haway : ∀ e ∈ (m.directory s.directory).pools,
    (m.pool e.2).account ≠ r.account ∧ payer ≠ (m.pool e.2).account)
include hsound hs hr hpayer haway

/-- A call that hands out the splits of its entries, once they are decided on. -/
theorem inSplitter_distributes {α β : Type} {action : Text}
    {decide : Market → Except Error (Text × β)} (splits : β → List FeeSplit) {result : β → α}
    {entries : List (Option Text × Option Int)}
    (hdecide : ∀ payer' b, decide (m.enter (.splitter i)) = .ok (payer', b) →
      List.Forall₂ (Splits i (m.enter (.splitter i))) entries (splits b) ∧ payer = payer') :
    Ends (inSplitter i action do
        let x ← decide (← Journaled.market)
        disburse (withCallbacks (serveWithin depth)) i x.1 (splits x.2)
        return result x.2) m
      (fun y m' => ∃ b, decide (m.enter (.splitter i)) = .ok (payer, b) ∧ y = result b ∧
        m.Distributes asked depth i payer entries (splits b) m')
      fun _ _ => True := by
  have hsplitter : m.splitter i = s := getD_of_getElem? hs
  refine guarded_ends_body (.bind (.bind (ends_get (ends_pure (.bind (ends_ofExcept ?_ ?_))))))
  · rintro ⟨payer', b⟩ hdecided
    obtain ⟨hinside, rfl⟩ := hdecide payer' b hdecided
    have hsplits : List.Forall₂ (Splits i m) entries (splits b) :=
      hinside.imp fun _ _ h => h.of_alike ⟨rfl, rfl, rfl⟩ rfl rfl
    have hready : ∀ x ∈ splits b, x.IsFair ∧
        ∃ p, (m.directory s.directory).pools.lookup x.model = some p := by
      rw [← hsplitter]
      exact forall_of_forall₂ hsplits fun _ _ h => ⟨splitNow_eq_ok h.2, h.listed⟩
    refine .bind ((disburse_distributes hsound hs hr hready).imp (fun _ u hu => ?_) fun _ _ h => h)
    refine ends_pure ⟨b, hdecided, rfl, ?_⟩
    exact distributes_of_booked hs hr hsound.registered hpayer haway hsplits hu.1 hu.2.inside
  · exact fun _ _ => trivial

theorem batchDepositFees_distributes {models : List (Option Text)} {amounts : List (Option Int)}
    {batch : BatchDeposit} (h : batchDepositFees (withCallbacks (serveWithin depth)) i models
      amounts (some payer) m = .ok batch m') :
    ∃ splits, batch = BatchDeposit.ofSplits splits ∧ models.length = amounts.length ∧
      m.Distributes asked depth i payer (models.zip amounts) splits m' := by
  have hdone : ∃ splits, decideSplits i models amounts (some payer) (m.enter (.splitter i)) =
      .ok (payer, splits) ∧ batch = BatchDeposit.ofSplits splits ∧
      m.Distributes asked depth i payer (models.zip amounts) splits m' := by
    refine (inSplitter_distributes hsound hs hr hpayer haway id
      fun payer' splits hdecided => ?_).of_ok h
    obtain ⟨hsplits, hsender, -⟩ := decideSplits_splits hdecided
    exact ⟨hsplits, Option.some.inj hsender.1⟩
  obtain ⟨splits, hdecided, hbatch, hdistributes⟩ := hdone
  obtain ⟨pairs, hpairs, -⟩ := Check.bind_eq_ok.mp hdecided
  exact ⟨splits, hbatch, length_of_pairEntries hpairs, hdistributes⟩

theorem depositFee_distributes {model : Option Text} {amount : Option Int} {split : FeeSplit}
    (h : depositFee (withCallbacks (serveWithin depth)) i model amount (some payer) m =
      .ok split m') :
    m.Distributes asked depth i payer [(model, amount)] [split] m' := by
  have hdone : ∃ x, decideSplit i model amount (some payer) (m.enter (.splitter i)) =
      .ok (payer, x) ∧ split = id x ∧
        m.Distributes asked depth i payer [(model, amount)] [x] m' := by
    refine (inSplitter_distributes hsound hs hr hpayer haway (fun x => [x])
      fun payer' x hdecided => ?_).of_ok h
    obtain ⟨hsplits, hsender⟩ := decideSplit_splits hdecided
    exact ⟨.cons hsplits .nil, Option.some.inj hsender⟩
  obtain ⟨x, -, rfl, hdistributes⟩ := hdone
  exact hdistributes

end Conservation

/-- At whatever moment of a run fees are deposited, in one call or in a batch with any models: the
payer loses what is deposited, of which each model accrues its share rounded down and its pool gains
the rest, in its reserve as in its account; the statistics take in the same. Callbacks that run
inside the call are the only other changes, and there are none where no callback waits. At every
moment the total of a splitter is the sum of the figures of all models. -/
theorem revenue_conserved {asked : Operation → Prop} {symbol : Option Text} {now : Int}
    {m₀ m : Market} (hmake : Market.make symbol now = .ok m₀) (hreaches : Reaches asked m₀ m)
    {i : Nat} {s : Splitter} {r : InfraReserve} {payer : Text} (hs : m.splitters[i]? = some s)
    (hr : m.reserves[s.reserve]? = some r) (hpayer : payer ≠ r.account)
    (haway : ∀ e ∈ (m.directory s.directory).pools,
      (m.pool e.2).account ≠ r.account ∧ payer ≠ (m.pool e.2).account) (depth : Nat) :
    (∀ models amounts batch m', batchDepositFees (withCallbacks (serveWithin depth)) i models
        amounts (some payer) m = .ok batch m' →
      m.Distributes asked depth i payer (models.zip amounts) batch.splits m' ∧
      models.length = amounts.length ∧
      batch.totalAmount = (batch.splits.map FeeSplit.amount).sum ∧
      batch.totalInfra = (batch.splits.map FeeSplit.infra).sum ∧
      batch.totalProfit = (batch.splits.map FeeSplit.profit).sum ∧
      batch.totalInfra + batch.totalProfit = batch.totalAmount) ∧
    (∀ model amount split m', depositFee (withCallbacks (serveWithin depth)) i model amount
        (some payer) m = .ok split m' →
      m.Distributes asked depth i payer [(model, amount)] [split] m') ∧
    ∀ s ∈ m.splitters, ∃ models : Finset Text, (∀ x ∉ models, s.fees.get x = 0) ∧
      s.total = ∑ x ∈ models, s.fees.get x := by
  have hsound := hreaches.sound (sound_make hmake)
  refine ⟨fun models amounts batch m' h => ?_, fun model amount split m' h => ?_, ?_⟩
  · obtain ⟨splits, rfl, hlength, hdistributes⟩ :=
      batchDepositFees_distributes hsound hs hr hpayer haway h
    have hwhole := forall_of_forall₂ hdistributes.parted fun _ _ h => h.whole
    exact ⟨hdistributes, hlength, rfl, rfl, rfl, BatchDeposit.totals hwhole⟩
  · exact depositFee_distributes hsound hs hr hpayer haway h
  · exact hsound.tallied

/-- Two models with a pool each, one of them at a rate of its own. -/
def sampleRegistry : List Request :=
  [.mk "world" (.newToken (some "TOK") false) (some "token"),
    .mk "world" (.newCapability "token" .null) (some "mint"),
    .mk "world" (.newDirectory (some "treasury")) (some "registry"),
    .mk "registry" (.directory (.createPool
      { model := some "m1", capability := "mint", terms := some default })) none,
    .mk "registry" (.directory (.createPool
      { model := some "m2", capability := "mint", terms := some default })) none,
    .mk "world" (.newGovernance (some 8000) [(some "m2", some 5000)]) (some "gov"),
    .mk "world" (.newReserve (some "treasury") (some "infra")) (some "infra"),
    .mk "world" .newSplitter none,
    .mk "asset" (.asset (.credit (some "payer") (some 1000))) none]

def sampleListed : Market := sampleFresh.submitAll sampleRegistry

/-- The entries of a batch in which one model stands twice. -/
def sampleModels : List (Option Text) := [some "m1", some "m2", some "m1"]

def sampleAmounts : List (Option Int) := [some 61, some 33, some 9]

def sampleRevenue : Action Market BatchDeposit :=
  batchDepositFees (withCallbacks (serveWithin 0)) 0 sampleModels sampleAmounts (some "payer")

theorem sample_revenue_conserved :
    ∃ batch m', sampleRevenue sampleListed = .ok batch m' ∧
      sampleListed.Distributes (fun _ => True) 0 0 "payer" (sampleModels.zip sampleAmounts)
        batch.splits m' ∧
      batch.totalInfra + batch.totalProfit = batch.totalAmount := by
  have hmake : Market.make (some "USDC") 0 = .ok sampleFresh := rfl
  have hreaches : Reaches (fun _ => True) sampleFresh sampleListed :=
    submitAll_reaches (fun _ _ _ _ => trivial) (sound_make hmake)
  have hs : sampleListed.splitters[0]? = some (sampleListed.splitter 0) := by decide +kernel
  have hr : sampleListed.reserves[(sampleListed.splitter 0).reserve]? =
      some (sampleListed.reserve 0) := by decide +kernel
  have hpayer : ("payer" : Text) ≠ (sampleListed.reserve 0).account := by decide +kernel
  have haway : ∀ e ∈ (sampleListed.directory (sampleListed.splitter 0).directory).pools,
      (sampleListed.pool e.2).account ≠ (sampleListed.reserve 0).account ∧
        "payer" ≠ (sampleListed.pool e.2).account := by decide +kernel
  obtain ⟨batch, hdone⟩ := exists_ok_of_outcome (a := sampleRevenue) (s := sampleListed)
    (by decide +kernel)
  have hconserved := (revenue_conserved hmake hreaches hs hr hpayer haway 0).1 _ _ _ _ hdone
  exact ⟨batch, _, hdone, hconserved.1, hconserved.2.2.2.2.2⟩

/-- Shares are rounded down entry by entry: of 61 and 9 "m1" accrues 48 and 7, and not 56 of 70. -/
example : ((fun batch => batch.splits.map FeeSplit.infra) <$>
    sampleRevenue.outcome sampleListed).toOption = some [48, 16, 7] := by
  decide +kernel

end CurveMarket
