import CurveMarket.Proofs.Market.Supply
import CurveMarket.Proofs.Pool.Extraction
import CurveMarket.Proofs.Pool.Safety

/-! # Pools that issue their token

Around a pool that alone mints and burns its token, the supply is what the pool has issued, and what
it saw at its last commit. As long as the pool has not graduated, its reserve covers that supply at
the flat price: a buy rounds the tokens down, a sell rounds the payout down, and nothing else touches
the two figures but deposits, which add to the reserve. So every token can be sold back at the flat
price in full.
-/

namespace CurveMarket

open CurveMarket.Action Market

/-! ## Cover at the flat price -/

namespace PoolState

/-- The reserve covers a supply at the flat price. -/
def Covers (s : PoolState) (supply : Int) : Prop :=
  supply * s.terms.flatPrice ≤ s.reserve * Fixed.one

variable {s : PoolState} {supply : Int}

theorem Covers.add (h : s.Covers supply) (amount : Int) :
    (s.addReserve amount).Covers (supply + s.flatTokens amount) := by
  have hbought := s.flatTokens_mul_le amount
  unfold Covers at h ⊢
  show (supply + s.flatTokens amount) * s.terms.flatPrice ≤ (s.reserve + amount) * Fixed.one
  rw [Int.add_mul, Int.add_mul]
  omega

theorem Covers.deposit (h : s.Covers supply) {amount : Int} (hle : 0 ≤ amount) :
    (s.addReserve amount).Covers supply := by
  have hpaid : 0 ≤ amount * Fixed.one := Int.mul_nonneg hle (Int.natCast_nonneg _)
  unfold Covers at h ⊢
  show supply * s.terms.flatPrice ≤ (s.reserve + amount) * Fixed.one
  rw [Int.add_mul]
  omega

theorem Covers.sell (h : s.Covers supply) {q : SellQuote} {tokens : Int}
    (hout : q.reserveOut ≤ s.flatWorth tokens) : (s.afterSell q).Covers (supply - tokens) := by
  have hworth := s.flatWorth_mul_le tokens
  have hpaid := Int.mul_le_mul_of_nonneg_right hout (Int.natCast_nonneg Fixed.one)
  unfold Covers at h ⊢
  show (supply - tokens) * s.terms.flatPrice ≤ (s.reserve - q.reserveOut) * Fixed.one
  rw [Int.sub_mul, Int.sub_mul]
  omega

theorem Covers.flatWorth_le (h : s.Covers supply) {tokens : Int} (hle : tokens ≤ supply) :
    s.flatWorth tokens ≤ s.reserve := by
  have hworth := s.flatWorth_mul_le tokens
  have hpriced := Int.mul_le_mul_of_nonneg_right hle (Int.natCast_nonneg s.terms.flatPrice)
  unfold Covers at h
  exact Int.le_of_mul_le_mul_right (by omega : s.flatWorth tokens * Fixed.one ≤ _) (by decide)

theorem Covers.quoteSell (h : s.Covers supply) (hflat : s.isGraduated = false)
    (hreserve : 0 ≤ s.reserve) {tokens : Int} (hnonneg : 0 ≤ tokens) (hle : tokens ≤ supply) :
    ∃ q, s.quoteSell (some supply) (some tokens) = .ok q ∧ q.reserveOut = s.flatWorth tokens := by
  obtain ⟨q, hq⟩ := quoteSell_of_flat supply hflat hreserve hnonneg
  have hcapped := quoteSell_flat_eq_ok hq hflat
  rw [Int.min_eq_left (h.flatWorth_le hle)] at hcapped
  exact ⟨q, hq, hcapped⟩

theorem Covers.of_eq {s' : PoolState} (h : s.Covers supply)
    (hprice : s'.terms.flatPrice = s.terms.flatPrice) (hreserve : s'.reserve = s.reserve) :
    s'.Covers supply := by
  unfold Covers at h ⊢
  rw [hprice, hreserve]
  exact h

end PoolState

/-! ## One decision -/

section Decide

variable {i : Nat} {m : Market} {p : Pool} {u : MarketView} {c : PoolCall}

theorem covers_buy {amount minimum : Option Int} {recipient sender : Option Text} {deadline : Int}
    {d : PoolPlan Int} (hlawful : p.state.violations = []) (hflat : p.state.isGraduated = false)
    (hcovers : p.state.Covers (m.supplyOf p.capability))
    (h : decideBuy amount minimum recipient deadline sender m p = .ok d)
    (hmoves : m.view.MovesAll d.effects u) (hstays : d.post.isGraduated = false) :
    d.post.Covers (u.supplyOf p.capability) := by
  obtain ⟨payer, receiver, a, q, -, -, -, hq, -, heffects, hpost, -⟩ := decideBuy_eq_ok h
  rw [heffects] at hmoves
  rw [MarketView.supplyOf_of_mint hmoves, view_supplyOf, hpost]
  have hbelow := PoolState.lt_threshold_of_flat hlawful hflat
  rcases PoolState.quoteBuy_flat_eq_ok hq hflat hbelow with ⟨-, hout⟩ | ⟨n, deposit, -, hd, -⟩
  · rw [hout]
    exact hcovers.add q.net
  · have hgraduated : (p.state.afterBuy q).isGraduated = true :=
      (PoolState.isGraduated_addReserve p.state q.net).mpr (.inr (by omega))
    rw [hpost, hgraduated] at hstays
    cases hstays

theorem covers_sell {tokens minimum : Option Int} {recipient sender : Option Text} {deadline : Int}
    {d : PoolPlan Int} (hflat : p.state.isGraduated = false)
    (hcovers : p.state.Covers (m.supplyOf p.capability))
    (h : decideSell tokens minimum recipient deadline sender m p = .ok d)
    (hmoves : m.view.MovesAll d.effects u) : d.post.Covers (u.supplyOf p.capability) := by
  obtain ⟨seller, receiver, t, q, -, -, -, -, hq, heffects, hpost, -⟩ := decideSell_eq_ok h
  rw [heffects] at hmoves
  rw [MarketView.supplyOf_of_burn hmoves, view_supplyOf, hpost]
  refine hcovers.sell ?_
  rw [PoolState.quoteSell_flat_eq_ok hq hflat]
  exact Int.min_le_left _ _

theorem covers_decision {d : PoolPlan Unit} (hlawful : p.state.violations = [])
    (hflat : p.state.isGraduated = false) (hcovers : p.state.Covers (m.supplyOf p.capability))
    (hc : c.decision i m p = some (.ok d)) (hmoves : m.view.MovesAll d.effects u)
    (hstays : d.post.isGraduated = false) : d.post.Covers (u.supplyOf p.capability) := by
  cases htrade : c.isTrade with
  | false =>
      have hmutating : c.isMutating = true := by
        rw [← isSome_decision i m p, hc]
        rfl
      obtain ⟨hreserve, hsupply⟩ := decision_keeps hmutating htrade hc hmoves
      rw [hsupply]
      exact hcovers.of_eq (follows_decision hlawful hc).continued.flatPrice hreserve
  | true =>
      cases c with
      | buy amount minimum recipient deadline sender =>
          obtain ⟨d', hd', rfl⟩ := Check.map_eq_ok.mp (Option.some.inj hc)
          exact covers_buy hlawful hflat hcovers hd' hmoves hstays
      | sell tokens minimum recipient deadline sender =>
          obtain ⟨d', hd', rfl⟩ := Check.map_eq_ok.mp (Option.some.inj hc)
          exact covers_sell hflat hcovers hd' hmoves
      | depositFees amount sender =>
          obtain ⟨payer, a, -, ⟨-, hpos⟩, heffects, hpost, -⟩ :=
            decideDeposit_eq_ok (Option.some.inj hc)
          rw [heffects] at hmoves
          rw [MarketView.supplyOf_of_moves hmoves, view_supplyOf, hpost]
          exact hcovers.deposit hpos.le
      | _ => cases htrade

theorem counted_decision {d : PoolPlan Unit} (hcounted : m.view.Counted p.capability)
    (hc : c.decision i m p = some (.ok d)) (hmoves : m.view.MovesAll d.effects u) :
    u.Counted p.capability := by
  have hquiet (heffects : d.effects = []) : u.Counted p.capability := by
    rw [heffects] at hmoves
    cases hmoves
    exact hcounted
  cases c with
  | buy amount minimum recipient deadline sender =>
      obtain ⟨d', hd', rfl⟩ := Check.map_eq_ok.mp (Option.some.inj hc)
      obtain ⟨payer, receiver, a, q, -, -, -, -, -, heffects, -⟩ := decideBuy_eq_ok hd'
      have hall : m.view.MovesAll d'.effects u := hmoves
      rw [heffects, MarketView.movesAll_append_append] at hall
      obtain ⟨v₁, v₂, hfirst, hsecond, hminted⟩ := hall
      rw [MarketView.movesAll_singleton] at hminted
      exact ((hcounted.moves hfirst).moves hsecond).mint hminted
  | sell tokens minimum recipient deadline sender =>
      obtain ⟨d', hd', rfl⟩ := Check.map_eq_ok.mp (Option.some.inj hc)
      obtain ⟨seller, receiver, t, q, -, -, -, -, -, heffects, -⟩ := decideSell_eq_ok hd'
      have hall : m.view.MovesAll d'.effects u := hmoves
      rw [heffects, MarketView.movesAll_append_append] at hall
      obtain ⟨v₁, v₂, hburned, hfirst, hsecond⟩ := hall
      rw [MarketView.movesAll_singleton] at hburned
      exact ((hcounted.burn hburned).moves hfirst).moves hsecond
  | depositFees amount sender =>
      obtain ⟨payer, a, -, -, heffects, -⟩ := decideDeposit_eq_ok (Option.some.inj hc)
      rw [heffects] at hmoves
      exact hcounted.moves hmoves
  | withdrawTreasury amount =>
      obtain ⟨a, -, -, heffects, -⟩ := decideWithdrawal_eq_ok (Option.some.inj hc)
      rw [heffects] at hmoves
      exact hcounted.moves hmoves
  | setParameters ratio fee => exact hquiet (decideParameters_eq_ok (Option.some.inj hc)).1
  | setTradeCap cap => exact hquiet (decideTradeCap_eq_ok (Option.some.inj hc)).1
  | pause => exact hquiet (decidePause_eq_ok (Option.some.inj hc)).1
  | unpause => exact hquiet (decideUnpause_eq_ok (Option.some.inj hc)).1
  | _ => cases hc

end Decide

/-! ## Steps -/

/-- A step of a run around pool `i`, whose token only the pool mints and burns. A call is any call
on the pool, accepted or not. Others may do what they like, except touch the pool or change the
supply of its token; if the supply has covered the balances, it still does. -/
inductive IssueStep (i : Nat) : Market → Market → Prop
  | call {m : Market} (c : PoolCall) : IssueStep i m ((servePool apply i c).stateAfter m)
  | others {m m' : Market} (listed : m'.pools[i]? = m.pools[i]?)
      (supply : m'.supplyOf (m.pool i).capability = m.supplyOf (m.pool i).capability)
      (counted : m.view.Counted (m.pool i).capability → m'.view.Counted (m.pool i).capability) :
      IssueStep i m m'

/-- A pool that has seen the present supply of its token. -/
structure Market.Current (m : Market) (i : Nat) : Prop where
  listed : i < m.pools.length
  seen : (m.pool i).supply = m.supplyOf (m.pool i).capability

/-- A pool with a lawful state that has seen the present supply of its token. Before graduation the
reserve covers that supply at the flat price. -/
structure Market.Issues (m : Market) (i : Nat) : Prop where
  listed : i < m.pools.length
  lawful : (m.pool i).state.violations = []
  seen : (m.pool i).supply = m.supplyOf (m.pool i).capability
  covered : (m.pool i).state.isGraduated = false →
    (m.pool i).state.Covers (m.supplyOf (m.pool i).capability)

section Step

variable {i : Nat} {m m' : Market}

theorem supplyOf_eq_of_view_eq (h : m'.view = m.view) (c : Nat) : m'.supplyOf c = m.supplyOf c := by
  rw [← view_supplyOf, h, view_supplyOf]

/-! ### Seeing the supply -/

theorem Market.Current.of_same (h : m.Current i) (hlisted : m'.pools[i]? = m.pools[i]?)
    (hsupply : m'.supplyOf (m.pool i).capability = m.supplyOf (m.pool i).capability) :
    m'.Current i := by
  refine ⟨listed_of_getElem? h.listed hlisted, ?_⟩
  rw [pool_eq_of_getElem? hlisted, hsupply]
  exact h.seen

theorem Market.Current.accepted (h : m.Current i) {c : PoolCall} {reply : Reply}
    (hmutating : c.isMutating = true) (haccepted : servePool apply i c m = .ok reply m') :
    m'.Current i ∧ ∃ d u, c.decision i m (m.pool i) = some (.ok d) ∧ m.view.MovesAll d.effects u ∧
      d.post.violations = [] ∧ (m'.pool i).state = d.post ∧
      (m'.pool i).capability = (m.pool i).capability ∧
      m'.supplyOf (m.pool i).capability = u.supplyOf (m.pool i).capability ∧
      (u.Counted (m.pool i).capability → m'.view.Counted (m.pool i).capability) := by
  obtain ⟨d, hc, hcommits⟩ := commits_of_accepted hmutating haccepted
  obtain ⟨hlength, u, hmoves, hnone, hview, hpool⟩ := hcommits.exists_moves h.listed
  rw [view_pool, view_pool] at hpool
  have hsupply (t : Nat) : m'.supplyOf t = u.supplyOf t := by
    rw [← view_supplyOf, hview]
    rfl
  refine ⟨⟨?_, ?_⟩, d, u, hc, hmoves, (PoolState.stepViolations_eq_nil.mp hnone).1, ?_, ?_,
    hsupply _, ?_⟩
  · show i < m'.view.pools.length
    rw [hlength]
    exact h.listed
  · rw [hpool, hsupply]
    rfl
  · rw [hpool]
    rfl
  · rw [hpool]
    rfl
  · intro hcounted
    rw [hview]
    exact hcounted

theorem Market.Current.step (h : m.Current i) (hstep : IssueStep i m m') :
    m'.Current i ∧ (m'.pool i).capability = (m.pool i).capability ∧
      (m.view.Counted (m.pool i).capability → m'.view.Counted (m.pool i).capability) := by
  cases hstep with
  | others hlisted hsupply hcounted =>
      refine ⟨h.of_same hlisted hsupply, ?_, hcounted⟩
      rw [pool_eq_of_getElem? hlisted]
  | call c =>
      cases hmutating : c.isMutating with
      | false =>
          rw [servePool_read hmutating]
          exact ⟨h, rfl, id⟩
      | true =>
          unfold stateAfter
          cases hresult : servePool apply i c m with
          | ok reply m' =>
              obtain ⟨hcurrent, d, u, hc, hmoves, -, -, hcapability, -, hcounted⟩ :=
                h.accepted hmutating hresult
              exact ⟨hcurrent, hcapability,
                fun hbefore => hcounted (counted_decision hbefore hc hmoves)⟩
          | error e m' =>
              have hview := view_of_rejected hmutating hresult
              have hpools : m'.pools = m.pools := congrArg MarketView.pools hview
              have hlisted : m'.pools[i]? = m.pools[i]? := by rw [hpools]
              refine ⟨h.of_same hlisted (supplyOf_eq_of_view_eq hview _), ?_, ?_⟩
              · show (m'.pool i).capability = _
                rw [pool_eq_of_getElem? hlisted]
              · show _ → m'.view.Counted _
                rw [hview]
                exact id

/-! ### Covering the supply -/

theorem Market.Issues.current (h : m.Issues i) : m.Current i := ⟨h.listed, h.seen⟩

theorem Market.Issues.of_same (h : m.Issues i) (hlisted : m'.pools[i]? = m.pools[i]?)
    (hsupply : m'.supplyOf (m.pool i).capability = m.supplyOf (m.pool i).capability) :
    m'.Issues i := by
  obtain ⟨hcurrent, hseen⟩ := h.current.of_same hlisted hsupply
  have hpool := pool_eq_of_getElem? hlisted
  refine ⟨hcurrent, ?_, hseen, ?_⟩
  · rw [hpool]
    exact h.lawful
  · rw [hpool, hsupply]
    exact h.covered

theorem Market.Issues.accepted (h : m.Issues i) {c : PoolCall} {reply : Reply}
    (hmutating : c.isMutating = true) (haccepted : servePool apply i c m = .ok reply m') :
    m'.Issues i ∧ ∃ d u, c.decision i m (m.pool i) = some (.ok d) ∧ m.view.MovesAll d.effects u ∧
      (m'.pool i).state = d.post ∧ (m'.pool i).capability = (m.pool i).capability ∧
      m'.supplyOf (m.pool i).capability = u.supplyOf (m.pool i).capability ∧
      (u.Counted (m.pool i).capability → m'.view.Counted (m.pool i).capability) := by
  obtain ⟨hcurrent, d, u, hc, hmoves, hlawful, hstate, hcapability, hsupply, hcounted⟩ :=
    h.current.accepted hmutating haccepted
  refine ⟨⟨hcurrent.listed, ?_, hcurrent.seen, ?_⟩, d, u, hc, hmoves, hstate, hcapability, hsupply,
    hcounted⟩
  · rw [hstate]
    exact hlawful
  · rw [hstate, hcapability, hsupply]
    intro hstays
    cases hflat : (m.pool i).state.isGraduated with
    | false => exact covers_decision h.lawful hflat (h.covered hflat) hc hmoves hstays
    | true =>
        have hgraduated := (follows_decision h.lawful hc).continued.graduated hflat
        rw [hstays] at hgraduated
        cases hgraduated

theorem Market.Issues.step (h : m.Issues i) (hstep : IssueStep i m m') :
    m'.Issues i ∧ (m'.pool i).capability = (m.pool i).capability ∧
      (m.view.Counted (m.pool i).capability → m'.view.Counted (m.pool i).capability) := by
  refine ⟨?_, (h.current.step hstep).2⟩
  cases hstep with
  | others hlisted hsupply _ => exact h.of_same hlisted hsupply
  | call c =>
      cases hmutating : c.isMutating with
      | false =>
          rw [servePool_read hmutating]
          exact h
      | true =>
          unfold stateAfter
          cases hresult : servePool apply i c m with
          | ok reply m' => exact (h.accepted hmutating hresult).1
          | error e m' =>
              have hview := view_of_rejected hmutating hresult
              have hpools : m'.pools = m.pools := congrArg MarketView.pools hview
              exact h.of_same (by rw [hpools]) (supplyOf_eq_of_view_eq hview _)

/-- A transfer among holders is a step of others, whichever token it moves and however it ends. -/
theorem issueStep_tokenTransfer (i : Nat) (m : Market) (target : Text) (t : Nat)
    (sender recipient : Option Text) (amount : Option Int) :
    IssueStep i m ((serveToken target t (.transfer sender recipient amount)).stateAfter m) := by
  obtain ⟨hpools, hsupply, hcounted⟩ :=
    keepsIssue_tokenTransfer m target t sender recipient amount
  exact .others (by rw [hpools]) (hsupply _) (hcounted _)

/-- So is a transfer of the reserve asset. -/
theorem issueStep_transfer (i : Nat) (m : Market) (sender recipient : Option Text)
    (amount : Option Int) :
    IssueStep i m ((apply (.transfer sender recipient amount)).stateAfter m) := by
  refine Ends.stateAfter (P := IssueStep i m) ((apply_ends _ m).imp ?_ ?_)
  · intro _ m' hmoves
    have hpools : m'.view.pools = m.view.pools := by rw [hmoves.eq]
    have hsupply : m'.view.supplyOf (m.pool i).capability =
        m.view.supplyOf (m.pool i).capability := by
      generalize m'.view = w at hmoves
      cases hmoves with
      | transfer => rfl
    rw [view_supplyOf, view_supplyOf] at hsupply
    refine .others (congrArg (·[i]?) hpools) hsupply fun hcounted => ?_
    generalize m'.view = w at hmoves
    cases hmoves with
    | transfer _ _ hle hheld => exact hcounted.paid hle hheld
  · rintro e m' ⟨-, hsame, -⟩
    rw [hsame]
    exact .others rfl rfl id

end Step

/-! ## Runs -/

def IssueRun (i : Nat) : Market → Market → Prop := Relation.ReflTransGen (IssueStep i)

theorem Market.Current.run {i : Nat} {m m' : Market} (h : m.Current i) (hrun : IssueRun i m m') :
    m'.Current i ∧ (m'.pool i).capability = (m.pool i).capability := by
  induction hrun with
  | refl => exact ⟨h, rfl⟩
  | tail _ hstep ih =>
      obtain ⟨hcurrent, hcapability⟩ := ih
      obtain ⟨hcurrent', hcapability', -⟩ := hcurrent.step hstep
      exact ⟨hcurrent', hcapability'.trans hcapability⟩

theorem Market.Issues.run {i : Nat} {m m' : Market} (h : m.Issues i) (hrun : IssueRun i m m') :
    m'.Issues i ∧ (m'.pool i).capability = (m.pool i).capability ∧
      (m.view.Counted (m.pool i).capability → m'.view.Counted (m.pool i).capability) := by
  induction hrun with
  | refl => exact ⟨h, rfl, id⟩
  | tail _ hstep ih =>
      obtain ⟨hissues, hcapability, hcounted⟩ := ih
      obtain ⟨hissues', hcapability', hcounted'⟩ := hissues.step hstep
      rw [hcapability] at hcapability' hcounted'
      exact ⟨hissues', hcapability', fun hbefore => hcounted' (hcounted hbefore)⟩

section Open

variable {model treasury account : Option Text} {capability : Nat} {terms : Terms}
  {m₀ m₁ m : Market} {i : Nat}

theorem issues_of_openPool
    (h : openPool model capability (some terms) none treasury account m₀ = .ok i m₁)
    (hzero : m₀.supplyOf capability = 0) :
    m₁.Issues i ∧ (m₁.pool i).capability = capability := by
  obtain ⟨p, rfl, rfl, rfl, hfirst, hseen, -⟩ := openPool_eq_ok h
  have hpool := pool_append m₀ p
  have hstate : p.state = { terms := terms, buyOnlyUntil := m₀.now + terms.buyOnlySeconds } :=
    (Except.ok.inj hfirst).symm
  have hsupply : ({ m₀ with pools := m₀.pools ++ [p] } : Market).supplyOf p.capability = 0 := hzero
  refine ⟨⟨by simp, ?_, ?_, ?_⟩, by rw [hpool]⟩
  · rw [hpool, hstate, PoolState.violations_eq_nil]
    exact ⟨Int.le_refl 0, .inr (Int.natCast_pos.mpr terms.threshold_pos)⟩
  · rw [hpool, hseen]
    rfl
  · rw [hpool, hsupply, hstate]
    simp [PoolState.Covers]

theorem issues_of_issueRun
    (h : openPool model capability (some terms) none treasury account m₀ = .ok i m₁)
    (hzero : m₀.supplyOf capability = 0) (hrun : IssueRun i m₁ m) :
    m.Issues i ∧ (m.pool i).capability = capability ∧
      (m₀.view.Counted capability → m.view.Counted capability) := by
  obtain ⟨hissues₁, hcapability⟩ := issues_of_openPool h hzero
  obtain ⟨hissues, hsame, hcounted⟩ := hissues₁.run hrun
  rw [hcapability] at hsame hcounted
  obtain ⟨p, rfl, -⟩ := openPool_eq_ok h
  exact ⟨hissues, hsame, hcounted⟩

/-- As long as a pool has not graduated, its reserve covers the whole supply at the flat price, and
any part of the supply is quoted at its full worth. -/
theorem redeemable_of_run
    (hopen : openPool model capability (some terms) none treasury account m₀ = .ok i m₁)
    (hzero : m₀.supplyOf capability = 0) (hrun : IssueRun i m₁ m)
    (hflat : (m.pool i).state.isGraduated = false) :
    m.supplyOf capability * (m.pool i).state.terms.flatPrice ≤
        (m.pool i).state.reserve * Fixed.one ∧
      ∀ t, 0 ≤ t → t ≤ m.supplyOf capability →
        t * (m.pool i).state.terms.flatPrice / Fixed.one ≤ (m.pool i).state.reserve ∧
          ∃ q, (m.pool i).state.quoteSell (some (m.supplyOf capability)) (some t) = .ok q ∧
            q.reserveOut = t * (m.pool i).state.terms.flatPrice / Fixed.one := by
  obtain ⟨hissues, hcapability⟩ := issues_of_openPool hopen hzero
  obtain ⟨hissues', hsame, -⟩ := hissues.run hrun
  rw [hcapability] at hsame
  have hcovers := hissues'.covered hflat
  have hreserve := (PoolState.violations_eq_nil.mp hissues'.lawful).1
  rw [hsame] at hcovers
  refine ⟨hcovers, fun t hnonneg hle => ⟨hcovers.flatWorth_le hle, ?_⟩⟩
  exact hcovers.quoteSell hflat hreserve hnonneg hle

end Open

/-- Terms with a flat phase long enough to trade in. -/
def sampleFlatTerms : Terms := { sampleTerms with
  threshold := 60, threshold_pos := by decide, flatPrice := 3, flatPrice_pos := by decide
  tradeFee := 100, tradeFee_le := by decide }

def sampleFlat : Market :=
  (openPool (some "model") 0 (some sampleFlatTerms) none (some "treasury") none).stateAfter
    sampleMarket

def sampleFlatBuy : PoolCall := .buy (some 50) (some 0) (some "payer") 0 (some "payer")

def sampleFlatSell : PoolCall :=
  .sell (some 4000000000000000001) (some 0) (some "payer") 0 (some "payer")

def sampleFlatTraded : Market :=
  (servePool apply 0 sampleFlatSell).stateAfter
    ((servePool apply 0 sampleFlatBuy).stateAfter sampleFlat)

theorem sampleFlat_opened :
    openPool (some "model") 0 (some sampleFlatTerms) none (some "treasury") none sampleMarket =
      .ok 0 sampleFlat := rfl

theorem sampleFlatTraded_run : IssueRun 0 sampleFlat sampleFlatTraded :=
  (Relation.ReflTransGen.single (.call sampleFlatBuy)).tail (.call sampleFlatSell)

theorem redeemable_of_sample_run : ∃ q,
    (sampleFlatTraded.pool 0).state.quoteSell (some (sampleFlatTraded.supplyOf 0))
      (some 12666666666666666665) = .ok q ∧ q.reserveOut = 37 := by
  have hredeemable :=
    redeemable_of_run sampleFlat_opened (by decide) sampleFlatTraded_run (by decide +kernel)
  exact (hredeemable.2 12666666666666666665 (by decide) (by decide +kernel)).2

end CurveMarket
