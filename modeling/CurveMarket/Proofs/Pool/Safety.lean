import Mathlib.Logic.Relation
import CurveMarket.Proofs.Pool.Decision

/-! # Safety of a pool over whole runs

A run around a pool interleaves its mutating calls, however they end, with whatever others do that
takes nothing from the pool's account. Along every run the state stays lawful and backed by that
account, and no call is ever stopped by a broken rule.
-/

namespace CurveMarket

open CurveMarket.Action Market

def PoolCall.payer : PoolCall → Option Text
  | .buy _ _ _ _ sender => sender
  | .depositFees _ sender => sender
  | _ => none

/-- A step of a run around pool `i`. Others may do what they like, except take from the pool's
account or touch the pool itself. -/
inductive PoolStep (i : Nat) : Market → Market → Prop
  | call {m : Market} (c : PoolCall) (mutating : c.isMutating = true)
      (payer : c.payer ≠ some (m.pool i).account) :
      PoolStep i m ((servePool apply i c).stateAfter m)
  | others {m m' : Market} (listed : m'.pools[i]? = m.pools[i]?)
      (held : m.held (m.pool i).account ≤ m'.held (m.pool i).account)
      (apart : m.view.Apart (m.pool i).capability → m'.view.Apart (m.pool i).capability) :
      PoolStep i m m'

/-- A transfer by anyone but the pool's account is a step of others, refused or not. -/
theorem poolStep_transfer (i : Nat) (m : Market) {sender : Text} (h : sender ≠ (m.pool i).account)
    (recipient : Option Text) (amount : Option Int) :
    PoolStep i m ((apply (.transfer sender recipient amount)).stateAfter m) := by
  refine Ends.stateAfter (P := PoolStep i m) ((apply_ends _ m).imp ?_ ?_)
  · intro _ m' hmoves
    refine .others ?_ ?_ fun hapart => hmoves.apart hapart
    · have hpools : m'.view.pools = m.view.pools := by rw [hmoves.eq]
      exact congrArg (·[i]?) hpools
    · show _ ≤ m'.view.held (m.pool i).account
      generalize m'.view = w at hmoves
      cases hmoves with
      | @transfer _ payee _ _ _ hle =>
          rw [MarketView.held_afterPay]
          exact Int.le_add_of_nonneg_right (MarketView.gain_nonneg h payee hle)
  · rintro e m' ⟨-, hsame, -⟩
    rw [hsame]
    exact .others rfl (Int.le_refl _) id

structure Market.Safe (m : Market) (i : Nat) : Prop where
  listed : i < m.pools.length
  lawful : (m.pool i).state.violations = []
  backed : (m.pool i).state.reserve ≤ m.held (m.pool i).account
  apart : m.view.Apart (m.pool i).capability

theorem pool_eq_of_view_eq {m m' : Market} (h : m'.view = m.view) (i : Nat) :
    m'.pool i = m.pool i := by
  show m'.view.pool i = m.view.pool i
  rw [h]

theorem held_eq_of_view_eq {m m' : Market} (h : m'.view = m.view) (account : Text) :
    m'.held account = m.held account := by
  show m'.view.held account = m.view.held account
  rw [h]

theorem pool_eq_of_getElem? {m m' : Market} {i : Nat} (h : m'.pools[i]? = m.pools[i]?) :
    m'.pool i = m.pool i := by
  unfold pool
  rw [List.getD_eq_getElem?_getD, h, ← List.getD_eq_getElem?_getD]

theorem listed_of_getElem? {m m' : Market} {i : Nat} (hlisted : i < m.pools.length)
    (h : m'.pools[i]? = m.pools[i]?) : i < m'.pools.length := by
  have hsome := List.getElem?_eq_getElem hlisted
  rw [← h] at hsome
  exact (List.getElem?_eq_some_iff.mp hsome).1

theorem Market.Safe.of_view_eq {m m' : Market} {i : Nat} (hsafe : m.Safe i)
    (h : m'.view = m.view) : m'.Safe i := by
  have hpools : m'.pools = m.pools := congrArg MarketView.pools h
  constructor
  · rw [hpools]
    exact hsafe.listed
  · rw [pool_eq_of_view_eq h]
    exact hsafe.lawful
  · rw [pool_eq_of_view_eq h, held_eq_of_view_eq h]
    exact hsafe.backed
  · rw [pool_eq_of_view_eq h, h]
    exact hsafe.apart

theorem Market.Safe.commits {α : Type} {m m' : Market} {i : Nat} {d : PoolPlan α}
    (hsafe : m.Safe i) (h : m.view.Commits i d m'.view) :
    m'.Safe i ∧ (m'.pool i).state = d.post := by
  obtain ⟨hlength, u, hmoves, hnone, hu, hpool⟩ := h.exists_moves hsafe.listed
  rw [view_pool, view_pool] at hpool
  have hheld (account : Text) : m'.held account = u.held account := by
    show m'.view.held account = u.held account
    rw [hu]
    rfl
  have hapart : m'.view.Apart (m.pool i).capability := by
    rw [hu]
    exact hmoves.apart hsafe.apart
  rw [PoolState.stepViolations_eq_nil] at hnone
  rcases hnone with ⟨hlawful, -, -, hbacked, -⟩
  refine ⟨⟨?_, ?_, ?_, ?_⟩, ?_⟩
  · show i < m'.view.pools.length
    rw [hlength]
    exact hsafe.listed
  · rw [hpool]
    exact hlawful
  · rw [hpool, hheld]
    exact hbacked
  · rw [hpool]
    exact hapart
  · rw [hpool]
    rfl

/-! ## One step -/

section Step

variable {i : Nat} {m : Market} {α : Type} {d : PoolPlan α} {u : MarketView}

/-- What a decision has to offer to be committed: it continues the state with a lawful one, and its
effects leave the account with what that asks for. -/
structure Sound (i : Nat) (m : Market) (d : PoolPlan α) (u : MarketView) : Prop where
  follows : (m.pool i).state.Follows d.post d.change
  backed : d.post.reserve ≤ u.held (m.pool i).account

theorem Sound.unbroken (h : Sound i m d u) :
    (m.pool i).state.stepViolations d.post (u.held (m.pool i).account) (some d.change) = [] :=
  PoolState.stepViolations_eq_nil.mpr ⟨h.follows.lawful, h.follows.continued.graduated,
    h.follows.continued.positive, h.backed, h.follows.change⟩

/-- The net amount of a buy reaches the account from elsewhere, and the fee at worst passes by. -/
theorem sound_buy (hsafe : m.Safe i) {amount minimum : Option Int}
    {recipient sender : Option Text} {deadline : Int} {d : PoolPlan Int}
    (h : decideBuy amount minimum recipient deadline sender m (m.pool i) = .ok d)
    (hmoves : m.view.MovesAll d.effects u) (hpayer : sender ≠ some (m.pool i).account) :
    Sound i m d u := by
  have hfollows := follows_buy hsafe.lawful h
  obtain ⟨payer, receiver, a, q, rfl, -, -, hq, -, heffects, hpost, hchange⟩ := decideBuy_eq_ok h
  obtain ⟨hnet, hfee, -, -⟩ := PoolState.quoteBuy_eq_ok hq
  have hne : payer ≠ (m.pool i).account := fun heq => hpayer (by rw [heq])
  rw [heffects, MarketView.movesAll_append_append] at hmoves
  rcases hmoves with ⟨v₁, v₂, hfirst, hsecond, hminted⟩
  rw [MarketView.movesAll_singleton] at hminted
  have hapart := hsecond.apart (hfirst.apart hsafe.apart)
  have hheld := hminted.held_mint hapart (m.pool i).account
  rw [MarketView.held_of_moves hsecond, MarketView.held_of_moves hfirst,
    MarketView.gain_payee hne, view_held] at hheld
  have hgain := MarketView.gain_nonneg hne (m.pool i).treasury hfee
  have hbacked := hsafe.backed
  have hreserve := hfollows.change
  exact ⟨hfollows, by omega⟩

/-- A sell pays out what it takes from the reserve and no more, since fee and net amount add up. -/
theorem sound_sell (hsafe : m.Safe i) {tokens minimum : Option Int}
    {recipient sender : Option Text} {deadline : Int} {d : PoolPlan Int}
    (h : decideSell tokens minimum recipient deadline sender m (m.pool i) = .ok d)
    (hmoves : m.view.MovesAll d.effects u) : Sound i m d u := by
  have hfollows := follows_sell hsafe.lawful h
  obtain ⟨seller, receiver, t, q, -, -, -, -, hq, heffects, hpost, hchange⟩ := decideSell_eq_ok h
  obtain ⟨hnet, hfee, hsum, -, -⟩ := PoolState.quoteSell_eq_ok hq
  rw [heffects, MarketView.movesAll_append_append] at hmoves
  rcases hmoves with ⟨v₁, v₂, hburn, hfirst, hsecond⟩
  rw [MarketView.movesAll_singleton] at hburn
  have hheld := MarketView.held_of_moves hsecond (m.pool i).account
  rw [MarketView.held_of_moves hfirst, hburn.held_burn hsafe.apart, view_held] at hheld
  have hpaid := MarketView.neg_le_gain (m.pool i).account receiver (m.pool i).account hnet
  have htaken :=
    MarketView.neg_le_gain (m.pool i).account (m.pool i).treasury (m.pool i).account hfee
  have hbacked := hsafe.backed
  have hreserve := hfollows.change
  exact ⟨hfollows, by omega⟩

theorem backed_deposit (hsafe : m.Safe i) {amount : Option Int} {sender : Option Text}
    {d : PoolPlan Unit} (h : decideDeposit amount sender (m.pool i) = .ok d)
    (hmoves : m.view.MovesAll d.effects u) (hpayer : sender ≠ some (m.pool i).account) :
    d.post.reserve ≤ u.held (m.pool i).account := by
  obtain ⟨payer, a, rfl, -, heffects, hpost, -, -⟩ := decideDeposit_eq_ok h
  have hne : payer ≠ (m.pool i).account := fun heq => hpayer (by rw [heq])
  rw [heffects] at hmoves
  have hheld := MarketView.held_of_moves hmoves (m.pool i).account
  rw [MarketView.gain_payee hne, view_held] at hheld
  have hbacked := hsafe.backed
  have hreserve : d.post.reserve = (m.pool i).state.reserve + a := by
    rw [hpost]
    rfl
  omega

/-- A withdrawal takes no more than the surplus over the reserve. -/
theorem backed_withdrawal (hsafe : m.Safe i) {amount : Option Int} {d : PoolPlan Unit}
    (h : decideWithdrawal i amount m (m.pool i) = .ok d)
    (hmoves : m.view.MovesAll d.effects u) : d.post.reserve ≤ u.held (m.pool i).account := by
  obtain ⟨a, ⟨-, hpos⟩, hsurplus, heffects, hpost, -⟩ := decideWithdrawal_eq_ok h
  rw [heffects] at hmoves
  have hheld := MarketView.held_of_moves hmoves (m.pool i).account
  rw [view_held] at hheld
  have htaken :=
    MarketView.neg_le_gain (m.pool i).account (m.pool i).treasury (m.pool i).account
      (Int.le_of_lt hpos)
  have hbacked := hsafe.backed
  unfold surplus at hsurplus
  rw [hpost]
  omega

theorem backed_quiet (hsafe : m.Safe i) (heffects : d.effects = [])
    (hreserve : d.post.reserve = (m.pool i).state.reserve)
    (hmoves : m.view.MovesAll d.effects u) : d.post.reserve ≤ u.held (m.pool i).account := by
  rw [heffects] at hmoves
  cases hmoves
  rw [hreserve]
  exact hsafe.backed

theorem sound_decision (hsafe : m.Safe i) {c : PoolCall} {d : PoolPlan Unit}
    (hc : c.decision i m (m.pool i) = some (.ok d)) (hpayer : c.payer ≠ some (m.pool i).account)
    (hmoves : m.view.MovesAll d.effects u) : Sound i m d u := by
  refine ⟨follows_decision hsafe.lawful hc, ?_⟩
  cases c with
  | buy amount minimum recipient deadline sender =>
      obtain ⟨d', hd', rfl⟩ := Check.map_eq_ok.mp (Option.some.inj hc)
      exact (sound_buy hsafe hd' hmoves hpayer).backed
  | sell tokens minimum recipient deadline sender =>
      obtain ⟨d', hd', rfl⟩ := Check.map_eq_ok.mp (Option.some.inj hc)
      exact (sound_sell hsafe hd' hmoves).backed
  | depositFees amount sender => exact backed_deposit hsafe (Option.some.inj hc) hmoves hpayer
  | withdrawTreasury amount => exact backed_withdrawal hsafe (Option.some.inj hc) hmoves
  | setParameters ratio fee =>
      obtain ⟨heffects, -, t, -, hpost⟩ := decideParameters_eq_ok (Option.some.inj hc)
      exact backed_quiet hsafe heffects (by rw [hpost]) hmoves
  | setTradeCap cap =>
      obtain ⟨heffects, -, t, -, hpost⟩ := decideTradeCap_eq_ok (Option.some.inj hc)
      exact backed_quiet hsafe heffects (by rw [hpost]) hmoves
  | pause =>
      obtain ⟨heffects, -, hpost⟩ := decidePause_eq_ok (Option.some.inj hc)
      exact backed_quiet hsafe heffects (by rw [hpost]; rfl) hmoves
  | unpause =>
      obtain ⟨heffects, -, hpost⟩ := decideUnpause_eq_ok (Option.some.inj hc)
      exact backed_quiet hsafe heffects (by rw [hpost]; rfl) hmoves
  | _ => cases hc

/-- A mutating call on a safe pool commits a sound decision, or is refused and leaves no trace. -/
theorem servePool_safe_ends (hsafe : m.Safe i) {c : PoolCall} (hmutating : c.isMutating = true)
    (hpayer : c.payer ≠ some (m.pool i).account) :
    Ends (servePool apply i c) m
      (fun _ m' => m'.Safe i ∧ (m.pool i).state.Continues (m'.pool i).state)
      (fun e m' => e.IsRefusal ∧ m'.view = m.view) := by
  rw [← isSome_decision i m (m.pool i)] at hmutating
  obtain ⟨plan, hc⟩ := Option.isSome_iff_exists.mp hmutating
  have herrors : PlanErrors i m plan Error.IsRefusal := by
    constructor
    · exact fun _ h => h
    · exact decision_refuses hc
    · intro d u broken hd hmoves hbroken hne
      rw [hd] at hc
      exact absurd (hbroken.symm.trans (sound_decision hsafe hc hpayer hmoves).unbroken) hne
  refine (servePool_ends (apply_direct _) hc herrors).imp ?_ fun _ _ h => h
  intro _ m' hok
  rcases hok with ⟨d, hd, hcommits⟩
  rw [hd] at hc
  obtain ⟨hsafe', hpost⟩ := hsafe.commits hcommits
  rw [hpost]
  exact ⟨hsafe', (follows_decision hsafe.lawful hc).continued⟩

theorem Market.Safe.step {m' : Market} (hsafe : m.Safe i) (h : PoolStep i m m') :
    m'.Safe i ∧ (m.pool i).state.Continues (m'.pool i).state := by
  cases h with
  | call c hmutating hpayer =>
      have hends := servePool_safe_ends hsafe hmutating hpayer
      unfold stateAfter
      cases hresult : servePool apply i c m with
      | ok reply m' => exact hends.of_ok hresult
      | error e m' =>
          have hview := (hends.of_error hresult).2
          refine ⟨hsafe.of_view_eq hview, ?_⟩
          show (m.pool i).state.Continues (m'.pool i).state
          rw [pool_eq_of_view_eq hview]
          exact .refl _
  | others hpools hheld hapart =>
      have hpool := pool_eq_of_getElem? hpools
      refine ⟨⟨listed_of_getElem? hsafe.listed hpools, ?_, ?_, ?_⟩, ?_⟩
      · rw [hpool]
        exact hsafe.lawful
      · rw [hpool]
        exact Int.le_trans hsafe.backed hheld
      · rw [hpool]
        exact hapart hsafe.apart
      · rw [hpool]
        exact .refl _

end Step

/-! ## Runs -/

def PoolRun (i : Nat) : Market → Market → Prop := Relation.ReflTransGen (PoolStep i)

theorem Market.Safe.run {m m' : Market} {i : Nat} (hsafe : m.Safe i) (h : PoolRun i m m') :
    m'.Safe i ∧ (m.pool i).state.Continues (m'.pool i).state := by
  induction h with
  | refl => exact ⟨hsafe, .refl _⟩
  | tail _ hstep ih =>
      rcases ih with ⟨hsafe', hcontinued⟩
      obtain ⟨hsafe'', hnext⟩ := hsafe'.step hstep
      exact ⟨hsafe'', hcontinued.trans hnext⟩

section Open

variable {model treasury account : Option Text} {capability : Nat} {terms : Option Terms}
  {state : Option PoolState} {m₀ m₁ : Market} {i : Nat}

theorem openPool_eq_ok
    (h : openPool model capability terms state treasury account m₀ = .ok i m₁) :
    ∃ p : Pool, m₁ = { m₀ with pools := m₀.pools ++ [p] } ∧ i = m₀.pools.length ∧
      p.capability = capability ∧ firstState m₀.now terms state = .ok p.state ∧
      p.supply = m₀.supplyOf capability ∧ p.account.isEmpty = false ∧
      p.treasury.isEmpty = false := by
  unfold openPool at h
  cases model with
  | none => cases h
  | some name =>
      obtain ⟨-, h⟩ := test_eq_ok.mp h
      obtain ⟨t, m, ht, h⟩ := bind_eq_ok.mp h
      obtain ⟨htreasury, rfl⟩ := ofExcept_eq_ok.mp ht
      obtain ⟨_, _, hget, h⟩ := bind_eq_ok.mp h
      cases hget
      obtain ⟨s, m, hs, h⟩ := bind_eq_ok.mp h
      obtain ⟨hstate, rfl⟩ := ofExcept_eq_ok.mp hs
      cases h
      refine ⟨_, rfl, rfl, rfl, hstate, rfl, ?_, (requireAccount_eq_ok.mp htreasury).2⟩
      cases account with
      | none => rfl
      | some a =>
          dsimp only
          split
          · rfl
          · rename_i hfilled
            simpa using hfilled

theorem pool_append (m : Market) (p : Pool) :
    ({ m with pools := m.pools ++ [p] } : Market).pool m.pools.length = p := by
  unfold pool
  rw [List.getD_eq_getElem _ _ (by simp)]
  simp

/-- New terms start without a reserve, which any account backs. -/
theorem safe_of_openPool
    (h : openPool model capability terms state treasury account m₀ = .ok i m₁)
    (hstate : ∀ s, state = some s → s.violations = [] ∧ s.reserve ≤ m₁.held (m₁.pool i).account)
    (hapart : m₁.view.Apart capability) : m₁.Safe i := by
  obtain ⟨p, rfl, rfl, rfl, hfirst, -⟩ := openPool_eq_ok h
  have hpool := pool_append m₀ p
  rw [hpool] at hstate
  have hsound : p.state.violations = [] ∧
      p.state.reserve ≤ ({ m₀ with pools := m₀.pools ++ [p] } : Market).held p.account := by
    cases terms with
    | none =>
        cases state with
        | none => cases hfirst
        | some s =>
            cases hfirst
            exact hstate _ rfl
    | some t =>
        cases state with
        | some s => cases hfirst
        | none =>
            have hs : p.state = { terms := t, buyOnlyUntil := m₀.now + t.buyOnlySeconds } :=
              (Except.ok.inj hfirst).symm
            rw [hs]
            refine ⟨PoolState.violations_eq_nil.mpr ⟨Int.le_refl 0, .inr ?_⟩, ?_⟩
            · exact Int.natCast_pos.mpr t.threshold_pos
            · exact BalanceTable.get_nonneg _ _
  refine ⟨by simp, ?_, ?_, ?_⟩
  · rw [hpool]
    exact hsound.1
  · rw [hpool]
    exact hsound.2
  · rw [hpool]
    exact hapart

/-- Along every run from its opening, a pool is lawful and backed, keeps what it has reached and
what its first terms fixed, and has no call stopped by a broken rule. -/
theorem pool_safe_of_run {m m' : Market}
    (hopen : openPool model capability terms state treasury account m₀ = .ok i m₁)
    (hstate : ∀ s, state = some s → s.violations = [] ∧ s.reserve ≤ m₁.held (m₁.pool i).account)
    (hapart : m₁.view.Apart capability) (hbefore : PoolRun i m₁ m) (hafter : PoolRun i m m') :
    (m'.pool i).state.violations = [] ∧
      (m'.pool i).state.reserve ≤ m'.held (m'.pool i).account ∧
      (0 < (m.pool i).state.reserve → 0 < (m'.pool i).state.reserve) ∧
      ((m.pool i).state.isGraduated = true → (m'.pool i).state.isGraduated = true) ∧
      (m'.pool i).state.buyOnlyUntil = (m₁.pool i).state.buyOnlyUntil ∧
      (m'.pool i).state.terms.threshold = (m₁.pool i).state.terms.threshold ∧
      (m'.pool i).state.terms.flatPrice = (m₁.pool i).state.terms.flatPrice ∧
      (m'.pool i).state.terms.buyOnlySeconds = (m₁.pool i).state.terms.buyOnlySeconds ∧
      ∀ c : PoolCall, c.isMutating = true → c.payer ≠ some (m'.pool i).account →
        ∀ e, (servePool apply i c).outcome m' = .error e → e.kind ≠ .invariantViolation := by
  obtain ⟨hsafe, hfirst⟩ := (safe_of_openPool hopen hstate hapart).run hbefore
  obtain ⟨hsafe', hlater⟩ := hsafe.run hafter
  have hall := hfirst.trans hlater
  refine ⟨hsafe'.lawful, hsafe'.backed, hlater.positive, hlater.graduated, hall.buyOnlyUntil,
    hall.threshold, hall.flatPrice, hall.buyOnlySeconds, ?_⟩
  intro c hmutating hpayer e he
  have hends := servePool_safe_ends hsafe' hmutating hpayer
  unfold outcome at he
  cases hresult : servePool apply i c m' with
  | ok reply m'' =>
      rw [hresult] at he
      cases he
  | error e' m'' =>
      rw [hresult] at he
      cases he
      exact (hends.of_error hresult).1

end Open

def sampleMarket : Market where
  now := 0
  symbol := "asset"
  table := BalanceTable.empty.put ⟨"payer", "asset"⟩ 100 (by decide)
  tokens := [⟨{ name := "token", live := [1] }, some .empty⟩]
  capabilities := [⟨0, 1, .null⟩]

def sampleOpened : Market :=
  (openPool (some "model") 0 (some default) none (some "treasury") none).stateAfter sampleMarket

def sampleDeposit : PoolCall := .depositFees (some 5) (some "payer")

theorem pool_safe_of_sample_run :
    ((((servePool apply 0 .pause).stateAfter
      ((servePool apply 0 sampleDeposit).stateAfter sampleOpened))).pool 0).state.violations =
        [] := by
  have hopen : openPool (some "model") 0 (some default) none (some "treasury") none sampleMarket =
      .ok 0 sampleOpened := rfl
  have hdeposit : PoolStep 0 sampleOpened
      ((servePool apply 0 sampleDeposit).stateAfter sampleOpened) :=
    .call _ rfl (by decide)
  have hpause : PoolStep 0 ((servePool apply 0 sampleDeposit).stateAfter sampleOpened) _ :=
    .call .pause rfl nofun
  exact (pool_safe_of_run hopen nofun nofun (.single hdeposit) (.single hpause)).1

end CurveMarket
