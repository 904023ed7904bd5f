import CurveMarket.Proofs.Market.Movement
import CurveMarket.Proofs.Pool.Acceptance
import CurveMarket.Proofs.Pool.Outcome

/-! # What pool calls move

To the unit and for every account, what an accepted call of a pool moves. Net amounts and fees add
up to what is spent or freed, and each account has the sum of its parts in the call, be it sender,
recipient, treasury, the pool's own account or several of them. Nothing else of the market changes.
-/

namespace CurveMarket

open CurveMarket.Action Market

/-! ## The movement of a call -/

/-- What a call on pool `p` carries between accounts when it replies so, and the change of the
pool's reserve. -/
inductive PoolCall.Carries (m : Market) (p : Pool) : PoolCall → Reply → Movement → Int → Prop
  | buy {amount : Int} {minimum : Option Int} {receiver payer : Text} {deadline : Int} {q : BuyQuote}
      (quoted : p.state.quoteBuy (some (m.supplyOf p.capability)) (some amount) = .ok q)
      (parts : q.net + q.fee = amount) :
      Carries m p (.buy (some amount) minimum (some receiver) deadline (some payer))
        (.int q.tokensOut)
        { asset := Pi.single p.account q.net + Pi.single p.treasury q.fee - Pi.single payer amount
          tokens := Pi.single receiver q.tokensOut
          supply := q.tokensOut }
        q.net
  | sell {tokens : Int} {minimum : Option Int} {receiver seller : Text} {deadline : Int}
      {q : SellQuote}
      (quoted : p.state.quoteSell (some (m.supplyOf p.capability)) (some tokens) = .ok q)
      (parts : q.netOut + q.fee = q.reserveOut) :
      Carries m p (.sell (some tokens) minimum (some receiver) deadline (some seller))
        (.int q.netOut)
        { asset := Pi.single receiver q.netOut + Pi.single p.treasury q.fee -
            Pi.single p.account q.reserveOut
          tokens := -Pi.single seller tokens
          supply := -tokens }
        (-q.reserveOut)
  | depositFees {amount : Int} {payer : Text} :
      Carries m p (.depositFees (some amount) (some payer)) .nothing
        { asset := Pi.single p.account amount - Pi.single payer amount, tokens := 0, supply := 0 }
        amount
  | withdrawTreasury {amount : Int} :
      Carries m p (.withdrawTreasury (some amount)) .nothing
        { asset := Pi.single p.treasury amount - Pi.single p.account amount, tokens := 0,
          supply := 0 }
        0

def PoolCall.isTransfer : PoolCall → Bool
  | buy .. | sell .. | depositFees .. | withdrawTreasury .. => true
  | _ => false

section Plans

variable {p : Pool} {amount tokens : Int} {receiver trader : Text}

theorem total_buyPlan {q : BuyQuote} (hparts : q.net + q.fee = amount) :
    Effect.total (buyPlan p amount receiver trader q).effects =
      { asset := Pi.single p.account q.net + Pi.single p.treasury q.fee - Pi.single trader amount
        tokens := Pi.single receiver q.tokensOut
        supply := q.tokensOut } := by
  rw [← hparts]
  ext
  · simp [buyPlan, Effect.movement, Movement.payment, Movement.issue, Pi.single_add]
    ring
  · simp [buyPlan, Effect.movement, Movement.payment, Movement.issue]
  · simp [buyPlan, Effect.movement, Movement.payment, Movement.issue]

theorem total_sellPlan {q : SellQuote} (hparts : q.netOut + q.fee = q.reserveOut) :
    Effect.total (sellPlan p tokens receiver trader q).effects =
      { asset := Pi.single receiver q.netOut + Pi.single p.treasury q.fee -
          Pi.single p.account q.reserveOut
        tokens := -Pi.single trader tokens
        supply := -tokens } := by
  rw [← hparts]
  ext
  · simp [sellPlan, Effect.movement, Movement.payment, Movement.issue, Pi.single_add]
    ring
  · simp [sellPlan, Effect.movement, Movement.payment, Movement.issue, Pi.single_neg]
  · simp [sellPlan, Effect.movement, Movement.payment, Movement.issue]

theorem through_buyPlan {q : BuyQuote} :
    ∀ e ∈ (buyPlan p amount receiver trader q).effects, e.Through p.capability := by
  refine List.forall_mem_append.mpr ⟨List.forall_mem_append.mpr ⟨?_, ?_⟩, ?_⟩
  · exact Effect.through_moves
  · exact Effect.through_moves
  · exact List.forall_mem_singleton.mpr rfl

theorem through_sellPlan {q : SellQuote} :
    ∀ e ∈ (sellPlan p tokens receiver trader q).effects, e.Through p.capability := by
  refine List.forall_mem_append.mpr ⟨List.forall_mem_append.mpr ⟨?_, ?_⟩, ?_⟩
  · exact List.forall_mem_singleton.mpr rfl
  · exact Effect.through_moves
  · exact Effect.through_moves

end Plans

/-! ## What a call has moved -/

/-- From `m` to `m'` a call on pool `i` has moved `x` and changed the pool's reserve by `change`. The
rest of the market is as it was, and so are the terms of the pool, its switches and its clock, apart
from a graduation. -/
structure Market.Moved (m : Market) (i : Nat) (x : Movement) (change : Int) (m' : Market) :
    Prop where
  held : ∀ account, m'.held account = m.held account + x.asset account
  balance : ∀ account, m'.tokenBalance (m.pool i).capability (some account) =
    m.tokenBalance (m.pool i).capability (some account) + x.tokens account
  supply : m'.supplyOf (m.pool i).capability = m.supplyOf (m.pool i).capability + x.supply
  reserve : (m'.pool i).state.reserve = (m.pool i).state.reserve + change
  rest : ∃ graduated events, m'.view =
    (m.view.after (m.pool i).capability x).updatePool i fun p =>
      { p with
        state := { (m.pool i).state with
          reserve := (m.pool i).state.reserve + change, graduated := graduated }
        supply := m.supplyOf (m.pool i).capability + x.supply
        events := p.events ++ events }

section Accepted

variable {i : Nat} {m m' : Market} (hlisted : i < m.pools.length)
  (hapart : m.view.Apart (m.pool i).capability)
include hlisted hapart

theorem moved_of_commits {α : Type} {d : PoolPlan α} {change : Int} {x : Movement}
    (hcommits : m.view.Commits i d m'.view)
    (hthrough : ∀ e ∈ d.effects, e.Through (m.pool i).capability)
    (htotal : Effect.total d.effects = x)
    (hpost : ∃ graduated, d.post = { (m.pool i).state with
      reserve := (m.pool i).state.reserve + change, graduated := graduated }) :
    m.Moved i x change m' := by
  obtain ⟨-, u, hmoves, -, hview, hpool⟩ := hcommits.exists_moves hlisted
  have hafter := hmoves.eq_after hthrough
  have hsupply := hmoves.supplyOf_eq hthrough
  obtain ⟨graduated, hpost⟩ := hpost
  rw [htotal] at hafter hsupply
  rw [view_pool, view_pool] at hpool
  rw [view_supplyOf] at hsupply
  constructor
  · intro account
    rw [← view_held, ← view_held, ← MarketView.held_after hapart, ← hafter, hview]
    rfl
  · intro account
    rw [← view_balanceOf, ← view_balanceOf, ← MarketView.balanceOf_after hapart, ← hafter, hview]
    rfl
  · rw [← view_supplyOf, hview]
    exact hsupply
  · rw [hpool]
    show d.post.reserve = _
    rw [hpost]
  · refine ⟨graduated, d.events ++ if d.post.isGraduated && !(m.pool i).state.isGraduated then
      [.phaseChanged d.post.reserve] else [], ?_⟩
    rw [hview, view_pool, hsupply, hafter, ← hpost]
    congr 1
    funext p
    simp only [committed, List.append_assoc]

/-- An accepted call carries the parts of its amount to its accounts, whichever of them are the same,
and nothing else. -/
theorem moved_of_accepted {run : Executor} {c : PoolCall} {reply : Reply}
    (hrun : run.Direct m.callbacks) (htransfer : c.isTransfer = true)
    (haccepted : servePool run i c m = .ok reply m') :
    ∃ x change, c.Carries m (m.pool i) reply x change ∧ m.Moved i x change m' := by
  cases c with
  | buy amount minimum recipient deadline sender =>
      obtain ⟨a, least, receiver, payer, q, rfl, rfl, rfl, hadmitted, rfl, hcommits⟩ :=
        accepted_buy hrun haccepted
      obtain ⟨-, -, hparts, -⟩ := PoolState.quoteBuy_eq_ok hadmitted.quoted
      refine ⟨_, _, .buy hadmitted.quoted hparts, ?_⟩
      exact moved_of_commits hlisted hapart hcommits through_buyPlan (total_buyPlan hparts) ⟨_, rfl⟩
  | sell tokens minimum recipient deadline sender =>
      obtain ⟨t, least, receiver, seller, q, rfl, rfl, rfl, hadmitted, rfl, hcommits⟩ :=
        accepted_sell hrun haccepted
      obtain ⟨-, -, hparts, -, -⟩ := PoolState.quoteSell_eq_ok hadmitted.quoted
      refine ⟨_, _, .sell hadmitted.quoted hparts, ?_⟩
      exact moved_of_commits hlisted hapart hcommits through_sellPlan (total_sellPlan hparts)
        ⟨_, rfl⟩
  | depositFees amount sender =>
      obtain ⟨payer, a, rfl, rfl, -, rfl, d, heffects, hpost, hcommits⟩ :=
        accepted_deposit hrun haccepted
      refine ⟨_, _, .depositFees, moved_of_commits hlisted hapart hcommits ?_ ?_ ⟨_, hpost⟩⟩
      · rw [heffects]
        exact Effect.through_moves
      · rw [heffects, Effect.total_moves]
        rfl
  | withdrawTreasury amount =>
      obtain ⟨a, rfl, -, -, rfl, d, heffects, hpost, hcommits⟩ := accepted_withdrawal hrun haccepted
      refine ⟨_, _, .withdrawTreasury, moved_of_commits hlisted hapart hcommits ?_ ?_
        ⟨(m.pool i).state.graduated, ?_⟩⟩
      · rw [heffects]
        exact Effect.through_moves
      · rw [heffects, Effect.total_moves]
        rfl
      · rw [hpost, Int.add_zero]
  | _ => cases htransfer

end Accepted

/-- A sale whose proceeds go back to the account that pays them out, but for the fee. -/
theorem moved_of_sample_sell :
    ∃ m', servePool apply 0 (.sell (some 5000000000000000000) (some 0) (some "pool") 0
        (some "trader")) sampleTrading = .ok (.int 14) m' ∧
      m'.held "pool" = 36 ∧ m'.held "treasury" = 1 ∧ m'.held "trader" = 20 ∧
      m'.tokenBalance 0 (some "trader") = 7000000000000000000 ∧
      m'.supplyOf 0 = 7000000000000000000 ∧ (m'.pool 0).state.reserve = 22 := by
  obtain ⟨reply, hsell⟩ := exists_ok_of_outcome (s := sampleTrading)
    (a := servePool apply 0 (.sell (some 5000000000000000000) (some 0) (some "pool") 0
      (some "trader"))) (by decide +kernel)
  obtain ⟨x, change, hcarries, hmoved⟩ :=
    moved_of_accepted sampleTrading_ready.listed sampleTrading_ready.apart (apply_direct _) rfl hsell
  cases hcarries with
  | @sell _ _ _ _ _ q hquoted _ =>
      have hquote : (sampleTrading.pool 0).state.quoteSell
          (some (sampleTrading.supplyOf (sampleTrading.pool 0).capability))
          (some 5000000000000000000) = .ok ⟨5000000000000000000, 15, 1, 14⟩ := rfl
      obtain rfl : (⟨5000000000000000000, 15, 1, 14⟩ : SellQuote) = q :=
        Except.ok.inj (hquote.symm.trans hquoted)
      exact ⟨_, hsell, hmoved.held "pool", hmoved.held "treasury", hmoved.held "trader",
        hmoved.balance "trader", hmoved.supply, hmoved.reserve⟩

end CurveMarket
