import CurveMarket.Proofs.Pool.Safety

/-! # What accepted calls have done

A call that was accepted has passed its checks at a quote, and has committed the plan made at it:
the effects were carried out in order, and the pool holds the next state with the supply at that
moment.
-/

namespace CurveMarket

open CurveMarket.Action Market

/-! ## Commits -/

section Commit

variable {α : Type} {i : Nat} {m m' : Market} {d : PoolPlan α}

/-- A commit puts a lawful state in place and leaves the supplies as the effects made them. -/
theorem exists_moves_of_commits (h : m.view.Commits i d m'.view) (hlisted : i < m.pools.length) :
    d.post.violations = [] ∧ ∃ u, m.view.MovesAll d.effects u ∧
      (∀ c, m'.supplyOf c = u.supplyOf c) ∧
      m'.pool i = committed (m.pool i).state d.post (u.supplyOf (m.pool i).capability) d.events
        (m.pool i) := by
  obtain ⟨-, u, hmoves, hnone, hview, hpool⟩ := h.exists_moves hlisted
  refine ⟨(PoolState.stepViolations_eq_nil.mp hnone).1, u, hmoves, fun c => ?_, hpool⟩
  rw [← view_supplyOf, hview]
  rfl

end Commit

/-! ## The calls that move value -/

section Accepted

variable {run : Executor} {i : Nat} {m m' : Market} {amount minimum : Option Int}
  {recipient sender : Option Text} {deadline : Int} {reply : Reply}
  (hrun : run.Direct m.callbacks)
include hrun

theorem accepted_buy
    (h : servePool run i (.buy amount minimum recipient deadline sender) m = .ok reply m') :
    ∃ a least receiver payer q, amount = some a ∧ recipient = some receiver ∧
      sender = some payer ∧ BuyAdmitted m (m.pool i) a least receiver deadline payer q ∧
      reply = .int q.tokensOut ∧
      m.view.Commits i (buyPlan (m.pool i) a receiver payer q) m'.view := by
  have hserved : (Reply.int <$> buy run i amount minimum recipient deadline sender) m =
      .ok reply m' := h
  obtain ⟨x, hbuy, rfl⟩ := map_eq_ok.mp hserved
  obtain ⟨d, hd, rfl, hcommits⟩ := decided_of_ok hrun (fun _ => rfl) hbuy
  obtain ⟨a, least, receiver, payer, q, ha, -, hrecipient, hsender, hadmitted, rfl⟩ :=
    decideBuy_eq_ok_iff.mp hd
  exact ⟨a, least, receiver, payer, q, ha, hrecipient, hsender, hadmitted, rfl, hcommits⟩

theorem accepted_sell
    (h : servePool run i (.sell amount minimum recipient deadline sender) m = .ok reply m') :
    ∃ t least receiver seller q, amount = some t ∧ recipient = some receiver ∧
      sender = some seller ∧ SellAdmitted m (m.pool i) t least receiver deadline seller q ∧
      reply = .int q.netOut ∧
      m.view.Commits i (sellPlan (m.pool i) t receiver seller q) m'.view := by
  have hserved : (Reply.int <$> sell run i amount minimum recipient deadline sender) m =
      .ok reply m' := h
  obtain ⟨x, hsell, rfl⟩ := map_eq_ok.mp hserved
  obtain ⟨d, hd, rfl, hcommits⟩ := decided_of_ok hrun (fun _ => rfl) hsell
  obtain ⟨t, least, receiver, seller, q, ht, -, hrecipient, hsender, hadmitted, rfl⟩ :=
    decideSell_eq_ok_iff.mp hd
  exact ⟨t, least, receiver, seller, q, ht, hrecipient, hsender, hadmitted, rfl, hcommits⟩

theorem accepted_deposit (h : servePool run i (.depositFees amount sender) m = .ok reply m') :
    ∃ payer a, sender = some payer ∧ amount = some a ∧ 0 < a ∧ reply = .nothing ∧
      ∃ d : PoolPlan Unit, d.effects = Effect.moves (some payer) (some (m.pool i).account) a ∧
        d.post = (m.pool i).state.afterDeposit a ∧ m.view.Commits i d m'.view := by
  have hserved : (depositFees run i amount sender >>= fun _ => pure Reply.nothing) m =
      .ok reply m' := h
  obtain ⟨x, m₂, hdeposit, hdone⟩ := bind_eq_ok.mp hserved
  obtain ⟨rfl, rfl⟩ := pure_eq_ok.mp hdone
  obtain ⟨d, hd, -, hcommits⟩ := decided_of_ok hrun (fun _ => rfl) hdeposit
  obtain ⟨payer, a, hsender, ⟨ha, hpos⟩, heffects, hpost, -⟩ := decideDeposit_eq_ok hd
  exact ⟨payer, a, hsender, ha, hpos, rfl, d, heffects, hpost, hcommits⟩

theorem accepted_withdrawal (h : servePool run i (.withdrawTreasury amount) m = .ok reply m') :
    ∃ a, amount = some a ∧ 0 < a ∧ a ≤ m.surplus i ∧ reply = .nothing ∧
      ∃ d : PoolPlan Unit,
        d.effects = Effect.moves (some (m.pool i).account) (some (m.pool i).treasury) a ∧
        d.post = (m.pool i).state ∧ m.view.Commits i d m'.view := by
  have hserved : (withdrawTreasury run i amount >>= fun _ => pure Reply.nothing) m =
      .ok reply m' := h
  obtain ⟨x, m₂, hwithdrawal, hdone⟩ := bind_eq_ok.mp hserved
  obtain ⟨rfl, rfl⟩ := pure_eq_ok.mp hdone
  obtain ⟨d, hd, -, hcommits⟩ := decided_of_ok hrun (fun _ => rfl) hwithdrawal
  obtain ⟨a, ⟨ha, hpos⟩, hsurplus, heffects, hpost, -⟩ := decideWithdrawal_eq_ok hd
  exact ⟨a, ha, hpos, hsurplus, rfl, d, heffects, hpost, hcommits⟩

end Accepted

end CurveMarket
