import CurveMarket.Proofs.Market.Held
import CurveMarket.Proofs.Pool.Admission
import CurveMarket.Proofs.Pool.Call

/-! # Decisions of a pool's calls

What each call has established once it has decided what to do. Every decision continues a lawful
state with a lawful one, and accounts for exactly the change of the reserve.
-/

namespace CurveMarket

open Check Market

namespace PoolState

/-! ## Lawful states -/

theorem paramsInBounds_eq (s : PoolState) : s.paramsInBounds = true := by
  unfold paramsInBounds
  exact decide_eq_true ⟨s.terms.minRatio_le, s.terms.ratio_le, s.terms.tradeFee_le,
    s.terms.tradeCap_pos, s.terms.tradeCap_le⟩

theorem violations_eq_nil {s : PoolState} :
    s.violations = [] ↔
      0 ≤ s.reserve ∧ (s.isGraduated = true ∨ s.reserve < s.terms.threshold) := by
  unfold violations reserveNonNegative flatBelowThreshold
  rw [paramsInBounds_eq]
  by_cases hg : s.isGraduated = true
  · simp [hg]
  · simp [hg]

theorem lt_threshold_of_flat {s : PoolState} (h : s.violations = [])
    (hflat : s.isGraduated = false) : s.reserve < s.terms.threshold := by
  rw [violations_eq_nil, hflat] at h
  simpa using h.2

theorem stepViolations_eq_nil {pre post : PoolState} {held change : Int} :
    pre.stepViolations post held (some change) = [] ↔
      post.violations = [] ∧ (pre.isGraduated = true → post.isGraduated = true) ∧
      (0 < pre.reserve → 0 < post.reserve) ∧ post.reserve ≤ held ∧
      post.reserve - pre.reserve = change := by
  unfold stepViolations
  simp

/-- What a later state keeps of an earlier one. -/
structure Continues (pre post : PoolState) : Prop where
  graduated : pre.isGraduated = true → post.isGraduated = true
  positive : 0 < pre.reserve → 0 < post.reserve
  buyOnlyUntil : post.buyOnlyUntil = pre.buyOnlyUntil
  threshold : post.terms.threshold = pre.terms.threshold
  flatPrice : post.terms.flatPrice = pre.terms.flatPrice
  buyOnlySeconds : post.terms.buyOnlySeconds = pre.terms.buyOnlySeconds

theorem Continues.refl (s : PoolState) : s.Continues s :=
  ⟨id, id, rfl, rfl, rfl, rfl⟩

theorem Continues.trans {s t u : PoolState} (h : s.Continues t) (h' : t.Continues u) :
    s.Continues u where
  graduated := fun hg => h'.graduated (h.graduated hg)
  positive := fun hp => h'.positive (h.positive hp)
  buyOnlyUntil := h'.buyOnlyUntil.trans h.buyOnlyUntil
  threshold := h'.threshold.trans h.threshold
  flatPrice := h'.flatPrice.trans h.flatPrice
  buyOnlySeconds := h'.buyOnlySeconds.trans h.buyOnlySeconds

theorem isGraduated_addReserve (s : PoolState) (amount : Int) :
    (s.addReserve amount).isGraduated = true ↔
      s.isGraduated = true ∨ s.terms.threshold ≤ s.reserve + amount := by
  by_cases h : s.isGraduated = true
  · have hsame : (s.addReserve amount).graduated = s.graduated := if_pos h
    unfold isGraduated at h ⊢
    rw [hsame]
    simp [h]
  · have hnew : (s.addReserve amount).graduated =
        .bool (decide ((s.terms.threshold : Int) ≤ s.reserve + amount)) := if_neg h
    unfold isGraduated at h ⊢
    have hon (b : Bool) : (Value.bool b).isOn = b := rfl
    rw [hnew, hon]
    simp [h]

/-- A lawful next state, and the change of the reserve that it accounts for. -/
structure Follows (pre post : PoolState) (change : Int) : Prop where
  continued : pre.Continues post
  lawful : post.violations = []
  change : post.reserve - pre.reserve = change

theorem follows_of_same {pre post : PoolState} (hlawful : pre.violations = [])
    (hreserve : post.reserve = pre.reserve) (hgraduated : post.graduated = pre.graduated)
    (hbuyOnly : post.buyOnlyUntil = pre.buyOnlyUntil)
    (hthreshold : post.terms.threshold = pre.terms.threshold)
    (hflatPrice : post.terms.flatPrice = pre.terms.flatPrice)
    (hseconds : post.terms.buyOnlySeconds = pre.terms.buyOnlySeconds) : pre.Follows post 0 := by
  have hphase : post.isGraduated = pre.isGraduated := by
    unfold isGraduated
    rw [hgraduated]
  rw [violations_eq_nil] at hlawful
  refine ⟨⟨?_, ?_, hbuyOnly, hthreshold, hflatPrice, hseconds⟩, ?_, by omega⟩
  · rw [hphase]
    exact id
  · rw [hreserve]
    exact id
  · rw [violations_eq_nil, hphase, hreserve, hthreshold]
    exact hlawful

/-- Adding to the reserve graduates a pool exactly when the threshold is reached. -/
theorem follows_addReserve {s : PoolState} {amount : Int} (h : s.violations = [])
    (hle : 0 ≤ amount) : s.Follows (s.addReserve amount) amount := by
  rw [violations_eq_nil] at h
  have hreserve : (s.addReserve amount).reserve = s.reserve + amount := rfl
  have hterms : (s.addReserve amount).terms = s.terms := rfl
  refine ⟨⟨?_, ?_, rfl, rfl, rfl, rfl⟩, ?_, by omega⟩
  · intro hg
    exact (isGraduated_addReserve s amount).mpr (.inl hg)
  · intro hp
    omega
  · rw [violations_eq_nil, isGraduated_addReserve, hreserve, hterms]
    refine ⟨by omega, ?_⟩
    by_cases hreached : s.terms.threshold ≤ s.reserve + amount
    · exact .inl (.inr hreached)
    · exact .inr (by omega)

theorem follows_afterSell {s : PoolState} {q : SellQuote} (h : s.violations = [])
    (hnonneg : 0 ≤ q.reserveOut) (hle : q.reserveOut ≤ s.reserve)
    (hremains : 0 < s.reserve → q.reserveOut < s.reserve) :
    s.Follows (s.afterSell q) (-q.reserveOut) := by
  rw [violations_eq_nil] at h
  have hreserve : (s.afterSell q).reserve = s.reserve - q.reserveOut := rfl
  refine ⟨⟨id, ?_, rfl, rfl, rfl, rfl⟩, ?_, by omega⟩
  · intro hpos
    have := hremains hpos
    omega
  · rw [violations_eq_nil, hreserve]
    exact ⟨by omega, h.2.imp id fun hlt => show _ < (s.terms.threshold : Int) by omega⟩

end PoolState

/-! ## New terms -/

theorem checkPositive_eq_ok {what : Text} {n : Nat} {r : { n : Nat // 0 < n }}
    (h : checkPositive what (some (n : Int)) = .ok r) : r.val = n := by
  unfold checkPositive at h
  obtain ⟨v, hv, h⟩ := bind_eq_ok.mp h
  cases hv
  split at h
  · cases h
    exact Int.toNat_natCast n
  · cases h

theorem make_eq_ok {q : TermsRequest} {threshold price seconds : Nat} {t : Terms}
    (h : Terms.make q = .ok t) (hthreshold : q.threshold = some (threshold : Int))
    (hprice : q.flatPrice = some (price : Int))
    (hseconds : q.buyOnlySeconds = some (seconds : Int)) :
    t.threshold = threshold ∧ t.flatPrice = price ∧ t.buyOnlySeconds = seconds := by
  unfold Terms.make at h
  rw [hthreshold, hprice, hseconds] at h
  obtain ⟨ratio, -, h⟩ := bind_eq_ok.mp h
  obtain ⟨fee, -, h⟩ := bind_eq_ok.mp h
  obtain ⟨cap, -, h⟩ := bind_eq_ok.mp h
  obtain ⟨r, hr, h⟩ := bind_eq_ok.mp h
  obtain ⟨p, hp, h⟩ := bind_eq_ok.mp h
  obtain ⟨s, hs, h⟩ := bind_eq_ok.mp h
  cases h
  refine ⟨checkPositive_eq_ok hr, checkPositive_eq_ok hp, ?_⟩
  have hsame := requireNonNegative_eq_ok.mp hs
  exact (Int.ofNat_inj.mp (Option.some.inj hsame)).symm

/-- New terms of a pool keep what only the first terms may set. -/
theorem follows_newTerms {s : PoolState} {q : TermsRequest} {t : Terms}
    (hlawful : s.violations = []) (h : Terms.make q = .ok t)
    (hthreshold : q.threshold = s.terms.request.threshold)
    (hprice : q.flatPrice = s.terms.request.flatPrice)
    (hseconds : q.buyOnlySeconds = s.terms.request.buyOnlySeconds) :
    s.Follows { s with terms := t } 0 := by
  obtain ⟨ht, hp, hs⟩ := make_eq_ok h hthreshold hprice hseconds
  exact PoolState.follows_of_same hlawful rfl rfl rfl ht hp hs

/-! ## What each call decides -/

section Decide

variable {m : Market} {i : Nat} {p : Pool}

theorem decideBuy_eq_ok {amount minimum : Option Int} {recipient sender : Option Text}
    {deadline : Int} {d : PoolPlan Int}
    (h : decideBuy amount minimum recipient deadline sender m p = .ok d) :
    ∃ payer receiver a q, sender = some payer ∧ 0 < a ∧
      (p.state.isGraduated = true → a ≤ p.state.tradeLimit) ∧
      p.state.quoteBuy (some (m.supplyOf p.capability)) (some a) = .ok q ∧ q.tokensOut ≠ 0 ∧
      d.effects = Effect.moves (some payer) (some p.account) q.net ++
        Effect.moves (some payer) (some p.treasury) q.fee ++
        [.mint p.capability (some receiver) (some q.tokensOut)] ∧
      d.post = p.state.afterBuy q ∧ d.change = q.net := by
  obtain ⟨a, least, receiver, payer, q, -, -, -, hsender, hadmitted, rfl⟩ :=
    decideBuy_eq_ok_iff.mp h
  have hout := hadmitted.worthwhile
  exact ⟨payer, receiver, a, q, hsender, hadmitted.positive, hadmitted.limited, hadmitted.quoted,
    by omega, rfl, rfl, rfl⟩

theorem decideSell_eq_ok {tokens minimum : Option Int} {recipient sender : Option Text}
    {deadline : Int} {d : PoolPlan Int}
    (h : decideSell tokens minimum recipient deadline sender m p = .ok d) :
    ∃ seller receiver t q, (tokens = some t ∧ 0 < t) ∧ q.reserveOut ≠ 0 ∧
      (p.state.isGraduated = true → q.reserveOut ≤ p.state.tradeLimit) ∧
      (0 < p.state.reserve → q.reserveOut < p.state.reserve) ∧
      p.state.quoteSell (some (m.supplyOf p.capability)) (some t) = .ok q ∧
      d.effects = [.burn p.capability (some seller) (some t)] ++
        Effect.moves (some p.account) (some receiver) q.netOut ++
        Effect.moves (some p.account) (some p.treasury) q.fee ∧
      d.post = p.state.afterSell q ∧ d.change = -q.reserveOut := by
  obtain ⟨t, least, receiver, seller, q, htokens, -, -, -, hadmitted, rfl⟩ :=
    decideSell_eq_ok_iff.mp h
  exact ⟨seller, receiver, t, q, ⟨htokens, hadmitted.positive⟩, Int.ne_of_gt hadmitted.worthwhile,
    hadmitted.limited, fun _ => hadmitted.remains, hadmitted.quoted, rfl, rfl, rfl⟩

theorem decideDeposit_eq_ok {amount : Option Int} {sender : Option Text} {d : PoolPlan Unit}
    (h : decideDeposit amount sender p = .ok d) :
    ∃ payer a, sender = some payer ∧ (amount = some a ∧ 0 < a) ∧
      d.effects = Effect.moves (some payer) (some p.account) a ∧
      d.post = p.state.afterDeposit a ∧ d.events = [.feesDeposited payer a] ∧ d.change = a := by
  unfold decideDeposit at h
  obtain ⟨a, ha, h⟩ := bind_eq_ok.mp h
  obtain ⟨payer, hpayer, h⟩ := bind_eq_ok.mp h
  cases h
  exact ⟨payer, a, (requireAccount_eq_ok.mp hpayer).1, (requirePositive_eq_ok.mp ha), rfl, rfl,
    rfl, rfl⟩

theorem decideWithdrawal_eq_ok {amount : Option Int} {d : PoolPlan Unit}
    (h : decideWithdrawal i amount m p = .ok d) :
    ∃ a, (amount = some a ∧ 0 < a) ∧ a ≤ m.surplus i ∧
      d.effects = Effect.moves (some p.account) (some p.treasury) a ∧
      d.post = p.state ∧ d.change = 0 := by
  unfold decideWithdrawal at h
  obtain ⟨a, ha, h⟩ := bind_eq_ok.mp h
  obtain ⟨_, hsurplus, h⟩ := bind_eq_ok.mp h
  cases h
  exact ⟨a, requirePositive_eq_ok.mp ha, Int.not_lt.mp (guard_eq_ok.mp hsurplus), rfl, rfl, rfl⟩

theorem decideParameters_eq_ok {ratio fee : Option Int} {d : PoolPlan Unit}
    (h : decideParameters ratio fee p = .ok d) :
    d.effects = [] ∧ d.change = 0 ∧ ∃ t,
      Terms.make { p.state.terms.request with ratio := ratio, tradeFee := fee } = .ok t ∧
      d.post = { p.state with terms := t } := by
  unfold decideParameters at h
  obtain ⟨_, -, h⟩ := bind_eq_ok.mp h
  obtain ⟨_, -, h⟩ := bind_eq_ok.mp h
  obtain ⟨post, hpost, h⟩ := bind_eq_ok.mp h
  cases h
  obtain ⟨t, ht, hpost⟩ := bind_eq_ok.mp hpost
  cases hpost
  exact ⟨rfl, rfl, t, ht, rfl⟩

theorem decideTradeCap_eq_ok {cap : Option Int} {d : PoolPlan Unit}
    (h : decideTradeCap cap p = .ok d) :
    d.effects = [] ∧ d.change = 0 ∧ ∃ t,
      Terms.make { p.state.terms.request with tradeCap := cap } = .ok t ∧
      d.post = { p.state with terms := t } := by
  unfold decideTradeCap at h
  obtain ⟨_, -, h⟩ := bind_eq_ok.mp h
  obtain ⟨post, hpost, h⟩ := bind_eq_ok.mp h
  cases h
  obtain ⟨t, ht, hpost⟩ := bind_eq_ok.mp hpost
  cases hpost
  exact ⟨rfl, rfl, t, ht, rfl⟩

theorem decidePause_eq_ok {d : PoolPlan Unit} (h : decidePause p = .ok d) :
    d.effects = [] ∧ d.change = 0 ∧ d.post = p.state.withPaused true := by
  unfold decidePause at h
  obtain ⟨-, h⟩ := test_eq_ok.mp h
  cases h
  exact ⟨rfl, rfl, rfl⟩

theorem decideUnpause_eq_ok {d : PoolPlan Unit} (h : decideUnpause p = .ok d) :
    d.effects = [] ∧ d.change = 0 ∧ d.post = p.state.withPaused false := by
  unfold decideUnpause at h
  obtain ⟨-, h⟩ := test_eq_ok.mp h
  cases h
  exact ⟨rfl, rfl, rfl⟩

/-! ## What decisions keep -/

section Follows

variable {amount minimum : Option Int} {recipient sender : Option Text} {deadline : Int}
  (hlawful : p.state.violations = [])
include hlawful

theorem follows_buy {d : PoolPlan Int}
    (h : decideBuy amount minimum recipient deadline sender m p = .ok d) :
    p.state.Follows d.post d.change := by
  obtain ⟨payer, receiver, a, q, -, -, -, hq, -, -, hpost, hchange⟩ := decideBuy_eq_ok h
  rw [hpost, hchange]
  exact PoolState.follows_addReserve hlawful (PoolState.quoteBuy_eq_ok hq).1

/-- Fee and net amount of a sell add up to what leaves the reserve. -/
theorem follows_sell {d : PoolPlan Int}
    (h : decideSell amount minimum recipient deadline sender m p = .ok d) :
    p.state.Follows d.post d.change := by
  obtain ⟨seller, receiver, t, q, -, -, -, hremains, hq, -, hpost, hchange⟩ := decideSell_eq_ok h
  obtain ⟨hnet, hfee, hsum, hle, -⟩ := PoolState.quoteSell_eq_ok hq
  rw [hpost, hchange]
  exact PoolState.follows_afterSell hlawful (by omega) hle hremains

theorem follows_decision {c : PoolCall} {d : PoolPlan Unit}
    (hc : c.decision i m p = some (.ok d)) : p.state.Follows d.post d.change := by
  cases c with
  | buy amount minimum recipient deadline sender =>
      obtain ⟨d', hd', rfl⟩ := map_eq_ok.mp (Option.some.inj hc)
      exact follows_buy hlawful hd'
  | sell tokens minimum recipient deadline sender =>
      obtain ⟨d', hd', rfl⟩ := map_eq_ok.mp (Option.some.inj hc)
      exact follows_sell hlawful hd'
  | depositFees amount sender =>
      obtain ⟨payer, a, -, ⟨-, hpos⟩, -, hpost, -, hchange⟩ :=
        decideDeposit_eq_ok (Option.some.inj hc)
      rw [hpost, hchange]
      exact PoolState.follows_addReserve hlawful (Int.le_of_lt hpos)
  | withdrawTreasury amount =>
      obtain ⟨a, -, -, -, hpost, hchange⟩ := decideWithdrawal_eq_ok (Option.some.inj hc)
      rw [hpost, hchange]
      exact PoolState.follows_of_same hlawful rfl rfl rfl rfl rfl rfl
  | setParameters ratio fee =>
      obtain ⟨-, hchange, t, ht, hpost⟩ := decideParameters_eq_ok (Option.some.inj hc)
      rw [hpost, hchange]
      exact follows_newTerms hlawful ht rfl rfl rfl
  | setTradeCap cap =>
      obtain ⟨-, hchange, t, ht, hpost⟩ := decideTradeCap_eq_ok (Option.some.inj hc)
      rw [hpost, hchange]
      exact follows_newTerms hlawful ht rfl rfl rfl
  | pause =>
      obtain ⟨-, hchange, hpost⟩ := decidePause_eq_ok (Option.some.inj hc)
      rw [hpost, hchange]
      exact PoolState.follows_of_same hlawful rfl rfl rfl rfl rfl rfl
  | unpause =>
      obtain ⟨-, hchange, hpost⟩ := decideUnpause_eq_ok (Option.some.inj hc)
      rw [hpost, hchange]
      exact PoolState.follows_of_same hlawful rfl rfl rfl rfl rfl rfl
  | _ => cases hc

end Follows

/-! ## Refusals -/

theorem decision_refuses {c : PoolCall} {plan : Except Error (PoolPlan Unit)}
    (h : c.decision i m p = some plan) : OnlyRefuses plan := by
  cases c with
  | buy =>
      cases h
      refine .map (.bind (p.state.requireNotPaused_refuses) fun _ => ?_)
      refine .bind (requirePositive_refuses _ _) fun _ => ?_
      refine .bind (requireNonNegative_refuses _ _) fun _ => ?_
      refine .bind (requireAccount_refuses _ _) fun _ => ?_
      refine .bind (requireAccount_refuses _ _) fun _ => ?_
      refine .bind (requireNotExpired_refuses _ _) fun _ => ?_
      refine .bind (p.state.requireWithinLimit_refuses _) fun _ => ?_
      refine .bind (p.state.quoteBuy_refuses _ _) fun _ => .test nofun ?_
      exact .bind (requireMinOut_refuses _ _) fun _ => .pure _
  | sell =>
      cases h
      refine .map (.bind (p.state.requireNotPaused_refuses) fun _ => ?_)
      refine .bind (requirePositive_refuses _ _) fun _ => ?_
      refine .bind (requireNonNegative_refuses _ _) fun _ => ?_
      refine .bind (requireAccount_refuses _ _) fun _ => ?_
      refine .bind (requireAccount_refuses _ _) fun _ => ?_
      refine .bind (requireNotExpired_refuses _ _) fun _ => ?_
      refine .bind (p.state.requireSellsEnabled_refuses _) fun _ => ?_
      refine .bind (requireBalance_refuses _ _ _) fun _ => ?_
      refine .bind (p.state.quoteSell_refuses _ _) fun _ => ?_
      refine .bind (p.state.requireWithinLimit_refuses _) fun _ => .test nofun ?_
      refine .bind (p.state.requireReserveRemains_refuses _) fun _ => ?_
      exact .bind (requireMinOut_refuses _ _) fun _ => .pure _
  | depositFees =>
      cases h
      refine .bind (requirePositive_refuses _ _) fun _ => ?_
      exact .bind (requireAccount_refuses _ _) fun _ => .pure _
  | setParameters =>
      cases h
      refine .bind (checkRatio_refuses _) fun _ => .bind (checkTradeFee_refuses _) fun _ => ?_
      exact .bind (p.state.withRatioAndFee_refuses _ _) fun _ => .pure _
  | setTradeCap =>
      cases h
      exact .bind (checkTradeCap_refuses _) fun _ =>
        .bind (p.state.withTradeCap_refuses _) fun _ => .pure _
  | pause =>
      cases h
      unfold decidePause
      exact .test nofun (.pure _)
  | unpause =>
      cases h
      unfold decideUnpause
      exact .test nofun (.pure _)
  | withdrawTreasury =>
      cases h
      refine .bind (requirePositive_refuses _ _) fun _ => ?_
      exact .bind (requireBalance_refuses _ _ _) fun _ => .pure _
  | _ => cases h

end Decide

end CurveMarket
