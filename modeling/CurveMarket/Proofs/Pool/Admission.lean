import CurveMarket.Market.Trading
import CurveMarket.Proofs.Pool.Quote

/-! # What trades are checked for

A buy and a sell put what they are given through one check after another, and each check has an
error of its own. Taken together the checks are a condition on the state, the supply and the
arguments, and where it holds the call plans a fixed trade.
-/

namespace CurveMarket

open Check Market

variable {m : Market} {p : Pool} {amount minimum : Option Int} {recipient sender : Option Text}
  {deadline : Int}

/-! ## Checks of every trade -/

/-- What a trade is checked for before its quote. -/
structure TradeAdmitted (m : Market) (p : Pool) (amount least : Int) (receiver : Text)
    (deadline : Int) (trader : Text) : Prop where
  running : p.state.isPaused = false
  positive : 0 < amount
  minimum : 0 ≤ least
  receiver_named : receiver.isEmpty = false
  trader_named : trader.isEmpty = false
  inTime : m.now ≤ deadline

theorem tradeChecks_eq_ok_iff {α : Type} {reason what : Text} {x : α}
    {next : Int → Nat → Text → Text → Except Error α} :
    (do
      p.state.requireNotPaused
      let a ← requirePositive reason amount
      let least ← requireNonNegative what minimum
      let receiver ← requireAccount "Invalid recipient" recipient
      let trader ← requireAccount "Invalid sender" sender
      requireNotExpired deadline m.now
      next a least receiver trader) = .ok x ↔
      ∃ (a : Int) (least : Nat) (receiver trader : Text), amount = some a ∧
        minimum = some (least : Int) ∧ recipient = some receiver ∧ sender = some trader ∧
        TradeAdmitted m p a least receiver deadline trader ∧
        next a least receiver trader = .ok x := by
  constructor
  · intro h
    obtain ⟨_, hrunning, h⟩ := bind_eq_ok.mp h
    obtain ⟨a, ha, h⟩ := bind_eq_ok.mp h
    obtain ⟨least, hleast, h⟩ := bind_eq_ok.mp h
    obtain ⟨receiver, hreceiver, h⟩ := bind_eq_ok.mp h
    obtain ⟨trader, htrader, h⟩ := bind_eq_ok.mp h
    obtain ⟨_, hexpired, h⟩ := bind_eq_ok.mp h
    obtain ⟨hamount, hpositive⟩ := requirePositive_eq_ok.mp ha
    obtain ⟨hrecipient, hreceiver⟩ := requireAccount_eq_ok.mp hreceiver
    obtain ⟨hsender, htrader⟩ := requireAccount_eq_ok.mp htrader
    have hrunning := guard_eq_ok.mp hrunning
    have hexpired := guard_eq_ok.mp hexpired
    exact ⟨a, least, receiver, trader, hamount, requireNonNegative_eq_ok.mp hleast, hrecipient,
      hsender, ⟨by simpa using hrunning, hpositive, Int.natCast_nonneg least, hreceiver, htrader,
        by omega⟩, h⟩
  · rintro ⟨a, least, receiver, trader, rfl, rfl, rfl, rfl, hadmitted, hnext⟩
    have hinTime := hadmitted.inTime
    refine bind_eq_ok.mpr ⟨(), guard_eq_ok.mpr (by simp [hadmitted.running]), ?_⟩
    refine bind_eq_ok.mpr ⟨a, requirePositive_eq_ok.mpr ⟨rfl, hadmitted.positive⟩, ?_⟩
    refine bind_eq_ok.mpr ⟨least, requireNonNegative_eq_ok.mpr rfl, ?_⟩
    refine bind_eq_ok.mpr ⟨_, requireAccount_eq_ok.mpr ⟨rfl, hadmitted.receiver_named⟩, ?_⟩
    refine bind_eq_ok.mpr ⟨_, requireAccount_eq_ok.mpr ⟨rfl, hadmitted.trader_named⟩, ?_⟩
    exact bind_eq_ok.mpr ⟨(), guard_eq_ok.mpr (by omega), hnext⟩

theorem requireWithinLimit_eq_ok {s : PoolState} {n : Int} {u : Unit} :
    s.requireWithinLimit n = .ok u ↔ (s.isGraduated = true → n ≤ s.tradeLimit) := by
  unfold PoolState.requireWithinLimit
  rw [guard_eq_ok]
  constructor
  · intro h hg
    exact Int.not_lt.mp fun hlt => h ⟨hg, hlt⟩
  · intro h hboth
    exact Int.not_lt.mpr (h hboth.1) hboth.2

/-! ## Buying -/

/-- What a buy at a quote is checked for. -/
structure BuyAdmitted (m : Market) (p : Pool) (amount least : Int) (receiver : Text)
    (deadline : Int) (payer : Text) (q : BuyQuote) : Prop
    extends TradeAdmitted m p amount least receiver deadline payer where
  limited : p.state.isGraduated = true → amount ≤ p.state.tradeLimit
  quoted : p.state.quoteBuy (some (m.supplyOf p.capability)) (some amount) = .ok q
  worthwhile : max 1 least ≤ q.tokensOut

def buyPlan (p : Pool) (amount : Int) (receiver payer : Text) (q : BuyQuote) : PoolPlan Int where
  effects := Effect.moves payer p.account q.net ++ Effect.moves payer p.treasury q.fee ++
    [.mint p.capability receiver (some q.tokensOut)]
  post := p.state.afterBuy q
  events := [.bought payer receiver amount q.fee q.tokensOut]
  change := q.net
  result := q.tokensOut

theorem decideBuy_eq_ok_iff {d : PoolPlan Int} :
    decideBuy amount minimum recipient deadline sender m p = .ok d ↔
      ∃ a least receiver payer q, amount = some a ∧ minimum = some least ∧
        recipient = some receiver ∧ sender = some payer ∧
        BuyAdmitted m p a least receiver deadline payer q ∧ d = buyPlan p a receiver payer q := by
  refine tradeChecks_eq_ok_iff.trans ⟨?_, ?_⟩
  · rintro ⟨a, least, receiver, payer, ha, hleast, hrecipient, hsender, hadmitted, h⟩
    obtain ⟨_, hlimit, h⟩ := bind_eq_ok.mp h
    obtain ⟨q, hq, h⟩ := bind_eq_ok.mp h
    obtain ⟨hout, h⟩ := test_eq_ok.mp h
    obtain ⟨_, hminimum, h⟩ := bind_eq_ok.mp h
    cases h
    have hminimum := guard_eq_ok.mp hminimum
    exact ⟨a, least, receiver, payer, q, ha, hleast, hrecipient, hsender,
      ⟨hadmitted, requireWithinLimit_eq_ok.mp hlimit, hq, by omega⟩, rfl⟩
  · rintro ⟨a, least, receiver, payer, q, ha, hleast, hrecipient, hsender, hadmitted, rfl⟩
    obtain ⟨n, rfl⟩ := Int.eq_ofNat_of_zero_le hadmitted.minimum
    have hworthwhile := hadmitted.worthwhile
    refine ⟨a, n, receiver, payer, ha, hleast, hrecipient, hsender, hadmitted.toTradeAdmitted, ?_⟩
    refine bind_eq_ok.mpr ⟨(), requireWithinLimit_eq_ok.mpr hadmitted.limited, ?_⟩
    refine bind_eq_ok.mpr ⟨q, hadmitted.quoted, test_eq_ok.mpr ⟨by omega, ?_⟩⟩
    exact bind_eq_ok.mpr ⟨(), guard_eq_ok.mpr (by omega), rfl⟩

/-! ## Selling -/

/-- What a sell at a quote is checked for. -/
structure SellAdmitted (m : Market) (p : Pool) (tokens least : Int) (receiver : Text)
    (deadline : Int) (seller : Text) (q : SellQuote) : Prop
    extends TradeAdmitted m p tokens least receiver deadline seller where
  opened : p.state.buyOnlyUntil ≤ m.now
  covered : tokens ≤ m.tokenBalance p.capability (some seller)
  quoted : p.state.quoteSell (some (m.supplyOf p.capability)) (some tokens) = .ok q
  limited : p.state.isGraduated = true → q.reserveOut ≤ p.state.tradeLimit
  worthwhile : 0 < q.reserveOut
  remains : q.reserveOut < p.state.reserve
  enough : least ≤ q.netOut

def sellPlan (p : Pool) (tokens : Int) (receiver seller : Text) (q : SellQuote) :
    PoolPlan Int where
  effects := [.burn p.capability seller (some tokens)] ++
    Effect.moves p.account receiver q.netOut ++ Effect.moves p.account p.treasury q.fee
  post := p.state.afterSell q
  events := [.sold seller receiver tokens q.reserveOut q.fee q.netOut]
  change := -q.reserveOut
  result := q.netOut

/-- No payout is negative, so one that is not zero comes from a reserve that is there. -/
theorem decideSell_eq_ok_iff {d : PoolPlan Int} :
    decideSell amount minimum recipient deadline sender m p = .ok d ↔
      ∃ t least receiver seller q, amount = some t ∧ minimum = some least ∧
        recipient = some receiver ∧ sender = some seller ∧
        SellAdmitted m p t least receiver deadline seller q ∧
        d = sellPlan p t receiver seller q := by
  refine tradeChecks_eq_ok_iff.trans ⟨?_, ?_⟩
  · rintro ⟨t, least, receiver, seller, ht, hleast, hrecipient, rfl, hadmitted, h⟩
    obtain ⟨_, hclosed, h⟩ := bind_eq_ok.mp h
    obtain ⟨_, hbalance, h⟩ := bind_eq_ok.mp h
    obtain ⟨q, hq, h⟩ := bind_eq_ok.mp h
    obtain ⟨_, hlimit, h⟩ := bind_eq_ok.mp h
    obtain ⟨hout, h⟩ := test_eq_ok.mp h
    obtain ⟨_, hremains, h⟩ := bind_eq_ok.mp h
    obtain ⟨_, hminimum, h⟩ := bind_eq_ok.mp h
    cases h
    have hclosed := guard_eq_ok.mp hclosed
    have hbalance := guard_eq_ok.mp hbalance
    have hremains := guard_eq_ok.mp hremains
    have hminimum := guard_eq_ok.mp hminimum
    obtain ⟨hnet, hfee, hsum, hwithin, -⟩ := PoolState.quoteSell_eq_ok hq
    have hgross : 0 < q.reserveOut := by omega
    exact ⟨t, least, receiver, seller, q, ht, hleast, hrecipient, rfl,
      ⟨hadmitted, by omega, by omega, hq, requireWithinLimit_eq_ok.mp hlimit, hgross, by omega,
        by omega⟩, rfl⟩
  · rintro ⟨t, least, receiver, seller, q, ht, hleast, hrecipient, rfl, hadmitted, rfl⟩
    obtain ⟨n, rfl⟩ := Int.eq_ofNat_of_zero_le hadmitted.minimum
    have hopened := hadmitted.opened
    have hcovered := hadmitted.covered
    have hremains := hadmitted.remains
    have henough := hadmitted.enough
    refine ⟨t, n, receiver, seller, ht, hleast, hrecipient, rfl, hadmitted.toTradeAdmitted, ?_⟩
    refine bind_eq_ok.mpr ⟨(), guard_eq_ok.mpr (by omega), ?_⟩
    refine bind_eq_ok.mpr ⟨(), guard_eq_ok.mpr (by omega), ?_⟩
    refine bind_eq_ok.mpr ⟨q, hadmitted.quoted, ?_⟩
    refine bind_eq_ok.mpr ⟨(), requireWithinLimit_eq_ok.mpr hadmitted.limited, ?_⟩
    refine test_eq_ok.mpr ⟨Int.ne_of_gt hadmitted.worthwhile, ?_⟩
    refine bind_eq_ok.mpr ⟨(), guard_eq_ok.mpr (by omega), ?_⟩
    exact bind_eq_ok.mpr ⟨(), guard_eq_ok.mpr (by omega), rfl⟩

end CurveMarket
