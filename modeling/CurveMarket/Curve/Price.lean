import CurveMarket.Fixed.Power
import CurveMarket.Curve.Fee

/-!
# The bonding curve

With a constant reserve ratio `c` the market cap times `c` is the reserve, so a deposit `d` mints
`supply * ((1 + d / reserve) ^ c - 1)` tokens and burning `t` tokens frees
`reserve * (1 - (1 - t / supply) ^ (1 / c))`. Ratios are in parts per million, token amounts in
units of `10 ^ -18`, reserves in base units, prices in base units per whole token. Every rounding
favours the pool.
-/

namespace CurveMarket.Curve

def ppm : Nat := 1000000

/-- Reserve per whole token at the margin; nothing has a price at zero supply. -/
def spotPrice (supply reserve ratio : Nat) : Nat :=
  if supply = 0 then 0 else reserve * Fixed.one * ppm / (ratio * supply)

/-- Growth of the supply for a deposit, as a fixed-point factor. -/
def growth (reserve deposit ratio : Nat) : Nat :=
  Fixed.powerDown (Fixed.one + deposit * Fixed.one / reserve) (ratio * Fixed.one / ppm)

def tokensFor (supply reserve deposit ratio : Nat) : Nat :=
  if supply = 0 ∨ reserve = 0 ∨ deposit = 0 then 0
  else supply * (growth reserve deposit ratio - Fixed.one) / Fixed.one

/-- Share of the reserve that stays when tokens are burned, as a fixed-point factor. -/
def remainder (supply tokens ratio : Nat) : Nat :=
  Fixed.powerUp (Fixed.one - tokens * Fixed.one / supply) (ppm * Fixed.one / ratio)

/-- Reserve freed by burning tokens. The whole supply frees the whole reserve, and more than the
supply frees nothing. -/
def payoutFor (supply reserve tokens ratio : Nat) : Nat :=
  if supply = 0 ∨ tokens = 0 ∨ supply < tokens then 0
  else if tokens = supply then reserve
  else min (reserve * (Fixed.one - remainder supply tokens ratio) / Fixed.one) reserve

theorem payoutFor_le (supply reserve tokens ratio : Nat) :
    payoutFor supply reserve tokens ratio ≤ reserve := by
  unfold payoutFor
  split
  · exact Nat.zero_le reserve
  · split
    · exact Nat.le_refl reserve
    · exact Nat.min_le_right _ _

theorem payoutFor_zero (supply reserve ratio : Nat) : payoutFor supply reserve 0 ratio = 0 :=
  if_pos (.inr (.inl rfl))

theorem payoutFor_whole {supply : Nat} (h : 0 < supply) (reserve ratio : Nat) :
    payoutFor supply reserve supply ratio = reserve := by
  unfold payoutFor
  rw [if_neg (by omega), if_pos rfl]

/-- The effect of a trade: what it yields, the move of the price in basis points and the price
after it. -/
structure Impact where
  amountOut : Int
  impactBps : Int
  newSpotPrice : Int
deriving DecidableEq

/-- Rise from one price to another in basis points of the first, or zero. -/
def riseBps (before after : Nat) : Nat :=
  if before = 0 then 0 else (after - before) * bpsWhole / before

/-- Fall from one price to another in basis points of the first, at most the whole. -/
def fallBps (before after : Nat) : Nat :=
  if before = 0 then 0 else min ((before - after) * bpsWhole / before) bpsWhole

def requireRatio (ratio : Option Int) : Except Error Nat := do
  let r ← requireInt "crr_ppm" ratio
  if ¬ (0 < r ∧ r ≤ ppm) then throw (.ratioOutsideUnit r)
  pure r.toNat

/-- A point of the curve with an amount to trade, all of them checked. -/
structure Order where
  supply : Nat
  reserve : Nat
  amount : Nat
  ratio : Nat

def Order.check (supply reserve amount ratio : Option Int) : Except Error Order := do
  let s ← requireNonNegative "supply" supply
  let r ← requireNonNegative "reserve" reserve
  let a ← requireNonNegative "amount" amount
  let c ← requireRatio ratio
  pure ⟨s, r, a, c⟩

namespace Order

def spot (o : Order) : Nat := spotPrice o.supply o.reserve o.ratio

def tokens (o : Order) : Nat := tokensFor o.supply o.reserve o.amount o.ratio

def payout (o : Order) : Nat := payoutFor o.supply o.reserve o.amount o.ratio

def buyImpact (o : Order) : Impact :=
  let after := spotPrice (o.supply + o.tokens) (o.reserve + o.amount) o.ratio
  ⟨o.tokens, riseBps o.spot after, after⟩

/-- Selling the whole supply, or more, counts as a fall of the whole price. Without a supply there
is nothing to sell. -/
def sellImpact (o : Order) : Except Error Impact :=
  if 0 < o.supply ∧ o.supply ≤ o.amount then pure ⟨o.payout, bpsWhole, 0⟩
  else do
    let rest ← requireNonNegative "supply" (some ((o.supply : Int) - o.amount))
    let after := spotPrice rest (o.reserve - o.payout) o.ratio
    pure ⟨o.payout, fallBps o.spot after, after⟩

end Order

def spot (supply reserve ratio : Option Int) : Except Error Nat :=
  Order.spot <$> Order.check supply reserve (some 0) ratio

def buy (supply reserve deposit ratio : Option Int) : Except Error Nat :=
  Order.tokens <$> Order.check supply reserve deposit ratio

def sell (supply reserve tokens ratio : Option Int) : Except Error Nat :=
  Order.payout <$> Order.check supply reserve tokens ratio

def buyImpact (supply reserve deposit ratio : Option Int) : Except Error Impact :=
  Order.buyImpact <$> Order.check supply reserve deposit ratio

def sellImpact (supply reserve tokens ratio : Option Int) : Except Error Impact := do
  (← Order.check supply reserve tokens ratio).sellImpact

end CurveMarket.Curve
