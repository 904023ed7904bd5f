import CurveMarket.Proofs.Fixed.Order
import CurveMarket.Proofs.Pool.Quote

/-! # Order of trades

What a trade yields moves in one direction with each of its arguments, since every step from the
quotients through the powers to the last floor keeps or turns the order. The special cases fit in: an
empty curve yields nothing, and a sell of the whole supply yields the whole reserve.
-/

namespace CurveMarket.Curve

open Fixed

section Buy

variable {supply supply' reserve reserve' deposit deposit' ratio ratio' : Nat}

theorem growth_mono (hpos : 0 < reserve') (hreserve : reserve' ≤ reserve)
    (hdeposit : deposit ≤ deposit') (hratio : ratio ≤ ratio') :
    growth reserve deposit ratio ≤ growth reserve' deposit' ratio' := by
  have hshare : deposit * one / reserve ≤ deposit' * one / reserve' :=
    Nat.div_le_div (Nat.mul_le_mul_right one hdeposit) hreserve (Nat.ne_of_gt hpos)
  exact powerDown_mono (Nat.le_add_right ..) (Nat.add_le_add_left hshare one)
    (Nat.div_le_div_right (Nat.mul_le_mul_right one hratio))

theorem tokensFor_mono (hsupply : supply ≤ supply') (hpos : 0 < reserve')
    (hreserve : reserve' ≤ reserve) (hdeposit : deposit ≤ deposit') (hratio : ratio ≤ ratio') :
    tokensFor supply reserve deposit ratio ≤ tokensFor supply' reserve' deposit' ratio' := by
  have hgrowth := growth_mono hpos hreserve hdeposit hratio
  unfold tokensFor
  split
  · exact Nat.zero_le _
  · rw [if_neg (by omega)]
    exact Nat.div_le_div_right (Nat.mul_le_mul hsupply (Nat.sub_le_sub_right hgrowth one))

theorem tokensFor_zero_reserve : tokensFor supply 0 deposit ratio = 0 := by
  unfold tokensFor
  rw [if_pos (.inr (.inl rfl))]

end Buy

section Sell

variable {supply supply' reserve reserve' tokens tokens' ratio ratio' : Nat}

theorem remainder_mono (hpos : 0 < supply') (hsupply : supply' ≤ supply)
    (htokens : tokens ≤ tokens') (hratioPos : 0 < ratio') (hratio : ratio' ≤ ratio) :
    remainder supply' tokens' ratio' ≤ remainder supply tokens ratio := by
  have hshare : tokens * one / supply ≤ tokens' * one / supply' :=
    Nat.div_le_div (Nat.mul_le_mul_right one htokens) hsupply (Nat.ne_of_gt hpos)
  exact powerUp_mono (Nat.sub_le ..) (Nat.sub_le_sub_left hshare one)
    (Nat.div_le_div_left hratio hratioPos)

theorem payoutFor_mono (hsupply : supply' ≤ supply) (hreserve : reserve ≤ reserve')
    (htokens : tokens ≤ tokens') (hwithin : tokens' ≤ supply') (hratioPos : 0 < ratio')
    (hratio : ratio' ≤ ratio) :
    payoutFor supply reserve tokens ratio ≤ payoutFor supply' reserve' tokens' ratio' := by
  rcases Nat.eq_zero_or_pos tokens with rfl | hsome
  · rw [payoutFor_zero]
    exact Nat.zero_le _
  · rcases Nat.eq_or_lt_of_le hwithin with rfl | hpart
    · rw [payoutFor_whole (by omega)]
      exact (payoutFor_le ..).trans hreserve
    · have hremainder := remainder_mono (by omega) hsupply htokens hratioPos hratio
      unfold payoutFor
      rw [if_neg (by omega), if_neg (by omega), if_neg (by omega), if_neg (by omega)]
      exact min_le_min (Nat.div_le_div_right
        (Nat.mul_le_mul hreserve (Nat.sub_le_sub_left hremainder one))) hreserve

end Sell

/-- Trades on the curve are monotone in every argument that they accept. A buy mints no less for a
larger deposit, supply or ratio, and no more for a larger reserve, unless that is the first of it. A
sell of tokens that are there frees no less for more of them or a larger reserve, and no more for a
larger ratio or supply. -/
theorem trades_monotone :
    (∀ {supply supply' reserve reserve' deposit deposit' ratio ratio' : Int} {minted minted' : Nat},
      buy (some supply) (some reserve) (some deposit) (some ratio) = .ok minted →
      buy (some supply') (some reserve') (some deposit') (some ratio') = .ok minted' →
      supply ≤ supply' → (reserve' = reserve ∨ 1 ≤ reserve' ∧ reserve' ≤ reserve) →
      deposit ≤ deposit' → ratio ≤ ratio' → minted ≤ minted') ∧
    ∀ {supply supply' reserve reserve' tokens tokens' ratio ratio' : Int} {paid paid' : Nat},
      sell (some supply) (some reserve) (some tokens) (some ratio) = .ok paid →
      sell (some supply') (some reserve') (some tokens') (some ratio') = .ok paid' →
      supply' ≤ supply → reserve ≤ reserve' → tokens ≤ tokens' → tokens' ≤ supply' →
      ratio' ≤ ratio → paid ≤ paid' := by
  constructor
  · intro supply supply' reserve reserve' deposit deposit' ratio ratio' minted minted' h h' hsupply
      hreserve hdeposit hratio
    obtain ⟨o, rfl, rfl, rfl, rfl, rfl⟩ := buy_eq_ok h
    obtain ⟨o', rfl, rfl, rfl, rfl, rfl⟩ := buy_eq_ok h'
    rcases Nat.eq_zero_or_pos o'.reserve with hempty | hpos
    · have hsame : o.reserve = 0 := by omega
      rw [hsame, tokensFor_zero_reserve]
      exact Nat.zero_le _
    · exact tokensFor_mono (by omega) hpos (by omega) (by omega) (by omega)
  · intro supply supply' reserve reserve' tokens tokens' ratio ratio' paid paid' h h' hsupply
      hreserve htokens hwithin hratio
    obtain ⟨o, rfl, rfl, rfl, rfl, -, rfl⟩ := sell_eq_ok h
    obtain ⟨o', rfl, rfl, rfl, rfl, hpos, rfl⟩ := sell_eq_ok h'
    exact payoutFor_mono (by omega) (by omega) (by omega) (by omega) hpos (by omega)

/-- All four arguments move at once, the second sell up to the whole supply. -/
theorem sample_trades_monotone :
    buy (some (1000000 : Nat)) (some (5000 : Nat)) (some (500 : Nat)) (some (100000 : Nat)) =
        .ok 9576 ∧
      buy (some (1000001 : Nat)) (some (4999 : Nat)) (some (501 : Nat)) (some (100001 : Nat)) =
        .ok 9596 ∧ 9576 ≤ 9596 ∧
    sell (some (1000000 : Nat)) (some (5000 : Nat)) (some (1000 : Nat)) (some (50000 : Nat)) =
        .ok 99 ∧
      sell (some (999999 : Nat)) (some (5001 : Nat)) (some (999999 : Nat)) (some (49999 : Nat)) =
        .ok 5001 ∧ 99 ≤ 5001 := by
  have hbuy := (buy_of_ratio 1000000 5000 500 (by decide : 0 < 100000) (by decide)).trans
    (congrArg Except.ok (by decide +kernel : _ = 9576))
  have hbuy' := (buy_of_ratio 1000001 4999 501 (by decide : 0 < 100001) (by decide)).trans
    (congrArg Except.ok (by decide +kernel : _ = 9596))
  have hsell := (sell_of_ratio 1000000 5000 1000 (by decide : 0 < 50000) (by decide)).trans
    (congrArg Except.ok (by decide +kernel : _ = 99))
  have hsell' := (sell_of_ratio 999999 5001 999999 (by decide : 0 < 49999) (by decide)).trans
    (congrArg Except.ok (by decide +kernel : _ = 5001))
  exact ⟨hbuy, hbuy',
    trades_monotone.1 hbuy hbuy' (by decide) (.inr (by decide)) (by decide) (by decide),
    hsell, hsell',
    trades_monotone.2 hsell hsell' (by decide) (by decide) (by decide) (by decide) (by decide)⟩

end CurveMarket.Curve
