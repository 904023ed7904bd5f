import CurveMarket.Proofs.Curve.Trade
import CurveMarket.Proofs.Fixed.Decline
import CurveMarket.Proofs.Fixed.Range

/-! # Prices along the curve

The price is the reserve over the supply, but for a factor that trades leave alone and a floor. So
one price is compared with another across the two quotients, and a trade moves the price up or down
as it moves the quotient.
-/

namespace CurveMarket.Curve

open Fixed

/-! ## Comparing prices -/

section Compare

variable {supply reserve supply' reserve' ratio : Nat}

/-- No price falls when the reserve grows at least as fast as the supply. -/
theorem spotPrice_le_spotPrice (hsupply : 0 < supply') (hratio : 0 < ratio)
    (h : reserve * supply' ≤ reserve' * supply) :
    spotPrice supply reserve ratio ≤ spotPrice supply' reserve' ratio := by
  unfold spotPrice
  split
  · exact Nat.zero_le _
  · rename_i hsome
    rw [if_neg (by omega), Nat.le_div_iff_mul_le (Nat.mul_pos hratio hsupply)]
    have hfloor := Nat.div_mul_le_self (reserve * one * ppm) (ratio * supply)
    generalize reserve * one * ppm / (ratio * supply) = price at hfloor ⊢
    refine Nat.le_of_mul_le_mul_right ?_ (Nat.pos_of_ne_zero hsome)
    calc price * (ratio * supply') * supply = price * (ratio * supply) * supply' := by ring
      _ ≤ reserve * one * ppm * supply' := Nat.mul_le_mul_right _ hfloor
      _ = reserve * supply' * (one * ppm) := by ring
      _ ≤ reserve' * supply * (one * ppm) := Nat.mul_le_mul_right _ h
      _ = reserve' * one * ppm * supply := by ring

/-- The curve is nowhere below a flat price at which the reserve covers the supply. -/
theorem le_spotPrice {price : Nat} (hsupply : 0 < supply) (hratio : 0 < ratio) (hppm : ratio ≤ ppm)
    (h : supply * price ≤ reserve * one) : price ≤ spotPrice supply reserve ratio := by
  unfold spotPrice
  rw [if_neg (by omega), Nat.le_div_iff_mul_le (Nat.mul_pos hratio hsupply)]
  calc price * (ratio * supply) = supply * price * ratio := by ring
    _ ≤ reserve * one * ppm := Nat.mul_le_mul h hppm

theorem spotPrice_le_of_reserve_le (h : reserve ≤ reserve') :
    spotPrice supply reserve ratio ≤ spotPrice supply reserve' ratio := by
  unfold spotPrice
  split
  · exact Nat.le_refl 0
  · exact Nat.div_le_div_right (Nat.mul_le_mul_right _ (Nat.mul_le_mul_right _ h))

end Compare

/-! ## Buying -/

section Buy

variable {supply reserve deposit ratio : Nat}

/-- The supply grows no faster than the reserve, however large the deposit is. -/
theorem growth_le_base (hratio : 2 * ratio ≤ ppm) :
    growth reserve deposit ratio ≤ one + deposit * one / reserve := by
  have hfloor := Nat.div_mul_le_self (ratio * one) ppm
  have hexponent : 2 * (ratio * one / ppm) ≤ one := by
    refine Nat.le_of_mul_le_mul_right ?_ (by decide : 0 < ppm)
    calc 2 * (ratio * one / ppm) * ppm = 2 * (ratio * one / ppm * ppm) := Nat.mul_assoc _ _ _
      _ ≤ 2 * (ratio * one) := Nat.mul_le_mul_left 2 hfloor
      _ = 2 * ratio * one := (Nat.mul_assoc _ _ _).symm
      _ ≤ ppm * one := Nat.mul_le_mul_right one hratio
      _ = one * ppm := Nat.mul_comm _ _
  exact powerDown_le_base (Nat.le_add_right one _) hexponent

theorem tokensFor_mul_le (supply reserve deposit : Nat) (hratio : 2 * ratio ≤ ppm) :
    tokensFor supply reserve deposit ratio * reserve ≤ supply * deposit := by
  unfold tokensFor
  split
  · simp
  · have hgrowth : growth reserve deposit ratio - one ≤ deposit * one / reserve :=
      Nat.sub_le_iff_le_add'.mpr (growth_le_base hratio)
    have hminted := Nat.div_mul_le_self (supply * (growth reserve deposit ratio - one)) one
    have hshare := Nat.div_mul_le_self (deposit * one) reserve
    generalize supply * (growth reserve deposit ratio - one) / one = tokens at hminted ⊢
    refine Nat.le_of_mul_le_mul_right ?_ (by decide : 0 < one)
    calc tokens * reserve * one = tokens * one * reserve := by ring
      _ ≤ supply * (growth reserve deposit ratio - one) * reserve :=
        Nat.mul_le_mul_right _ hminted
      _ ≤ supply * (deposit * one / reserve) * reserve :=
        Nat.mul_le_mul_right _ (Nat.mul_le_mul_left _ hgrowth)
      _ = supply * (deposit * one / reserve * reserve) := Nat.mul_assoc _ _ _
      _ ≤ supply * (deposit * one) := Nat.mul_le_mul_left _ hshare
      _ = supply * deposit * one := (Nat.mul_assoc _ _ _).symm

theorem spotPrice_le_of_buy (hsupply : 0 < supply) (hratio : 0 < ratio)
    (hhalf : 2 * ratio ≤ ppm) :
    spotPrice supply reserve ratio ≤
      spotPrice (supply + tokensFor supply reserve deposit ratio) (reserve + deposit) ratio := by
  have htokens := tokensFor_mul_le supply reserve deposit hhalf
  refine spotPrice_le_spotPrice (by omega) hratio ?_
  rw [Nat.mul_add, Nat.add_mul]
  linarith

end Buy

/-! ## Selling

A payout is rounded down to base units and the burned tokens are not, so it can be short of the
seller's share of the reserve. -/

section Sell

variable {supply reserve tokens ratio : Nat}

theorem two_one_le_exponent (hratio : 0 < ratio) (hhalf : 2 * ratio ≤ ppm) :
    2 * one ≤ ppm * one / ratio := by
  rw [Nat.le_div_iff_mul_le hratio]
  calc 2 * one * ratio = 2 * ratio * one := by ring
    _ ≤ ppm * one := Nat.mul_le_mul_right one hhalf

theorem sold_share_le (htokens : tokens ≤ supply) : tokens * one / supply ≤ one :=
  Nat.div_le_of_le_mul (Nat.mul_le_mul_right one htokens)

theorem lt_sold_share (hsupply : 0 < supply) (tokens : Nat) :
    tokens * one < (tokens * one / supply + 1) * supply := by
  rw [Nat.mul_comm (_ + 1)]
  exact Nat.lt_mul_div_succ _ hsupply

theorem lt_payoutFor_add_one (reserve ratio : Nat) (hpos : 0 < tokens) (htokens : tokens < supply) :
    reserve * (one - remainder supply tokens ratio) <
      (payoutFor supply reserve tokens ratio + 1) * one := by
  have hwithin : reserve * (one - remainder supply tokens ratio) / one ≤ reserve := by
    refine Nat.div_le_of_le_mul ?_
    rw [Nat.mul_comm one]
    exact Nat.mul_le_mul_left _ (Nat.sub_le _ _)
  unfold payoutFor
  rw [if_neg (by omega), if_neg (by omega), Nat.min_eq_left hwithin, Nat.mul_comm (_ + 1)]
  exact Nat.lt_mul_div_succ _ (by decide)

/-- No payout is short of the seller's share by more than the roundings of the share and of the
payout. -/
theorem share_lt_payoutFor (reserve : Nat) (hpos : 0 < tokens) (htokens : tokens < supply)
    (hratio : 0 < ratio) (hhalf : 2 * ratio ≤ ppm) :
    reserve * tokens * one <
      (payoutFor supply reserve tokens ratio + 1) * one * supply + reserve * supply := by
  have hremainder : remainder supply tokens ratio ≤ one - tokens * one / supply :=
    powerUp_le_base (Nat.sub_le _ _) (two_one_le_exponent hratio hhalf)
  have hwithin := sold_share_le htokens.le
  have hshare := lt_sold_share (by omega : 0 < supply) tokens
  have hpaid := lt_payoutFor_add_one reserve ratio hpos htokens
  generalize payoutFor supply reserve tokens ratio = payout at hpaid ⊢
  generalize tokens * one / supply = share at hremainder hwithin hshare
  calc reserve * tokens * one = reserve * (tokens * one) := Nat.mul_assoc ..
    _ ≤ reserve * ((share + 1) * supply) := Nat.mul_le_mul_left _ hshare.le
    _ = reserve * share * supply + reserve * supply := by ring
    _ ≤ reserve * (one - remainder supply tokens ratio) * supply + reserve * supply :=
      Nat.add_le_add_right
        (Nat.mul_le_mul_right _ (Nat.mul_le_mul_left _ (by omega))) _
    _ < (payout + 1) * one * supply + reserve * supply :=
      Nat.add_lt_add_right (Nat.mul_lt_mul_of_pos_right hpaid (by omega)) _

/-- Away from one, at most two fifths of the reserve would stay, and so a payout of at most a half
has not come from there. -/
theorem half_le_unsold (hpos : 0 < tokens) (htokens : tokens < supply) (hratio : 0 < ratio)
    (hhalf : 2 * ratio ≤ ppm) (hpaid : 2 * payoutFor supply reserve tokens ratio ≤ reserve)
    (hworth : 16 * (one + 2 * reserve) ≤ reserve * one) :
    one ≤ 2 * (one - tokens * one / supply) := by
  by_contra hfar
  have hremainder : 5 * remainder supply tokens ratio ≤ 2 * one + 5 :=
    five_mul_powerUp_le (by omega) (two_one_le_exponent hratio hhalf)
  have hshare := lt_payoutFor_add_one reserve ratio hpos htokens
  have hone : 1 ≤ one := by decide
  have hleft : 3 * one ≤ 5 * (one - remainder supply tokens ratio) + 5 := by omega
  generalize payoutFor supply reserve tokens ratio = payout at *
  have hscaled := Nat.mul_le_mul_left reserve hleft
  have hpaidOne := Nat.mul_le_mul_right one hpaid
  linarith

/-- A payout of at most half of the reserve is worth the seller's share or more, once that share is
some units. -/
theorem share_le_payoutFor (hpos : 0 < tokens) (htokens : tokens < supply) (hratio : 0 < ratio)
    (hhalf : 2 * ratio ≤ ppm) (hpaid : 2 * payoutFor supply reserve tokens ratio ≤ reserve)
    (hworth : 16 * supply * (one + 2 * reserve) ≤ reserve * tokens * one) :
    reserve * tokens ≤ payoutFor supply reserve tokens ratio * supply := by
  have hsupply : 0 < supply := by omega
  have hunits : 16 * (one + 2 * reserve) ≤ reserve * one := by
    refine Nat.le_of_mul_le_mul_right ?_ hsupply
    calc 16 * (one + 2 * reserve) * supply = 16 * supply * (one + 2 * reserve) := by ring
      _ ≤ reserve * tokens * one := hworth
      _ ≤ reserve * supply * one :=
        Nat.mul_le_mul_right _ (Nat.mul_le_mul_left _ htokens.le)
      _ = reserve * one * supply := by ring
  have hnear := half_le_unsold hpos htokens hratio hhalf hpaid hunits
  have hremainder : 8 * remainder supply tokens ratio + one ≤
      9 * (one - tokens * one / supply) + 8 :=
    eight_mul_powerUp_le (Nat.sub_le _ _) hnear (two_one_le_exponent hratio hhalf)
  have hshare := lt_sold_share hsupply tokens
  have hrounded := lt_payoutFor_add_one reserve ratio hpos htokens
  have hwithin := sold_share_le htokens.le
  generalize payoutFor supply reserve tokens ratio = payout at *
  generalize tokens * one / supply = share at *
  have hleft : 9 * share ≤ 8 * (one - remainder supply tokens ratio) + 8 := by omega
  by_contra hshort
  have hbelow := Nat.mul_le_mul_right one (Nat.not_le.mp hshort).le
  have hscaled := Nat.mul_le_mul_left (reserve * supply) hleft
  have hsold := Nat.mul_le_mul_left (9 * reserve) hshare.le
  have hgone := Nat.mul_le_mul_right supply hrounded.le
  have hpositive : 0 < supply * one := Nat.mul_pos hsupply (by decide)
  have hnonneg : 0 ≤ reserve * supply := Nat.zero_le _
  linarith

theorem spotPrice_le_of_share {payout : Nat} (hsupply : 0 < supply) (hratio : 0 < ratio)
    (h : reserve * tokens ≤ payout * supply) :
    spotPrice (supply - tokens) (reserve - payout) ratio ≤ spotPrice supply reserve ratio := by
  refine spotPrice_le_spotPrice hsupply hratio ?_
  rw [Nat.sub_mul, Nat.mul_sub]
  omega

theorem spotPrice_add_le (supply first second ratio : Nat) :
    spotPrice supply (first + second) ratio ≤
      spotPrice supply first ratio + spotPrice supply second ratio + 1 := by
  unfold spotPrice
  split
  · exact Nat.zero_le _
  · rw [Nat.add_mul, Nat.add_mul]
    rcases Nat.eq_zero_or_pos (ratio * supply) with hzero | hpos
    · rw [hzero, Nat.div_zero]
      exact Nat.zero_le _
    · rw [Nat.add_div hpos]
      split
      · exact Nat.le_refl _
      · omega

/-- A sell on the curve raises the price by no more than what its roundings are worth. -/
theorem spotPrice_le_of_sell (hpos : 0 < tokens) (htokens : tokens < supply) (hratio : 0 < ratio)
    (hhalf : 2 * ratio ≤ ppm) :
    spotPrice (supply - tokens) (reserve - payoutFor supply reserve tokens ratio) ratio ≤
      spotPrice supply reserve ratio +
        spotPrice (supply - tokens) (reserve / one + 2) ratio + 1 := by
  have hshare := share_lt_payoutFor reserve hpos htokens hratio hhalf
  have hrest : reserve ≤ (reserve / one + 1) * one := by
    rw [Nat.mul_comm]
    exact (Nat.lt_mul_div_succ _ (by decide)).le
  generalize payoutFor supply reserve tokens ratio = payout at *
  generalize reserve / one = units at *
  have hcovered : reserve * tokens ≤ (payout + (units + 2)) * supply := by
    refine Nat.le_of_mul_le_mul_right ?_ (by decide : 0 < one)
    calc reserve * tokens * one ≤ (payout + 1) * one * supply + reserve * supply := hshare.le
      _ ≤ (payout + 1) * one * supply + (units + 1) * one * supply :=
        Nat.add_le_add_left (Nat.mul_le_mul_right _ hrest) _
      _ = (payout + (units + 2)) * supply * one := by ring
  have hparts : (reserve - payout) * (supply - tokens) ≤
      (reserve - (payout + (units + 2)) + (units + 2)) * (supply - tokens) :=
    Nat.mul_le_mul_right _ (by omega)
  calc spotPrice (supply - tokens) (reserve - payout) ratio
      ≤ spotPrice (supply - tokens) (reserve - (payout + (units + 2)) + (units + 2)) ratio :=
        spotPrice_le_spotPrice (by omega) hratio hparts
    _ ≤ spotPrice (supply - tokens) (reserve - (payout + (units + 2))) ratio +
          spotPrice (supply - tokens) (units + 2) ratio + 1 := spotPrice_add_le ..
    _ ≤ spotPrice supply reserve ratio + spotPrice (supply - tokens) (units + 2) ratio + 1 :=
        Nat.add_le_add_right (Nat.add_le_add_right
          (spotPrice_le_of_share (by omega) hratio hcovered) _) 1

/-- A sell that is worth some units and pays at most half of the reserve does not raise the price.
-/
theorem spotPrice_le_of_worthy_sell (hpos : 0 < tokens) (htokens : tokens < supply)
    (hratio : 0 < ratio) (hhalf : 2 * ratio ≤ ppm)
    (hpaid : 2 * payoutFor supply reserve tokens ratio ≤ reserve)
    (hworth : 16 * supply * (one + 2 * reserve) ≤ reserve * tokens * one) :
    spotPrice (supply - tokens) (reserve - payoutFor supply reserve tokens ratio) ratio ≤
      spotPrice supply reserve ratio :=
  spotPrice_le_of_share (by omega) hratio
    (share_le_payoutFor hpos htokens hratio hhalf hpaid hworth)

end Sell

end CurveMarket.Curve
