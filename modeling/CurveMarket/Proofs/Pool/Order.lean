import CurveMarket.Proofs.Curve.Order

/-! # Order of quotes

Whoever spends more is quoted no fewer tokens, and whoever sells more no less of the reserve, in
either phase and from one phase into the other. A fee is rounded down and never takes more than what
was added, so the net amount follows the gross one.
-/

namespace CurveMarket

theorem feeOn_mono {a b : Nat} (h : a ≤ b) (bps : Nat) : feeOn a bps ≤ feeOn b bps :=
  Nat.div_le_div_right (Nat.mul_le_mul_right bps h)

theorem feeOn_add_le (a d : Nat) {bps : Nat} (h : bps ≤ bpsWhole) :
    feeOn (a + d) bps ≤ feeOn a bps + d := by
  have hwhole : 0 < bpsWhole := by decide
  unfold feeOn
  calc (a + d) * bps / bpsWhole ≤ (a * bps + d * bpsWhole) / bpsWhole := by
        refine Nat.div_le_div_right ?_
        rw [Nat.add_mul]
        exact Nat.add_le_add_left (Nat.mul_le_mul_left d h) _
    _ = a * bps / bpsWhole + d := Nat.add_mul_div_right _ _ hwhole

namespace PoolState

variable {s : PoolState}

theorem fee_tradeCharge_mono {a b : Nat} (h : a ≤ b) :
    (s.tradeCharge a).fee ≤ (s.tradeCharge b).fee := feeOn_mono h _

theorem net_tradeCharge_mono {a b : Nat} (h : a ≤ b) :
    (s.tradeCharge a).net ≤ (s.tradeCharge b).net := by
  obtain ⟨d, rfl⟩ := Nat.exists_eq_add_of_le h
  have hfee := feeOn_add_le a d s.terms.tradeFee_le_bpsWhole
  show a - feeOn a s.terms.tradeFee ≤ a + d - feeOn (a + d) s.terms.tradeFee
  omega

/-! ## Buying -/

def tokensAtFlatPrice (s : PoolState) (amount : Nat) : Nat := amount * Fixed.one / s.terms.flatPrice

theorem flatTokens_natCast (s : PoolState) (amount : Nat) :
    s.flatTokens amount = (s.tokensAtFlatPrice amount : Nat) := by
  unfold flatTokens tokensAtFlatPrice
  rw [← Int.natCast_mul, Int.natCast_ediv]

/-- Tokens for a buy that carries the reserve to the threshold: at the flat price up to there, and on
the curve for the rest. -/
def tokensAcross (s : PoolState) (supply reserve net : Nat) : Nat :=
  let part := s.terms.threshold - reserve
  s.tokensAtFlatPrice part +
    Curve.tokensFor (supply + s.tokensAtFlatPrice part) (reserve + part) (net - part) s.terms.ratio

def tokensForNet (s : PoolState) (supply reserve net : Nat) : Nat :=
  if s.isGraduated then Curve.tokensFor supply reserve net s.terms.ratio
  else if reserve + net < s.terms.threshold then s.tokensAtFlatPrice net
  else s.tokensAcross supply reserve net

section Buy

variable {supply reserve : Nat}

theorem quoteBuy_of_below (hflat : s.isGraduated = false) (hreserve : s.reserve = reserve)
    (supply : Nat) {amount : Nat}
    (hbelow : reserve + (s.tradeCharge amount).net < s.terms.threshold) :
    s.quoteBuy (some (supply : Int)) (some (amount : Int)) =
      .ok { amountIn := amount, fee := (s.tradeCharge amount).fee
            net := (s.tradeCharge amount).net
            tokensOut := s.flatTokens (s.tradeCharge amount).net
            flatTokens := s.flatTokens (s.tradeCharge amount).net } := by
  unfold quoteBuy
  rw [charge_tradeFee, hreserve]
  generalize s.tradeCharge amount = c at *
  show (if s.isGraduated then _ else _) = _
  rw [if_neg (by simp [hflat]), if_pos (by omega)]
  rfl

/-- The curve starts at the threshold, at the supply that the flat part leaves. -/
theorem buy_after_flatPart {net : Nat} (hreached : s.terms.threshold ≤ reserve + net)
    (supply : Nat) :
    Curve.buy (some (supply + s.flatTokens (s.terms.threshold - reserve : Nat)))
        (some (reserve + (s.terms.threshold - reserve : Nat)))
        (some (net - (s.terms.threshold - reserve : Nat))) (some (s.terms.ratio : Int)) =
      .ok (Curve.tokensFor (supply + s.tokensAtFlatPrice (s.terms.threshold - reserve))
        (reserve + (s.terms.threshold - reserve)) (net - (s.terms.threshold - reserve))
        s.terms.ratio) := by
  rw [flatTokens_natCast, ← Int.natCast_add, ← Int.natCast_add, ← Int.natCast_sub (by omega)]
  exact Curve.buy_of_ratio _ _ _ s.terms.ratio_pos s.terms.ratio_le_ppm

theorem quoteBuy_of_across (hflat : s.isGraduated = false) (hreserve : s.reserve = reserve)
    (supply : Nat) {amount : Nat}
    (hreached : s.terms.threshold ≤ reserve + (s.tradeCharge amount).net) :
    ∃ q, s.quoteBuy (some (supply : Int)) (some (amount : Int)) = .ok q ∧
      q.tokensOut = s.tokensAcross supply reserve (s.tradeCharge amount).net ∧
      q.net = (s.tradeCharge amount).net ∧ q.fee = (s.tradeCharge amount).fee := by
  have hcurve := buy_after_flatPart hreached supply
  have hflatPart := s.flatTokens_natCast (s.terms.threshold - reserve)
  have hpart : max ((s.terms.threshold : Int) - reserve) 0 = (s.terms.threshold - reserve : Nat) := by
    omega
  unfold quoteBuy
  rw [charge_tradeFee, hreserve]
  generalize s.tradeCharge amount = c at *
  show ∃ q, (if s.isGraduated then _ else _) = Except.ok q ∧ _
  rw [if_neg (by simp [hflat]), if_neg (by omega), hpart]
  unfold flatTokens at hcurve hflatPart
  dsimp only [Option.map_some]
  rw [hcurve, hflatPart]
  exact ⟨_, rfl, rfl, rfl, rfl⟩

theorem exists_quoteBuy (hreserve : s.reserve = reserve) (supply amount : Nat) :
    ∃ q, s.quoteBuy (some (supply : Int)) (some (amount : Int)) = .ok q ∧
      q.tokensOut = s.tokensForNet supply reserve (s.tradeCharge amount).net ∧
      q.net = (s.tradeCharge amount).net ∧ q.fee = (s.tradeCharge amount).fee := by
  cases hphase : s.isGraduated with
  | true =>
      have htokens : s.tokensForNet supply reserve (s.tradeCharge amount).net =
          (s.buyOrder supply reserve amount).tokens := by
        unfold tokensForNet
        rw [if_pos hphase]
        rfl
      rw [htokens]
      exact ⟨_, quoteBuy_of_graduated hphase hreserve amount, rfl, rfl, rfl⟩
  | false =>
      unfold tokensForNet
      rw [if_neg (by simp [hphase])]
      split
      · rename_i hbelow
        exact ⟨_, quoteBuy_of_below hphase hreserve supply hbelow, s.flatTokens_natCast _, rfl, rfl⟩
      · rename_i hreached
        exact quoteBuy_of_across hphase hreserve supply (Nat.not_lt.mp hreached)

theorem tokensAtFlatPrice_mono {a b : Nat} (h : a ≤ b) :
    s.tokensAtFlatPrice a ≤ s.tokensAtFlatPrice b :=
  Nat.div_le_div_right (Nat.mul_le_mul_right _ h)

theorem tokensFor_mono_deposit (s : PoolState) (supply reserve : Nat) {a b : Nat} (h : a ≤ b) :
    Curve.tokensFor supply reserve a s.terms.ratio ≤
      Curve.tokensFor supply reserve b s.terms.ratio := by
  rcases Nat.eq_zero_or_pos reserve with rfl | hpos
  · rw [Curve.tokensFor_zero_reserve]
    exact Nat.zero_le _
  · exact Curve.tokensFor_mono le_rfl hpos le_rfl h le_rfl

/-- Below the threshold, across it and on the curve. -/
theorem tokensForNet_mono (s : PoolState) (supply reserve : Nat) {a b : Nat} (h : a ≤ b) :
    s.tokensForNet supply reserve a ≤ s.tokensForNet supply reserve b := by
  unfold tokensForNet
  split
  · exact s.tokensFor_mono_deposit supply reserve h
  · split
    · rename_i hstays
      split
      · exact tokensAtFlatPrice_mono h
      · calc s.tokensAtFlatPrice a ≤ s.tokensAtFlatPrice (s.terms.threshold - reserve) :=
              tokensAtFlatPrice_mono (by omega)
          _ ≤ s.tokensAcross supply reserve b := Nat.le_add_right _ _
    · rw [if_neg (by omega)]
      exact Nat.add_le_add_left (s.tokensFor_mono_deposit _ _ (by omega)) _

end Buy

/-! ## Selling -/

def freedFor (s : PoolState) (supply reserve tokens : Nat) : Nat :=
  if s.isGraduated then Curve.payoutFor supply reserve tokens s.terms.ratio
  else min (tokens * s.terms.flatPrice / Fixed.one) reserve

theorem exists_quoteSell {reserve : Nat} (hreserve : s.reserve = reserve) (supply tokens : Nat) :
    ∃ q, s.quoteSell (some (supply : Int)) (some (tokens : Int)) = .ok q ∧
      q.reserveOut = s.freedFor supply reserve tokens ∧
      q.fee = (s.tradeCharge (s.freedFor supply reserve tokens)).fee ∧
      q.netOut = (s.tradeCharge (s.freedFor supply reserve tokens)).net := by
  cases hphase : s.isGraduated with
  | true =>
      have hfreed : s.freedFor supply reserve tokens = (s.orderAt supply reserve tokens).payout := by
        unfold freedFor
        rw [if_pos hphase]
        rfl
      rw [hfreed]
      exact ⟨_, quoteSell_of_graduated hphase hreserve tokens, rfl, rfl, rfl⟩
  | false =>
      have hflat : ¬ s.isGraduated = true := by simp [hphase]
      have hgross : min ((tokens : Int) * s.terms.flatPrice / Fixed.one) (reserve : Int) =
          (s.freedFor supply reserve tokens : Nat) := by
        unfold freedFor
        rw [if_neg hflat, Nat.cast_min, Int.natCast_ediv, Int.natCast_mul]
      unfold quoteSell
      rw [if_neg hflat, hreserve]
      show ∃ q, charge (some (min _ _)) _ >>= _ = Except.ok q ∧ _
      rw [hgross, charge_tradeFee]
      exact ⟨_, rfl, rfl, rfl, rfl⟩

theorem freedFor_mono (s : PoolState) {supply t u : Nat} (reserve : Nat) (h : t ≤ u)
    (hwithin : u ≤ supply) : s.freedFor supply reserve t ≤ s.freedFor supply reserve u := by
  unfold freedFor
  split
  · exact Curve.payoutFor_mono le_rfl le_rfl h hwithin s.terms.ratio_pos le_rfl
  · exact min_le_min_right _ (Nat.div_le_div_right (Nat.mul_le_mul_right _ h))

/-- Spending or selling more never yields less. At any supply, every amount has a quote for buying,
and a larger amount has one with no fewer tokens, no smaller net amount and no smaller fee, also where
it crosses the threshold and the smaller one does not. For tokens up to the supply the same holds of
the quote for selling, of what they free, of the fee and of what is paid out. -/
theorem quotes_monotone (s : PoolState) (hreserve : 0 ≤ s.reserve) {supply : Int}
    (hsupply : 0 ≤ supply) :
    (∀ a b : Int, 0 ≤ a → a ≤ b →
      ∃ q q', s.quoteBuy (some supply) (some a) = .ok q ∧ s.quoteBuy (some supply) (some b) = .ok q' ∧
        q.tokensOut ≤ q'.tokensOut ∧ q.net ≤ q'.net ∧ q.fee ≤ q'.fee) ∧
    ∀ t u : Int, 0 ≤ t → t ≤ u → u ≤ supply →
      ∃ q q', s.quoteSell (some supply) (some t) = .ok q ∧
        s.quoteSell (some supply) (some u) = .ok q' ∧
        q.reserveOut ≤ q'.reserveOut ∧ q.fee ≤ q'.fee ∧ q.netOut ≤ q'.netOut := by
  obtain ⟨reserve, hreserve⟩ := Int.eq_ofNat_of_zero_le hreserve
  obtain ⟨supply, rfl⟩ := Int.eq_ofNat_of_zero_le hsupply
  constructor
  · intro a b ha hab
    obtain ⟨a, rfl⟩ := Int.eq_ofNat_of_zero_le ha
    obtain ⟨b, rfl⟩ := Int.eq_ofNat_of_zero_le (ha.trans hab)
    have hle : a ≤ b := Int.ofNat_le.mp hab
    obtain ⟨q, hq, htokens, hnet, hfee⟩ := exists_quoteBuy hreserve supply a
    obtain ⟨q', hq', htokens', hnet', hfee'⟩ := exists_quoteBuy hreserve supply b
    refine ⟨q, q', hq, hq', ?_, ?_, ?_⟩
    · rw [htokens, htokens']
      exact Int.ofNat_le.mpr (s.tokensForNet_mono supply reserve (net_tradeCharge_mono hle))
    · rw [hnet, hnet']
      exact Int.ofNat_le.mpr (net_tradeCharge_mono hle)
    · rw [hfee, hfee']
      exact Int.ofNat_le.mpr (fee_tradeCharge_mono hle)
  · intro t u ht htu hu
    obtain ⟨t, rfl⟩ := Int.eq_ofNat_of_zero_le ht
    obtain ⟨u, rfl⟩ := Int.eq_ofNat_of_zero_le (ht.trans htu)
    have hfreed := s.freedFor_mono reserve (Int.ofNat_le.mp htu) (Int.ofNat_le.mp hu)
    obtain ⟨q, hq, hout, hfee, hnet⟩ := exists_quoteSell hreserve supply t
    obtain ⟨q', hq', hout', hfee', hnet'⟩ := exists_quoteSell hreserve supply u
    refine ⟨q, q', hq, hq', ?_, ?_, ?_⟩
    · rw [hout, hout']
      exact Int.ofNat_le.mpr hfreed
    · rw [hfee, hfee']
      exact Int.ofNat_le.mpr (fee_tradeCharge_mono hfreed)
    · rw [hnet, hnet']
      exact Int.ofNat_le.mpr (net_tradeCharge_mono hfreed)

/-- A pool short of its threshold by forty. -/
def sampleShort : PoolState where
  terms := { (default : Terms) with
    ratio := 400000, minRatio_le := by decide, ratio_le := by decide
    tradeFee := 900, tradeFee_le := by decide
    threshold := 100, threshold_pos := by decide, flatPrice := 10, flatPrice_pos := by decide }
  reserve := 60

/-- Forty stay below the threshold for the fee, and a hundred go across it. -/
theorem sample_quotes_monotone :
    (∃ q q', sampleShort.quoteBuy (some 6000000000000000000) (some 40) = .ok q ∧
      sampleShort.quoteBuy (some 6000000000000000000) (some 100) = .ok q' ∧
      q.tokensOut ≤ q'.tokensOut ∧ q.net ≤ q'.net ∧ q.fee ≤ q'.fee) ∧
    ∃ q q', sampleShort.quoteSell (some 6000000000000000000) (some 1000000000000000000) = .ok q ∧
      sampleShort.quoteSell (some 6000000000000000000) (some 6000000000000000000) = .ok q' ∧
      q.reserveOut ≤ q'.reserveOut ∧ q.fee ≤ q'.fee ∧ q.netOut ≤ q'.netOut :=
  ⟨(sampleShort.quotes_monotone (by decide) (by decide)).1 40 100 (by decide) (by decide),
    (sampleShort.quotes_monotone (by decide) (by decide)).2 _ _ (by decide) (by decide) (by decide)⟩

end PoolState

end CurveMarket
