import CurveMarket.Proofs.Market.View

/-! # What effects do to a view

An effect that is let through changes the view in one way only, a refused one changes nothing, and
the inverse of an effect is let through right after it and takes it back.
-/

namespace CurveMarket

open CurveMarket.Action

namespace MarketView

/-- How an effect that is let through changes a view. -/
inductive Moves (v : MarketView) : Effect → MarketView → Prop
  | transfer {payer payee : Text} {amount : Int} (payer_named : payer.isEmpty = false)
      (payee_named : payee.isEmpty = false) (nonneg : 0 ≤ amount)
      (covered : amount ≤ v.held payer) :
      Moves v (.transfer (some payer) (some payee) (some amount)) (v.afterPay payer payee amount)
  | mint {c : Nat} {account : Text} {amount : Int}
      (authorized : v.isAuthorized (v.capability c).token c = true)
      (named : account.isEmpty = false) (nonneg : 0 ≤ amount) :
      Moves v (.mint c (some account) (some amount))
        (v.afterIssue (v.capability c).token account amount)
  | burn {c : Nat} {account : Text} {amount : Int}
      (authorized : v.isAuthorized (v.capability c).token c = true)
      (named : account.isEmpty = false) (nonneg : 0 ≤ amount)
      (covered : amount ≤ v.tokenAmounts (v.capability c).token
        ⟨account, (v.token (v.capability c).token).token.name⟩) :
      Moves v (.burn c (some account) (some amount))
        (v.afterIssue (v.capability c).token account (-amount))

theorem Moves.unique {v w w' : MarketView} {e : Effect} (h : v.Moves e w) (h' : v.Moves e w') :
    w = w' := by
  cases h <;> cases h' <;> rfl

/-! ## Issued tokens -/

section Issue

variable {t : Nat}

theorem afterIssue_eq (t : Nat) (account : Text) (change : Int) (v : MarketView) :
    v.afterIssue t account change =
      { v with
        tokens := (v.afterIssue t account change).tokens
        balances := (v.afterIssue t account change).balances } := by
  unfold afterIssue
  cases (v.token t).own with
  | none => rfl
  | some amounts => rfl

theorem token_afterIssue (v : MarketView) (h : t < v.tokens.length) (account : Text)
    (change : Int) :
    (v.afterIssue t account change).token t =
      ⟨{ (v.token t).token with supply := (v.token t).token.supply + change },
        (v.token t).own.map fun amounts =>
          shift amounts ⟨account, (v.token t).token.name⟩ change⟩ := by
  have hset (entry : TokenView) : (v.tokens.set t entry).getD t default = entry := by
    rw [List.getD_eq_getElem _ _ (by simpa using h), List.getElem_set_self]
  unfold afterIssue
  cases (v.token t).own with
  | none => exact hset _
  | some amounts => exact hset _

theorem tokenAmounts_afterIssue (v : MarketView) (h : t < v.tokens.length) (account : Text)
    (change : Int) :
    (v.afterIssue t account change).tokenAmounts t =
      shift (v.tokenAmounts t) ⟨account, (v.token t).token.name⟩ change := by
  unfold tokenAmounts
  rw [token_afterIssue v h]
  unfold afterIssue
  cases (v.token t).own with
  | none => rfl
  | some amounts => rfl

theorem afterIssue_afterIssue (v : MarketView) (h : t < v.tokens.length) (account : Text)
    (change : Int) :
    (v.afterIssue t account change).afterIssue t account (-change) = v := by
  have hset : v.tokens.set t (v.token t) = v.tokens := by
    unfold token
    rw [List.getD_eq_getElem _ _ h, List.set_getElem_self]
  have htoken := token_afterIssue v h account change
  rw [afterIssue, htoken]
  unfold afterIssue
  generalize v.token t = entry at hset ⊢
  rcases entry with ⟨⟨name, supply, live⟩, own⟩
  have hsupply : supply + change + -change = supply := by omega
  cases own with
  | none => simp only [Option.map_none, List.set_set, shift_neg, hsupply, hset]
  | some amounts => simp only [Option.map_some, List.set_set, shift_neg, hsupply, hset]

/-- Only a token that exists lists capabilities. -/
theorem lt_of_isAuthorized {v : MarketView} {c : Nat} (h : v.isAuthorized t c = true) :
    t < v.tokens.length := by
  unfold isAuthorized at h
  rw [Bool.and_eq_true] at h
  exact lt_length_of_getD (fun x : TokenView => x.token.live.contains _ = true) h.2 nofun

theorem capability_afterIssue (v : MarketView) (t : Nat) (account : Text) (change : Int)
    (c : Nat) : (v.afterIssue t account change).capability c = v.capability c := by
  rw [afterIssue_eq]
  rfl

theorem isAuthorized_afterIssue {v : MarketView} {c : Nat} (h : v.isAuthorized t c = true)
    (account : Text) (change : Int) : (v.afterIssue t account change).isAuthorized t c = true := by
  unfold isAuthorized
  rw [capability_afterIssue, token_afterIssue v (lt_of_isAuthorized h)]
  exact h

end Issue

end MarketView

namespace Market

/-! ## Putting ledgers back -/

theorem set_getD_self {α : Type} [Inhabited α] (l : List α) (i : Nat) :
    l.set i (l.getD i default) = l := by
  by_cases h : i < l.length
  · rw [List.getD_eq_getElem _ _ h, List.set_getElem_self]
  · exact List.set_eq_of_length_le (by omega)

theorem putTokenLedger_self (m : Market) (t : Nat) : m.putTokenLedger t (m.tokenLedger t) = m := by
  have hset := set_getD_self m.tokens t
  unfold putTokenLedger tokenLedger
  generalize m.tokens.getD t default = entry at hset ⊢
  rcases entry with ⟨token, ownTable⟩
  cases ownTable with
  | none => simp only [Option.getD_none, hset]
  | some table => simp only [Option.getD_some, hset]

theorem view_putTokenLedger {m : Market} {t : Nat} {account : Text} {change : Int}
    {l : TokenLedger} (h : (m.tokenLedger t).Issues account change l) :
    (m.putTokenLedger t l).view = m.view.afterIssue t account change := by
  rcases h with ⟨htoken, htable⟩
  unfold tokenLedger at htoken htable
  unfold MarketView.afterIssue putTokenLedger
  rw [view_token]
  generalize m.tokens.getD t default = entry at htoken htable ⊢
  rcases entry with ⟨token, ownTable⟩
  cases ownTable with
  | none =>
      simp only [Option.getD_none] at htoken htable
      simp only [view, List.map_set, TokenEntry.view, Option.map_none, htoken, htable]
  | some table =>
      simp only [Option.getD_some] at htoken htable
      simp only [view, List.map_set, TokenEntry.view, Option.map_some, htoken, htable]

/-! ## Carrying effects out -/

theorem apply_ends (e : Effect) (m : Market) :
    Ends (apply e) m (fun _ m' => m.view.Moves e m'.view)
      (fun err m' => err.IsRefusal ∧ m' = m ∧ ∀ w, ¬ m.view.Moves e w) := by
  cases e with
  | transfer sender recipient amount =>
      refine .bind (ends_get (.focus ((transferUnits_ends ..).imp ?_ ?_)))
      · rintro - t ⟨payer, payee, n, hs, hr, rfl, hle, hheld, hget⟩
        obtain ⟨⟨rfl, hs⟩, ⟨rfl, hr⟩⟩ := hs, hr
        have hview : ({ m with table := t } : Market).view = m.view.afterPay payer payee n := by
          simp only [view, MarketView.afterPay, hget]
        rw [hview]
        exact .transfer hs hr hle hheld
      · rintro err t ⟨href, rfl, hno⟩
        refine ⟨href, rfl, fun w hmoves => ?_⟩
        cases hmoves with
        | transfer hs hr hle hheld =>
            exact absurd (hno _ _ _ ⟨rfl, hs⟩ ⟨rfl, hr⟩ rfl hle) (Int.not_lt.mpr hheld)
  | mint c account amount =>
      refine .bind (ends_get (.focus ((TokenLedger.mint_ends ..).imp ?_ ?_)))
      · rintro - l ⟨hauth, a, n, ⟨rfl, ha⟩, rfl, hle, hissues⟩
        rw [view_putTokenLedger hissues]
        exact .mint (by rw [view_isAuthorized]; exact hauth) ha hle
      · rintro err l ⟨href, rfl, hno⟩
        refine ⟨href, putTokenLedger_self m _, fun w hmoves => ?_⟩
        cases hmoves with
        | mint hauth ha hle =>
            rw [view_isAuthorized] at hauth
            exact hno _ _ hauth ⟨rfl, ha⟩ rfl hle
  | burn c account amount =>
      refine .bind (ends_get (.focus ((TokenLedger.burn_ends ..).imp ?_ ?_)))
      · rintro - l ⟨hauth, a, n, ⟨rfl, ha⟩, rfl, hle, hheld, hissues⟩
        rw [view_putTokenLedger hissues]
        refine .burn (by rw [view_isAuthorized]; exact hauth) ha hle ?_
        rw [view_tokenAmounts, view_token]
        exact hheld
      · rintro err l ⟨href, rfl, hno⟩
        refine ⟨href, putTokenLedger_self m _, fun w hmoves => ?_⟩
        cases hmoves with
        | burn hauth ha hle hheld =>
            rw [view_isAuthorized] at hauth
            rw [view_tokenAmounts, view_token] at hheld
            exact absurd (hno _ _ hauth ⟨rfl, ha⟩ rfl hle) (Int.not_lt.mpr hheld)

/-! ## Taking effects back -/

theorem tokenAmounts_nonneg (m : Market) (t : Nat) (k : RowKey) : 0 ≤ m.view.tokenAmounts t k := by
  rw [view_tokenAmounts]
  exact BalanceTable.get_nonneg _ k

theorem inverse_moves {m : Market} {e : Effect} {w : MarketView} (h : m.view.Moves e w) :
    w.Moves e.inverse m.view := by
  cases h with
  | @transfer payer payee amount hs hr hle hheld =>
      have hback : (m.view.afterPay payer payee amount).afterPay payee payer amount = m.view := by
        simp only [MarketView.afterPay, transferred_transferred]
      have hcovered : amount ≤ (m.view.afterPay payer payee amount).held payee := by
        have hpos : 0 ≤ m.view.balances ⟨payee, m.view.symbol⟩ := m.table.get_nonneg _
        show amount ≤ transferred m.view.balances ⟨payer, m.view.symbol⟩ ⟨payee, m.view.symbol⟩
          amount ⟨payee, m.view.symbol⟩
        rw [transferred_apply, if_pos rfl]
        by_cases hsame : payee = payer
        · subst hsame
          rw [if_pos rfl]
          have : amount ≤ m.view.balances ⟨payee, m.view.symbol⟩ := hheld
          omega
        · rw [if_neg (by simpa using hsame)]
          omega
      have hmoves := MarketView.Moves.transfer hr hs hle hcovered
      rw [hback] at hmoves
      exact hmoves
  | @mint c account amount hauth ha hle =>
      have ht := MarketView.lt_of_isAuthorized hauth
      have hcovered := m.tokenAmounts_nonneg (m.view.capability c).token
        ⟨account, (m.view.token (m.view.capability c).token).token.name⟩
      have hmoves : MarketView.Moves _ (.burn c (some account) (some amount)) _ :=
        .burn (v := m.view.afterIssue (m.view.capability c).token account amount) (c := c)
          (by rw [MarketView.capability_afterIssue]
              exact MarketView.isAuthorized_afterIssue hauth account amount)
          ha hle
          (by rw [MarketView.capability_afterIssue, MarketView.tokenAmounts_afterIssue _ ht,
                MarketView.token_afterIssue _ ht, shift_self]
              omega)
      rw [MarketView.capability_afterIssue, MarketView.afterIssue_afterIssue _ ht] at hmoves
      exact hmoves
  | @burn c account amount hauth ha hle hheld =>
      have ht := MarketView.lt_of_isAuthorized hauth
      have hback := MarketView.afterIssue_afterIssue m.view ht account (-amount)
      rw [Int.neg_neg] at hback
      have hmoves : MarketView.Moves _ (.mint c (some account) (some amount)) _ :=
        .mint (v := m.view.afterIssue (m.view.capability c).token account (-amount)) (c := c)
          (by rw [MarketView.capability_afterIssue]
              exact MarketView.isAuthorized_afterIssue hauth account (-amount))
          ha hle
      rw [MarketView.capability_afterIssue, hback] at hmoves
      exact hmoves

end Market

end CurveMarket
