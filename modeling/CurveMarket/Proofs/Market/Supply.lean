import CurveMarket.Market.Service
import CurveMarket.Proofs.Ledger.Total
import CurveMarket.Proofs.Market.Held

/-! # Supplies cover balances

No set of accounts holds more of a token together than its supply. Minting and burning through a
capability of the token keep this so, and so does every payment, whether or not the token's balances
are among those of the asset that is paid.
-/

namespace CurveMarket

open Finset

/-- No set of accounts has more of an asset together than `limit`. -/
def Within (amounts : RowKey → Int) (asset : Text) (limit : Int) : Prop :=
  ∀ accounts : Finset Text, ∑ a ∈ accounts, amounts ⟨a, asset⟩ ≤ limit

section Amounts

variable {amounts : RowKey → Int} {asset : Text} {limit : Int}

theorem Within.nonneg (h : Within amounts asset limit) : 0 ≤ limit := by
  simpa using h ∅

theorem Within.shift_of_ne (h : Within amounts asset limit) {k : RowKey} (hk : k.asset ≠ asset)
    (change : Int) : Within (shift amounts k change) asset limit := by
  intro accounts
  simpa only [shift_of_asset_ne hk] using h accounts

theorem Within.shift_add (h : Within amounts asset limit) (account : Text) {change : Int}
    (hle : 0 ≤ change) :
    Within (shift amounts ⟨account, asset⟩ change) asset (limit + change) := by
  intro accounts
  have hsum := h accounts
  rw [sum_shift]
  split
  · omega
  · omega

/-- What an account gives up can be taken off the limit, since the others had to leave room for
it. -/
theorem Within.shift_sub (h : Within amounts asset limit) {account : Text} {change : Int}
    (hle : change ≤ amounts ⟨account, asset⟩) :
    Within (shift amounts ⟨account, asset⟩ (-change)) asset (limit - change) := by
  intro accounts
  rw [sum_shift]
  by_cases hmem : account ∈ accounts
  · have hsum := h accounts
    rw [if_pos hmem]
    omega
  · have hsum := h (insert account accounts)
    rw [sum_insert hmem] at hsum
    rw [if_neg hmem]
    omega

/-- A payment keeps the limit for every asset, its own included. -/
theorem Within.transferred (h : Within amounts asset limit) {payer payee paid : Text}
    {amount : Int} (hle : 0 ≤ amount) (hheld : amount ≤ amounts ⟨payer, paid⟩) :
    Within (transferred amounts ⟨payer, paid⟩ ⟨payee, paid⟩ amount) asset limit := by
  unfold CurveMarket.transferred
  by_cases hsame : paid = asset
  · subst hsame
    have hback : limit - amount + amount = limit := by omega
    have hshifted := (h.shift_sub hheld).shift_add payee hle
    rw [hback] at hshifted
    exact hshifted
  · exact (h.shift_of_ne (k := ⟨payer, paid⟩) hsame _).shift_of_ne hsame _

end Amounts

namespace BalanceTable

/-- The total of an asset counts every account once. -/
theorem within_total (t : BalanceTable) (asset : Text) : Within t.get asset (t.total asset) := by
  intro accounts
  have hall : t.holders ⊆ accounts ∪ t.holders := subset_union_right
  rw [t.total_eq_sum asset hall]
  exact sum_le_sum_of_subset_of_nonneg subset_union_left fun a _ _ => t.get_nonneg ⟨a, asset⟩

end BalanceTable

namespace MarketView

def balanceOf (v : MarketView) (c : Nat) (account : Text) : Int :=
  v.tokenAmounts (v.capability c).token ⟨account, (v.token (v.capability c).token).token.name⟩

/-- The supply of the token behind a capability covers what is held of it. -/
def Counted (v : MarketView) (c : Nat) : Prop :=
  Within (v.tokenAmounts (v.capability c).token) (v.token (v.capability c).token).token.name
    (v.supplyOf c)

variable {v w : MarketView} {c : Nat}

theorem Counted.nonneg (h : v.Counted c) : 0 ≤ v.supplyOf c := Within.nonneg h

theorem Counted.paid {payer payee asset : Text} {amount : Int} (h : v.Counted c)
    (hle : 0 ≤ amount) (hheld : amount ≤ v.balances ⟨payer, asset⟩) :
    ({ v with balances := transferred v.balances ⟨payer, asset⟩ ⟨payee, asset⟩ amount } :
      MarketView).Counted c := by
  unfold Counted tokenAmounts at h ⊢
  show Within ((v.token (v.capability c).token).own.getD _) _ (v.supplyOf c)
  cases hown : (v.token (v.capability c).token).own with
  | some amounts =>
      rw [hown] at h
      exact h
  | none =>
      rw [hown] at h
      exact Within.transferred h hle hheld

def withOwn (v : MarketView) (t : Nat) (amounts : RowKey → Int) : MarketView :=
  { v with tokens := v.tokens.set t ⟨(v.token t).token, some amounts⟩ }

theorem token_withOwn (v : MarketView) {t : Nat} (hexists : t < v.tokens.length)
    (amounts : RowKey → Int) (j : Nat) :
    (v.withOwn t amounts).token j =
      if j = t then ⟨(v.token t).token, some amounts⟩ else v.token j := by
  unfold withOwn token
  rw [List.getD_eq_getElem?_getD, List.getElem?_set]
  by_cases hj : j = t
  · simp [hj, hexists]
  · simp [hj, Ne.symm hj, List.getD_eq_getElem?_getD]

theorem supplyOf_withOwn (v : MarketView) {t : Nat} (hexists : t < v.tokens.length)
    (amounts : RowKey → Int) (c : Nat) : (v.withOwn t amounts).supplyOf c = v.supplyOf c := by
  have hcapability : (v.withOwn t amounts).capability c = v.capability c := rfl
  unfold supplyOf
  rw [hcapability, token_withOwn v hexists]
  by_cases hj : (v.capability c).token = t
  · simp [hj]
  · simp [hj]

theorem Counted.withOwn {t : Nat} {amounts amounts' : RowKey → Int} (h : v.Counted c)
    (hexists : t < v.tokens.length) (hown : (v.token t).own = some amounts)
    (hkeeps : ∀ asset limit, Within amounts asset limit → Within amounts' asset limit) :
    (v.withOwn t amounts').Counted c := by
  have hcapability : (v.withOwn t amounts').capability c = v.capability c := rfl
  unfold Counted tokenAmounts at h ⊢
  rw [supplyOf_withOwn v hexists, hcapability, token_withOwn v hexists]
  by_cases hj : (v.capability c).token = t
  · rw [hj, hown] at h
    rw [if_pos hj]
    exact hkeeps _ _ h
  · rw [if_neg hj]
    exact h

theorem Counted.moves {sender recipient : Option Text} {amount : Int} (h : v.Counted c)
    (hmoves : v.MovesAll (Effect.moves sender recipient amount) w) : w.Counted c := by
  rcases movesAll_moves hmoves with ⟨rfl, -⟩ | ⟨payer, payee, -, -, hpos, hheld, rfl⟩
  · exact h
  · exact h.paid hpos.le hheld

theorem Counted.afterIssue {account : Text} {change : Int}
    (hexists : (v.capability c).token < v.tokens.length)
    (h : Within (shift (v.tokenAmounts (v.capability c).token)
      ⟨account, (v.token (v.capability c).token).token.name⟩ change)
      (v.token (v.capability c).token).token.name (v.supplyOf c + change)) :
    (v.afterIssue (v.capability c).token account change).Counted c := by
  unfold Counted
  rw [supplyOf_afterIssue hexists, capability_afterIssue, tokenAmounts_afterIssue v hexists,
    token_afterIssue v hexists]
  exact h

theorem Counted.mint {holder : Option Text} {amount : Option Int} (h : v.Counted c)
    (hmoves : v.Moves (.mint c holder amount) w) : w.Counted c := by
  cases hmoves with
  | mint hauth _ hle => exact .afterIssue (lt_of_isAuthorized hauth) (Within.shift_add h _ hle)

theorem Counted.burn {holder : Option Text} {amount : Option Int} (h : v.Counted c)
    (hmoves : v.Moves (.burn c holder amount) w) : w.Counted c := by
  cases hmoves with
  | burn hauth _ _ hheld => exact .afterIssue (lt_of_isAuthorized hauth) (Within.shift_sub h hheld)

end MarketView

namespace Market

open CurveMarket.Action

theorem view_balanceOf (m : Market) (c : Nat) (account : Text) :
    m.view.balanceOf c account = m.tokenBalance c (some account) := by
  unfold MarketView.balanceOf tokenBalance
  rw [view_tokenAmounts, view_token]
  rfl

/-- A token is counted when its supply is the sum of its balances. -/
theorem counted_of_total {m : Market} {c : Nat}
    (h : (m.tokenLedger (m.capability c).token).table.total (m.token (m.capability c).token).name =
      m.supplyOf c) : m.view.Counted c := by
  unfold MarketView.Counted
  rw [view_tokenAmounts, view_token, view_supplyOf, ← h]
  exact BalanceTable.within_total _ _

/-- What a transfer among holders leaves as it was. -/
structure KeepsIssue (m m' : Market) : Prop where
  pools : m'.pools = m.pools
  supply : ∀ c, m'.supplyOf c = m.supplyOf c
  counted : ∀ c, m.view.Counted c → m'.view.Counted c

theorem KeepsIssue.refl (m : Market) : m.KeepsIssue m := ⟨rfl, fun _ => rfl, fun _ => id⟩

theorem keepsIssue_putTable {m : Market} {t : Nat} {table : BalanceTable} {payer payee : Text}
    {amount : Int} (hle : 0 ≤ amount)
    (hheld : amount ≤ (m.tokenLedger t).table.get ⟨payer, (m.token t).name⟩)
    (hget : table.get = transferred (m.tokenLedger t).table.get ⟨payer, (m.token t).name⟩
      ⟨payee, (m.token t).name⟩ amount) :
    m.KeepsIssue (m.putTokenLedger t ⟨m.token t, table⟩) := by
  have htoken := view_token m t
  unfold tokenLedger at hheld hget
  cases hown : (m.tokens.getD t default).ownTable with
  | none =>
      simp only [hown, Option.getD_none] at hheld hget
      have hentry : (⟨m.token t, none⟩ : TokenEntry) = m.tokens.getD t default := by
        rw [← hown]
        rfl
      have hput : m.putTokenLedger t ⟨m.token t, table⟩ = { m with table := table } := by
        unfold putTokenLedger
        rw [hown]
        simp only [hentry, set_getD_self]
      have hview : (m.putTokenLedger t ⟨m.token t, table⟩).view =
          { m.view with
            balances := transferred m.view.balances ⟨payer, (m.token t).name⟩
              ⟨payee, (m.token t).name⟩ amount } := by
        rw [hput]
        simp only [view, hget]
      refine ⟨by rw [hput], fun c => by rw [hput]; rfl, fun c hcounted => ?_⟩
      rw [hview]
      exact hcounted.paid hle hheld
  | some own =>
      simp only [hown, Option.getD_some] at hheld hget
      have hexists : t < m.view.tokens.length := by
        rw [view, List.length_map]
        exact lt_length_of_getD (fun e : TokenEntry => e.ownTable = some own) hown
          (Option.some_ne_none own).symm
      have hview : (m.putTokenLedger t ⟨m.token t, table⟩).view = m.view.withOwn t table.get := by
        unfold putTokenLedger MarketView.withOwn
        rw [hown, htoken]
        simp only [view, List.map_set, TokenEntry.view, Option.map_some]
        rfl
      refine ⟨congrArg MarketView.pools hview, fun c => ?_, fun c hcounted => ?_⟩
      · rw [← view_supplyOf, hview, MarketView.supplyOf_withOwn _ hexists, view_supplyOf]
      · rw [hview]
        have hamounts : (m.view.token t).own = some own.get := by
          rw [htoken, TokenEntry.view, hown]
          rfl
        refine hcounted.withOwn hexists hamounts fun asset limit hwithin => ?_
        rw [hget]
        exact hwithin.transferred hle hheld

/-- A transfer of a token keeps what was issued, refused or not. -/
theorem keepsIssue_tokenTransfer (m : Market) (target : Text) (t : Nat)
    (sender recipient : Option Text) (amount : Option Int) :
    m.KeepsIssue ((serveToken target t (.transfer sender recipient amount)).stateAfter m) := by
  have hends : Ends (serveToken target t (.transfer sender recipient amount)) m
      (fun _ m' => m.KeepsIssue m') (fun _ m' => m.KeepsIssue m') := by
    refine .bind (ends_get (.bind (.focus (.focus ?_))))
    refine (transferUnits_ends ..).imp ?_ ?_
    · rintro - table ⟨payer, payee, n, -, -, -, hle, hheld, hget⟩
      exact ends_pure (keepsIssue_putTable hle hheld hget)
    · rintro e table ⟨-, rfl, -⟩
      rw [putTokenLedger_self]
      exact .refl m
  exact hends.stateAfter

end Market

end CurveMarket
