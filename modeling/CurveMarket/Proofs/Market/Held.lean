import CurveMarket.Proofs.Market.Rollback

/-! # Amounts held and supplies

What effects do to the reserve asset of an account and to the supply of a token. A token stands
apart when its balances are not among those of the reserve asset, so that minting and burning it
moves none of the asset.
-/

namespace CurveMarket

namespace MarketView

/-- The token behind a capability shares no balance with the reserve asset. -/
def Apart (v : MarketView) (c : Nat) : Prop :=
  (v.token (v.capability c).token).own = none →
    (v.token (v.capability c).token).token.name ≠ v.symbol

/-- What an account gains from a payment, or loses by it. -/
def gain (payer payee : Text) (amount : Int) (account : Text) : Int :=
  (if account = payee then amount else 0) - (if account = payer then amount else 0)

theorem gain_nonneg {payer account : Text} (h : payer ≠ account) (payee : Text) {amount : Int}
    (hle : 0 ≤ amount) : 0 ≤ gain payer payee amount account := by
  unfold gain
  rw [if_neg (Ne.symm h)]
  split
  · omega
  · omega

theorem gain_self (payer account : Text) (amount : Int) :
    gain payer account amount account = amount - if payer = account then amount else 0 := by
  unfold gain
  rw [if_pos rfl]
  by_cases h : payer = account
  · rw [if_pos h, if_pos h.symm]
  · rw [if_neg h, if_neg (Ne.symm h)]

theorem gain_payee {payer account : Text} (h : payer ≠ account) (amount : Int) :
    gain payer account amount account = amount := by
  rw [gain_self, if_neg h, Int.sub_zero]

theorem neg_le_gain (payer payee account : Text) {amount : Int} (hle : 0 ≤ amount) :
    -amount ≤ gain payer payee amount account := by
  unfold gain
  split
  · split
    · omega
    · omega
  · split
    · omega
    · omega

theorem held_afterPay (v : MarketView) (payer payee : Text) (amount : Int) (account : Text) :
    (v.afterPay payer payee amount).held account =
      v.held account + gain payer payee amount account := by
  have hkey (a : Text) : (⟨account, v.symbol⟩ : RowKey) = ⟨a, v.symbol⟩ ↔ account = a := by simp
  show transferred v.balances ⟨payer, v.symbol⟩ ⟨payee, v.symbol⟩ amount ⟨account, v.symbol⟩ = _
  rw [transferred_apply]
  simp only [hkey]
  unfold gain
  show v.held account - _ + _ = _
  omega

theorem held_afterIssue {v : MarketView} {c : Nat} (h : v.Apart c) (holder : Text)
    (change : Int) (account : Text) :
    (v.afterIssue (v.capability c).token holder change).held account = v.held account := by
  unfold Apart at h
  unfold afterIssue
  cases hown : (v.token (v.capability c).token).own with
  | none =>
      have hkey : (⟨account, v.symbol⟩ : RowKey) ≠
          ⟨holder, (v.token (v.capability c).token).token.name⟩ := by
        intro heq
        exact h hown (congrArg RowKey.asset heq).symm
      exact shift_of_ne hkey v.balances change
  | some amounts => rfl

theorem supplyOf_afterIssue {v : MarketView} {c : Nat}
    (h : (v.capability c).token < v.tokens.length) (holder : Text) (change : Int) :
    (v.afterIssue (v.capability c).token holder change).supplyOf c = v.supplyOf c + change := by
  unfold supplyOf
  rw [capability_afterIssue, token_afterIssue v h]

/-! ## Effects in order -/

variable {v w : MarketView} {es fs : List Effect}

theorem movesAll_append : v.MovesAll (es ++ fs) w ↔ ∃ u, v.MovesAll es u ∧ u.MovesAll fs w := by
  constructor
  · intro h
    induction es generalizing v with
    | nil => exact ⟨v, .nil v, h⟩
    | cons e rest ih =>
        cases h with
        | cons first others =>
            obtain ⟨u, hrest, hfs⟩ := ih others
            exact ⟨u, .cons first hrest, hfs⟩
  · intro h
    rcases h with ⟨u, hes, hfs⟩
    induction hes with
    | nil => exact hfs
    | cons first _ ih => exact .cons first (ih hfs)

theorem movesAll_append_append {gs : List Effect} : v.MovesAll (es ++ fs ++ gs) w ↔
    ∃ u₁ u₂, v.MovesAll es u₁ ∧ u₁.MovesAll fs u₂ ∧ u₂.MovesAll gs w := by
  rw [movesAll_append]
  constructor
  · intro h
    rcases h with ⟨u₂, hfirst, hgs⟩
    obtain ⟨u₁, hes, hfs⟩ := movesAll_append.mp hfirst
    exact ⟨u₁, u₂, hes, hfs, hgs⟩
  · intro h
    rcases h with ⟨u₁, u₂, hes, hfs, hgs⟩
    exact ⟨u₂, movesAll_append.mpr ⟨u₁, hes, hfs⟩, hgs⟩

theorem movesAll_singleton {e : Effect} : v.MovesAll [e] w ↔ v.Moves e w := by
  constructor
  · intro h
    cases h with
    | cons first others =>
        cases others
        exact first
  · intro h
    exact .cons h (.nil w)

theorem movesAll_moves_of_ne {sender recipient : Option Text} {amount : Int} (h : amount ≠ 0) :
    v.MovesAll (Effect.moves sender recipient amount) w ↔
      v.Moves (.transfer sender recipient amount) w := by
  unfold Effect.moves
  rw [if_neg h, movesAll_singleton]

/-- A payment through `Effect.moves`, which leaves out nothing but payments of zero. -/
theorem movesAll_moves {sender recipient : Option Text} {amount : Int}
    (h : v.MovesAll (Effect.moves sender recipient amount) w) :
    w = v ∧ amount = 0 ∨ ∃ payer payee, sender = some payer ∧ recipient = some payee ∧
      0 < amount ∧ amount ≤ v.held payer ∧ w = v.afterPay payer payee amount := by
  by_cases hzero : amount = 0
  · unfold Effect.moves at h
    rw [if_pos hzero] at h
    cases h
    exact .inl ⟨rfl, hzero⟩
  · rw [movesAll_moves_of_ne hzero] at h
    cases h with
    | transfer _ _ hle hheld => exact .inr ⟨_, _, rfl, rfl, by omega, hheld, rfl⟩

theorem held_of_moves {payer payee : Text} {amount : Int}
    (h : v.MovesAll (Effect.moves payer payee amount) w) (account : Text) :
    w.held account = v.held account + gain payer payee amount account := by
  rcases movesAll_moves h with ⟨rfl, rfl⟩ | ⟨_, _, heq, heq', -, -, rfl⟩
  · simp [gain]
  · cases heq
    cases heq'
    exact held_afterPay v payer payee amount account

/-- A payment leaves the tokens and who may issue them alone. -/
theorem issuers_of_moves {sender recipient : Option Text} {amount : Int}
    (h : v.MovesAll (Effect.moves sender recipient amount) w) :
    w.tokens = v.tokens ∧ w.capabilities = v.capabilities := by
  rcases movesAll_moves h with ⟨rfl, -⟩ | ⟨_, _, -, -, -, -, rfl⟩
  · exact ⟨rfl, rfl⟩
  · exact ⟨rfl, rfl⟩

/-- A payment that the payer can cover is let through. -/
theorem exists_movesAll_moves {payer payee : Text} {amount : Int} (hpayer : payer.isEmpty = false)
    (hpayee : payee.isEmpty = false) (hle : 0 ≤ amount) (hheld : amount ≤ v.held payer) :
    ∃ w, v.MovesAll (Effect.moves payer payee amount) w := by
  by_cases hzero : amount = 0
  · rw [hzero]
    exact ⟨v, .nil v⟩
  · exact ⟨_, (movesAll_moves_of_ne hzero).mpr (.transfer hpayer hpayee hle hheld)⟩

theorem supplyOf_of_moves {sender recipient : Option Text} {amount : Int}
    (h : v.MovesAll (Effect.moves sender recipient amount) w) (c : Nat) :
    w.supplyOf c = v.supplyOf c := by
  rcases movesAll_moves h with ⟨rfl, -⟩ | ⟨_, _, -, -, -, -, rfl⟩
  · rfl
  · rfl

/-! ## Two payments by one account -/

section Payments

variable {payer first second : Text} {paid fee : Int}

/-- Two payments are let through when the payer holds their sum, whoever gets them. -/
theorem exists_payments (hpayer : payer.isEmpty = false) (hfirst : first.isEmpty = false)
    (hsecond : second.isEmpty = false) (hpaid : 0 ≤ paid) (hfee : 0 ≤ fee)
    (hheld : paid + fee ≤ v.held payer) :
    ∃ u w, v.MovesAll (Effect.moves payer first paid) u ∧
      u.MovesAll (Effect.moves payer second fee) w := by
  obtain ⟨u, hu⟩ := exists_movesAll_moves hpayer hfirst hpaid (by omega : paid ≤ v.held payer)
  have hrest := held_of_moves hu payer
  have hlost := neg_le_gain payer first payer hpaid
  obtain ⟨w, hw⟩ := exists_movesAll_moves hpayer hsecond hfee (by omega : fee ≤ u.held payer)
  exact ⟨u, w, hu, hw⟩

/-- Two payments that are let through were covered together, unless the first came back. -/
theorem covered_of_payments {u : MarketView} (hne : payer ≠ first) (hpositive : 0 < paid + fee)
    (hu : v.MovesAll (Effect.moves payer first paid) u)
    (hw : u.MovesAll (Effect.moves payer second fee) w) : paid + fee ≤ v.held payer := by
  have hrest := held_of_moves hu payer
  have hlost : gain payer first paid payer = -paid := by
    unfold gain
    rw [if_neg hne, if_pos rfl, Int.zero_sub]
  rcases movesAll_moves hw with ⟨-, hzero⟩ | ⟨_, _, hpayer, -, -, hcovered, -⟩
  · rcases movesAll_moves hu with ⟨-, hnone⟩ | ⟨_, _, hpayer, -, -, hcovered, -⟩
    · omega
    · cases hpayer
      omega
  · cases hpayer
    omega

end Payments

/-! ## Single effects -/

theorem token_afterIssue_of_ne {t t' : Nat} (h : t' ≠ t) (v : MarketView) (holder : Text)
    (change : Int) : (v.afterIssue t holder change).token t' = v.token t' := by
  have hset (entry : TokenView) :
      (v.tokens.set t entry).getD t' default = v.tokens.getD t' default := by
    rw [List.getD_eq_getElem?_getD, List.getElem?_set_ne (Ne.symm h), ← List.getD_eq_getElem?_getD]
  unfold afterIssue
  cases (v.token t).own with
  | none => exact hset _
  | some amounts => exact hset _

theorem Apart.afterIssue {c : Nat} (h : v.Apart c) {t : Nat} (hexists : t < v.tokens.length)
    (holder : Text) (change : Int) : (v.afterIssue t holder change).Apart c := by
  have hsymbol : (v.afterIssue t holder change).symbol = v.symbol := by rw [afterIssue_eq]
  unfold Apart at h ⊢
  rw [capability_afterIssue, hsymbol]
  by_cases hsame : (v.capability c).token = t
  · rw [hsame, token_afterIssue v hexists]
    rw [hsame] at h
    intro hown
    exact h (by simpa using hown)
  · rw [token_afterIssue_of_ne hsame]
    exact h

theorem Moves.apart {e : Effect} (h : v.Moves e w) {c : Nat} (hapart : v.Apart c) : w.Apart c := by
  cases h with
  | transfer => exact hapart
  | mint hauth => exact hapart.afterIssue (lt_of_isAuthorized hauth) _ _
  | burn hauth => exact hapart.afterIssue (lt_of_isAuthorized hauth) _ _

theorem MovesAll.apart (h : v.MovesAll es w) {c : Nat} (hapart : v.Apart c) : w.Apart c := by
  induction h with
  | nil => exact hapart
  | cons first _ ih => exact ih (first.apart hapart)

theorem Moves.held_mint {c : Nat} {holder : Option Text} {amount : Option Int}
    (h : v.Moves (.mint c holder amount) w) (hapart : v.Apart c) (account : Text) :
    w.held account = v.held account := by
  cases h with
  | mint => exact held_afterIssue hapart _ _ account

theorem Moves.held_burn {c : Nat} {holder : Option Text} {amount : Option Int}
    (h : v.Moves (.burn c holder amount) w) (hapart : v.Apart c) (account : Text) :
    w.held account = v.held account := by
  cases h with
  | burn => exact held_afterIssue hapart _ _ account

theorem Moves.supplyOf_mint {c : Nat} {holder : Option Text} {amount : Int}
    (h : v.Moves (.mint c holder (some amount)) w) : w.supplyOf c = v.supplyOf c + amount := by
  cases h with
  | mint hauth => exact supplyOf_afterIssue (lt_of_isAuthorized hauth) _ _

theorem Moves.supplyOf_burn {c : Nat} {holder : Option Text} {amount : Int}
    (h : v.Moves (.burn c holder (some amount)) w) : w.supplyOf c = v.supplyOf c - amount := by
  cases h with
  | burn hauth => exact supplyOf_afterIssue (lt_of_isAuthorized hauth) _ _

/-! ## Trades -/

section Trade

variable {payer payee : Option Text} {c : Nat} {holder : Option Text}

theorem supplyOf_of_mint {payer' payee' : Option Text} {first second amount : Int}
    (h : v.MovesAll (Effect.moves payer payee first ++ Effect.moves payer' payee' second ++
      [.mint c holder (some amount)]) w) : w.supplyOf c = v.supplyOf c + amount := by
  rw [movesAll_append_append] at h
  obtain ⟨v₁, v₂, hfirst, hsecond, hminted⟩ := h
  rw [movesAll_singleton] at hminted
  rw [hminted.supplyOf_mint, supplyOf_of_moves hsecond, supplyOf_of_moves hfirst]

theorem supplyOf_of_burn {payer' payee' : Option Text} {first second amount : Int}
    (h : v.MovesAll ([.burn c holder (some amount)] ++ Effect.moves payer payee first ++
      Effect.moves payer' payee' second) w) : w.supplyOf c = v.supplyOf c - amount := by
  rw [movesAll_append_append] at h
  obtain ⟨v₁, v₂, hburned, hfirst, hsecond⟩ := h
  rw [movesAll_singleton] at hburned
  rw [supplyOf_of_moves hsecond, supplyOf_of_moves hfirst, hburned.supplyOf_burn]

end Trade

end MarketView

end CurveMarket
