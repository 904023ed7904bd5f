import Mathlib.Algebra.Group.Pi.Lemmas
import Mathlib.Algebra.BigOperators.Group.List.Basic
import Mathlib.Tactic.Abel
import CurveMarket.Proofs.Market.Supply

/-! # Movements of value

A movement says by account what comes and goes, of the reserve asset and of one token. Every effect
is a movement, and effects that are let through one after another move the sum of their movements:
what an account gets and gives in several of them adds up, whichever accounts are the same.
-/

namespace CurveMarket

/-- Changes of what accounts hold of the reserve asset and of a token, and of the token's supply. -/
@[ext]
structure Movement where
  asset : Text → Int
  tokens : Text → Int
  supply : Int

namespace Movement

instance : Zero Movement := ⟨⟨0, 0, 0⟩⟩

instance : Add Movement := ⟨fun x y => ⟨x.asset + y.asset, x.tokens + y.tokens, x.supply + y.supply⟩⟩

@[simp] theorem asset_zero : (0 : Movement).asset = 0 := rfl

@[simp] theorem tokens_zero : (0 : Movement).tokens = 0 := rfl

@[simp] theorem supply_zero : (0 : Movement).supply = 0 := rfl

@[simp] theorem asset_add (x y : Movement) : (x + y).asset = x.asset + y.asset := rfl

@[simp] theorem tokens_add (x y : Movement) : (x + y).tokens = x.tokens + y.tokens := rfl

@[simp] theorem supply_add (x y : Movement) : (x + y).supply = x.supply + y.supply := rfl

instance : AddMonoid Movement where
  add_assoc x y z := by ext <;> simp [add_assoc]
  zero_add x := by ext <;> simp
  add_zero x := by ext <;> simp
  nsmul := nsmulRec

def payment (payer payee : Text) (amount : Int) : Movement :=
  ⟨Pi.single payee amount - Pi.single payer amount, 0, 0⟩

/-- Tokens that come to an account, or go for good. -/
def issue (account : Text) (change : Int) : Movement := ⟨0, Pi.single account change, change⟩

theorem payment_zero (payer payee : Text) : payment payer payee 0 = 0 := by
  ext <;> simp [payment]

end Movement

/-! ## Effects as movements -/

namespace Effect

def movement : Effect → Movement
  | transfer (some payer) (some payee) (some amount) => .payment payer payee amount
  | mint _ (some account) (some amount) => .issue account amount
  | burn _ (some account) (some amount) => .issue account (-amount)
  | _ => 0

/-- Effects that issue no tokens but through one capability. -/
def Through (c : Nat) : Effect → Prop
  | transfer _ _ _ => True
  | mint c' _ _ => c' = c
  | burn c' _ _ => c' = c

/-- What effects move together. -/
def total (es : List Effect) : Movement := (es.map movement).sum

@[simp] theorem total_nil : total [] = 0 := rfl

@[simp] theorem total_cons (e : Effect) (es : List Effect) :
    total (e :: es) = e.movement + total es := by
  simp [total]

@[simp] theorem total_append (es fs : List Effect) : total (es ++ fs) = total es + total fs := by
  simp [total]

@[simp] theorem total_moves (payer payee : Text) (amount : Int) :
    total (moves payer payee amount) = .payment payer payee amount := by
  unfold moves
  split
  · rename_i hzero
    rw [hzero, Movement.payment_zero]
    rfl
  · simp [movement]

theorem through_moves {c : Nat} {sender recipient : Option Text} {amount : Int} :
    ∀ e ∈ moves sender recipient amount, e.Through c := by
  intro e he
  unfold moves at he
  split at he
  · cases he
  · rw [List.mem_singleton] at he
    rw [he]
    trivial

end Effect

/-! ## Views after a movement -/

def along (asset : Text) (change : Text → Int) : RowKey → Int := fun k =>
  if k.asset = asset then change k.account else 0

@[simp] theorem along_zero (asset : Text) : along asset 0 = 0 := by
  funext k
  simp [along]

theorem along_add (asset : Text) (change change' : Text → Int) :
    along asset (change + change') = along asset change + along asset change' := by
  funext k
  by_cases h : k.asset = asset <;> simp [along, h]

theorem along_self (account asset : Text) (change : Text → Int) :
    along asset change ⟨account, asset⟩ = change account := if_pos rfl

theorem along_of_ne {account asset asset' : Text} (h : asset' ≠ asset) (change : Text → Int) :
    along asset change ⟨account, asset'⟩ = 0 := if_neg h

theorem shift_eq_add_along (amounts : RowKey → Int) (account asset : Text) (change : Int) :
    shift amounts ⟨account, asset⟩ change = amounts + along asset (Pi.single account change) := by
  funext k
  obtain ⟨account', asset'⟩ := k
  by_cases hasset : asset' = asset
  · by_cases haccount : account' = account
    · simp [shift, along, hasset, haccount]
    · simp [shift, along, hasset, haccount]
  · simp [shift, along, hasset]

theorem transferred_eq_add_along (amounts : RowKey → Int) (payer payee asset : Text)
    (amount : Int) : transferred amounts ⟨payer, asset⟩ ⟨payee, asset⟩ amount =
      amounts + along asset (Pi.single payee amount - Pi.single payer amount) := by
  unfold transferred
  rw [shift_eq_add_along, shift_eq_add_along, add_assoc, ← along_add, Pi.single_neg, neg_add_eq_sub]

def TokenView.issue (change : Text → Int) (supply : Int) (e : TokenView) : TokenView :=
  ⟨{ e.token with supply := e.token.supply + supply }, e.own.map (· + along e.token.name change)⟩

theorem TokenView.issue_zero (e : TokenView) : e.issue 0 0 = e := by
  obtain ⟨token, own⟩ := e
  cases own <;> simp [issue]

theorem TokenView.issue_issue (e : TokenView) (change change' : Text → Int)
    (supply supply' : Int) : (e.issue change supply).issue change' supply' =
      e.issue (change + change') (supply + supply') := by
  obtain ⟨token, own⟩ := e
  cases own <;> simp [issue, along_add, add_assoc]

namespace MarketView

variable {v w : MarketView} {c : Nat} {x y : Movement}

/-- A view after a movement of the reserve asset and of the token behind a capability. The rows of
the token are in its own table, or else among those of the asset. -/
def after (c : Nat) (x : Movement) (v : MarketView) : MarketView :=
  let entry := v.token (v.capability c).token
  { v with
    tokens := v.tokens.modify (v.capability c).token (TokenView.issue x.tokens x.supply)
    balances := v.balances + along v.symbol x.asset +
      along entry.token.name (if entry.own.isSome then 0 else x.tokens) }

@[simp] theorem symbol_after (v : MarketView) : (v.after c x).symbol = v.symbol := rfl

@[simp] theorem capability_after (v : MarketView) (c' : Nat) :
    (v.after c x).capability c' = v.capability c' := rfl

theorem tokens_after (v : MarketView) : (v.after c x).tokens =
    v.tokens.modify (v.capability c).token (TokenView.issue x.tokens x.supply) := rfl

@[simp] theorem name_after (v : MarketView) (t : Nat) :
    ((v.after c x).token t).token.name = (v.token t).token.name := by
  unfold token
  rw [tokens_after]
  exact getD_modify_of_keeps (f := TokenView.issue x.tokens x.supply)
    (g := fun e => e.token.name) (fun _ => rfl) ..

@[simp] theorem isSome_own_after (v : MarketView) (t : Nat) :
    ((v.after c x).token t).own.isSome = (v.token t).own.isSome := by
  unfold token
  rw [tokens_after]
  exact getD_modify_of_keeps (f := TokenView.issue x.tokens x.supply)
    (g := fun e => e.own.isSome) (fun e => by simp [TokenView.issue]) ..

theorem token_after (v : MarketView) (h : (v.capability c).token < v.tokens.length) :
    (v.after c x).token (v.capability c).token =
      (v.token (v.capability c).token).issue x.tokens x.supply := by
  unfold token
  rw [tokens_after, List.getD_eq_getElem _ _ (by simpa using h), List.getD_eq_getElem _ _ h]
  simp

theorem after_zero (v : MarketView) : v.after c 0 = v := by
  have htokens : v.tokens.modify (v.capability c).token (TokenView.issue 0 0) = v.tokens :=
    modify_of_fixed (TokenView.issue_zero _)
  unfold after
  simp [htokens]

/-- Movements one after the other move their sum. -/
theorem after_after (v : MarketView) : (v.after c x).after c y = v.after c (x + y) := by
  have htokens : (v.after c x).tokens.modify (v.capability c).token
      (TokenView.issue y.tokens y.supply) = (v.after c (x + y)).tokens := by
    have hissue : TokenView.issue y.tokens y.supply ∘ TokenView.issue x.tokens x.supply =
        TokenView.issue (x + y).tokens (x + y).supply :=
      funext fun e => TokenView.issue_issue e ..
    show (v.tokens.modify _ _).modify _ _ = v.tokens.modify _ _
    rw [List.modify_modify_eq, hissue]
  have hbalances : (v.after c x).balances + along v.symbol y.asset +
      along (v.token (v.capability c).token).token.name
        (if (v.token (v.capability c).token).own.isSome then 0 else y.tokens) =
      (v.after c (x + y)).balances := by
    show v.balances + _ + _ + _ + _ = v.balances + _ + _
    -- Only a token without a table of its own has rows here.
    cases (v.token (v.capability c).token).own.isSome with
    | true => simp [along_add, add_assoc]
    | false =>
        simp only [Movement.asset_add, Movement.tokens_add, along_add, Bool.false_eq_true, if_false]
        abel
  rw [after, symbol_after, capability_after, name_after, isSome_own_after, htokens, hbalances]
  rfl

/-! ## Effects in order -/

theorem afterPay_eq_after (payer payee : Text) (amount : Int) :
    v.afterPay payer payee amount = v.after c (.payment payer payee amount) := by
  have htokens : v.tokens.modify (v.capability c).token (TokenView.issue 0 0) = v.tokens :=
    modify_of_fixed (TokenView.issue_zero _)
  simp [afterPay, after, Movement.payment, htokens, transferred_eq_add_along]

theorem afterIssue_eq_after (account : Text) (change : Int) :
    v.afterIssue (v.capability c).token account change = v.after c (.issue account change) := by
  have htokens : v.tokens.modify (v.capability c).token
      (TokenView.issue (Pi.single account change) change) = v.tokens.set (v.capability c).token
        ((v.token (v.capability c).token).issue (Pi.single account change) change) := by
    rw [List.modify_eq_set, ← List.getD_eq_getElem?_getD]
    rfl
  unfold afterIssue after
  cases hown : (v.token (v.capability c).token).own with
  | none => simp [Movement.issue, htokens, TokenView.issue, hown, shift_eq_add_along]
  | some amounts => simp [Movement.issue, htokens, TokenView.issue, hown, shift_eq_add_along]

theorem Moves.eq_after {e : Effect} (h : v.Moves e w) (hc : e.Through c) :
    w = v.after c e.movement := by
  cases h with
  | transfer => exact afterPay_eq_after ..
  | mint =>
      cases hc
      exact afterIssue_eq_after ..
  | burn =>
      cases hc
      exact afterIssue_eq_after ..

/-- Effects through one capability move what they move together, and nothing else. -/
theorem MovesAll.eq_after {es : List Effect} (h : v.MovesAll es w) (hes : ∀ e ∈ es, e.Through c) :
    w = v.after c (Effect.total es) := by
  induction h with
  | nil => exact (after_zero _).symm
  | cons first _ ih =>
      rw [List.forall_mem_cons] at hes
      rw [ih hes.2, first.eq_after hes.1, after_after, Effect.total_cons]

/-- Only a token that exists is issued, so its supply follows. -/
theorem MovesAll.supplyOf_eq {es : List Effect} (h : v.MovesAll es w)
    (hes : ∀ e ∈ es, e.Through c) : w.supplyOf c = v.supplyOf c + (Effect.total es).supply := by
  induction h with
  | nil => simp
  | @cons v u w e rest first _ ih =>
      rw [List.forall_mem_cons] at hes
      have hfirst : u.supplyOf c = v.supplyOf c + e.movement.supply := by
        cases first with
        | transfer => exact (Int.add_zero _).symm
        | mint hauth =>
            cases hes.1
            exact supplyOf_afterIssue (lt_of_isAuthorized hauth) ..
        | burn hauth =>
            cases hes.1
            exact supplyOf_afterIssue (lt_of_isAuthorized hauth) ..
      rw [ih hes.2, hfirst, Effect.total_cons, Movement.supply_add, add_assoc]

/-! ## Reading a view after a movement -/

section Read

variable (h : v.Apart c) (account : Text)
include h

/-- The tokens of a movement are none of the asset. -/
theorem held_after : (v.after c x).held account = v.held account + x.asset account := by
  have hnone : along (v.token (v.capability c).token).token.name
      (if (v.token (v.capability c).token).own.isSome then 0 else x.tokens) ⟨account, v.symbol⟩ =
        0 := by
    cases hown : (v.token (v.capability c).token).own with
    | none => exact along_of_ne (h hown).symm _
    | some amounts => simp
  show v.balances ⟨account, v.symbol⟩ + along v.symbol x.asset ⟨account, v.symbol⟩ +
    along _ _ ⟨account, v.symbol⟩ = _
  rw [along_self, hnone, Int.add_zero]
  rfl

/-- The asset of a movement is none of the tokens. -/
theorem balanceOf_after :
    (v.after c x).balanceOf c account = v.balanceOf c account + x.tokens account := by
  unfold balanceOf tokenAmounts
  rw [capability_after, name_after]
  cases hown : (v.token (v.capability c).token).own with
  | none =>
      have hown' : ((v.after c x).token (v.capability c).token).own = none := by
        rw [← Option.isNone_iff_eq_none, ← Option.not_isSome, isSome_own_after, hown]
        rfl
      have hne := h hown
      rw [hown']
      simp [after, hown, along_self, along_of_ne hne]
  | some amounts =>
      have hexists : (v.capability c).token < v.tokens.length :=
        lt_length_of_getD (fun e : TokenView => e.own = some amounts) hown nofun
      rw [token_after v hexists]
      simp [TokenView.issue, hown, along_self]

end Read

end MarketView

end CurveMarket
