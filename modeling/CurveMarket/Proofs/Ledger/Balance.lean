import CurveMarket.Ledger.Asset
import CurveMarket.Proofs.Check

/-! # What ledgers do to balances

A table is read through `get`, a function from keys to amounts. Every change of a table shifts the
amounts under one or two keys, and a refused change leaves the table as it was. A transfer shifts an
amount from one key to another, so that the transfer back undoes it.
-/

namespace CurveMarket

/-- Amounts with a change under one key. -/
def shift (amounts : RowKey → Int) (k : RowKey) (change : Int) : RowKey → Int := fun k' =>
  if k' = k then amounts k' + change else amounts k'

theorem shift_self (amounts : RowKey → Int) (k : RowKey) (change : Int) :
    shift amounts k change k = amounts k + change := by
  simp [shift]

theorem shift_of_ne {k k' : RowKey} (h : k' ≠ k) (amounts : RowKey → Int) (change : Int) :
    shift amounts k change k' = amounts k' := by
  simp [shift, h]

theorem shift_neg (amounts : RowKey → Int) (k : RowKey) (change : Int) :
    shift (shift amounts k change) k (-change) = amounts := by
  funext k'
  by_cases h : k' = k
  · subst h
    rw [shift_self, shift_self]
    omega
  · rw [shift_of_ne h, shift_of_ne h]

/-- Amounts after a payment from one key to another. -/
def transferred (amounts : RowKey → Int) (payer payee : RowKey) (amount : Int) : RowKey → Int :=
  shift (shift amounts payer (-amount)) payee amount

theorem transferred_apply (amounts : RowKey → Int) (payer payee k : RowKey) (amount : Int) :
    transferred amounts payer payee amount k =
      amounts k - (if k = payer then amount else 0) + (if k = payee then amount else 0) := by
  unfold transferred shift
  by_cases hp : k = payer
  · by_cases hr : k = payee
    · rw [if_pos hr, if_pos hp, if_pos hp, if_pos hr]
      omega
    · rw [if_neg hr, if_pos hp, if_pos hp, if_neg hr]
      omega
  · by_cases hr : k = payee
    · rw [if_pos hr, if_neg hp, if_neg hp, if_pos hr]
      omega
    · rw [if_neg hr, if_neg hp, if_neg hp, if_neg hr]
      omega

theorem transferred_transferred (amounts : RowKey → Int) (payer payee : RowKey) (amount : Int) :
    transferred (transferred amounts payer payee amount) payee payer amount = amounts := by
  funext k
  rw [transferred_apply, transferred_apply]
  omega

namespace BalanceTable

open CurveMarket.Action

theorem set_ends (k : RowKey) (amount : Int) (t : BalanceTable) :
    Ends (set k amount) t
      (fun _ t' => 0 ≤ amount ∧ t'.get = fun k' => if k' = k then amount else t.get k')
      (fun e t' => e.IsRefusal ∧ t' = t ∧ amount < 0) := by
  unfold set
  refine ends_unless (fun hneg => ⟨nofun, rfl, hneg⟩) fun hneg => ?_
  split
  · rename_i hpos
    refine ends_modify ⟨by omega, funext fun k' => ?_⟩
    exact get_put k k' amount hpos t
  · have hzero : amount = 0 := by omega
    refine ends_modify ⟨by omega, funext fun k' => ?_⟩
    rw [hzero]
    exact get_erase k k' t

theorem add_ends (k : RowKey) (change : Int) (t : BalanceTable) :
    Ends (add k change) t
      (fun _ t' => 0 ≤ t.get k + change ∧ t'.get = shift t.get k change)
      (fun e t' => e.IsRefusal ∧ t' = t ∧ t.get k + change < 0) := by
  unfold add
  refine .bind (ends_get (ends_unless (fun hneg => ⟨nofun, rfl, hneg⟩) fun hneg => ?_))
  refine (set_ends k (t.get k + change) t).imp ?_ ?_
  · rintro - t' ⟨hle, hget⟩
    refine ⟨hle, hget.trans (funext fun k' => ?_)⟩
    by_cases h : k' = k
    · subst h
      rw [if_pos rfl, shift_self]
    · rw [if_neg h, shift_of_ne h]
  · rintro e t' ⟨-, -, hlt⟩
    exact absurd hlt hneg

theorem subtract_ends {amount : Int} (h : 0 ≤ amount) (k : RowKey) (t : BalanceTable) :
    Ends (subtract k amount) t
      (fun _ t' => amount ≤ t.get k ∧ t'.get = shift t.get k (-amount))
      (fun e t' => e.IsRefusal ∧ t' = t ∧ t.get k < amount) := by
  unfold subtract
  refine ends_unless (fun hneg => by omega) fun _ => ?_
  refine (add_ends k (-amount) t).imp ?_ ?_
  · rintro - t' ⟨hle, hget⟩
    exact ⟨by omega, hget⟩
  · rintro e t' ⟨href, rfl, hlt⟩
    exact ⟨href, rfl, by omega⟩

/-- Crediting the payee cannot fail, since no balance is negative; so a refused payment moves
nothing. -/
theorem move_ends (asset payer payee : Text) {amount : Int} (h : 0 ≤ amount) (t : BalanceTable) :
    Ends (move asset payer payee amount) t
      (fun _ t' => amount ≤ t.get ⟨payer, asset⟩ ∧
        t'.get = transferred t.get ⟨payer, asset⟩ ⟨payee, asset⟩ amount)
      (fun e t' => e.IsRefusal ∧ t' = t ∧ t.get ⟨payer, asset⟩ < amount) := by
  unfold move
  refine ends_unless (fun hneg => by omega) fun _ => ?_
  refine .bind ((subtract_ends h ⟨payer, asset⟩ t).imp ?_ fun _ _ h => h)
  rintro - t₁ ⟨hle, hget₁⟩
  refine (add_ends ⟨payee, asset⟩ amount t₁).imp ?_ ?_
  · rintro - t' ⟨-, hget⟩
    exact ⟨hle, by rw [hget, hget₁, transferred]⟩
  · rintro - t' ⟨-, -, hlt⟩
    have := t₁.get_nonneg ⟨payee, asset⟩
    omega

end BalanceTable

theorem requireAmount_eq_ok {amount : Option Int} {n : Int} :
    requireAmount amount = .ok n ↔ amount = some n ∧ 0 ≤ n := by
  unfold requireAmount
  rw [Check.bind_eq_ok]
  constructor
  · intro h
    rcases h with ⟨v, hv, h⟩
    rw [Check.test_eq_ok, Check.pure_eq_ok] at h
    rw [requireInt_eq_ok] at hv
    rcases h with ⟨hneg, rfl⟩
    exact ⟨hv, by omega⟩
  · intro h
    refine ⟨n, requireInt_eq_ok.mpr h.1, Check.test_eq_ok.mpr ⟨by omega, rfl⟩⟩

theorem requireAmount_refuses (amount : Option Int) : OnlyRefuses (requireAmount amount) :=
  .bind (requireInt_refuses _ amount) fun _ => .test nofun (.pure _)

/-! ## Assets and tokens -/

open CurveMarket.Action

section Arguments

variable {σ : Type} {s : σ} {Q : Unit → σ → Prop} {E : Error → σ → Prop}

/-- A call that asks for an account first, and refuses what is none. -/
theorem ends_requireAccount {reason : Text} {account : Option Text} {next : Text → Action σ Unit}
    (herror : ∀ e : Error, e.IsRefusal → (∀ a, ¬ IsAccount account a) → E e s)
    (hok : ∀ a, IsAccount account a → Ends (next a) s Q E) :
    Ends (do next (← requireAccount reason account)) s Q E := by
  refine .bind (ends_ofExcept (fun a ha => ?_) fun e ha => ?_)
  · exact hok a (requireAccount_eq_ok.mp ha)
  · refine herror e (requireAccount_refuses reason account e ha) fun a hasked => ?_
    rw [requireAccount_eq_ok.mpr hasked] at ha
    cases ha

theorem ends_requireAmount {amount : Option Int} {next : Int → Action σ Unit}
    (herror : ∀ e : Error, e.IsRefusal → (∀ n, amount = some n → ¬ 0 ≤ n) → E e s)
    (hok : ∀ n, amount = some n → 0 ≤ n → Ends (next n) s Q E) :
    Ends (do next (← requireAmount amount)) s Q E := by
  refine .bind (ends_ofExcept (fun n hn => ?_) fun e hn => ?_)
  · have hasked := requireAmount_eq_ok.mp hn
    exact hok n hasked.1 hasked.2
  · refine herror e (requireAmount_refuses amount e hn) fun n hasked hle => ?_
    rw [requireAmount_eq_ok.mpr ⟨hasked, hle⟩] at hn
    cases hn

end Arguments

theorem transferUnits_ends (asset : Text) (sender recipient : Option Text) (amount : Option Int)
    (t : BalanceTable) :
    Ends (transferUnits asset sender recipient amount) t
      (fun _ t' => ∃ payer payee n, IsAccount sender payer ∧ IsAccount recipient payee ∧
        amount = some n ∧ 0 ≤ n ∧ n ≤ t.get ⟨payer, asset⟩ ∧
        t'.get = transferred t.get ⟨payer, asset⟩ ⟨payee, asset⟩ n)
      (fun e t' => e.IsRefusal ∧ t' = t ∧ ∀ payer payee n, IsAccount sender payer →
        IsAccount recipient payee → amount = some n → 0 ≤ n → t.get ⟨payer, asset⟩ < n) := by
  unfold transferUnits
  refine ends_requireAccount (fun e href hno => ?_) fun payer hpayer => ?_
  · exact ⟨href, rfl, fun payer _ _ hpayer => absurd hpayer (hno payer)⟩
  refine ends_requireAccount (fun e href hno => ?_) fun payee hpayee => ?_
  · exact ⟨href, rfl, fun _ payee _ _ hpayee => absurd hpayee (hno payee)⟩
  refine ends_requireAmount (fun e href hno => ?_) fun n hn hnonneg => ?_
  · exact ⟨href, rfl, fun _ _ n _ _ hn hle => absurd hle (hno n hn)⟩
  refine (BalanceTable.move_ends asset payer payee hnonneg t).imp ?_ ?_
  · rintro - t' ⟨hle, hget⟩
    exact ⟨payer, payee, n, hpayer, hpayee, hn, hnonneg, hle, hget⟩
  · rintro e t' ⟨href, rfl, hlt⟩
    refine ⟨href, rfl, fun payer' payee' n' hpayer' hpayee' hn' _ => ?_⟩
    cases hpayer.1.symm.trans hpayer'.1
    cases hn.symm.trans hn'
    exact hlt

namespace TokenLedger

/-- A ledger after its supply and one balance have changed by the same amount. -/
def Issues (l : TokenLedger) (account : Text) (change : Int) (l' : TokenLedger) : Prop :=
  l'.token = { l.token with supply := l.token.supply + change } ∧
    l'.table.get = shift l.table.get ⟨account, l.token.name⟩ change

theorem mint_ends (authorized : Bool) (account : Option Text) (amount : Option Int)
    (l : TokenLedger) :
    Ends (mint authorized account amount) l
      (fun _ l' => authorized = true ∧ ∃ a n, IsAccount account a ∧ amount = some n ∧ 0 ≤ n ∧
        l.Issues a n l')
      (fun e l' => e.IsRefusal ∧ l' = l ∧ ∀ a n, authorized = true → IsAccount account a →
        amount = some n → ¬ 0 ≤ n) := by
  unfold mint
  refine ends_unless (fun hno => ⟨nofun, rfl, fun _ _ hyes => by simp [hyes] at hno⟩) fun hyes => ?_
  have hauth : authorized = true := by simpa using hyes
  refine ends_requireAccount (fun e href hno => ?_) fun a ha => ?_
  · exact ⟨href, rfl, fun a _ _ ha => absurd ha (hno a)⟩
  refine ends_requireAmount (fun e href hno => ?_) fun n hn hnonneg => ?_
  · exact ⟨href, rfl, fun _ n _ _ hn => hno n hn⟩
  refine .bind (ends_get (.bind (.focus ?_)))
  refine (BalanceTable.add_ends ⟨a, l.token.name⟩ n l.table).imp ?_ ?_
  · rintro - t ⟨-, hget⟩
    exact ends_modify ⟨hauth, a, n, ha, hn, hnonneg, rfl, hget⟩
  · rintro e t ⟨-, -, hlt⟩
    have := l.table.get_nonneg ⟨a, l.token.name⟩
    omega

theorem burn_ends (authorized : Bool) (account : Option Text) (amount : Option Int)
    (l : TokenLedger) :
    Ends (burn authorized account amount) l
      (fun _ l' => authorized = true ∧ ∃ a n, IsAccount account a ∧ amount = some n ∧ 0 ≤ n ∧
        n ≤ l.table.get ⟨a, l.token.name⟩ ∧ l.Issues a (-n) l')
      (fun e l' => e.IsRefusal ∧ l' = l ∧ ∀ a n, authorized = true → IsAccount account a →
        amount = some n → 0 ≤ n → l.table.get ⟨a, l.token.name⟩ < n) := by
  unfold burn
  refine ends_unless (fun hno => ⟨nofun, rfl, fun _ _ hyes => by simp [hyes] at hno⟩) fun hyes => ?_
  have hauth : authorized = true := by simpa using hyes
  refine ends_requireAccount (fun e href hno => ?_) fun a ha => ?_
  · exact ⟨href, rfl, fun a _ _ ha => absurd ha (hno a)⟩
  refine ends_requireAmount (fun e href hno => ?_) fun n hn hnonneg => ?_
  · exact ⟨href, rfl, fun _ n _ _ hn hle => absurd hle (hno n hn)⟩
  refine .bind (ends_get (.bind (.focus ?_)))
  refine (BalanceTable.subtract_ends hnonneg ⟨a, l.token.name⟩ l.table).imp ?_ ?_
  · rintro - t ⟨hle, hget⟩
    exact ends_modify ⟨hauth, a, n, ha, hn, hnonneg, hle, rfl, hget⟩
  · rintro e t ⟨href, rfl, hlt⟩
    refine ⟨href, rfl, fun a' n' _ ha' hn' _ => ?_⟩
    cases ha.1.symm.trans ha'.1
    cases hn.symm.trans hn'
    exact hlt

end TokenLedger

end CurveMarket
