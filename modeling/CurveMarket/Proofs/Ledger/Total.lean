import Mathlib.Algebra.BigOperators.Group.Finset.Piecewise
import Mathlib.Algebra.Order.BigOperators.Group.Finset
import CurveMarket.Proofs.Ledger.Balance

/-! # Totals of an asset

The total of an asset is the sum of what its holders have, so a change under one key changes the
total of the asset of that key by as much and no other total, and a payment changes none. A refused
change leaves the table as it was.
-/

namespace CurveMarket

open Finset

theorem sum_shift (amounts : RowKey → Int) (asset account : Text) (change : Int)
    (accounts : Finset Text) :
    ∑ a ∈ accounts, shift amounts ⟨account, asset⟩ change ⟨a, asset⟩ =
      ∑ a ∈ accounts, amounts ⟨a, asset⟩ + if account ∈ accounts then change else 0 := by
  have hpoint (a : Text) : shift amounts ⟨account, asset⟩ change ⟨a, asset⟩ =
      amounts ⟨a, asset⟩ + if a = account then change else 0 := by
    by_cases h : a = account
    · simp [shift, h]
    · simp [shift, h]
  simp only [hpoint, sum_add_distrib, sum_ite_eq']

theorem shift_of_asset_ne {k : RowKey} {asset : Text} (h : k.asset ≠ asset)
    (amounts : RowKey → Int) (change : Int) (account : Text) :
    shift amounts k change ⟨account, asset⟩ = amounts ⟨account, asset⟩ :=
  shift_of_ne (fun heq => h (by rw [← heq])) amounts change

namespace BalanceTable

open CurveMarket.Action

/-! ## The sum over the holders -/

theorem lookup_of_notMem {k : RowKey} {rows : List (RowKey × Int)}
    (h : k ∉ rows.map Prod.fst) : rows.lookup k = none := by
  induction rows with
  | nil => rfl
  | cons r rest ih =>
      rw [List.map_cons, List.mem_cons, not_or] at h
      obtain ⟨key, amount⟩ := r
      rw [lookup_cons_of_ne h.1]
      exact ih h.2

/-- A row adds its amount under its key to those of the others. -/
theorem get_cons {r : RowKey × Int} {rest : List (RowKey × Int)}
    (positive : ∀ x ∈ r :: rest, 0 < x.2) (distinct : ((r :: rest).map Prod.fst).Nodup)
    (others : ∀ x ∈ rest, 0 < x.2) (apart : (rest.map Prod.fst).Nodup) :
    get ⟨r :: rest, positive, distinct⟩ = shift (get ⟨rest, others, apart⟩) r.1 r.2 := by
  obtain ⟨key, amount⟩ := r
  rw [List.map_cons, List.nodup_cons] at distinct
  funext k
  unfold get
  by_cases heq : k = key
  · rw [heq, shift_self, List.lookup_cons_self, lookup_of_notMem distinct.1]
    simp
  · rw [shift_of_ne heq, lookup_cons_of_ne heq]

/-- The accounts with a row. -/
def holders (t : BalanceTable) : Finset Text := (t.rows.map fun r => r.1.account).toFinset

/-- The total of an asset is what its holders have together. -/
theorem total_eq_sum (t : BalanceTable) (asset : Text) {accounts : Finset Text}
    (h : t.holders ⊆ accounts) : t.total asset = ∑ a ∈ accounts, t.get ⟨a, asset⟩ := by
  obtain ⟨rows, positive, distinct⟩ := t
  induction rows with
  | nil => simp [total, get]
  | cons r rest ih =>
      have others : ∀ x ∈ rest, 0 < x.2 := fun x hx => positive x (List.mem_cons_of_mem _ hx)
      have apart := (List.nodup_cons.mp distinct).2
      have hrest := ih others apart fun a ha => h (by simp_all [holders])
      have hmem : r.1.account ∈ accounts := h (by simp [holders])
      have hcons : total ⟨r :: rest, positive, distinct⟩ asset =
          (if r.1.asset = asset then r.2 else 0) + total ⟨rest, others, apart⟩ asset := rfl
      rw [hcons, hrest, get_cons positive distinct others apart]
      obtain ⟨⟨account, asset'⟩, amount⟩ := r
      by_cases hasset : asset' = asset
      · cases hasset
        rw [sum_shift, if_pos rfl, if_pos hmem, Int.add_comm]
      · have hkey : (⟨account, asset'⟩ : RowKey).asset ≠ asset := hasset
        simp only [shift_of_asset_ne hkey, if_neg hasset, Int.zero_add]

variable {t t' : BalanceTable}

theorem total_of_get {asset : Text} (h : ∀ a, t'.get ⟨a, asset⟩ = t.get ⟨a, asset⟩) :
    t'.total asset = t.total asset := by
  have hleft : t'.holders ⊆ t'.holders ∪ t.holders := subset_union_left
  have hright : t.holders ⊆ t'.holders ∪ t.holders := subset_union_right
  rw [t'.total_eq_sum asset hleft, t.total_eq_sum asset hright]
  exact sum_congr rfl fun a _ => h a

theorem total_empty (asset : Text) : empty.total asset = 0 := rfl

theorem total_of_shift {k : RowKey} {change : Int} (h : t'.get = shift t.get k change)
    (asset : Text) : t'.total asset = t.total asset + if k.asset = asset then change else 0 := by
  by_cases hasset : k.asset = asset
  · obtain ⟨account, asset'⟩ := k
    cases hasset
    have hsubset' : t'.holders ⊆ insert account (t'.holders ∪ t.holders) :=
      subset_union_left.trans (subset_insert _ _)
    have hsubset : t.holders ⊆ insert account (t'.holders ∪ t.holders) :=
      subset_union_right.trans (subset_insert _ _)
    rw [t'.total_eq_sum _ hsubset', t.total_eq_sum _ hsubset, h, sum_shift, if_pos rfl,
      if_pos (mem_insert_self _ _)]
  · rw [if_neg hasset, Int.add_zero]
    refine total_of_get fun a => ?_
    rw [h, shift_of_asset_ne hasset]

theorem total_of_transferred {payer payee paid : Text} {amount : Int}
    (h : t'.get = transferred t.get ⟨payer, paid⟩ ⟨payee, paid⟩ amount) (asset : Text) :
    t'.total asset = t.total asset := by
  by_cases hasset : paid = asset
  · subst hasset
    have hsubset : (t'.holders ∪ t.holders) ⊆
        insert payer (insert payee (t'.holders ∪ t.holders)) :=
      (subset_insert _ _).trans (subset_insert _ _)
    have hpayee : payee ∈ insert payer (insert payee (t'.holders ∪ t.holders)) :=
      mem_insert_of_mem (mem_insert_self _ _)
    rw [t'.total_eq_sum _ (subset_union_left.trans hsubset),
      t.total_eq_sum _ (subset_union_right.trans hsubset), h, transferred, sum_shift, sum_shift,
      if_pos (mem_insert_self _ _), if_pos hpayee]
    omega
  · refine total_of_get fun a => ?_
    rw [h, transferred, shift_of_asset_ne hasset, shift_of_asset_ne hasset]

/-! ## Writes -/

/-- From `t` the action writes to the table, or refuses to and leaves it as it was. -/
def Writes (a : Action BalanceTable Unit) (t : BalanceTable) : Prop :=
  Ends a t (fun _ _ => True) fun _ t' => t' = t

theorem set_writes (k : RowKey) (amount : Int) (t : BalanceTable) : Writes (set k amount) t :=
  (set_ends k amount t).imp (fun _ _ _ => trivial) fun _ _ h => h.2.1

theorem add_writes (k : RowKey) (change : Int) (t : BalanceTable) : Writes (add k change) t :=
  (add_ends k change t).imp (fun _ _ _ => trivial) fun _ _ h => h.2.1

theorem subtract_writes (k : RowKey) (amount : Int) (t : BalanceTable) :
    Writes (subtract k amount) t := by
  unfold subtract
  exact ends_unless (fun _ => rfl) fun _ => add_writes k (-amount) t

theorem move_total (asset payer payee : Text) (amount : Int) (t : BalanceTable) :
    Ends (move asset payer payee amount) t (fun _ t' => ∀ x, t'.total x = t.total x)
      fun _ t' => t' = t := by
  by_cases h : 0 ≤ amount
  · refine (move_ends asset payer payee h t).imp ?_ fun _ _ h => h.2.1
    rintro - t' ⟨-, hget⟩
    exact total_of_transferred hget
  · unfold move
    exact ends_unless (fun _ => rfl) fun hneg => absurd hneg (by omega)

end BalanceTable

open CurveMarket.Action

theorem transferUnits_total (asset : Text) (sender recipient : Option Text) (amount : Option Int)
    (t : BalanceTable) :
    Ends (transferUnits asset sender recipient amount) t (fun _ t' => ∀ x, t'.total x = t.total x)
      fun _ t' => t' = t := by
  refine (transferUnits_ends asset sender recipient amount t).imp ?_ fun _ _ h => h.2.1
  rintro - t' ⟨_, _, _, -, -, -, -, -, hget⟩
  exact BalanceTable.total_of_transferred hget

theorem creditUnits_total (asset : Text) (account : Option Text) (amount : Option Int)
    (t : BalanceTable) :
    Ends (creditUnits asset account amount) t
      (fun _ t' => ∃ n, amount = some n ∧ 0 ≤ n ∧
        ∀ x, t'.total x = t.total x + if asset = x then n else 0)
      fun _ t' => t' = t := by
  unfold creditUnits
  refine ends_requireAccount (fun _ _ _ => rfl) fun a ha => ?_
  refine ends_requireAmount (fun _ _ _ => rfl) fun n hn hnonneg => ?_
  refine (BalanceTable.add_ends ⟨a, asset⟩ n t).imp ?_ fun _ _ h => h.2.1
  rintro - t' ⟨-, hget⟩
  exact ⟨n, hn, hnonneg, BalanceTable.total_of_shift hget⟩

/-- A ledger whose supply and one balance have changed together. -/
theorem TokenLedger.Issues.total {l l' : TokenLedger} {account : Text} {change : Int}
    (h : l.Issues account change l') (asset : Text) :
    l'.table.total asset = l.table.total asset + if l.token.name = asset then change else 0 :=
  BalanceTable.total_of_shift h.2 asset

end CurveMarket
