import CurveMarket.Ledger.Action

/-!
# Balance tables

A table maps an account and an asset to an amount. Only amounts above zero have a row, and no key
has two rows; the table carries the proofs of both.
-/

namespace CurveMarket

structure RowKey where
  account : Text
  asset : Text
deriving DecidableEq

structure BalanceTable where
  rows : List (RowKey × Int)
  positive : ∀ r ∈ rows, 0 < r.2
  distinct : (rows.map Prod.fst).Nodup
deriving DecidableEq

namespace BalanceTable

def empty : BalanceTable := ⟨[], by simp, by simp⟩

instance : Inhabited BalanceTable := ⟨empty⟩

/-- The amount under a key, zero where there is no row. -/
def get (t : BalanceTable) (k : RowKey) : Int := (t.rows.lookup k).getD 0

/-- Rows in which a key has the given amount; a key that has a row keeps its place. -/
def putRow (k : RowKey) (amount : Int) : List (RowKey × Int) → List (RowKey × Int)
  | [] => [(k, amount)]
  | r :: rest => if r.1 = k then (k, amount) :: rest else r :: putRow k amount rest

def eraseRow (k : RowKey) (rows : List (RowKey × Int)) : List (RowKey × Int) :=
  rows.filter fun r => r.1 ≠ k

theorem mem_putRow {k : RowKey} {amount : Int} {rows : List (RowKey × Int)} {r : RowKey × Int}
    (h : r ∈ putRow k amount rows) : r = (k, amount) ∨ r ∈ rows := by
  induction rows with
  | nil => exact .inl (by simpa [putRow] using h)
  | cons s rest ih =>
      unfold putRow at h
      split at h
      · rcases List.mem_cons.mp h with same | later
        · exact .inl same
        · exact .inr (List.mem_cons_of_mem s later)
      · rcases List.mem_cons.mp h with same | later
        · exact .inr (by simp [same])
        · exact (ih later).imp id (List.mem_cons_of_mem s)

theorem nodup_putRow (k : RowKey) (amount : Int) {rows : List (RowKey × Int)}
    (h : (rows.map Prod.fst).Nodup) : ((putRow k amount rows).map Prod.fst).Nodup := by
  induction rows with
  | nil => simp [putRow]
  | cons s rest ih =>
      rw [List.map_cons, List.nodup_cons] at h
      unfold putRow
      split
      · rename_i same
        rw [List.map_cons, List.nodup_cons]
        exact ⟨by rw [← same]; exact h.1, h.2⟩
      · rename_i other
        rw [List.map_cons, List.nodup_cons]
        refine ⟨fun hmem => ?_, ih h.2⟩
        obtain ⟨r, hr, hkey⟩ := List.mem_map.mp hmem
        rcases mem_putRow hr with same | old
        · exact other (by rw [← hkey, same])
        · exact h.1 (List.mem_map.mpr ⟨r, old, hkey⟩)

theorem lookup_cons_of_ne {k key : RowKey} (h : k ≠ key) (amount : Int)
    (rows : List (RowKey × Int)) : ((key, amount) :: rows).lookup k = rows.lookup k := by
  rw [List.lookup_cons, beq_eq_false_iff_ne.mpr h]

theorem lookup_putRow (k k' : RowKey) (amount : Int) (rows : List (RowKey × Int)) :
    ((putRow k amount rows).lookup k').getD 0 =
      if k' = k then amount else (rows.lookup k').getD 0 := by
  induction rows with
  | nil =>
      by_cases h : k' = k
      · simp [putRow, h]
      · simp [putRow, h, lookup_cons_of_ne h]
  | cons r rest ih =>
      obtain ⟨key, old⟩ := r
      by_cases hr : key = k
      · subst hr
        by_cases h : k' = key
        · simp [putRow, h]
        · simp [putRow, h, lookup_cons_of_ne h]
      · by_cases h : k' = key
        · simp [putRow, h, hr]
        · simp [putRow, hr, lookup_cons_of_ne h, ih]

theorem lookup_eraseRow (k k' : RowKey) (rows : List (RowKey × Int)) :
    ((eraseRow k rows).lookup k').getD 0 = if k' = k then 0 else (rows.lookup k').getD 0 := by
  induction rows with
  | nil => simp [eraseRow]
  | cons r rest ih =>
      obtain ⟨key, old⟩ := r
      unfold eraseRow at ih ⊢
      by_cases hr : key = k
      · rw [List.filter_cons_of_neg (by simp [hr]), ih]
        by_cases h : k' = k
        · simp [h]
        · rw [lookup_cons_of_ne (by rw [hr]; exact h)]
      · rw [List.filter_cons_of_pos (by simp [hr])]
        by_cases h : k' = key
        · simp [h, hr]
        · rw [lookup_cons_of_ne h, lookup_cons_of_ne h, ih]

def put (k : RowKey) (amount : Int) (h : 0 < amount) (t : BalanceTable) : BalanceTable where
  rows := putRow k amount t.rows
  positive := fun r hr => by
    rcases mem_putRow hr with same | old
    · simpa [same] using h
    · exact t.positive r old
  distinct := nodup_putRow k amount t.distinct

def erase (k : RowKey) (t : BalanceTable) : BalanceTable where
  rows := eraseRow k t.rows
  positive := fun r hr => t.positive r (List.mem_filter.mp hr).1
  distinct := t.distinct.sublist (List.filter_sublist.map Prod.fst)

theorem get_put (k k' : RowKey) (amount : Int) (h : 0 < amount) (t : BalanceTable) :
    (t.put k amount h).get k' = if k' = k then amount else t.get k' :=
  lookup_putRow k k' amount t.rows

theorem get_erase (k k' : RowKey) (t : BalanceTable) :
    (t.erase k).get k' = if k' = k then 0 else t.get k' :=
  lookup_eraseRow k k' t.rows

theorem get_nonneg (t : BalanceTable) (k : RowKey) : 0 ≤ t.get k := by
  unfold get
  cases h : t.rows.lookup k with
  | none => simp
  | some amount =>
      obtain ⟨before, after, hrows, -⟩ := List.lookup_eq_some_iff.mp h
      have hpos := t.positive (k, amount) (by rw [hrows]; simp)
      simp only [Option.getD_some]
      omega

/-- Sets an amount, where zero removes the row. -/
def set (k : RowKey) (amount : Int) : Action BalanceTable Unit := do
  if amount < 0 then throw (.negativeBalance amount)
  if h : 0 < amount then modify (put k amount h)
  else modify (erase k)

def add (k : RowKey) (change : Int) : Action BalanceTable Unit := do
  let current := (← MonadState.get).get k
  if current + change < 0 then throw (.overdrawn current change)
  set k (current + change)

def subtract (k : RowKey) (amount : Int) : Action BalanceTable Unit := do
  if amount < 0 then throw (.negative "Delta" amount)
  add k (-amount)

def move (asset sender recipient : Text) (amount : Int) : Action BalanceTable Unit := do
  if amount < 0 then throw (.negative "Amount" amount)
  subtract ⟨sender, asset⟩ amount
  add ⟨recipient, asset⟩ amount

/-- The sum of all balances of an asset. -/
def total (t : BalanceTable) (asset : Text) : Int :=
  (t.rows.map fun r => if r.1.asset = asset then r.2 else 0).foldr (· + ·) 0

def balancesOf (t : BalanceTable) (asset : Text) : List (Text × Int) :=
  (t.rows.filter fun r => r.1.asset = asset).map fun r => (r.1.account, r.2)

/-- All rows, by account and then by asset. -/
def sortedRows (t : BalanceTable) : List (RowKey × Int) :=
  t.rows.mergeSort fun r s =>
    if r.1.account = s.1.account then r.1.asset.le s.1.asset else r.1.account.le s.1.account

end BalanceTable

end CurveMarket
