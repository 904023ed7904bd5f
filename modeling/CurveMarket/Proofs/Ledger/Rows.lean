import CurveMarket.Market.Service
import CurveMarket.Proofs.Ledger.Total

/-! # Rows of a table

The rows of a table are its amounts above zero, one row for each. What a call writes is said twice:
by the table that it leaves, and by amounts alone, where a call that is refused says nothing. The
two agree over every history of calls, so no history leaves a row too many or one too few.
-/

namespace CurveMarket

open CurveMarket.Action

namespace BalanceTable

theorem get_of_mem {t : BalanceTable} {k : RowKey} {amount : Int} (h : (k, amount) ∈ t.rows) :
    t.get k = amount := by
  obtain ⟨before, after, hrows⟩ := List.append_of_mem h
  have hfirst : ∀ r ∈ before, k != r.1 := by
    intro r hr
    have hdistinct := t.distinct
    rw [hrows, List.map_append, List.map_cons] at hdistinct
    have hne : r.1 ≠ k :=
      (List.nodup_append.mp hdistinct).2.2 _ (List.mem_map_of_mem hr) _ List.mem_cons_self
    simpa using hne.symm
  have hlookup : t.rows.lookup k = some amount :=
    List.lookup_eq_some_iff.mpr ⟨before, after, hrows, hfirst⟩
  unfold get
  rw [hlookup, Option.getD_some]

/-- A key has a row exactly when its amount is above zero, and the row says the amount. -/
theorem mem_rows_iff (t : BalanceTable) {k : RowKey} {amount : Int} :
    (k, amount) ∈ t.rows ↔ 0 < amount ∧ t.get k = amount := by
  constructor
  · intro hmem
    exact ⟨t.positive _ hmem, get_of_mem hmem⟩
  · rintro ⟨hpos, hget⟩
    unfold get at hget
    cases hrow : t.rows.lookup k with
    | none =>
        rw [hrow, Option.getD_none] at hget
        omega
    | some found =>
        obtain ⟨before, after, hrows, -⟩ := List.lookup_eq_some_iff.mp hrow
        rw [hrow, Option.getD_some] at hget
        rw [hrows, ← hget]
        simp

/-! ## Rows of other assets -/

/-- The rows of all assets but one, in their order. -/
def besides (t : BalanceTable) (asset : Text) : List (RowKey × Int) :=
  t.rows.filter fun r => r.1.asset ≠ asset

theorem besides_put (k : RowKey) {amount : Int} (h : 0 < amount) (t : BalanceTable) :
    (t.put k amount h).besides k.asset = t.besides k.asset := by
  unfold besides put
  dsimp only
  induction t.rows with
  | nil => simp [putRow]
  | cons r rest ih =>
      unfold putRow
      by_cases hkey : r.1 = k
      · rw [if_pos hkey, List.filter_cons_of_neg (by simp),
          List.filter_cons_of_neg (by simp [hkey])]
      · rw [if_neg hkey, List.filter_cons, List.filter_cons, ih]

theorem besides_erase (k : RowKey) (t : BalanceTable) :
    (t.erase k).besides k.asset = t.besides k.asset := by
  unfold besides erase eraseRow
  rw [List.filter_filter]
  refine List.filter_congr fun r _ => ?_
  by_cases hkey : r.1 = k
  · simp [hkey]
  · simp [hkey]

theorem set_besides (k : RowKey) (amount : Int) (t : BalanceTable) :
    Ends (set k amount) t (fun _ t' => t'.besides k.asset = t.besides k.asset)
      fun _ _ => True := by
  unfold set
  refine ends_unless (fun _ => trivial) fun _ => ?_
  split
  · rename_i hpos
    exact ends_modify (besides_put k hpos t)
  · exact ends_modify (besides_erase k t)

theorem add_besides (k : RowKey) (change : Int) (t : BalanceTable) :
    Ends (add k change) t (fun _ t' => t'.besides k.asset = t.besides k.asset)
      fun _ _ => True := by
  unfold add
  exact .bind (ends_get (ends_unless (fun _ => trivial) fun _ => set_besides k _ t))

theorem subtract_besides (k : RowKey) (amount : Int) (t : BalanceTable) :
    Ends (subtract k amount) t (fun _ t' => t'.besides k.asset = t.besides k.asset)
      fun _ _ => True := by
  unfold subtract
  exact ends_unless (fun _ => trivial) fun _ => add_besides k (-amount) t

theorem move_besides (asset payer payee : Text) (amount : Int) (t : BalanceTable) :
    Ends (move asset payer payee amount) t (fun _ t' => t'.besides asset = t.besides asset)
      fun _ _ => True := by
  unfold move
  refine ends_unless (fun _ => trivial) fun _ => .bind ?_
  refine (subtract_besides ⟨payer, asset⟩ amount t).imp ?_ fun _ _ h => h
  intro _ t₁ hdebited
  refine (add_besides ⟨payee, asset⟩ amount t₁).imp ?_ fun _ _ h => h
  intro _ t' hcredited
  exact hcredited.trans hdebited

end BalanceTable

/-! ## Calls -/

namespace TableCall

/-- What a call does to a table; one that only reads does nothing. -/
def write : TableCall → Action BalanceTable Unit
  | set account asset amount => BalanceTable.set ⟨account, asset⟩ amount
  | add account asset change => BalanceTable.add ⟨account, asset⟩ change
  | subtract account asset amount => BalanceTable.subtract ⟨account, asset⟩ amount
  | move asset sender recipient amount => BalanceTable.move asset sender recipient amount
  | get _ _ | total _ | allBalances | balancesOf _ => pure ()

/-- The amounts after a call, and none where the call is refused. -/
def amounts? (amounts : RowKey → Int) : TableCall → Option (RowKey → Int)
  | set account asset amount =>
      if amount < 0 then none
      else some fun k => if k = ⟨account, asset⟩ then amount else amounts k
  | add account asset change =>
      if amounts ⟨account, asset⟩ + change < 0 then none
      else some (shift amounts ⟨account, asset⟩ change)
  | subtract account asset amount =>
      if amount < 0 ∨ amounts ⟨account, asset⟩ < amount then none
      else some (shift amounts ⟨account, asset⟩ (-amount))
  | move asset sender recipient amount =>
      if amount < 0 ∨ amounts ⟨sender, asset⟩ < amount then none
      else some (transferred amounts ⟨sender, asset⟩ ⟨recipient, asset⟩ amount)
  | get _ _ | total _ | allBalances | balancesOf _ => some amounts

/-- A call is let through where the amounts have a value after it, which the table then has; a call
that is refused leaves the table, down to the order of its rows. -/
theorem write_ends (c : TableCall) (t : BalanceTable) :
    Ends c.write t (fun _ t' => amounts? t.get c = some t'.get)
      (fun _ t' => t' = t ∧ amounts? t.get c = none) := by
  cases c with
  | set account asset amount =>
      refine (BalanceTable.set_ends ⟨account, asset⟩ amount t).imp ?_ ?_
      · rintro - t' ⟨hle, hget⟩
        rw [amounts?, if_neg (by omega), hget]
      · rintro - t' ⟨-, hsame, hneg⟩
        exact ⟨hsame, if_pos hneg⟩
  | add account asset change =>
      refine (BalanceTable.add_ends ⟨account, asset⟩ change t).imp ?_ ?_
      · rintro - t' ⟨hle, hget⟩
        rw [amounts?, if_neg (by omega), hget]
      · rintro - t' ⟨-, hsame, hneg⟩
        exact ⟨hsame, if_pos hneg⟩
  | subtract account asset amount =>
      by_cases hneg : amount < 0
      · unfold write BalanceTable.subtract
        refine ends_unless (fun _ => ⟨rfl, if_pos (.inl hneg)⟩) fun hno => absurd hneg hno
      · refine (BalanceTable.subtract_ends (by omega) ⟨account, asset⟩ t).imp ?_ ?_
        · rintro - t' ⟨hle, hget⟩
          rw [amounts?, if_neg (by omega), hget]
        · rintro - t' ⟨-, hsame, hlt⟩
          exact ⟨hsame, if_pos (.inr hlt)⟩
  | move asset sender recipient amount =>
      by_cases hneg : amount < 0
      · unfold write BalanceTable.move
        refine ends_unless (fun _ => ⟨rfl, if_pos (.inl hneg)⟩) fun hno => absurd hneg hno
      · refine (BalanceTable.move_ends asset sender recipient (by omega) t).imp ?_ ?_
        · rintro - t' ⟨hle, hget⟩
          rw [amounts?, if_neg (by omega), hget]
        · rintro - t' ⟨-, hsame, hlt⟩
          exact ⟨hsame, if_pos (.inr hlt)⟩
  | get | total | allBalances | balancesOf => exact ends_pure rfl

theorem stateAfter_serveTable (c : TableCall) (m : Market) :
    (Market.serveTable c).stateAfter m = { m with table := c.write.stateAfter m.table } := by
  have hserved (a : Action BalanceTable Unit) :
      (Market.onTable a).stateAfter m = { m with table := a.stateAfter m.table } := by
    have hends : Ends (Market.onTable a) m
        (fun _ m' => m' = { m with table := a.stateAfter m.table })
        fun _ m' => m' = { m with table := a.stateAfter m.table } := by
      refine .bind (.focus (ends_of (fun x t hok => ?_) fun e t herror => ?_))
      · exact ends_pure (by rw [stateAfter, hok])
      · rw [stateAfter, herror]
    exact hends.stateAfter
  cases c with
  | set account asset amount => exact hserved _
  | add account asset change => exact hserved _
  | subtract account asset amount => exact hserved _
  | move asset sender recipient amount => exact hserved _
  | get | total | allBalances | balancesOf => rfl

end TableCall

/-! ## Histories -/

namespace BalanceTable

def afterCalls (t : BalanceTable) (calls : List TableCall) : BalanceTable :=
  calls.foldl (fun t c => c.write.stateAfter t) t

/-- What calls make of amounts, when a refused one makes nothing of them. -/
def amountsAfter (amounts : RowKey → Int) (calls : List TableCall) : RowKey → Int :=
  calls.foldl (fun f c => (c.amounts? f).getD f) amounts

theorem get_write (c : TableCall) (t : BalanceTable) :
    (c.write.stateAfter t).get = (c.amounts? t.get).getD t.get := by
  have hends := c.write_ends t
  unfold stateAfter
  cases hresult : c.write t with
  | ok _ t' => rw [hends.of_ok hresult, Option.getD_some]
  | error e t' =>
      obtain ⟨hsame, hrefused⟩ := hends.of_error hresult
      rw [hrefused, hsame, Option.getD_none]

theorem get_afterCalls (t : BalanceTable) (calls : List TableCall) :
    (t.afterCalls calls).get = amountsAfter t.get calls := by
  induction calls generalizing t with
  | nil => rfl
  | cons c rest ih =>
      show ((c.write.stateAfter t).afterCalls rest).get =
        amountsAfter ((c.amounts? t.get).getD t.get) rest
      rw [ih, get_write]

theorem write_of_refused {c : TableCall} {t : BalanceTable}
    (h : (c.write.outcome t).isOk = false) : c.write.stateAfter t = t := by
  obtain ⟨e, hrefused⟩ := exists_error_of_outcome h
  exact ((c.write_ends t).of_error hrefused).1

theorem amounts_of_accepted {c : TableCall} {t : BalanceTable}
    (h : (c.write.outcome t).isOk = true) :
    c.amounts? t.get = some (c.write.stateAfter t).get := by
  obtain ⟨_, hdone⟩ := exists_ok_of_outcome h
  exact (c.write_ends t).of_ok hdone

theorem get_of_moved {asset sender recipient : Text} {amount : Int} {t : BalanceTable}
    (h : ((move asset sender recipient amount).outcome t).isOk = true) :
    ((move asset sender recipient amount).stateAfter t).get =
      transferred t.get ⟨sender, asset⟩ ⟨recipient, asset⟩ amount := by
  have hamounts := amounts_of_accepted (c := .move asset sender recipient amount) h
  rw [TableCall.amounts?] at hamounts
  split at hamounts
  · cases hamounts
  · exact (Option.some.inj hamounts).symm

theorem transferred_account (amounts : RowKey → Int) (asset sender recipient account : Text)
    (amount : Int) :
    transferred amounts ⟨sender, asset⟩ ⟨recipient, asset⟩ amount ⟨account, asset⟩ =
      amounts ⟨account, asset⟩ + (if account = recipient then amount else 0) -
        (if account = sender then amount else 0) := by
  rw [transferred_apply]
  simp only [RowKey.mk.injEq, and_true]
  omega

/-- Whatever calls were made on a table, let through or refused: its rows are the amounts above
zero that the calls make of those at the start, and no amount is negative. A further call that is
refused leaves the table as it is. A further move that is let through takes its amount from the
sender and gives it to the recipient, who may be the sender too; it changes no other amount and not
the total of its asset, and the rows of other assets stay. -/
theorem rows_after_calls (start : BalanceTable) (calls : List TableCall) :
    let t := start.afterCalls calls
    (∀ r ∈ t.rows, 0 < r.2) ∧ (∀ k, 0 ≤ t.get k) ∧
      (∀ k amount, (k, amount) ∈ t.rows ↔
        0 < amount ∧ amountsAfter start.get calls k = amount) ∧
      (∀ c : TableCall, (c.write.outcome t).isOk = false → c.write.stateAfter t = t) ∧
      ∀ (asset sender recipient : Text) (amount : Int),
        ((move asset sender recipient amount).outcome t).isOk = true →
        let t' := (move asset sender recipient amount).stateAfter t
        (∀ account, t'.get ⟨account, asset⟩ = t.get ⟨account, asset⟩ +
          (if account = recipient then amount else 0) -
            (if account = sender then amount else 0)) ∧
        t'.total asset = t.total asset ∧ t'.besides asset = t.besides asset := by
  intro t
  have hamounts : t.get = amountsAfter start.get calls := get_afterCalls start calls
  refine ⟨t.positive, t.get_nonneg, fun k amount => ?_, fun c => write_of_refused, ?_⟩
  · rw [mem_rows_iff, hamounts]
  · intro asset sender recipient amount haccepted t'
    have hmoved : t'.get = transferred t.get ⟨sender, asset⟩ ⟨recipient, asset⟩ amount :=
      get_of_moved haccepted
    obtain ⟨_, hdone⟩ := exists_ok_of_outcome haccepted
    refine ⟨fun account => ?_, total_of_transferred hmoved asset, ?_⟩
    · rw [hmoved, transferred_account]
    · exact (move_besides asset sender recipient amount t).of_ok hdone

/-- Calls on a table of two assets, of which the fourth and the fifth are refused. -/
def sampleCalls : List TableCall :=
  [.set "alice" "USDC" 10, .set "alice" "TOK" 3, .move "USDC" "alice" "bob" 4,
    .move "USDC" "alice" "bob" 7, .subtract "bob" "USDC" (-1), .move "USDC" "alice" "alice" 6,
    .add "bob" "TOK" 2, .add "bob" "TOK" (-2)]

/-- Alice gives away all that she has of one asset, and keeps what she has of the other. -/
theorem rows_after_sampleCalls :
    let t := BalanceTable.empty.afterCalls sampleCalls
    let t' := (move "USDC" "alice" "bob" 6).stateAfter t
    ((move "USDC" "alice" "bob" 6).outcome t).isOk = true ∧
      ((move "USDC" "alice" "bob" 7).outcome t).isOk = false ∧
      (move "USDC" "alice" "bob" 7).stateAfter t = t ∧
      t.rows = [(⟨"alice", "TOK"⟩, 3), (⟨"bob", "USDC"⟩, 4), (⟨"alice", "USDC"⟩, 6)] ∧
      t'.get ⟨"bob", "USDC"⟩ = 10 ∧ t'.total "USDC" = t.total "USDC" ∧
      t'.besides "USDC" = [(⟨"alice", "TOK"⟩, 3)] := by
  intro t t'
  have haccepted : ((move "USDC" "alice" "bob" 6).outcome t).isOk = true := by decide +kernel
  have hrefused : ((move "USDC" "alice" "bob" 7).outcome t).isOk = false := by decide +kernel
  obtain ⟨-, -, -, hkept, hmoves⟩ := rows_after_calls .empty sampleCalls
  obtain ⟨hmoved, htotal, hbesides⟩ := hmoves "USDC" "alice" "bob" 6 haccepted
  refine ⟨haccepted, hrefused, hkept (.move "USDC" "alice" "bob" 7) hrefused, by decide +kernel,
    (hmoved "bob").trans (by decide +kernel), htotal, hbesides.trans (by decide +kernel)⟩

end BalanceTable

end CurveMarket
