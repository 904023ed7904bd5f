import CurveMarket.Proofs.Ledger.Total
import CurveMarket.Proofs.Market.Step

/-! # What steps do to amounts

Every step leaves all totals as they are, but for three kinds: a credit of the reserve asset, the
issue of a token through one of its capabilities, and a write of an amount into the table.
-/

namespace CurveMarket

open CurveMarket.Action

namespace Market

/-! ## Tokens and their ledgers -/

def shares (m : Market) (t : Nat) : Bool := (m.tokens.getD t default).ownTable.isNone

def unitsOf (m : Market) (t : Nat) (account : Text) : Int :=
  (m.tokenLedger t).table.get ⟨account, (m.token t).name⟩

def unitsHeld (m : Market) (t : Nat) : Int := (m.tokenLedger t).table.total (m.token t).name

def assetTotal (m : Market) : Int := m.table.total m.symbol

/-- No two ledgers over one table go by the same name. -/
structure IdsApart (m : Market) : Prop where
  symbol : ∀ t < m.tokens.length, m.shares t = true → (m.token t).name ≠ m.symbol
  tokens : ∀ t < m.tokens.length, ∀ t' < m.tokens.length, m.shares t = true →
    m.shares t' = true → (m.token t).name = (m.token t').name → t = t'

section Put

variable {m : Market} {t : Nat} {l : TokenLedger}

/-- The ledger of a token that exists is put in its place; so is one that is put back. -/
theorem entry_putTokenLedger (h : t < m.tokens.length ∨ l.token = m.token t) (j : Nat) :
    (m.putTokenLedger t l).tokens.getD j default =
      if j = t then ⟨l.token, if m.shares t then none else some l.table⟩
      else m.tokens.getD j default := by
  have hset (e : TokenEntry) (hout : ¬ t < m.tokens.length → m.tokens.getD t default = e) :
      (m.tokens.set t e).getD j default = if j = t then e else m.tokens.getD j default := by
    rw [getD_set]
    by_cases hj : j = t
    · subst hj
      by_cases hexists : j < m.tokens.length
      · simp [hexists]
      · simp only [hexists, and_false, if_false, if_true]
        exact hout hexists
    · simp [hj]
  unfold putTokenLedger shares
  cases hown : (m.tokens.getD t default).ownTable with
  | some own =>
      refine hset _ fun hout => ?_
      rw [List.getD_eq_default _ _ (Nat.not_lt.mp hout)] at hown
      cases hown
  | none =>
      refine hset _ fun hout => ?_
      rw [h.resolve_left hout]
      show m.tokens.getD t default = ⟨_, none⟩
      rw [← hown]
      rfl

theorem token_putTokenLedger (h : t < m.tokens.length ∨ l.token = m.token t) (j : Nat) :
    (m.putTokenLedger t l).token j = if j = t then l.token else m.token j := by
  unfold token
  rw [entry_putTokenLedger h]
  by_cases hj : j = t
  · simp [hj]
  · simp [hj]

theorem shares_putTokenLedger (h : t < m.tokens.length ∨ l.token = m.token t) (j : Nat) :
    (m.putTokenLedger t l).shares j = m.shares j := by
  unfold shares
  rw [entry_putTokenLedger h]
  by_cases hj : j = t
  · subst hj
    unfold shares
    cases (m.tokens.getD j default).ownTable with
    | none => simp
    | some own => simp
  · simp [hj]

theorem table_putTokenLedger (m : Market) (t : Nat) (l : TokenLedger) :
    (m.putTokenLedger t l).table = if m.shares t then l.table else m.table := by
  unfold putTokenLedger shares
  cases (m.tokens.getD t default).ownTable with
  | none => rfl
  | some own => rfl

theorem length_putTokenLedger (m : Market) (t : Nat) (l : TokenLedger) :
    (m.putTokenLedger t l).tokens.length = m.tokens.length := by
  unfold putTokenLedger
  cases (m.tokens.getD t default).ownTable with
  | none => exact List.length_set
  | some own => exact List.length_set

/-- The balances of a token that shares the table are those of the table. -/
theorem tokenLedger_of_shares (h : m.shares t = true) : (m.tokenLedger t).table = m.table := by
  unfold shares at h
  show (m.tokens.getD t default).ownTable.getD m.table = m.table
  rw [Option.isNone_iff_eq_none.mp h]
  rfl

theorem tokenLedger_putTokenLedger (h : t < m.tokens.length ∨ l.token = m.token t) (j : Nat) :
    ((m.putTokenLedger t l).tokenLedger j).table =
      if j = t then l.table
      else if m.shares t && m.shares j then l.table else (m.tokenLedger j).table := by
  unfold tokenLedger
  rw [entry_putTokenLedger h, table_putTokenLedger]
  by_cases hj : j = t
  · cases m.shares t with
    | false => simp [hj]
    | true => simp [hj]
  · simp only [hj, if_false]
    unfold shares
    cases (m.tokens.getD t default).ownTable with
    | none => cases (m.tokens.getD j default).ownTable <;> rfl
    | some own => rfl

end Put

/-! ## Steps that make nothing -/

/-- Markets with the same supplies, and the same total of every asset in every table. -/
structure Shuffles (m m' : Market) : Prop where
  symbol : m'.symbol = m.symbol
  length : m'.tokens.length = m.tokens.length
  name : ∀ t, (m'.token t).name = (m.token t).name
  supply : ∀ t, (m'.token t).supply = (m.token t).supply
  shares : ∀ t, m'.shares t = m.shares t
  table : ∀ x, m'.table.total x = m.table.total x
  total : ∀ t x, (m'.tokenLedger t).table.total x = (m.tokenLedger t).table.total x

/-- Markets in which the same capabilities may issue the same tokens. -/
structure SameRights (m m' : Market) : Prop where
  capabilities : m'.capabilities = m.capabilities
  live : ∀ t, (m'.token t).live = (m.token t).live

theorem shuffles_modify {f : TokenEntry → TokenEntry}
    (hname : ∀ e, (f e).token.name = e.token.name)
    (hsupply : ∀ e, (f e).token.supply = e.token.supply) (hown : ∀ e, (f e).ownTable = e.ownTable)
    {m m' : Market} {t : Nat} (symbol : m'.symbol = m.symbol) (table : m'.table = m.table)
    (tokens : m'.tokens = m.tokens.modify t f) : m.Shuffles m' := by
  have hkept {β : Type} (g : TokenEntry → β) (hg : ∀ e, g (f e) = g e) (j : Nat) :
      g (m'.tokens.getD j default) = g (m.tokens.getD j default) := by
    rw [tokens]
    exact getD_modify_of_keeps hg m.tokens t j
  have howns := hkept TokenEntry.ownTable hown
  refine ⟨symbol, ?_, hkept (·.token.name) hname, hkept (·.token.supply) hsupply, fun j => ?_,
    fun x => by rw [table], fun j x => ?_⟩
  · rw [tokens, List.length_modify]
  · exact congrArg Option.isNone (howns j)
  · show ((m'.tokens.getD j default).ownTable.getD m'.table).total x =
      ((m.tokens.getD j default).ownTable.getD m.table).total x
    rw [howns, table]

theorem shuffles_of_tokens {m m' : Market} (symbol : m'.symbol = m.symbol)
    (tokens : m'.tokens = m.tokens) (table : ∀ x, m'.table.total x = m.table.total x) :
    m.Shuffles m' := by
  refine ⟨symbol, by rw [tokens], fun t => ?_, fun t => ?_, fun t => ?_, table, fun t x => ?_⟩
  · rw [token, tokens, token]
  · rw [token, tokens, token]
  · rw [shares, tokens, shares]
  · show ((m'.tokens.getD t default).ownTable.getD m'.table).total x =
      ((m.tokens.getD t default).ownTable.getD m.table).total x
    rw [tokens]
    cases (m.tokens.getD t default).ownTable with
    | none => exact table x
    | some own => rfl

theorem shuffles_putTokenLedger {m : Market} {t : Nat} {l : TokenLedger}
    (htoken : l.token = m.token t)
    (htotal : ∀ x, l.table.total x = (m.tokenLedger t).table.total x) :
    m.Shuffles (m.putTokenLedger t l) ∧ m.SameRights (m.putTokenLedger t l) := by
  have hput : t < m.tokens.length ∨ l.token = m.token t := .inr htoken
  have hsame := sameRecords_putTokenLedger m t l
  have htokens (j : Nat) : (m.putTokenLedger t l).token j = m.token j := by
    rw [token_putTokenLedger hput]
    by_cases hj : j = t
    · rw [if_pos hj, htoken, hj]
    · rw [if_neg hj]
  have hshared (h : m.shares t = true) (x : Text) : l.table.total x = m.table.total x := by
    rw [htotal, tokenLedger_of_shares h]
  refine ⟨⟨?_, length_putTokenLedger m t l, fun j => by rw [htokens], fun j => by rw [htokens],
    shares_putTokenLedger hput, fun x => ?_, fun j x => ?_⟩, ⟨?_, fun j => by rw [htokens]⟩⟩
  · rw [hsame]
  · rw [table_putTokenLedger]
    by_cases h : m.shares t = true
    · rw [if_pos h, hshared h]
    · rw [if_neg h]
  · rw [tokenLedger_putTokenLedger hput]
    by_cases hj : j = t
    · rw [if_pos hj, htotal, hj]
    · rw [if_neg hj]
      by_cases h : (m.shares t && m.shares j) = true
      · have hboth := Bool.and_eq_true_iff.mp h
        rw [if_pos h, hshared hboth.1, tokenLedger_of_shares hboth.2]
      · rw [if_neg h]
  · rw [hsame]

/-! ## Issues -/

section Issue

variable {m : Market} {t : Nat} {l : TokenLedger} {account : Text} {change : Int}
  (hexists : t < m.tokens.length) (hissues : (m.tokenLedger t).Issues account change l)
include hexists hissues

theorem token_of_issue (j : Nat) :
    (m.putTokenLedger t l).token j =
      if j = t then { m.token t with supply := (m.token t).supply + change } else m.token j := by
  rw [token_putTokenLedger (.inl hexists), hissues.1]
  rfl

theorem name_of_issue (j : Nat) : ((m.putTokenLedger t l).token j).name = (m.token j).name := by
  rw [token_of_issue hexists hissues]
  by_cases hj : j = t
  · rw [if_pos hj, hj]
  · rw [if_neg hj]

omit hexists in
theorem table_of_issue (hshares : m.shares t = true) :
    l.table.get = shift m.table.get ⟨account, (m.token t).name⟩ change := by
  rw [← tokenLedger_of_shares hshares]
  exact hissues.2

theorem units_of_issue {j : Nat} (hne : j ≠ t)
    (hapart : m.shares t = true → m.shares j = true → (m.token t).name ≠ (m.token j).name) :
    (∀ a, (m.putTokenLedger t l).unitsOf j a = m.unitsOf j a) ∧
      (m.putTokenLedger t l).unitsHeld j = m.unitsHeld j := by
  unfold unitsOf unitsHeld
  rw [name_of_issue hexists hissues, tokenLedger_putTokenLedger (.inl hexists), if_neg hne]
  by_cases hboth : (m.shares t && m.shares j) = true
  · rw [if_pos hboth]
    obtain ⟨ht, hj⟩ := Bool.and_eq_true_iff.mp hboth
    have hget := table_of_issue hissues ht
    rw [tokenLedger_of_shares hj]
    refine ⟨fun a => ?_, ?_⟩
    · rw [hget, shift_of_asset_ne (hapart ht hj)]
    · rw [BalanceTable.total_of_shift hget, if_neg (hapart ht hj), Int.add_zero]
  · rw [if_neg hboth]
    exact ⟨fun _ => rfl, rfl⟩

/-- The token that is issued keeps the sum of its balances at its supply. -/
theorem unitsHeld_of_issue : (m.putTokenLedger t l).unitsHeld t = m.unitsHeld t + change := by
  have hname : (m.tokenLedger t).token.name = (m.token t).name := rfl
  unfold unitsHeld
  rw [name_of_issue hexists hissues, tokenLedger_putTokenLedger (.inl hexists), if_pos rfl,
    hissues.total, if_pos hname]

omit hexists in
theorem asset_of_issue {x : Text} (hapart : m.shares t = true → (m.token t).name ≠ x) :
    (∀ a, (m.putTokenLedger t l).table.get ⟨a, x⟩ = m.table.get ⟨a, x⟩) ∧
      (m.putTokenLedger t l).table.total x = m.table.total x := by
  rw [table_putTokenLedger]
  by_cases ht : m.shares t = true
  · have hget := table_of_issue hissues ht
    rw [if_pos ht]
    refine ⟨fun a => ?_, ?_⟩
    · rw [hget, shift_of_asset_ne (hapart ht)]
    · rw [BalanceTable.total_of_shift hget, if_neg (hapart ht), Int.add_zero]
  · rw [if_neg ht]
    exact ⟨fun _ => rfl, rfl⟩

end Issue

end Market

/-! ## Kinds of steps -/

/-- The capability that an effect mints or burns through. -/
def Effect.issuer? : Effect → Option Nat
  | .transfer _ _ _ => none
  | .mint c _ _ => some c
  | .burn c _ _ => some c

/-- Calls that write an amount into the table, whoever it belongs to. -/
def TableCall.writesAmount : TableCall → Bool
  | .set .. | .add .. | .subtract .. => true
  | _ => false

def Operation.writesAmount : Operation → Bool
  | .table c => c.writesAmount
  | _ => false

namespace Market

namespace LedgerEvent

def issuer? : LedgerEvent → Option Nat
  | .effect e => e.issuer?
  | _ => none

def credited : LedgerEvent → Int
  | .credit _ (some amount) => amount
  | _ => 0

end LedgerEvent

/-- What a step does to the ledgers when no amount is written into the table. -/
inductive LedgerStep (m : Market) : LedgerEvent → Market → Prop
  | shuffle {event : LedgerEvent} {m' : Market} (unissued : event.issuer? = none)
      (uncredited : event.credited = 0) (shuffles : m.Shuffles m') (rights : m.SameRights m') :
      LedgerStep m event m'
  | credit {account : Option Text} {amount : Int} {table : BalanceTable} {heard : List Exchange}
      (total : ∀ x, table.total x = m.table.total x + if m.symbol = x then amount else 0) :
      LedgerStep m (.credit account (some amount)) { m with table, heard }
  | issue {e : Effect} {c : Nat} {account : Text} {change : Int} {l : TokenLedger}
      (issuer : e.issuer? = some c)
      (authorized : m.isAuthorized (m.capability c).token c = true)
      (issues : (m.tokenLedger (m.capability c).token).Issues account change l) :
      LedgerStep m (.effect e) (m.putTokenLedger (m.capability c).token l)
  | revoke (t number : Nat) :
      LedgerStep m .other { m with tokens := m.tokens.modify t (TokenEntry.revoke number) }
  | newToken (name : Text) (shared : Bool) :
      LedgerStep m .other
        { m with tokens := m.tokens ++ [⟨{ name }, if shared then none else some .empty⟩] }
  | newCapability (t : Nat) (holder : Value) :
      LedgerStep m .other
        { m with
          capabilities := m.capabilities ++ [⟨t, m.capabilities.length + 1, holder⟩]
          tokens := m.tokens.modify t (TokenEntry.allow (m.capabilities.length + 1)) }

section Kinds

variable {m m' : Market}

theorem ledgerStep_apply {e : Effect} (h : apply e m = .ok () m') :
    LedgerStep m (.effect e) m' := by
  cases e with
  | transfer sender recipient amount =>
      have hends : Ends (apply (.transfer sender recipient amount)) m
          (fun _ m' => m.Shuffles m' ∧ m.SameRights m') fun _ _ => True := by
        refine .bind (ends_get (.focus ((transferUnits_total ..).imp ?_ fun _ _ _ => trivial)))
        exact fun _ _ htotal => ⟨shuffles_of_tokens rfl rfl htotal, rfl, fun _ => rfl⟩
      have hdone := hends.of_ok h
      exact .shuffle rfl rfl hdone.1 hdone.2
  | mint c account amount =>
      have hends : Ends (apply (.mint c account amount)) m
          (fun _ m' => LedgerStep m (.effect (.mint c account amount)) m') fun _ _ => True := by
        refine .bind (ends_get (.focus ((TokenLedger.mint_ends ..).imp ?_ fun _ _ _ => trivial)))
        rintro - l ⟨hauth, a, n, -, -, -, hissues⟩
        exact .issue rfl hauth hissues
      exact hends.of_ok h
  | burn c account amount =>
      have hends : Ends (apply (.burn c account amount)) m
          (fun _ m' => LedgerStep m (.effect (.burn c account amount)) m') fun _ _ => True := by
        refine .bind (ends_get (.focus ((TokenLedger.burn_ends ..).imp ?_ fun _ _ _ => trivial)))
        rintro - l ⟨hauth, a, n, -, -, -, -, hissues⟩
        exact .issue rfl hauth hissues
      exact hends.of_ok h

theorem ends_answer {σ : Type} {part : Market → σ} {replace : Market → σ → Market}
    {a : Action σ Unit} {P : Market → Prop}
    (h : Ends a (part m) (fun _ s => P (replace m s)) fun _ _ => True) :
    Ends (do focus part replace a; return Reply.nothing) m (fun _ m' => P m') fun _ _ => True :=
  .bind (.focus (h.imp (fun _ _ h => ends_pure h) fun _ _ h => h))

theorem ledgerStep_credit {account : Option Text} {amount : Option Int} (x : Exchange)
    (h : serveAsset apply (.credit account amount) m = .ok .nothing m') :
    LedgerStep m (.credit account amount) (m'.note x) := by
  have hends : Ends (serveAsset apply (.credit account amount)) m
      (fun _ m' => LedgerStep m (.credit account amount) (m'.note x)) fun _ _ => True := by
    refine .bind (ends_get (ends_answer ((creditUnits_total ..).imp ?_ fun _ _ _ => trivial)))
    rintro - table ⟨n, rfl, -, htotal⟩
    exact .credit htotal
  exact hends.of_ok h

theorem shuffles_transfer {target : Text} {t : Nat} {sender recipient : Option Text}
    {amount : Option Int}
    (h : serveToken target t (.transfer sender recipient amount) m = .ok .nothing m') :
    m.Shuffles m' ∧ m.SameRights m' := by
  have hends : Ends (serveToken target t (.transfer sender recipient amount)) m
      (fun _ m' => m.Shuffles m' ∧ m.SameRights m') fun _ _ => True := by
    refine .bind (ends_get (ends_answer (.focus ((transferUnits_total ..).imp ?_ ?_))))
    · exact fun _ _ htotal => shuffles_putTokenLedger rfl htotal
    · exact fun _ _ _ => trivial
  exact hends.of_ok h

theorem shuffles_serveTable {c : TableCall} (hc : c.writesAmount = false)
    (h : serveTable c m = .ok .nothing m') : m.Shuffles m' ∧ m.SameRights m' := by
  cases c with
  | set | add | subtract => cases hc
  | move asset sender recipient amount =>
      have hends : Ends (serveTable (.move asset sender recipient amount)) m
          (fun _ m' => m.Shuffles m' ∧ m.SameRights m') fun _ _ => True := by
        refine ends_answer ((BalanceTable.move_total ..).imp ?_ fun _ _ _ => trivial)
        exact fun _ _ htotal => ⟨shuffles_of_tokens rfl rfl htotal, rfl, fun _ => rfl⟩
      exact hends.of_ok h
  | _ => cases h

/-- A step of which no write of an amount is asked. -/
theorem Step.ledgerStep {asked : Operation → Prop} {event : LedgerEvent}
    (h : Step asked m event m') (hasked : ∀ op, asked op → op.writesAmount = false) :
    LedgerStep m event m' := by
  have hsame {m' : Market} (symbol : m'.symbol = m.symbol)
      (capabilities : m'.capabilities = m.capabilities) (tokens : m'.tokens = m.tokens)
      (table : m'.table = m.table) : LedgerStep m .other m' :=
    .shuffle rfl rfl (shuffles_of_tokens symbol tokens fun _ => by rw [table])
      ⟨capabilities, fun t => by rw [token, tokens, token]⟩
  cases h with
  | effect done => exact ledgerStep_apply done
  | credit _ _ accepted => exact ledgerStep_credit _ accepted
  | transfer accepted =>
      have hdone := shuffles_transfer accepted
      exact .shuffle rfl rfl hdone.1 hdone.2
  | write wanted accepted =>
      have hdone := shuffles_serveTable (hasked _ wanted) accepted
      exact .shuffle rfl rfl hdone.1 hdone.2
  | revoke t number => exact .revoke t number
  | newToken name shared => exact .newToken name shared
  | newCapability t holder => exact .newCapability t holder
  | answered | pools | directories | reserves | splitters => exact hsame rfl rfl rfl rfl
  | quiet same =>
      refine hsame ?_ ?_ ?_ ?_
      all_goals rw [same]

end Kinds

end Market

end CurveMarket
