import CurveMarket.Proofs.Market.Ledgers
import CurveMarket.Proofs.Market.Runs

/-! # What steps keep of the ledgers

As long as no two ledgers of one table go by the same name, a step makes the reserve asset by a
credit alone, keeps the supply of every token at what its holders have, and issues a token through
its own live capabilities alone. A capability that has lost its right does not get it back.
-/

namespace CurveMarket

open CurveMarket.Action

namespace Market

/-- Every token's supply is the sum of its holders' balances. -/
def SuppliesMatch (m : Market) : Prop :=
  ∀ t < m.tokens.length, (m.token t).supply = m.unitsHeld t

/-- What the ledgers of a market keep to as long as their names are apart. -/
structure Accounted (m : Market) : Prop where
  supplies : m.SuppliesMatch
  /-- No balance in the table belongs to no ledger. -/
  unused : ∀ x, x ≠ m.symbol → (∀ t < m.tokens.length, m.shares t = true → (m.token t).name ≠ x) →
    m.table.total x = 0
  numbered : ∀ c < m.capabilities.length, (m.capability c).number = c + 1

/-! ## Tokens that are added -/

section NewToken

variable (m : Market) (e : TokenEntry)

def withToken : Market := { m with tokens := m.tokens ++ [e] }

theorem entry_withToken (t : Nat) : (m.withToken e).tokens.getD t default =
    if t = m.tokens.length then e else m.tokens.getD t default := by
  show (m.tokens ++ [e]).getD t default = _
  simp only [List.getD_eq_getElem?_getD]
  rcases Nat.lt_trichotomy t m.tokens.length with hlt | heq | hgt
  · rw [List.getElem?_append_left hlt, if_neg hlt.ne]
  · rw [heq, List.getElem?_concat_length, if_pos rfl]
    rfl
  · have hout : m.tokens.length + 1 ≤ t := hgt
    rw [List.getElem?_eq_none (by simpa using hout), if_neg hgt.ne',
      List.getElem?_eq_none (by omega)]

theorem withToken_of_ne {t : Nat} (h : t ≠ m.tokens.length) :
    (m.withToken e).token t = m.token t ∧ (m.withToken e).shares t = m.shares t ∧
      (m.withToken e).tokenLedger t = m.tokenLedger t := by
  have hentry := m.entry_withToken e t
  rw [if_neg h] at hentry
  refine ⟨congrArg TokenEntry.token hentry, ?_, ?_⟩
  · exact congrArg (fun e : TokenEntry => e.ownTable.isNone) hentry
  · exact congrArg (fun e : TokenEntry => (⟨e.token, e.ownTable.getD m.table⟩ : TokenLedger)) hentry

theorem withToken_last :
    (m.withToken e).token m.tokens.length = e.token ∧
      (m.withToken e).shares m.tokens.length = e.ownTable.isNone ∧
      (m.withToken e).tokenLedger m.tokens.length = ⟨e.token, e.ownTable.getD m.table⟩ := by
  have hentry := m.entry_withToken e m.tokens.length
  rw [if_pos rfl] at hentry
  refine ⟨congrArg TokenEntry.token hentry, ?_, ?_⟩
  · exact congrArg (fun e : TokenEntry => e.ownTable.isNone) hentry
  · exact congrArg (fun e : TokenEntry => (⟨e.token, e.ownTable.getD m.table⟩ : TokenLedger)) hentry

theorem live_withToken {t n : Nat} (h : n ∈ ((m.withToken e).token t).live) :
    n ∈ e.token.live ∨ n ∈ (m.token t).live := by
  by_cases hlast : t = m.tokens.length
  · rw [hlast, (m.withToken_last e).1] at h
    exact .inl h
  · rw [(m.withToken_of_ne e hlast).1] at h
    exact .inr h

theorem length_withToken : (m.withToken e).tokens.length = m.tokens.length + 1 := by
  simp [withToken]

end NewToken

/-! ## Names -/

section Names

variable {m m' : Market}

/-- Tokens keep their names, and their balances the table they are in. -/
structure KeepsNames (m m' : Market) : Prop where
  symbol : m'.symbol = m.symbol
  length : m.tokens.length ≤ m'.tokens.length
  shares : ∀ t < m.tokens.length, m'.shares t = m.shares t
  name : ∀ t < m.tokens.length, (m'.token t).name = (m.token t).name

theorem KeepsNames.refl (m : Market) : m.KeepsNames m :=
  ⟨rfl, le_rfl, fun _ _ => rfl, fun _ _ => rfl⟩

theorem KeepsNames.trans {m₁ m₂ m₃ : Market} (h : m₁.KeepsNames m₂) (h' : m₂.KeepsNames m₃) :
    m₁.KeepsNames m₃ where
  symbol := h'.symbol.trans h.symbol
  length := h.length.trans h'.length
  shares := fun t ht => (h'.shares t (ht.trans_le h.length)).trans (h.shares t ht)
  name := fun t ht => (h'.name t (ht.trans_le h.length)).trans (h.name t ht)

theorem KeepsNames.idsApart (h : m.KeepsNames m') (hapart : m'.IdsApart) : m.IdsApart where
  symbol := fun t ht hshares => by
    rw [← h.name t ht, ← h.symbol]
    rw [← h.shares t ht] at hshares
    exact hapart.symbol t (ht.trans_le h.length) hshares
  tokens := fun t ht t' ht' hshares hshares' hname => by
    rw [← h.name t ht, ← h.name t' ht'] at hname
    rw [← h.shares t ht] at hshares
    rw [← h.shares t' ht'] at hshares'
    exact hapart.tokens t (ht.trans_le h.length) t' (ht'.trans_le h.length) hshares hshares' hname

theorem Shuffles.keepsNames (h : m.Shuffles m') : m.KeepsNames m' where
  symbol := h.symbol
  length := h.length.ge
  shares := fun t _ => h.shares t
  name := fun t _ => h.name t

end Names

theorem lt_of_authorized {m : Market} {t c : Nat} (h : m.isAuthorized t c = true) :
    t < m.tokens.length := by
  unfold isAuthorized token at h
  refine lt_length_of_getD (fun e => e.token.live.contains (m.capability c).number = true) ?_ nofun
  exact (Bool.and_eq_true_iff.mp h).2

theorem shuffles_revoke (m : Market) (t number : Nat) :
    m.Shuffles { m with tokens := m.tokens.modify t (TokenEntry.revoke number) } :=
  shuffles_modify (f := TokenEntry.revoke number) (fun _ => rfl) (fun _ => rfl) (fun _ => rfl)
    rfl rfl rfl

theorem shuffles_newCapability (m : Market) (t : Nat) (holder : Value) :
    m.Shuffles { m with
      capabilities := m.capabilities ++ [⟨t, m.capabilities.length + 1, holder⟩]
      tokens := m.tokens.modify t (TokenEntry.allow (m.capabilities.length + 1)) } :=
  shuffles_modify (f := TokenEntry.allow _) (fun _ => rfl) (fun _ => rfl) (fun _ => rfl) rfl rfl rfl

section Steps

variable {m m' : Market} {event : LedgerEvent}

theorem LedgerStep.keepsNames (h : LedgerStep m event m') : m.KeepsNames m' := by
  cases h with
  | shuffle _ _ shuffles => exact shuffles.keepsNames
  | credit => exact { KeepsNames.refl m with }
  | issue _ authorized issues =>
      have hexists := lt_of_authorized authorized
      refine ⟨?_, (length_putTokenLedger m _ _).ge, fun t _ => ?_, fun t _ => ?_⟩
      · rw [sameRecords_putTokenLedger]
      · exact shares_putTokenLedger (.inl hexists) t
      · exact name_of_issue hexists issues t
  | revoke t number => exact (shuffles_revoke m t number).keepsNames
  | newToken name shared =>
      refine ⟨rfl, ?_, fun t ht => ?_, fun t ht => ?_⟩
      · exact (Nat.le_succ _).trans (m.length_withToken _).ge
      · exact (m.withToken_of_ne _ ht.ne).2.1
      · exact congrArg Token.name (m.withToken_of_ne _ ht.ne).1
  | newCapability t holder => exact (shuffles_newCapability m t holder).keepsNames

/-! ## Supplies -/

theorem Shuffles.suppliesMatch (h : m.Shuffles m') (hm : m.SuppliesMatch) : m'.SuppliesMatch := by
  intro t ht
  rw [h.length] at ht
  rw [h.supply, hm t ht, unitsHeld, unitsHeld, h.name, h.total]

theorem Shuffles.unused (h : m.Shuffles m') {x : Text} (hm : m.Accounted) (hsymbol : x ≠ m'.symbol)
    (hnames : ∀ t < m'.tokens.length, m'.shares t = true → (m'.token t).name ≠ x) :
    m'.table.total x = 0 := by
  rw [h.table]
  rw [h.symbol] at hsymbol
  refine hm.unused x hsymbol fun t ht hshares => ?_
  rw [← h.name]
  rw [← h.length] at ht
  rw [← h.shares] at hshares
  exact hnames t ht hshares

theorem capability_concat (l : List Capability) (x : Capability) {c : Nat} (h : c < l.length) :
    (l ++ [x]).getD c default = l.getD c default := by
  simp only [List.getD_eq_getElem?_getD, List.getElem?_append_left h]

theorem suppliesMatch_credit {table : BalanceTable} {amount : Int}
    (htotal : ∀ x, table.total x = m.table.total x + if m.symbol = x then amount else 0)
    (hapart : m.IdsApart) (hm : m.SuppliesMatch) : ({ m with table } : Market).SuppliesMatch := by
  intro t ht
  refine (hm t ht).trans ?_
  show _ = ((m.tokens.getD t default).ownTable.getD table).total (m.token t).name
  unfold unitsHeld
  by_cases hshares : m.shares t = true
  · have hnone := Option.isNone_iff_eq_none.mp hshares
    have hne := (hapart.symbol t ht hshares).symm
    rw [tokenLedger_of_shares hshares, hnone, Option.getD_none, htotal, if_neg hne, Int.add_zero]
  · obtain ⟨own, hown⟩ := Option.ne_none_iff_exists'.mp (mt Option.isNone_iff_eq_none.mpr hshares)
    show ((m.tokens.getD t default).ownTable.getD m.table).total _ = _
    rw [hown]
    rfl

theorem suppliesMatch_newToken {name : Text} {shared : Bool} (hm : m.Accounted)
    (hapart : (m.withToken ⟨{ name }, if shared then none else some .empty⟩).IdsApart) :
    (m.withToken ⟨{ name }, if shared then none else some .empty⟩).SuppliesMatch := by
  intro t ht
  rw [length_withToken] at ht
  unfold unitsHeld
  by_cases hlast : t = m.tokens.length
  · subst hlast
    obtain ⟨htoken, hshares, hledger⟩ :=
      m.withToken_last ⟨{ name }, if shared then none else some .empty⟩
    rw [htoken, hledger]
    cases shared with
    | false => rfl
    | true =>
        have hlt : m.tokens.length < (m.withToken ⟨{ name }, none⟩).tokens.length := by
          rw [length_withToken]
          omega
        refine (hm.unused name ?_ fun j hj hsharing hname => ?_).symm
        · have hne := hapart.symbol _ hlt hshares
          rw [htoken] at hne
          exact hne
        · obtain ⟨hold, holdShares, -⟩ := m.withToken_of_ne ⟨{ name }, none⟩ hj.ne
          refine absurd (hapart.tokens j (hj.trans hlt) _ hlt ?_ hshares ?_) hj.ne
          · exact holdShares.trans hsharing
          · exact ((congrArg Token.name hold).trans hname).trans (congrArg Token.name htoken).symm
  · obtain ⟨htoken, -, hledger⟩ := m.withToken_of_ne _ hlast
    rw [htoken, hledger]
    exact hm.supplies t (by omega)

theorem LedgerStep.suppliesMatch (h : LedgerStep m event m') (hm : m.Accounted)
    (hapart : m'.IdsApart) : m'.SuppliesMatch := by
  have hbefore := h.keepsNames.idsApart hapart
  cases h with
  | shuffle _ _ shuffles => exact shuffles.suppliesMatch hm.supplies
  | credit total => exact suppliesMatch_credit total hbefore hm.supplies
  | @issue _ c _ _ _ _ authorized issues =>
      have hexists := lt_of_authorized authorized
      intro t ht
      rw [length_putTokenLedger] at ht
      rw [token_of_issue hexists issues]
      by_cases hsame : t = (m.capability c).token
      · rw [if_pos hsame, hsame, unitsHeld_of_issue hexists issues, ← hm.supplies _ hexists]
      · rw [if_neg hsame, (units_of_issue hexists issues hsame ?_).2]
        · exact hm.supplies t ht
        · intro hshares hshares' hname
          exact hsame (hbefore.tokens _ hexists t ht hshares hshares' hname).symm
  | revoke t number => exact (shuffles_revoke m t number).suppliesMatch hm.supplies
  | newToken name shared => exact suppliesMatch_newToken hm hapart
  | newCapability t holder => exact (shuffles_newCapability m t holder).suppliesMatch hm.supplies

/-! ## Accounts -/

theorem LedgerStep.unused (h : LedgerStep m event m') (hm : m.Accounted) {x : Text}
    (hsymbol : x ≠ m'.symbol)
    (hnames : ∀ t < m'.tokens.length, m'.shares t = true → (m'.token t).name ≠ x) :
    m'.table.total x = 0 := by
  cases h with
  | shuffle _ _ shuffles => exact shuffles.unused hm hsymbol hnames
  | credit total =>
      rw [total, if_neg (Ne.symm hsymbol), Int.add_zero]
      exact hm.unused x hsymbol hnames
  | @issue _ c _ _ _ _ authorized issues =>
      have hexists := lt_of_authorized authorized
      have hold (t : Nat) (ht : t < m.tokens.length) (hshares : m.shares t = true) :
          (m.token t).name ≠ x := by
        rw [← name_of_issue hexists issues]
        rw [← shares_putTokenLedger (.inl hexists)] at hshares
        rw [← length_putTokenLedger] at ht
        exact hnames t ht hshares
      rw [(asset_of_issue issues (hold _ hexists)).2]
      refine hm.unused x ?_ hold
      rw [sameRecords_putTokenLedger] at hsymbol
      exact hsymbol
  | revoke t number => exact (shuffles_revoke m t number).unused hm hsymbol hnames
  | newToken name shared =>
      refine hm.unused x hsymbol fun t ht hshares => ?_
      obtain ⟨htoken, hkept, -⟩ := m.withToken_of_ne _ ht.ne
      rw [← htoken]
      rw [← hkept] at hshares
      refine hnames t ?_ hshares
      exact ht.trans ((Nat.lt_succ_self _).trans_eq (m.length_withToken _).symm)
  | newCapability t holder => exact (shuffles_newCapability m t holder).unused hm hsymbol hnames

/-- Capabilities are numbered in the order they were made. -/
theorem LedgerStep.numbered (h : LedgerStep m event m')
    (hm : ∀ c < m.capabilities.length, (m.capability c).number = c + 1) :
    ∀ c < m'.capabilities.length, (m'.capability c).number = c + 1 := by
  cases h with
  | shuffle _ _ _ rights =>
      unfold capability
      rw [rights.capabilities]
      exact hm
  | issue =>
      unfold capability
      rw [sameRecords_putTokenLedger]
      exact hm
  | newCapability t holder =>
      intro c hc
      rw [List.length_append, List.length_singleton] at hc
      show ((m.capabilities ++ [_]).getD c default).number = c + 1
      by_cases hlast : c = m.capabilities.length
      · rw [hlast, List.getD_eq_getElem?_getD, List.getElem?_concat_length]
        rfl
      · rw [capability_concat _ _ (by omega)]
        exact hm c (by omega)
  | credit | revoke | newToken => exact hm

theorem LedgerStep.accounted (h : LedgerStep m event m') (hm : m.Accounted)
    (hapart : m'.IdsApart) : m'.Accounted where
  supplies := h.suppliesMatch hm hapart
  unused := fun _ => h.unused hm
  numbered := h.numbered hm.numbered

/-! ## What a step may do -/

theorem LedgerStep.assetTotal_eq (h : LedgerStep m event m') (hapart : m.IdsApart) :
    m'.assetTotal = m.assetTotal + event.credited := by
  cases h with
  | shuffle _ uncredited shuffles =>
      rw [assetTotal, shuffles.symbol, shuffles.table, uncredited, Int.add_zero, assetTotal]
  | credit total => exact (total m.symbol).trans (by rw [if_pos rfl]; rfl)
  | issue _ authorized issues =>
      have hne := hapart.symbol _ (lt_of_authorized authorized)
      have htotal := (asset_of_issue issues hne).2
      unfold assetTotal
      rw [show (m.putTokenLedger _ _).symbol = m.symbol by rw [sameRecords_putTokenLedger], htotal]
      exact (Int.add_zero _).symm
  | revoke | newToken | newCapability => exact (Int.add_zero _).symm

/-- The supply of a token changes through a capability of its own only. -/
theorem LedgerStep.issuer_of_supply (h : LedgerStep m event m') {t : Nat}
    (ht : t < m.tokens.length) (hchanged : (m'.token t).supply ≠ (m.token t).supply) :
    ∃ c, event.issuer? = some c ∧ m.isAuthorized t c = true := by
  cases h with
  | shuffle _ _ shuffles => exact absurd (shuffles.supply t) hchanged
  | credit => exact absurd rfl hchanged
  | @issue _ c _ _ _ issuer authorized issues =>
      refine ⟨c, issuer, ?_⟩
      rw [token_of_issue (lt_of_authorized authorized) issues] at hchanged
      by_cases hsame : t = (m.capability c).token
      · rw [hsame]
        exact authorized
      · rw [if_neg hsame] at hchanged
        exact absurd rfl hchanged
  | revoke j number => exact absurd ((shuffles_revoke m j number).supply t) hchanged
  | newToken => exact absurd (congrArg Token.supply (m.withToken_of_ne _ ht.ne).1) hchanged
  | newCapability j holder => exact absurd ((shuffles_newCapability m j holder).supply t) hchanged

/-- Only a capability that its token lists as live is minted or burned through. -/
theorem LedgerStep.authorized (h : LedgerStep m event m') {c : Nat}
    (hissuer : event.issuer? = some c) :
    m.isAuthorized (m.capability c).token c = true := by
  cases h with
  | shuffle unissued =>
      rw [unissued] at hissuer
      cases hissuer
  | issue issuer authorized =>
      cases issuer.symm.trans hissuer
      exact authorized
  | _ => cases hissuer

/-- An issue through a capability touches neither the reserve asset nor tokens it has no right
to. -/
theorem LedgerStep.untouched (h : LedgerStep m event m') (hapart : m.IdsApart) {c : Nat}
    (hissuer : event.issuer? = some c) :
    (∀ a, m'.held a = m.held a) ∧ ∀ t < m.tokens.length, m.isAuthorized t c = false →
      m'.token t = m.token t ∧ ∀ a, m'.unitsOf t a = m.unitsOf t a := by
  cases h with
  | shuffle unissued =>
      rw [unissued] at hissuer
      cases hissuer
  | @issue _ c' _ _ l issuer authorized issues =>
      cases issuer.symm.trans hissuer
      have hexists := lt_of_authorized authorized
      refine ⟨fun a => ?_, fun t ht hbarred => ?_⟩
      · have hasset := (asset_of_issue issues (hapart.symbol _ hexists)).1 a
        unfold held
        rw [show (m.putTokenLedger _ l).symbol = m.symbol by rw [sameRecords_putTokenLedger]]
        exact hasset
      · have hne : t ≠ (m.capability c).token := by
          intro hsame
          rw [hsame, authorized] at hbarred
          cases hbarred
        refine ⟨?_, (units_of_issue hexists issues hne fun hshares hshares' hname => ?_).1⟩
        · rw [token_of_issue hexists issues, if_neg hne]
        · exact hne (hapart.tokens _ hexists t ht hshares hshares' hname).symm
  | _ => cases hissuer

/-- A capability without the right to a token does not get it back where the token lists nothing
new under its number. -/
theorem barred_of_live {t c : Nat} (hcapability : m'.capability c = m.capability c)
    (hlive : (m.capability c).number ∈ (m'.token t).live →
      (m.capability c).number ∈ (m.token t).live)
    (hbarred : m.isAuthorized t c = false) : m'.isAuthorized t c = false := by
  unfold isAuthorized at hbarred ⊢
  rw [hcapability]
  simp only [Bool.and_eq_false_iff, List.contains_eq_mem, decide_eq_false_iff_not] at hbarred ⊢
  exact hbarred.imp id (mt hlive)

/-- A capability that has no right to a token never gets it back. -/
theorem LedgerStep.barred (h : LedgerStep m event m')
    (hm : ∀ c < m.capabilities.length, (m.capability c).number = c + 1) {t c : Nat}
    (hc : c < m.capabilities.length) (hbarred : m.isAuthorized t c = false) :
    m'.isAuthorized t c = false := by
  cases h with
  | shuffle _ _ _ rights =>
      refine barred_of_live ?_ ?_ hbarred
      · rw [capability, rights.capabilities, capability]
      · rw [rights.live]
        exact id
  | credit => exact hbarred
  | issue _ authorized issues =>
      refine barred_of_live ?_ ?_ hbarred
      · rw [capability, sameRecords_putTokenLedger]
        rfl
      · rw [token_of_issue (lt_of_authorized authorized) issues]
        split
        · next hsame =>
            rw [hsame]
            exact id
        · exact id
  | revoke j number =>
      refine barred_of_live (m := m) rfl ?_ hbarred
      unfold token
      rw [getD_modify]
      split
      · exact List.mem_of_mem_filter
      · exact id
  | newToken name shared =>
      refine barred_of_live (m := m) rfl ?_ hbarred
      exact fun hlive => (m.live_withToken _ hlive).resolve_left List.not_mem_nil
  | newCapability j holder =>
      refine barred_of_live (m := m) (capability_concat _ _ hc) ?_ hbarred
      unfold token
      rw [getD_modify]
      split
      · -- The number that is added is one that no capability had.
        intro hlive
        refine (List.mem_append.mp hlive).resolve_right fun hnew => ?_
        have hnumber := List.mem_singleton.mp hnew
        rw [hm c hc] at hnumber
        omega
      · exact id

/-- Nothing is minted or burned through a capability that has no right to its token. -/
theorem refused_of_barred {e : Effect} {c : Nat} (hissuer : e.issuer? = some c)
    (hbarred : m.isAuthorized (m.capability c).token c = false) :
    ∃ err, apply e m = .error err m := by
  cases hdone : apply e m with
  | ok _ m' =>
      have hauthorized := (ledgerStep_apply hdone).authorized hissuer
      rw [hbarred] at hauthorized
      cases hauthorized
  | error err m' =>
      obtain ⟨-, rfl, -⟩ := (apply_ends e m).of_error hdone
      exact ⟨err, rfl⟩

end Steps

end Market

end CurveMarket
