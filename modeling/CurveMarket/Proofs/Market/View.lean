import Mathlib.Data.List.GetD
import CurveMarket.Market.Effect
import CurveMarket.Proofs.Ledger.Balance

/-! # Views of a market

A view is what can be told apart about a market. Tables and tallies are seen through their figures,
so neither the order of their rows nor a row of zero shows, and what callbacks were answered does
not show either. Two markets with one view answer alike.
-/

namespace CurveMarket

/-- A token with its own balances, or with balances among those of the reserve asset. -/
structure TokenView where
  token : Token
  own : Option (RowKey → Int)

def TokenEntry.view (e : TokenEntry) : TokenView := ⟨e.token, e.ownTable.map BalanceTable.get⟩

instance : Inhabited TokenView := ⟨(default : TokenEntry).view⟩

structure ReserveView where
  account : Text
  treasury : Text
  directory : Nat
  paused : Bool
  accrued : Text → Int
  paid : Text → Int
  providers : List (Text × Text)
  totalAccrued : Int
  totalPaid : Int

def InfraReserve.view (r : InfraReserve) : ReserveView :=
  ⟨r.account, r.treasury, r.directory, r.paused, r.accrued.get, r.paid.get, r.providers,
    r.totalAccrued, r.totalPaid⟩

instance : Inhabited ReserveView := ⟨(default : InfraReserve).view⟩

structure MarketView where
  now : Int
  symbol : Text
  balances : RowKey → Int
  sideAssets : List SideAsset
  tokens : List TokenView
  capabilities : List Capability
  pools : List Pool
  directories : List Directory
  governances : List Governance
  reserves : List ReserveView
  splitters : List Splitter
  names : List (Text × Object)
  entered : List Section
  callbacks : List (CallbackTarget × Callback)

def Market.view (m : Market) : MarketView where
  now := m.now
  symbol := m.symbol
  balances := m.table.get
  sideAssets := m.sideAssets
  tokens := m.tokens.map TokenEntry.view
  capabilities := m.capabilities
  pools := m.pools
  directories := m.directories
  governances := m.governances
  reserves := m.reserves.map InfraReserve.view
  splitters := m.splitters
  names := m.names
  entered := m.entered
  callbacks := m.callbacks

namespace MarketView

def pool (v : MarketView) (i : Nat) : Pool := v.pools.getD i default

def capability (v : MarketView) (c : Nat) : Capability := v.capabilities.getD c default

def directory (d : Nat) (v : MarketView) : Directory := v.directories.getD d default

def reserve (v : MarketView) (i : Nat) : ReserveView := v.reserves.getD i default

def splitter (v : MarketView) (i : Nat) : Splitter := v.splitters.getD i default

def token (v : MarketView) (t : Nat) : TokenView := v.tokens.getD t default

/-- The amounts among which those of a token are. -/
def tokenAmounts (v : MarketView) (t : Nat) : RowKey → Int := (v.token t).own.getD v.balances

def held (v : MarketView) (account : Text) : Int := v.balances ⟨account, v.symbol⟩

def supplyOf (v : MarketView) (c : Nat) : Int := (v.token (v.capability c).token).token.supply

def isAuthorized (v : MarketView) (t c : Nat) : Bool :=
  (v.capability c).token == t && (v.token t).token.live.contains (v.capability c).number

def afterPay (payer payee : Text) (amount : Int) (v : MarketView) : MarketView :=
  { v with balances := transferred v.balances ⟨payer, v.symbol⟩ ⟨payee, v.symbol⟩ amount }

/-- A token after its supply and one balance have changed by the same amount. -/
def afterIssue (t : Nat) (account : Text) (change : Int) (v : MarketView) : MarketView :=
  let token := (v.token t).token
  let issued := { token with supply := token.supply + change }
  match (v.token t).own with
  | some amounts =>
      { v with
        tokens := v.tokens.set t ⟨issued, some (shift amounts ⟨account, token.name⟩ change)⟩ }
  | none =>
      { v with
        tokens := v.tokens.set t ⟨issued, none⟩
        balances := shift v.balances ⟨account, token.name⟩ change }

def updatePool (i : Nat) (f : Pool → Pool) (v : MarketView) : MarketView :=
  { v with pools := v.pools.modify i f }

def updateReserve (i : Nat) (f : ReserveView → ReserveView) (v : MarketView) : MarketView :=
  { v with reserves := v.reserves.modify i f }

end MarketView

theorem map_modify {α β : Type} {view : α → β} {f : α → α} {g : β → β}
    (h : ∀ x, view (f x) = g (view x)) (i : Nat) (l : List α) :
    (l.modify i f).map view = (l.map view).modify i g := by
  induction l generalizing i with
  | nil => simp
  | cons x rest ih =>
      cases i with
      | zero => simp [h]
      | succ i => simp [ih]

theorem modify_of_fixed {α : Type} [Inhabited α] {f : α → α} {l : List α} {i : Nat}
    (h : f (l.getD i default) = l.getD i default) : l.modify i f = l := by
  refine List.ext_getElem? fun j => ?_
  rw [List.getElem?_modify]
  by_cases hj : i = j
  · subst hj
    rw [List.getD_eq_getElem?_getD] at h
    cases hentry : l[i]? with
    | none => simp
    | some x =>
        rw [hentry] at h
        simpa using h
  · simp [hj]

/-- What a change keeps of every entry stays in its place. -/
theorem getD_modify_of_keeps {α β : Type} [Inhabited α] {f : α → α} {g : α → β}
    (h : ∀ x, g (f x) = g x) (l : List α) (i j : Nat) :
    g ((l.modify i f).getD j default) = g (l.getD j default) := by
  rw [List.getD_eq_getElem?_getD, List.getD_eq_getElem?_getD, List.getElem?_modify]
  cases l[j]? with
  | none => rfl
  | some x =>
      by_cases hj : i = j
      · simp [hj, h]
      · simp [hj]

theorem getD_set {α : Type} [Inhabited α] (l : List α) (i j : Nat) (x : α) :
    (l.set i x).getD j default = if j = i ∧ i < l.length then x else l.getD j default := by
  rw [List.getD_eq_getElem?_getD, List.getElem?_set]
  by_cases hj : i = j
  · subst hj
    by_cases hi : i < l.length
    · simp [hi]
    · simp [hi]
  · simp [hj, Ne.symm hj, List.getD_eq_getElem?_getD]

theorem getD_modify {α : Type} [Inhabited α] (l : List α) (i j : Nat) (f : α → α) :
    (l.modify i f).getD j default =
      if j = i ∧ j < l.length then f (l.getD j default) else l.getD j default := by
  rw [List.getD_eq_getElem?_getD, List.getD_eq_getElem?_getD, List.getElem?_modify]
  rcases Nat.lt_or_ge j l.length with hlt | hout
  · by_cases hj : i = j
    · simp [hj, hlt]
    · simp [hj, Ne.symm hj]
  · simp [Nat.not_lt.mpr hout]

theorem getD_of_getElem? {α : Type} [Inhabited α] {l : List α} {i : Nat} {x : α}
    (h : l[i]? = some x) : l.getD i default = x := by
  rw [List.getD_eq_getElem?_getD, h]
  rfl

/-- What is not true of the default is true of entries only. -/
theorem lt_length_of_getD {α : Type} [Inhabited α] (P : α → Prop) {l : List α} {j : Nat}
    (h : P (l.getD j default)) (hdefault : ¬ P default) : j < l.length := by
  rcases Nat.lt_or_ge j l.length with hlt | hout
  · exact hlt
  · rw [List.getD_eq_default _ _ hout] at h
    exact absurd h hdefault

namespace Market

theorem view_pool (m : Market) (i : Nat) : m.view.pool i = m.pool i := rfl

theorem view_held (m : Market) (account : Text) : m.view.held account = m.held account := rfl

theorem view_reserve (m : Market) (i : Nat) : m.view.reserve i = (m.reserve i).view :=
  List.getD_map _ _ InfraReserve.view

theorem view_token (m : Market) (t : Nat) : m.view.token t = (m.tokens.getD t default).view :=
  List.getD_map _ _ TokenEntry.view

theorem view_supplyOf (m : Market) (c : Nat) : m.view.supplyOf c = m.supplyOf c := by
  unfold MarketView.supplyOf
  rw [view_token]
  rfl

theorem view_isAuthorized (m : Market) (t c : Nat) :
    m.view.isAuthorized t c = m.isAuthorized t c := by
  unfold MarketView.isAuthorized
  rw [view_token]
  rfl

theorem view_tokenAmounts (m : Market) (t : Nat) :
    m.view.tokenAmounts t = (m.tokenLedger t).table.get := by
  unfold MarketView.tokenAmounts tokenLedger
  rw [view_token]
  obtain ⟨token, ownTable⟩ := m.tokens.getD t default
  cases ownTable with
  | none => rfl
  | some table => rfl

theorem view_updateReserve (m : Market) (i : Nat) {f : InfraReserve → InfraReserve}
    {g : ReserveView → ReserveView} (h : ∀ r, (f r).view = g r.view) :
    (m.updateReserve i f).view = m.view.updateReserve i g := by
  unfold updateReserve MarketView.updateReserve view
  simp only [MarketView.mk.injEq, true_and, and_true]
  exact map_modify h i m.reserves

end Market

end CurveMarket
