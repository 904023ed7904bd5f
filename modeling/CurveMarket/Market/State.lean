import CurveMarket.Ledger.Asset
import CurveMarket.Market.Reply
import CurveMarket.Market.Request
import CurveMarket.Revenue.Governance

/-!
# Markets

A market holds one reserve asset, the tokens with their capabilities, the pools, the objects of the
revenue layer and a clock. Objects are referred to by their index, and clients find them by name.
Callbacks wait for an effect on the asset or on a capability.
-/

namespace CurveMarket

structure SideAsset where
  symbol : Text
  table : BalanceTable
deriving DecidableEq, Inhabited

/-- A token with a table of its own, or with its rows in the table of the reserve asset. -/
structure TokenEntry where
  token : Token
  ownTable : Option BalanceTable
deriving DecidableEq, Inhabited

structure Capability where
  token : Nat
  number : Nat
  holder : Value
deriving Inhabited

structure Directory where
  treasury : Option Text
  pools : List (Text × Nat)
deriving DecidableEq, Inhabited

inductive CallbackTarget where
  | asset
  | capability (i : Nat)
deriving DecidableEq

/-- Steps that run once, at the first effect after `skip` others. -/
structure Callback where
  steps : List Request
  moment : Moment
  skip : Nat
  propagate : Bool

/-- An instance that lets one mutating call in at a time. -/
inductive Section where
  | pool (i : Nat)
  | reserve (i : Nat)
  | splitter (i : Nat)
  | loose
deriving DecidableEq

inductive Object where
  | market
  | asset
  | table
  | sideAsset (i : Nat)
  | token (i : Nat)
  | capability (i : Nat)
  | pool (i : Nat)
  | directory (i : Nat)
  | governance (i : Nat)
  | reserve (i : Nat)
  | splitter (i : Nat)
deriving DecidableEq

/-- A request that was answered, with what its target stood for when it was made. -/
structure Exchange where
  request : Request
  object : Option Object
  answer : Answer

structure Market where
  now : Int
  /-- Name of the reserve asset. -/
  symbol : Text
  /-- Balances of the reserve asset, and of the tokens that share its table. -/
  table : BalanceTable := .empty
  sideAssets : List SideAsset := []
  tokens : List TokenEntry := []
  capabilities : List Capability := []
  pools : List Pool := []
  directories : List Directory := []
  governances : List Governance := []
  reserves : List InfraReserve := []
  splitters : List Splitter := []
  names : List (Text × Object) := []
  /-- Instances with a mutating call in progress. -/
  entered : List Section := []
  callbacks : List (CallbackTarget × Callback) := []
  /-- Requests that were answered, carried ones included, in the order they ended. -/
  heard : List Exchange := []

namespace Market

/-- A market in which nothing but its reserve asset exists. -/
def make (symbol : Option Text) (now : Int) : Except Error Market :=
  match symbol with
  | some s =>
    if s.isEmpty then .error .symbolMissing
    else .ok { now, symbol := s, names := [("world", .market), ("asset", .asset), ("table", .table)] }
  | none => .error .symbolMissing

def pool (m : Market) (i : Nat) : Pool := m.pools.getD i default

def token (m : Market) (i : Nat) : Token := (m.tokens.getD i default).token

def capability (m : Market) (i : Nat) : Capability := m.capabilities.getD i default

def directory (m : Market) (i : Nat) : Directory := m.directories.getD i default

def governance (m : Market) (i : Nat) : Governance := m.governances.getD i default

def reserve (m : Market) (i : Nat) : InfraReserve := m.reserves.getD i default

def splitter (m : Market) (i : Nat) : Splitter := m.splitters.getD i default

def sideAsset (m : Market) (i : Nat) : SideAsset := m.sideAssets.getD i default

def updatePool (i : Nat) (f : Pool → Pool) (m : Market) : Market :=
  { m with pools := m.pools.modify i f }

def updateReserve (i : Nat) (f : InfraReserve → InfraReserve) (m : Market) : Market :=
  { m with reserves := m.reserves.modify i f }

def updateSplitter (i : Nat) (f : Splitter → Splitter) (m : Market) : Market :=
  { m with splitters := m.splitters.modify i f }

/-- The reserve asset that an account holds. -/
def held (m : Market) (account : Text) : Int := m.table.get ⟨account, m.symbol⟩

def tokenLedger (m : Market) (i : Nat) : TokenLedger :=
  let entry := m.tokens.getD i default
  ⟨entry.token, entry.ownTable.getD m.table⟩

def putTokenLedger (i : Nat) (m : Market) (l : TokenLedger) : Market :=
  match (m.tokens.getD i default).ownTable with
  | some _ => { m with tokens := m.tokens.set i ⟨l.token, some l.table⟩ }
  | none => { m with tokens := m.tokens.set i ⟨l.token, none⟩, table := l.table }

def isAuthorized (m : Market) (token capability : Nat) : Bool :=
  let c := m.capability capability
  c.token == token && (m.token token).live.contains c.number

def supplyOf (m : Market) (capability : Nat) : Int := (m.token (m.capability capability).token).supply

def tokenBalance (m : Market) (capability : Nat) (account : Option Text) : Int :=
  let l := m.tokenLedger (m.capability capability).token
  l.table.held l.token.name account

def hasPool (m : Market) (directory : Nat) : Option Text → Bool
  | some model => ((m.directory directory).pools.lookup model).isSome
  | none => false

/-- What the pool's account holds beyond the reserve that the pool accounts for. -/
def surplus (m : Market) (i : Nat) : Int :=
  max (m.held (m.pool i).account - (m.pool i).state.reserve) 0

def find? (m : Market) (name : Text) : Option Object := m.names.lookup name

def exchange (m : Market) (r : Request) (answer : Answer) : Exchange :=
  ⟨r, m.find? r.target, answer⟩

def note (x : Exchange) (m : Market) : Market := { m with heard := m.heard ++ [x] }

def putName (name : Text) (o : Object) : List (Text × Object) → List (Text × Object)
  | [] => [(name, o)]
  | n :: rest => if n.1 = name then (name, o) :: rest else n :: putName name o rest

end Market

end CurveMarket
