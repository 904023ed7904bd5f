import CurveMarket.Argument
import CurveMarket.Ledger.BalanceTable

/-!
# Assets and tokens

The reserve asset moves between accounts and can be credited from outside. A model token is minted
and burned through capabilities only; a capability works while the token lists it as live.
-/

namespace CurveMarket

def requireAmount (amount : Option Int) : Except Error Int := do
  let a ← requireInt "amount" amount
  if a < 0 then throw (.negative "Amount" a)
  pure a

/-- Moves units of an asset or token between two accounts. -/
def transferUnits (asset : Text) (sender recipient : Option Text) (amount : Option Int) :
    Action BalanceTable Unit := do
  let s ← requireAccount "Invalid sender" sender
  let r ← requireAccount "Invalid recipient" recipient
  let a ← requireAmount amount
  BalanceTable.move asset s r a

def creditUnits (asset : Text) (account : Option Text) (amount : Option Int) :
    Action BalanceTable Unit := do
  let a ← requireAccount "Invalid account" account
  let n ← requireAmount amount
  BalanceTable.add ⟨a, asset⟩ n

/-- Units held by whatever was passed as an account; what is no text holds nothing. -/
def BalanceTable.held (t : BalanceTable) (asset : Text) : Option Text → Int
  | some account => t.get ⟨account, asset⟩
  | none => 0

structure Token where
  name : Text
  supply : Int := 0
  /-- Numbers of the capabilities that may mint and burn. -/
  live : List Nat := []
deriving DecidableEq, Inhabited

/-- A token with the table that holds its balances. -/
structure TokenLedger where
  token : Token
  table : BalanceTable
deriving DecidableEq

namespace TokenLedger

def onTable (a : Action BalanceTable Unit) : Action TokenLedger Unit :=
  Action.focus TokenLedger.table (fun l t => { l with table := t }) a

def changeSupply (change : Int) : Action TokenLedger Unit :=
  modify fun l => { l with token := { l.token with supply := l.token.supply + change } }

/-- Mints through a capability, where `authorized` tells whether it is the token's own and live. -/
def mint (authorized : Bool) (account : Option Text) (amount : Option Int) :
    Action TokenLedger Unit := do
  if !authorized then throw (.unauthorized "mint")
  let a ← requireAccount "Invalid recipient" account
  let n ← requireAmount amount
  let name := (← get).token.name
  onTable (BalanceTable.add ⟨a, name⟩ n)
  changeSupply n

def burn (authorized : Bool) (account : Option Text) (amount : Option Int) :
    Action TokenLedger Unit := do
  if !authorized then throw (.unauthorized "burn")
  let a ← requireAccount "Invalid account" account
  let n ← requireAmount amount
  let name := (← get).token.name
  onTable (BalanceTable.subtract ⟨a, name⟩ n)
  changeSupply (-n)

end TokenLedger

end CurveMarket
