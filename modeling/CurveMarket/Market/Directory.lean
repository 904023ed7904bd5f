import CurveMarket.Market.Effect

/-!
# Opening pools

A pool is opened from terms, when its clock starts now, or from a state that it takes over. A
directory opens pools for one treasury and finds them by model.
-/

namespace CurveMarket.Market

def resolve (name : Text) : Action Market Object := do
  match (← get).find? name with
  | some o => return o
  | none => throw (.noObject name)

def resolveCapability (name : Text) : Action Market Nat := do
  match ← resolve name with
  | .capability i => return i
  | _ => throw (.noObject name)

/-- The first state of a pool, from exactly one of terms and a state. -/
def firstState (now : Int) : Option Terms → Option PoolState → Except Error PoolState
  | some t, none => .ok { terms := t, buyOnlyUntil := now + t.buyOnlySeconds }
  | none, some s => .ok s
  | _, _ => .error .oneOfParametersOrState

def openPool (model : Option Text) (capability : Nat) (terms : Option Terms)
    (state : Option PoolState) (treasury account : Option Text) : Action Market Nat := do
  let some name := model | throw .modelMissing
  if name.isEmpty then throw .modelMissing
  let t ← requireAccount "Invalid treasury" treasury
  let m ← get
  let s ← firstState m.now terms state
  let own := match account with
    | some a => if a.isEmpty then Pool.defaultAccount name else a
    | none => Pool.defaultAccount name
  let pool : Pool := {
    model := name, treasury := t, account := own, capability, state := s
    supply := m.supplyOf capability, events := [] }
  modify fun m => { m with pools := m.pools ++ [pool] }
  return m.pools.length

/-- Opens a pool for a model that has none yet. -/
def createPool (directory : Nat) (model : Option Text) (capability : Nat) (terms : Option Terms)
    (state : Option PoolState) : Action Market Nat := do
  let name ← requireModel model
  let m ← get
  if m.hasPool directory model then throw (.poolExists name)
  let i ← openPool model capability terms state (m.directory directory).treasury none
  modify fun m => { m with
    directories := m.directories.modify directory fun d => { d with pools := d.pools ++ [(name, i)] } }
  return i

def lookUpPool (directory : Nat) (model : Option Text) : Action Market Nat := do
  let d := (← get).directory directory
  match model.bind fun name => d.pools.lookup name with
  | some i => return i
  | none => throw (.poolNotFound "Pool does not exist")

/-- The models with a pool, by code point. -/
def models (m : Market) (directory : Nat) : List Text :=
  ((m.directory directory).pools.map (·.1)).mergeSort Text.le

end CurveMarket.Market
