import CurveMarket.Market.State

/-!
# Effects and their undoing

A mutating call acts on the ledgers through effects only. It runs in a section of its instance,
which lets one call in at a time and keeps a journal of undo steps. If the call fails, the journal
is unwound from its newest step to its oldest before the error goes on to the caller. Most calls
follow a plan, made from the market as they find it.
-/

namespace CurveMarket

/-- A movement on the ledgers. Minting and burning name the capability they go through. -/
inductive Effect where
  | transfer (sender recipient : Option Text) (amount : Option Int)
  | mint (capability : Nat) (account : Option Text) (amount : Option Int)
  | burn (capability : Nat) (account : Option Text) (amount : Option Int)
deriving DecidableEq

namespace Effect

def target : Effect → CallbackTarget
  | transfer _ _ _ => .asset
  | mint c _ _ => .capability c
  | burn c _ _ => .capability c

def inverse : Effect → Effect
  | transfer sender recipient amount => .transfer recipient sender amount
  | mint c account amount => .burn c account amount
  | burn c account amount => .mint c account amount

end Effect

namespace Market

def apply : Effect → Action Market Unit
  | .transfer sender recipient amount => do
    let symbol := (← get).symbol
    Action.focus Market.table (fun m t => { m with table := t })
      (transferUnits symbol sender recipient amount)
  | .mint c account amount => do
    let m ← get
    let token := (m.capability c).token
    Action.focus (·.tokenLedger token) (putTokenLedger token)
      (TokenLedger.mint (m.isAuthorized token c) account amount)
  | .burn c account amount => do
    let m ← get
    let token := (m.capability c).token
    Action.focus (·.tokenLedger token) (putTokenLedger token)
      (TokenLedger.burn (m.isAuthorized token c) account amount)

end Market

/-- A way to carry out effects: on the ledgers alone, or with the callbacks that wait for them. -/
abbrev Executor := Effect → Action Market Unit

abbrev UndoStep := Action Market Unit

/-- An action with a journal of undo steps, newest first. -/
abbrev Journaled (α : Type) := Action (Market × List UndoStep) α

namespace Journaled

def lift {α : Type} (a : Action Market α) : Journaled α :=
  Action.focus Prod.fst (fun s m => (m, s.2)) a

instance : MonadLift (EStateM Error Market) (EStateM Error (Market × List UndoStep)) := ⟨lift⟩

def market : Journaled Market := do return (← get).1

def change (f : Market → Market) : Journaled Unit := modify fun s => (f s.1, s.2)

def record (undo : UndoStep) : Journaled Unit := modify fun s => (s.1, undo :: s.2)

def perform (run : Executor) (e : Effect) : Journaled Unit := do
  lift (run e)
  record (run e.inverse)

def performAll (run : Executor) : List Effect → Journaled Unit
  | [] => pure ()
  | e :: rest => do
    perform run e
    performAll run rest

end Journaled

/-- Moves an amount of the reserve asset. Nothing is moved, and nothing recorded, for zero. -/
def Effect.moves (sender recipient : Option Text) (amount : Int) : List Effect :=
  if amount = 0 then [] else [.transfer sender recipient (some amount)]

/-- What a call does once its checks have passed: effects in order, and then a last step that
changes the market at once or not at all. -/
structure Plan (α : Type) where
  effects : List Effect
  finish : Action Market Unit
  result : α

def Journaled.follow {α : Type} (run : Executor) (plan : Market → Except Error (Plan α)) :
    Journaled α := do
  let p ← plan (← Journaled.market)
  Journaled.performAll run p.effects
  Journaled.lift p.finish
  return p.result

def unwind : List UndoStep → Action Market Unit
  | [] => pure ()
  | undo :: rest => do
    undo
    unwind rest

namespace Journaled

/-- Takes steps off the journal in the order in which they are listed, and runs each. -/
def takeOff : List UndoStep → Journaled Unit
  | [] => pure ()
  | undo :: rest => do
    modify fun s => (s.1, rest)
    lift undo
    takeOff rest

/-- Runs undo steps until one fails, with what is left of the journal. -/
def rollback : Journaled Unit := do takeOff (← get).2

end Journaled

namespace Market

def enter (s : Section) (m : Market) : Market := { m with entered := s :: m.entered }

def leave (s : Section) (m : Market) : Market := { m with entered := m.entered.filter (· ≠ s) }

end Market

/-- Runs a call in the section of its instance. A failure unwinds the journal; if an undo step fails
too, its error takes the place of the first. The section is left in any case. -/
def guarded {α : Type} (s : Section) (owner : Text) (action : Text) (body : Journaled α) :
    Action Market α := fun m =>
  if s ∈ m.entered then .error (.reentrant action owner) m
  else
    match body (m.enter s, []) with
    | .ok a (m', _) => .ok a (m'.leave s)
    | .error e (m', journal) =>
      match unwind journal m' with
      | .ok _ m'' => .error e (m''.leave s)
      | .error e' m'' => .error e' (m''.leave s)

end CurveMarket
