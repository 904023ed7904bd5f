import CurveMarket.Market.Service

/-!
# Callbacks

A callback waits for an effect on the asset or on a capability and then runs its steps from inside
the call that caused the effect. It is disarmed before its first step, so it runs once.

A request carries finitely many others, and each of them runs at most once. Their number, with that
of the steps that wait in the market, bounds how deep requests nest; it is the depth that `submit`
allows, and what would lie deeper is refused.
-/

namespace CurveMarket.Market

/-- How carried requests are run. -/
abbrev Nested := Request → Action Market Reply

def hear (call : Nested) (r : Request) : Action Market Answer := fun m =>
  match call r m with
  | .ok reply m' => .ok (.ok reply) (m'.note (m.exchange r (.ok reply)))
  | .error e m' => .ok (.error e) (m'.note (m.exchange r (.error e)))

/-- Runs steps in order; the first error stops them if errors propagate. -/
def runSteps (call : Nested) (propagate : Bool) : List Request → Action Market Unit
  | [] => pure ()
  | r :: rest => do
    match ← hear call r with
    | .error e => if propagate then throw e
    | .ok _ => pure ()
    runSteps call propagate rest

/-- The callback that an effect on a target sets off, which is disarmed; one that has effects to
skip counts this one. -/
def takeCallback (target : CallbackTarget) : Action Market (Option Callback) := fun m =>
  match m.callbacks.lookup target with
  | none => .ok none m
  | some c =>
    let others := m.callbacks.filter fun x => x.1 ≠ target
    if c.skip = 0 then .ok (some c) { m with callbacks := others }
    else .ok none { m with callbacks := others ++ [(target, { c with skip := c.skip - 1 })] }

def withCallbacks (call : Nested) : Executor := fun e => do
  match ← takeCallback e.target with
  | none => apply e
  | some c =>
    match c.moment with
    | .before => do
      runSteps call c.propagate c.steps
      apply e
    | .after => do
      apply e
      runSteps call c.propagate c.steps

def arm (target : CallbackTarget) (c : Callback) : Action Market Unit :=
  modify fun m => { m with
    callbacks := (m.callbacks.filter fun x => x.1 ≠ target) ++ [(target, c)] }

def resolveTarget (name : Text) : Action Market CallbackTarget := do
  match ← resolve name with
  | .asset => return .asset
  | .capability i => return .capability i
  | _ => throw (.noObject name)

def journalEntries (call : Nested) : List JournalEntry → Journaled Unit
  | [] => pure ()
  | e :: rest => do
    let run := withCallbacks call
    match e with
    | .transfer sender recipient amount =>
      if amount.equalsInt 0 then pure ()
      else Journaled.perform run (.transfer sender recipient amount.int?)
    | .mint capability account amount => do
      let c ← resolveCapability capability
      Journaled.perform run (.mint c account amount)
    | .burn capability account amount => do
      let c ← resolveCapability capability
      Journaled.perform run (.burn c account amount)
    | .record step => Journaled.record do let _ ← hear call step
    journalEntries call rest

/-- A journal outside any section: a failing effect leaves it as it is. -/
def runJournal (call : Nested) (entries : List JournalEntry) (rollback : Bool) :
    Action Market Reply := fun m =>
  match journalEntries call entries (m, []) with
  | .error e (m', _) => .error e m'
  | .ok _ (m', journal) =>
    if rollback then
      match unwind journal m' with
      | .ok _ m'' => .ok (.lengths journal.length 0) m''
      | .error e m'' => .error e m''
    else .ok (.lengths journal.length journal.length) m'

def runGuarded (owner action : Text) (inner : Option Text) : Action Market Reply := do
  let isActive (m : Market) : SectionNote := .active (m.entered.contains .loose)
  let before := isActive (← get)
  let body : Journaled SectionNote := do
    let inside := isActive (← Journaled.market)
    Journaled.record (pure ())
    match inner with
    | some again => Journaled.lift (guarded .loose owner again (pure ()))
    | none => pure ()
    return inside
  try
    let inside ← guarded .loose owner action body
    return .notes [before, inside, .journalLength 0, isActive (← get)]
  catch e =>
    return .notes [before, .active true, .journalLength 0, .undone, .refused e, isActive (← get)]

def push {α : Type} (items : List α) (put : List α → Market → Market) (item : α) :
    Action Market Nat := do
  modify (put (items ++ [item]))
  return items.length

def serveMarket (call : Nested) : Operation → Action Market Served
  | .setNow now => do
    modify fun m => { m with now := now }
    return Reply.nothing
  | .tick seconds => do
    modify fun m => { m with now := m.now + seconds }
    return Reply.nothing
  | .newAsset symbol => do
    let some s := symbol | throw .symbolMissing
    if s.isEmpty then throw .symbolMissing
    let i ← push (← get).sideAssets (fun l m => { m with sideAssets := l }) ⟨s, .empty⟩
    return { reply := .nothing, object := some (.sideAsset i) }
  | .newToken id shared => do
    let some t := id | throw .tokenNameMissing
    if t.isEmpty then throw .tokenNameMissing
    let entry : TokenEntry := ⟨{ name := t }, if shared then none else some .empty⟩
    let i ← push (← get).tokens (fun l m => { m with tokens := l }) entry
    return { reply := .nothing, object := some (.token i) }
  | .newCapability token holder => do
    let .token t ← resolve token | throw (.noObject token)
    let m ← get
    let number := m.capabilities.length + 1
    let i ← push m.capabilities (fun l m => { m with capabilities := l }) ⟨t, number, holder⟩
    modify fun m => { m with tokens := m.tokens.modify t fun e =>
      { e with token := { e.token with live := e.token.live ++ [number] } } }
    return { reply := .nothing, object := some (.capability i) }
  | .newPool request treasury account => do
    let c ← resolveCapability request.capability
    servedPool (← openPool request.model c request.terms request.state treasury account)
  | .newDirectory treasury => do
    let i ← push (← get).directories (fun l m => { m with directories := l }) ⟨treasury, []⟩
    return { reply := .nothing, object := some (.directory i) }
  | .newGovernance rate overrides => do
    let g ← Governance.make rate overrides
    let i ← push (← get).governances (fun l m => { m with governances := l }) g
    return { reply := .nothing, object := some (.governance i) }
  | .newReserve treasury account => do
    let .directory d ← resolve "registry" | throw (.noObject "registry")
    let t ← requireAccount "Invalid treasury" treasury
    let a ← requireAccount "Invalid account" account
    let reserve : InfraReserve := { account := a, treasury := t, directory := d }
    let i ← push (← get).reserves (fun l m => { m with reserves := l }) reserve
    return { reply := .nothing, object := some (.reserve i) }
  | .newSplitter => do
    let .directory d ← resolve "registry" | throw (.noObject "registry")
    let .reserve r ← resolve "infra" | throw (.noObject "infra")
    let .governance g ← resolve "gov" | throw (.noObject "gov")
    let splitter : Splitter := { directory := d, reserve := r, governance := g }
    let i ← push (← get).splitters (fun l m => { m with splitters := l }) splitter
    return { reply := .nothing, object := some (.splitter i) }
  | .armCallback target steps moment skip propagate => do
    arm (← resolveTarget target) ⟨steps, moment, skip, propagate⟩
    return Reply.nothing
  | .runJournal entries rollback => do
    let reply ← runJournal call entries rollback
    return reply
  | .runGuarded owner action inner => do
    let reply ← runGuarded owner action inner
    return reply
  | _ => misdirected "world"

def serveOn (call : Nested) (target : Text) (o : Object) : Operation → Action Market Served
  | .malformed e => throw e
  | operation =>
    match o with
    | .market => serveMarket call operation
    | o => serveObject (withCallbacks call) target o operation

/-- Gives the object of a request the name asked for. A named request has no reply. -/
def nameObject (name : Option Text) (served : Served) : Action Market Reply :=
  match name with
  | none => return served.reply
  | some n => do
    if let some object := served.object then
      modify fun m => { m with names := putName n object m.names }
    return .nothing

def serve (call : Nested) : Request → Action Market Reply
  | .mk target operation name => do
    let o ← resolve target
    let served ← serveOn call target o operation
    nameObject name served

def serveWithin : Nat → Request → Action Market Reply
  | 0 => serve fun r => throw (.noObject r.target)
  | depth + 1 => serve (serveWithin depth)

/-- Steps that wait in callbacks, with the requests that they carry. -/
def waiting (m : Market) : Nat :=
  (m.callbacks.map fun c => carriedSteps c.2.steps).foldr (· + ·) 0

/-- Submits a request; returns its answer, the answers of the requests run from inside it and the
market after it. -/
def submit (m : Market) (r : Request) : Answer × List Answer × Market :=
  let depth := m.waiting + r.carried
  let inside (m' : Market) : List Answer := (m'.heard.drop m.heard.length).map (·.answer)
  match serveWithin depth r m with
  | .ok reply m' => (.ok reply, inside m', m'.note (m.exchange r (.ok reply)))
  | .error e m' => (.error e, inside m', m'.note (m.exchange r (.error e)))

end CurveMarket.Market
