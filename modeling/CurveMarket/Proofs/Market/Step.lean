import Mathlib.Algebra.BigOperators.Group.Finset.Defs
import CurveMarket.Market.Callback
import CurveMarket.Proofs.Market.Effect

/-! # Steps of a market

Whatever is asked of a market, and whatever runs inside the calls, the market changes in small
steps. A step says all that it can do: a ledger moves in one way, or the market's other records
change and keep their places and their roles. A run is a list of transitions, one for each step.
-/

namespace CurveMarket

open CurveMarket.Action Market

/-! ## What is asked -/

mutual

/-- The operation of a request, with those of the requests that it carries at any depth. -/
def Request.operations : Request → List Operation
  | .mk _ operation _ => operation :: operation.carriedOperations

def Operation.carriedOperations : Operation → List Operation
  | .armCallback _ steps _ _ _ => stepsOperations steps
  | .runJournal effects _ => entriesOperations effects
  | _ => []

def stepsOperations : List Request → List Operation
  | [] => []
  | r :: rest => r.operations ++ stepsOperations rest

def entriesOperations : List JournalEntry → List Operation
  | [] => []
  | e :: rest => e.operations ++ entriesOperations rest

def JournalEntry.operations : JournalEntry → List Operation
  | .record step => step.operations
  | _ => []

end

/-- The request asks for nothing else, and neither does what it carries. -/
def Request.Within (asked : Operation → Prop) (r : Request) : Prop := ∀ op ∈ r.operations, asked op

section Within

variable {asked : Operation → Prop} {target : Text} {name : Option Text}

theorem Request.Within.operation {r : Request} (h : r.Within asked) : asked r.operation := by
  obtain ⟨_, op, _⟩ := r
  unfold Request.Within Request.operations at h
  exact h op List.mem_cons_self

theorem mem_stepsOperations {op : Operation} {steps : List Request} :
    op ∈ stepsOperations steps ↔ ∃ r ∈ steps, op ∈ r.operations := by
  induction steps with
  | nil => simp [stepsOperations]
  | cons r rest ih => simp [stepsOperations, ih]

theorem mem_entriesOperations {op : Operation} {entries : List JournalEntry} :
    op ∈ entriesOperations entries ↔ ∃ e ∈ entries, op ∈ e.operations := by
  induction entries with
  | nil => simp [entriesOperations]
  | cons e rest ih => simp [entriesOperations, ih]

theorem Request.Within.steps {waitsFor : Text} {steps : List Request} {moment : Moment} {skip : Nat}
    {propagate : Bool}
    (h : (Request.mk target (.armCallback waitsFor steps moment skip propagate) name).Within
      asked) :
    ∀ r ∈ steps, r.Within asked := by
  intro r hr op hop
  refine h op ?_
  rw [Request.operations, Operation.carriedOperations]
  exact List.mem_cons_of_mem _ (mem_stepsOperations.mpr ⟨r, hr, hop⟩)

theorem Request.Within.entries {entries : List JournalEntry} {rollback : Bool}
    (h : (Request.mk target (.runJournal entries rollback) name).Within asked) :
    ∀ step, .record step ∈ entries → step.Within asked := by
  intro step hstep op hop
  refine h op ?_
  rw [Request.operations, Operation.carriedOperations]
  refine List.mem_cons_of_mem _ (mem_entriesOperations.mpr ⟨_, hstep, ?_⟩)
  rw [JournalEntry.operations]
  exact hop

end Within

/-! ## Records that stay in their places -/

/-- Every entry of the first list is in its place in the second one, changed as `R` allows. -/
def Kept {α : Type} (R : α → α → Prop) (l l' : List α) : Prop :=
  ∀ (i : Nat) (x : α), l[i]? = some x → ∃ x', l'[i]? = some x' ∧ R x x'

namespace Kept

variable {α : Type} {R : α → α → Prop} {l l' l'' : List α}

theorem refl (hR : ∀ x, R x x) (l : List α) : Kept R l l := fun _ x hx => ⟨x, hx, hR x⟩

theorem trans (hR : ∀ x y z, R x y → R y z → R x z) (h : Kept R l l') (h' : Kept R l' l'') :
    Kept R l l'' := by
  intro i x hx
  obtain ⟨y, hy, hxy⟩ := h i x hx
  obtain ⟨z, hz, hyz⟩ := h' i y hy
  exact ⟨z, hz, hR x y z hxy hyz⟩

theorem append (hR : ∀ x, R x x) (l rest : List α) : Kept R l (l ++ rest) := by
  intro i x hx
  refine ⟨x, ?_, hR x⟩
  rw [List.getElem?_append_left (List.getElem?_eq_some_iff.mp hx).1]
  exact hx

theorem modify (hR : ∀ x, R x x) {f : α → α} (hf : ∀ x, R x (f x)) (i : Nat) (l : List α) :
    Kept R l (l.modify i f) := by
  intro j x hx
  rw [List.getElem?_modify, hx]
  by_cases h : i = j
  · exact ⟨f x, by simp [h], hf x⟩
  · exact ⟨x, by simp [h], hR x⟩

end Kept

structure Pool.SameRole (p p' : Pool) : Prop where
  model : p'.model = p.model
  account : p'.account = p.account
  capability : p'.capability = p.capability

/-- A directory and what it became; pools are only added. -/
structure Directory.GrowsTo (d d' : Directory) : Prop where
  treasury : d'.treasury = d.treasury
  pools : d.pools <+: d'.pools

structure InfraReserve.SameRole (r r' : InfraReserve) : Prop where
  account : r'.account = r.account
  directory : r'.directory = r.directory

structure Splitter.SameRole (s s' : Splitter) : Prop where
  directory : s'.directory = s.directory
  reserve : s'.reserve = s.reserve
  governance : s'.governance = s.governance

theorem Pool.SameRole.refl (p : Pool) : p.SameRole p := ⟨rfl, rfl, rfl⟩

theorem Directory.GrowsTo.refl (d : Directory) : d.GrowsTo d := ⟨rfl, List.prefix_rfl⟩

theorem InfraReserve.SameRole.refl (r : InfraReserve) : r.SameRole r := ⟨rfl, rfl⟩

theorem Splitter.SameRole.refl (s : Splitter) : s.SameRole s := ⟨rfl, rfl, rfl⟩

/-- A splitter's total is the sum of the figures of all models. -/
def Splitter.Adds (s : Splitter) : Prop :=
  ∃ models : Finset Text, (∀ x ∉ models, s.fees.get x = 0) ∧ s.total = ∑ x ∈ models, s.fees.get x

/-! ## Accepted credits -/

/-- The credit of the reserve asset that an operation on an object is. -/
def Object.credit? : Object → Operation → Option (Option Text × Option Int)
  | .asset, .asset (.credit account amount) => some (account, amount)
  | _, _ => none

theorem Object.credit?_eq_some {o : Object} {op : Operation} {c : Option Text × Option Int} :
    o.credit? op = some c ↔ o = .asset ∧ op = .asset (.credit c.1 c.2) := by
  constructor
  · intro h
    unfold Object.credit? at h
    split at h
    · cases h
      exact ⟨rfl, rfl⟩
    · cases h
  · rintro ⟨rfl, rfl⟩
    rfl

def Exchange.credit? (x : Exchange) : Option (Option Text × Option Int) :=
  match x.answer with
  | .ok _ => x.object.bind fun o => o.credit? x.request.operation
  | .error _ => none

namespace Market

/-! ## Sound markets -/

def Tallied (splitters : List Splitter) : Prop := ∀ s ∈ splitters, s.Adds

/-- Directories list pools under their own models, each with the account that goes with it. -/
def Registered (pools : List Pool) (directories : List Directory) : Prop :=
  ∀ d ∈ directories, ∀ e ∈ d.pools,
    ∃ p, pools[e.2]? = some p ∧ p.model = e.1 ∧ p.account = Pool.defaultAccount e.1

/-- What waits in callbacks asks for nothing else. -/
def Waits (asked : Operation → Prop) (callbacks : List (CallbackTarget × Callback)) : Prop :=
  ∀ c ∈ callbacks, ∀ r ∈ c.2.steps, r.Within asked

/-- What holds of a market between any two steps. -/
structure Sound (asked : Operation → Prop) (m : Market) : Prop where
  tallied : Tallied m.splitters
  registered : Registered m.pools m.directories
  waits : Waits asked m.callbacks

theorem Registered.kept {pools pools' : List Pool} {directories : List Directory}
    (h : Registered pools directories) (hpools : Kept Pool.SameRole pools pools') :
    Registered pools' directories := by
  intro d hd e he
  obtain ⟨p, hp, hmodel, haccount⟩ := h d hd e he
  obtain ⟨p', hp', hrole⟩ := hpools e.2 p hp
  exact ⟨p', hp', hrole.model.trans hmodel, hrole.account.trans haccount⟩

/-! ## Steps -/

/-- What a step does to the ledgers, as far as amounts are made or taken away by it. -/
inductive LedgerEvent where
  | effect (e : Effect)
  | credit (account : Option Text) (amount : Option Int)
  | other

/-- Markets that differ in tokens and balances only. -/
def SameRecords (m m' : Market) : Prop := m' = { m with table := m'.table, tokens := m'.tokens }

/-- Markets that differ only in what no ledger, pool or revenue record can be read from, and have
heard the same. -/
def SameBooks (m m' : Market) : Prop :=
  m' = { m with
    now := m'.now, sideAssets := m'.sideAssets, governances := m'.governances, names := m'.names
    entered := m'.entered, callbacks := m'.callbacks }

def TokenEntry.revoke (number : Nat) (e : TokenEntry) : TokenEntry :=
  { e with token := { e.token with live := e.token.live.filter (· ≠ number) } }

def TokenEntry.allow (number : Nat) (e : TokenEntry) : TokenEntry :=
  { e with token := { e.token with live := e.token.live ++ [number] } }

/-- A step of a market of which nothing else is asked. -/
inductive Step (asked : Operation → Prop) (m : Market) : LedgerEvent → Market → Prop
  | effect {e : Effect} {m' : Market} (done : apply e m = .ok () m') : Step asked m (.effect e) m'
  | credit {target : Text} {account : Option Text} {amount : Option Int} {name : Option Text}
      {m' : Market} (wanted : asked (.asset (.credit account amount)))
      (found : m.find? target = some .asset)
      (accepted : serveAsset apply (.credit account amount) m = .ok .nothing m') :
      Step asked m (.credit account amount)
        (m'.note (m.exchange (.mk target (.asset (.credit account amount)) name) (.ok .nothing)))
  | answered {x : Exchange} (wanted : asked x.request.operation) (other : x.credit? = none) :
      Step asked m .other (m.note x)
  | transfer {target : Text} {t : Nat} {sender recipient : Option Text} {amount : Option Int}
      {m' : Market}
      (accepted : serveToken target t (.transfer sender recipient amount) m = .ok .nothing m') :
      Step asked m .other m'
  | write {c : TableCall} {m' : Market} (wanted : asked (.table c))
      (accepted : serveTable c m = .ok .nothing m') : Step asked m .other m'
  | revoke (t number : Nat) :
      Step asked m .other { m with tokens := m.tokens.modify t (TokenEntry.revoke number) }
  | newToken (name : Text) (shared : Bool) :
      Step asked m .other
        { m with tokens := m.tokens ++ [⟨{ name }, if shared then none else some .empty⟩] }
  | newCapability (t : Nat) (holder : Value) :
      Step asked m .other
        { m with
          capabilities := m.capabilities ++ [⟨t, m.capabilities.length + 1, holder⟩]
          tokens := m.tokens.modify t (TokenEntry.allow (m.capabilities.length + 1)) }
  | pools {pools : List Pool} (kept : Kept Pool.SameRole m.pools pools) :
      Step asked m .other { m with pools }
  | directories {directories : List Directory}
      (kept : Kept Directory.GrowsTo m.directories directories)
      (registered : Registered m.pools m.directories → Registered m.pools directories) :
      Step asked m .other { m with directories }
  | reserves {reserves : List InfraReserve}
      (kept : Kept InfraReserve.SameRole m.reserves reserves) :
      Step asked m .other { m with reserves }
  | splitters {splitters : List Splitter}
      (kept : Kept Splitter.SameRole m.splitters splitters)
      (tallied : Tallied m.splitters → Tallied splitters) :
      Step asked m .other { m with splitters }
  | quiet {m' : Market} (same : m.SameBooks m')
      (waits : Waits asked m.callbacks → Waits asked m'.callbacks) : Step asked m .other m'

/-! ## What steps keep -/

/-- A market and what it became, by steps of any kind. -/
structure Evolves (m m' : Market) : Prop where
  symbol : m'.symbol = m.symbol
  capabilities : m.capabilities <+: m'.capabilities
  pools : Kept Pool.SameRole m.pools m'.pools
  directories : Kept Directory.GrowsTo m.directories m'.directories
  reserves : Kept InfraReserve.SameRole m.reserves m'.reserves
  splitters : Kept Splitter.SameRole m.splitters m'.splitters

theorem Evolves.refl (m : Market) : m.Evolves m where
  symbol := rfl
  capabilities := List.prefix_rfl
  pools := .refl .refl _
  directories := .refl .refl _
  reserves := .refl .refl _
  splitters := .refl .refl _

theorem Evolves.trans {m₁ m₂ m₃ : Market} (h : m₁.Evolves m₂) (h' : m₂.Evolves m₃) :
    m₁.Evolves m₃ where
  symbol := h'.symbol.trans h.symbol
  capabilities := h.capabilities.trans h'.capabilities
  pools := h.pools.trans (fun _ _ _ hxy hyz => ⟨hyz.model.trans hxy.model,
    hyz.account.trans hxy.account, hyz.capability.trans hxy.capability⟩) h'.pools
  directories := h.directories.trans (fun _ _ _ hxy hyz =>
    ⟨hyz.treasury.trans hxy.treasury, hxy.pools.trans hyz.pools⟩) h'.directories
  reserves := h.reserves.trans (fun _ _ _ hxy hyz =>
    ⟨hyz.account.trans hxy.account, hyz.directory.trans hxy.directory⟩) h'.reserves
  splitters := h.splitters.trans (fun _ _ _ hxy hyz => ⟨hyz.directory.trans hxy.directory,
    hyz.reserve.trans hxy.reserve, hyz.governance.trans hxy.governance⟩) h'.splitters

section Frames

variable {m m' : Market}

theorem sameRecords_putTokenLedger (m : Market) (t : Nat) (l : TokenLedger) :
    m.SameRecords (m.putTokenLedger t l) := by
  unfold SameRecords putTokenLedger
  cases (m.tokens.getD t default).ownTable with
  | none => rfl
  | some _ => rfl

/-- From `m` the action changes nothing but ledgers, however it ends. -/
def KeepsRecords {α : Type} (a : Action Market α) (m : Market) : Prop :=
  Ends a m (fun _ m' => m.SameRecords m') fun _ m' => m.SameRecords m'

theorem focus_keepsRecords {σ α : Type} {part : Market → σ} {replace : Market → σ → Market}
    {a : Action σ α} (hreplace : ∀ s, m.SameRecords (replace m s)) :
    KeepsRecords (focus part replace a) m :=
  .focus (ends_of (fun _ s _ => hreplace s) fun _ s _ => hreplace s)

theorem apply_keepsRecords (e : Effect) (m : Market) : KeepsRecords (apply e) m := by
  have hput := sameRecords_putTokenLedger m
  cases e with
  | transfer => exact .bind (ends_get (focus_keepsRecords fun _ => rfl))
  | mint => exact .bind (ends_get (focus_keepsRecords (hput _)))
  | burn => exact .bind (ends_get (focus_keepsRecords (hput _)))

/-- What follows an action on a ledger only answers. -/
theorem answer_keepsRecords {σ α : Type} {part : Market → σ} {replace : Market → σ → Market}
    {a : Action σ Unit} {x : α} (hreplace : ∀ s, m.SameRecords (replace m s)) :
    KeepsRecords (do focus part replace a; return x) m :=
  .bind ((focus_keepsRecords hreplace).imp (fun _ _ h => ends_pure h) fun _ _ h => h)

theorem serveToken_keepsRecords (target : Text) (t : Nat) (c : AssetCall) (m : Market) :
    KeepsRecords (serveToken target t c) m := by
  cases c with
  | transfer => exact .bind (ends_get (answer_keepsRecords (sameRecords_putTokenLedger m t)))
  | balanceOf | totalSupply => exact .bind (ends_get (ends_pure rfl))
  | credit | symbol => exact ends_throw rfl

theorem credit_keepsRecords (run : Executor) (account : Option Text) (amount : Option Int)
    (m : Market) : KeepsRecords (serveAsset run (.credit account amount)) m :=
  .bind (ends_get (answer_keepsRecords fun _ => rfl))

theorem serveTable_keepsRecords (c : TableCall) (m : Market) : KeepsRecords (serveTable c) m := by
  cases c with
  | set | add | subtract | move => exact answer_keepsRecords fun _ => rfl
  | _ => exact .bind (ends_get (ends_pure rfl))

end Frames

section Steps

variable {asked : Operation → Prop} {m m' : Market} {event : LedgerEvent}

theorem SameRecords.evolves (h : m.SameRecords m') : m.Evolves m' := by
  rw [h]
  exact { Evolves.refl m with }

theorem SameRecords.sound (h : m.SameRecords m') (hsound : m.Sound asked) : m'.Sound asked := by
  rw [h]
  exact { hsound with }

theorem SameBooks.evolves (h : m.SameBooks m') : m.Evolves m' := by
  rw [h]
  exact { Evolves.refl m with }

theorem evolves_note (m : Market) (x : Exchange) : m.Evolves (m.note x) := { Evolves.refl m with }

theorem Step.evolves (h : Step asked m event m') : m.Evolves m' := by
  cases h with
  | effect done => exact ((apply_keepsRecords _ m).of_ok done).evolves
  | credit _ _ accepted =>
      exact ((credit_keepsRecords apply _ _ m).of_ok accepted).evolves.trans (evolves_note _ _)
  | answered => exact evolves_note m _
  | transfer accepted => exact ((serveToken_keepsRecords _ _ _ m).of_ok accepted).evolves
  | write _ accepted => exact ((serveTable_keepsRecords _ m).of_ok accepted).evolves
  | revoke | newToken => exact { Evolves.refl m with }
  | newCapability => exact { Evolves.refl m with capabilities := List.prefix_append _ _ }
  | pools kept => exact { Evolves.refl m with pools := kept }
  | directories kept => exact { Evolves.refl m with directories := kept }
  | reserves kept => exact { Evolves.refl m with reserves := kept }
  | splitters kept => exact { Evolves.refl m with splitters := kept }
  | quiet same => exact same.evolves

theorem Step.sound (h : Step asked m event m') (hsound : m.Sound asked) : m'.Sound asked := by
  cases h with
  | effect done => exact ((apply_keepsRecords _ m).of_ok done).sound hsound
  | credit _ _ accepted =>
      exact { ((credit_keepsRecords apply _ _ m).of_ok accepted).sound hsound with }
  | transfer accepted => exact ((serveToken_keepsRecords _ _ _ m).of_ok accepted).sound hsound
  | write _ accepted => exact ((serveTable_keepsRecords _ m).of_ok accepted).sound hsound
  | answered | revoke | newToken | newCapability | reserves => exact { hsound with }
  | pools kept => exact { hsound with registered := hsound.registered.kept kept }
  | directories _ registered => exact { hsound with registered := registered hsound.registered }
  | splitters _ tallied => exact { hsound with tallied := tallied hsound.tallied }
  | quiet same waits =>
      have hwaits := waits hsound.waits
      rw [same] at hwaits ⊢
      exact { hsound with waits := hwaits }

/-! ## Runs -/

structure Transition where
  before : Market
  event : LedgerEvent
  after : Market

/-- The market gets from one state to the other by these transitions, one after another. -/
inductive RunsTo (asked : Operation → Prop) : Market → Market → List Transition → Prop
  | refl (m : Market) : RunsTo asked m m []
  | cons {m u m' : Market} {event : LedgerEvent} {rest : List Transition}
      (first : Step asked m event u) (later : RunsTo asked u m' rest) :
      RunsTo asked m m' (⟨m, event, u⟩ :: rest)

theorem RunsTo.trans {u : Market} {ts ts' : List Transition} (h : RunsTo asked m u ts)
    (h' : RunsTo asked u m' ts') : RunsTo asked m m' (ts ++ ts') := by
  induction h with
  | refl => exact h'
  | cons first _ ih => exact .cons first (ih h')

/-- The market gets from one state to the other somehow. -/
def Reaches (asked : Operation → Prop) (m m' : Market) : Prop := ∃ ts, RunsTo asked m m' ts

theorem Reaches.refl (m : Market) : Reaches asked m m := ⟨[], .refl m⟩

theorem Reaches.trans {u : Market} (h : Reaches asked m u) (h' : Reaches asked u m') :
    Reaches asked m m' := by
  obtain ⟨ts, hts⟩ := h
  obtain ⟨ts', hts'⟩ := h'
  exact ⟨ts ++ ts', hts.trans hts'⟩

theorem Step.reaches (h : Step asked m event m') : Reaches asked m m' := ⟨_, .cons h (.refl m')⟩

theorem Reaches.of_quiet (same : m.SameBooks m')
    (waits : Waits asked m.callbacks → Waits asked m'.callbacks) : Reaches asked m m' :=
  (Step.quiet same waits).reaches

/-- What every step keeps is kept by every run. -/
theorem Reaches.keeps {P : Market → Prop} (h : Reaches asked m m') (hm : P m)
    (hstep : ∀ {u u' : Market} {event : LedgerEvent}, Step asked u event u' → P u → P u') :
    P m' := by
  obtain ⟨ts, hts⟩ := h
  induction hts with
  | refl => exact hm
  | cons first _ ih => exact ih (hstep first hm)

theorem Reaches.sound (h : Reaches asked m m') (hsound : m.Sound asked) : m'.Sound asked :=
  h.keeps hsound fun hstep => hstep.sound

theorem Reaches.evolves (h : Reaches asked m m') : m.Evolves m' :=
  h.keeps (Evolves.refl m) fun hstep hm => hm.trans hstep.evolves

end Steps

end Market

end CurveMarket
