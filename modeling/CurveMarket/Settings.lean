import CurveMarket.Pool.Terms
import CurveMarket.Revenue.Governance
import CurveMarket.Yaml.Document

/-!
# Settings

The terms of new pools and the accrual rates of governance, as they are written in a document. Only
the block of the curve is required, and no key is allowed that has no meaning.
-/

namespace CurveMarket

structure Settings where
  terms : Terms
  accrualRate : Nat
  /-- Rates of single models, every model once. -/
  overrides : List (Text × Nat)
deriving DecidableEq

namespace Settings

def requireMapping (name : Text) (v : Value) : Except Error (List (Value × Value)) :=
  match v.entries? with
  | some entries => .ok entries
  | none => .error (.notMapping name)

def requireEntry (name : Text) (v : Value) : Except Error Int :=
  match v.int? with
  | some n => .ok n
  | none => .error (.entryNotInteger name)

/-- Whether a key comes before another one in messages: numbers by size, texts by code point and
bytes by value. Keys of other kinds, or of different ones, have no order. -/
def keyLe? : Value → Value → Option Bool
  | .text s, .text t => some (s.le t)
  | .bytes a, .bytes b => some (decide (a ≤ b))
  | .real x, .real y => some (x.le y)
  | .real x, w => w.asInt?.map fun n => x.le (.ofInt n)
  | v, .real y => v.asInt?.map fun n => (Binary64.ofInt n).le y
  | v, w => v.asInt?.bind fun m => w.asInt?.map fun n => decide (m ≤ n)

/-- The first two keys that have no order. -/
def unorderedPair? : List Value → Option (Value × Value)
  | [] => none
  | k :: ks =>
    match ks.find? fun k' => (keyLe? k k').isNone with
    | some k' => some (k, k')
    | none => unorderedPair? ks

def rejectUnknown (name : Text) (known : List Text) (entries : List (Value × Value)) :
    Except Error Unit := do
  let isKnown (v : Value) : Bool := known.any fun k => (Value.text k).sameKey v
  let unknown := (entries.map (·.1)).filter fun k => !isKnown k
  if let some (k, k') := unorderedPair? unknown then throw (.keysUnordered k.kindName k'.kindName)
  if !unknown.isEmpty then
    let sorted := unknown.mergeSort fun k k' => (keyLe? k k').getD false
    throw (.showing (.list sorted) (.unknownKeys name sorted))

def requiredTerms : List Text :=
  ["crr_ppm", "trade_fee_bps", "flat_curve_threshold", "flat_curve_price"]

def optionalTerms : List Text := ["ibr_duration_seconds", "max_trade_bps"]

def termName (key : Text) : Text := "curve." ++ key

def requiredTerm (entries : List (Value × Value)) (key : Text) : Except Error Int :=
  match Value.field entries key with
  | some v => requireEntry (termName key) v
  | none => .error (.entryMissing (termName key))

def optionalTerm (entries : List (Value × Value)) (key : Text) (default : Nat) :
    Except Error Int :=
  match Value.field entries key with
  | some v => requireEntry (termName key) v
  | none => .ok default

def readTerms (v : Value) : Except Error Terms := do
  let entries ← requireMapping "curve" v
  rejectUnknown "curve" (requiredTerms ++ optionalTerms) entries
  let ratio ← requiredTerm entries "crr_ppm"
  let fee ← requiredTerm entries "trade_fee_bps"
  let threshold ← requiredTerm entries "flat_curve_threshold"
  let price ← requiredTerm entries "flat_curve_price"
  let time ← optionalTerm entries "ibr_duration_seconds" defaultBuyOnlySeconds
  let cap ← optionalTerm entries "max_trade_bps" defaultTradeCap
  Terms.make {
    ratio := some ratio, tradeFee := some fee, threshold := some threshold, flatPrice := some price
    buyOnlySeconds := some time, tradeCap := some cap }

def putFigure (model : Text) (figure : Int) : List (Text × Int) → List (Text × Int)
  | [] => [(model, figure)]
  | f :: rest => if f.1 = model then (model, figure) :: rest else f :: putFigure model figure rest

/-- Figures by model. A key that is no text counts as the text it is displayed as, and of several
figures for one model the last counts. -/
def readFigures : List (Value × Value) → List (Text × Int) → Except Error (List (Text × Int))
  | [], figures => .ok figures
  | (key, v) :: rest, figures => do
    let figure ← requireEntry ("governance.models." ++ key.display) v
    readFigures rest (putFigure key.display figure figures)

def read (v : Value) : Except Error Settings := do
  let root ← requireMapping "config" v
  rejectUnknown "config" ["curve", "governance"] root
  let terms ← readTerms ((Value.field root "curve").getD .null)
  let rates ← requireMapping "governance" ((Value.field root "governance").getD (.map []))
  rejectUnknown "governance" ["default_infra_accrual_bps", "models"] rates
  let rate ← requireEntry "governance.default_infra_accrual_bps"
    ((Value.field rates "default_infra_accrual_bps").getD (.int defaultAccrualRate))
  let models ← requireMapping "governance.models" ((Value.field rates "models").getD (.map []))
  let figures ← readFigures models []
  let accrualRate ← checkAccrualRate (some rate)
  let overrides ← figures.mapM fun f => do return (f.1, ← checkAccrualRate (some f.2))
  return { terms, accrualRate, overrides }

def parse (t : Text) : Except Error Settings :=
  match Yaml.parse t with
  | .ok v => read v
  | .error .malformed => .error .malformedDocument
  | .error (.tooManyDigits count) => .error (.numberTooLong count)

def governance (s : Settings) : Except Error Governance :=
  Governance.make (some s.accrualRate) (s.overrides.map fun o => (some o.1, some (o.2 : Int)))

end Settings

end CurveMarket
