import CurveMarket.Pool.State
import CurveMarket.Snapshot.Canonical
import CurveMarket.Snapshot.Sha256

/-!
# Persisted states

A state is persisted as a map of its fields, with the terms as a map of their own and a version. The
root of a pool is the digest of its tagged canonical snapshot, keyed by the model.
-/

namespace CurveMarket.Snapshot

def layoutVersion : Int := 1

def termsFields (t : Terms) : List (Text × Value) := [
  ("crr_ppm", .int t.ratio),
  ("trade_fee_bps", .int t.tradeFee),
  ("flat_curve_threshold", .int t.threshold),
  ("flat_curve_price", .int t.flatPrice),
  ("ibr_duration_seconds", .int t.buyOnlySeconds),
  ("max_trade_bps", .int t.tradeCap)]

def mapOf (fields : List (Text × Value)) : Value := .map (fields.map fun f => (.text f.1, f.2))

def write (s : PoolState) : Value :=
  mapOf [
    ("reserve_balance", .int s.reserve),
    ("buy_only_until", .int s.buyOnlyUntil),
    ("has_graduated", s.graduated),
    ("paused", s.paused),
    ("params", mapOf (termsFields s.terms)),
    ("version", .int layoutVersion)]

def readField (entries : List (Value × Value)) (name : Text) : Except Error Value :=
  match Value.field entries name with
  | some v => .ok v
  | none => .error (.missingKey name)

def readInt (entries : List (Value × Value)) (name : Text) : Except Error Int := do
  let v ← readField entries name
  match v with
  | .int n => pure n
  | v => throw (.fieldNotInteger name v.kindName)

def readSwitch (entries : List (Value × Value)) (name : Text) : Except Error Switch := do
  let v ← readField entries name
  match v with
  | .bool b => pure (.bool b)
  | v => throw (.fieldNotSwitch name v.kindName)

def readTerms (entries : List (Value × Value)) : Except Error Terms := do
  let ratio ← readInt entries "crr_ppm"
  let fee ← readInt entries "trade_fee_bps"
  let threshold ← readInt entries "flat_curve_threshold"
  let price ← readInt entries "flat_curve_price"
  let time ← readInt entries "ibr_duration_seconds"
  let cap ← readInt entries "max_trade_bps"
  Terms.make {
    ratio := some ratio, tradeFee := some fee, threshold := some threshold, flatPrice := some price
    buyOnlySeconds := some time, tradeCap := some cap }

/-- The entries of a value from which fields are read. -/
def readEntries : Value → Except Error (List (Value × Value))
  | .map es => .ok es
  | v => .error (.notIndexed v)

/-- The state that a map persists. A map without a version counts as one of the current version. -/
def read (entries : List (Value × Value)) : Except Error PoolState := do
  let version := (Value.field entries "version").getD (.int layoutVersion)
  if !version.equalsInt layoutVersion then throw (.showing version (.unsupportedVersion version))
  let params ← readField entries "params"
  let terms ← readTerms (← readEntries params)
  let reserve ← readInt entries "reserve_balance"
  let buyOnlyUntil ← readInt entries "buy_only_until"
  let graduated ← readSwitch entries "has_graduated"
  let paused ← readSwitch entries "paused"
  pure { terms, reserve, buyOnlyUntil, graduated, paused }

/-- Whether a state is read back from what is written of it. -/
def readsBack (s : PoolState) : Except Error Bool := do
  let t ← read ((write s).entries?.getD [])
  pure (t.equals s)

/-- The bytes whose digest is the root of a pool. -/
def rootPreimage (model : Option Text) (s : PoolState) : Except Error (List UInt8) := do
  let some m := model | throw .modelMissing
  if m.isEmpty then throw .modelMissing
  let tag ← domainTag (.text "pool_state") (.int encodingVersion)
  let body ← canonicalBytes (mapOf [("model_id", .text m), ("state", write s)])
  pure (tag ++ body)

def root (model : Option Text) (s : PoolState) : Except Error Text :=
  Sha256.hex <$> rootPreimage model s

end CurveMarket.Snapshot
