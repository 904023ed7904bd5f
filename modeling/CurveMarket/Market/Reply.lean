import CurveMarket.Pool.Basic
import CurveMarket.Revenue.Record
import CurveMarket.Ledger.BalanceTable

/-!
# Replies

What a request gives back.
-/

namespace CurveMarket

/-- A note on the course of a guarded section. -/
inductive SectionNote where
  | active (entered : Bool)
  | journalLength (n : Nat)
  | undone
  | refused (error : Error)

inductive Reply where
  | nothing
  | int (n : Int)
  | bool (b : Bool)
  | text (t : Text)
  | optionalText (t : Option Text)
  | optionalInt (n : Option Int)
  | texts (ts : List Text)
  | pool (model : Text)
  | state (s : PoolState)
  | terms (t : Terms)
  | events (es : List PoolEvent)
  | phase (p : Phase)
  | phaseInfo (i : PhaseInfo)
  | stats (s : PoolStats)
  | tradeInfo (i : TradeInfo)
  | impact (i : Curve.Impact)
  | split (s : FeeSplit)
  | batch (b : BatchDeposit)
  | payment (p : Payment)
  | accounting (a : Accounting)
  | rows (rs : List (RowKey × Int))
  | balances (bs : List (Text × Int))
  | lengths (before after : Nat)
  | notes (ns : List SectionNote)

abbrev Answer := Except Error Reply

end CurveMarket
