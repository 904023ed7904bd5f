import CurveMarket.Value.Binary64

/-!
# Values

What a caller passes before its kind has been checked, and what documents, snapshots and
configurations are made of.
-/

namespace CurveMarket

/-- The record types of the market that may turn up where a plain value is expected. -/
inductive RecordKind where
  | curveParameters
  | poolState
  | buyQuote
  | sellQuote
  | payment
deriving DecidableEq

inductive Value where
  | null
  | bool (b : Bool)
  | int (n : Int)
  | real (x : Binary64)
  | text (t : Text)
  | bytes (bs : List UInt8)
  | list (items : List Value)
  | tuple (items : List Value)
  | set (items : List Value)
  | map (entries : List (Value × Value))
  | record (kind : RecordKind)
deriving Inhabited

namespace Value

instance : Coe Int Value := ⟨int⟩

instance : Coe Bool Value := ⟨bool⟩

instance : Coe Text Value := ⟨text⟩

/-- The integer, where a truth value is none. -/
def int? : Value → Option Int
  | .int n => some n
  | _ => none

def text? : Value → Option Text
  | .text t => some t
  | _ => none

def entries? : Value → Option (List (Value × Value))
  | .map es => some es
  | _ => none

/-- Whether a value counts as on: everything but zero, the empty and the absent. -/
def isOn : Value → Bool
  | .null => false
  | .bool b => b
  | .int n => n != 0
  | .real x => !x.isZero
  | .text t => !t.isEmpty
  | .bytes bs => !bs.isEmpty
  | .list xs => !xs.isEmpty
  | .tuple xs => !xs.isEmpty
  | .set xs => !xs.isEmpty
  | .map es => !es.isEmpty
  | .record _ => true

def asInt? : Value → Option Int
  | .int n => some n
  | .bool b => some (if b then 1 else 0)
  | _ => none

/-- Whether a value is a number equal to an integer; truth values count as one and zero. -/
def equalsInt (v : Value) (n : Int) : Bool :=
  match v with
  | .real x => x.equalsInt n
  | v => v.asInt? == some n

/-- Equality of keys. Numbers are compared by what they stand for, whatever their kind. -/
def sameKey : Value → Value → Bool
  | .null, .null => true
  | .text s, .text t => s == t
  | .bytes a, .bytes b => a == b
  | .real x, .real y => x.equals y
  | .real x, w => match w.asInt? with
    | some n => x.equalsInt n
    | none => false
  | v, .real y => match v.asInt? with
    | some n => y.equalsInt n
    | none => false
  | v, w => match v.asInt?, w.asInt? with
    | some m, some n => m == n
    | _, _ => false

def lookup (key : Value) : List (Value × Value) → Option Value
  | [] => none
  | (k, v) :: rest => if k.sameKey key then some v else lookup key rest

/-- A key that is already there keeps its place and takes the new value. -/
def insertEntry (key value : Value) : List (Value × Value) → List (Value × Value)
  | [] => [(key, value)]
  | (k, v) :: rest =>
    if k.sameKey key then (k, value) :: rest else (k, v) :: insertEntry key value rest

def ofEntries (entries : List (Value × Value)) : Value :=
  .map (entries.foldl (fun m e => insertEntry e.1 e.2 m) [])

def field (entries : List (Value × Value)) (name : Text) : Option Value :=
  lookup (.text name) entries

def kindName : Value → String
  | .null => "NoneType"
  | .bool _ => "bool"
  | .int _ => "int"
  | .real _ => "float"
  | .text _ => "str"
  | .bytes _ => "bytes"
  | .list _ => "list"
  | .tuple _ => "tuple"
  | .set _ => "set"
  | .map _ => "dict"
  | .record .curveParameters => "CurveParameters"
  | .record .poolState => "PoolState"
  | .record .buyQuote => "BuyQuote"
  | .record .sellQuote => "SellQuote"
  | .record .payment => "InfraPayment"

end Value

end CurveMarket
