import CurveMarket.Yaml.Scalar

/-!
# Nodes

A node is a part of a document as it is written, before its scalars have a meaning. The value of a
mapping has every key once, with the value written last; entries that it takes from other mappings
come before its own.
-/

namespace CurveMarket.Yaml

inductive Node where
  | plain (cs : List Char)
  | quoted (t : Text)
  | list (items : List Node)
  | map (entries : List (Node × Node))

namespace Node

def empty : Node := plain []

def isWord (word : String) : Node → Bool
  | plain cs => String.ofList cs = word
  | _ => false

/-- The value of a key. Only scalars are keys. -/
def key : Node → Except Fault Value
  | plain cs => if String.ofList cs = valueWord then .ok (.text valueWord) else plainValue cs
  | quoted t => .ok (.text t)
  | list _ | map _ => .error .malformed

end Node

def entriesOf : Value → Except Fault (List (Value × Value))
  | .map entries => .ok entries
  | _ => .error .malformed

/-- What a mapping takes from the value of its merge key. Of several mappings the first counts most,
so it comes last. -/
def mergedEntries : Value → Except Fault (List (Value × Value))
  | .list items => do return (← items.mapM entriesOf).reverse.flatten
  | v => entriesOf v

namespace Node

mutual

def value : Node → Except Fault Value
  | plain cs => plainValue cs
  | quoted t => .ok (.text t)
  | list items => do return .list (← values items)
  | map entries => do
    let (merged, own) ← pairs entries
    return Value.ofEntries (merged ++ own)

def values : List Node → Except Fault (List Value)
  | [] => .ok []
  | n :: rest => do return (← n.value) :: (← values rest)

/-- The entries that a mapping takes from others, and its own. -/
def pairs : List (Node × Node) → Except Fault (List (Value × Value) × List (Value × Value))
  | [] => .ok ([], [])
  | (k, n) :: rest => do
    if k.isWord mergeWord then
      let taken ← mergedEntries (← n.value)
      let (merged, own) ← pairs rest
      return (taken ++ merged, own)
    else
      let key ← k.key
      let v ← n.value
      let (merged, own) ← pairs rest
      return (merged, (key, v) :: own)

end

end Node

end CurveMarket.Yaml
