import CurveMarket.Yaml.Flow

/-!
# Collections by indentation

The entries of a sequence or mapping begin at one column, each on a line of its own; the first may
follow a dash on the line of the dash. What belongs to an entry stands further right, except that
the entries of a sequence may stand at the column of the key they belong to.
-/

namespace CurveMarket.Yaml

def leaf? (margin : Nat) (c : Cursor) : Option (Node × Cursor) :=
  if c.startsWith '[' || c.startsWith '\x7b' then flowNode (stepsFor c) c
  else scalar? false margin c

mutual

/-- The node at a cursor, inside of what begins left of the column `margin`. A collection may begin
here only at a `fresh` place, where no value is open on the line. -/
def blockNode : Nat → (margin : Nat) → (fresh : Bool) → Cursor → Option (Node × Cursor)
  | 0, _, _, _ => none
  | steps + 1, margin, fresh, c =>
    if c.startsEntry then
      if fresh then (blockItems steps c.column false c).map fun r => (.list r.1, r.2) else none
    else do
      let (node, behind) ← leaf? margin c
      let colon := behind.next
      if !colon.startsValue then return (node, behind)
      if !(fresh && c.isKeyOf colon) then none
      let (entries, behind) ← blockEntries steps c.column node (colon.advance 1)
      return (.map entries, behind)

/-- The items from a dash on. A sequence `inMapping` ends at its own column where no dash stands. -/
def blockItems : Nat → (column : Nat) → (inMapping : Bool) → Cursor →
    Option (List Node × Cursor)
  | 0, _, _, _ => none
  | steps + 1, column, inMapping, dash => do
    let c := dash.advance 1
    let n := c.next
    let isEmpty := n.atEnd || (c.line < n.line && n.column ≤ column)
    let (item, behind) ←
      if isEmpty then some (Node.empty, c) else blockNode steps (column + 1) true n
    let n := behind.next
    if n.atEnd then return ([item], behind)
    if n.line = behind.line then none
    if n.column = column && n.startsEntry then
      let (items, behind) ← blockItems steps column inMapping n
      return (item :: items, behind)
    if n.column < column || (n.column = column && inMapping) then return ([item], behind)
    none

def blockValue : Nat → (column : Nat) → Cursor → Option (Node × Cursor)
  | 0, _, _ => none
  | steps + 1, column, c =>
    let n := c.next
    if n.atEnd then some (.empty, c)
    else if n.line = c.line then blockNode steps (column + 1) false n
    else if column < n.column then blockNode steps (column + 1) true n
    else if n.column = column && n.startsEntry then
      (blockItems steps column true n).map fun r => (.list r.1, r.2)
    else some (.empty, c)

/-- The entries of a mapping at a column, from behind the colon of `key` on. -/
def blockEntries : Nat → (column : Nat) → (key : Node) → Cursor →
    Option (List (Node × Node) × Cursor)
  | 0, _, _, _ => none
  | steps + 1, column, key, c => do
    let (value, behind) ← blockValue steps column c
    let n := behind.next
    if n.atEnd then return ([(key, value)], behind)
    if n.line = behind.line then none
    if n.column < column then return ([(key, value)], behind)
    if n.column ≠ column || n.startsEntry then none
    let (next, behind) ← leaf? (column + 1) n
    let colon := behind.next
    if !(colon.startsValue && n.isKeyOf colon) then none
    let (entries, behind) ← blockEntries steps column next (colon.advance 1)
    return ((key, value) :: entries, behind)

end

end CurveMarket.Yaml
