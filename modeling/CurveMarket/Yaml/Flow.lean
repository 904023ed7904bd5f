import CurveMarket.Yaml.Node
import CurveMarket.Yaml.Plain
import CurveMarket.Yaml.Quoted

/-!
# Collections in brackets

Lists in square brackets and mappings in braces, with commas between entries and perhaps after the
last. A pair inside a list is a mapping of one entry. Columns do not count between brackets.

Every reader takes the number of steps it may nest; each step takes up at least one character of
the document or is one of a fixed number between two that do.
-/

namespace CurveMarket.Yaml

def scalar? (inBrackets : Bool) (margin : Nat) (c : Cursor) : Option (Node × Cursor) :=
  if c.startsWith '\'' || c.startsWith '"' then
    (quotedScalar? c).map fun r => (.quoted r.1, r.2)
  else if startsPlain inBrackets c.rest then
    let r := plainScalar inBrackets margin c
    some (.plain r.1, r.2)
  else none

/-- Steps that suffice for what is left of a document. -/
def stepsFor (c : Cursor) : Nat := 4 * c.rest.length + 4

mutual

def flowNode : Nat → Cursor → Option (Node × Cursor)
  | 0, _ => none
  | steps + 1, c =>
    if c.atEnd then none
    else if c.startsWith '[' then
      (flowItems steps (c.advance 1)).map fun r => (.list r.1, r.2)
    else if c.startsWith '\x7b' then
      (flowEntries steps (c.advance 1)).map fun r => (.map r.1, r.2)
    else scalar? true 0 c

def flowPair : Nat → Cursor → Option ((Node × Option Node) × Cursor)
  | 0, _ => none
  | steps + 1, c => do
    let (key, behind) ← flowNode steps c
    let colon := behind.next
    if !colon.startsWith ':' then return ((key, none), behind)
    if !c.isKeyOf colon then none
    let n := (colon.advance 1).next
    if n.startsWith ',' || n.startsWith ']' || n.startsWith '\x7d' then
      return ((key, some .empty), n)
    let (value, behind) ← flowNode steps n
    return ((key, some value), behind)

/-- What follows an opening square bracket or a comma behind it. -/
def flowItems : Nat → Cursor → Option (List Node × Cursor)
  | 0, _ => none
  | steps + 1, c => do
    let c := c.next
    if c.startsWith ']' then return ([], c.advance 1)
    let ((key, value?), behind) ← flowPair steps c
    let item := match value? with
      | some value => Node.map [(key, value)]
      | none => key
    let n := behind.next
    if n.startsWith ']' then return ([item], n.advance 1)
    if !n.startsWith ',' then none
    let (items, behind) ← flowItems steps (n.advance 1)
    return (item :: items, behind)

/-- What follows an opening brace or a comma behind it. -/
def flowEntries : Nat → Cursor → Option (List (Node × Node) × Cursor)
  | 0, _ => none
  | steps + 1, c => do
    let c := c.next
    if c.startsWith '\x7d' then return ([], c.advance 1)
    let ((key, value?), behind) ← flowPair steps c
    let entry := (key, value?.getD .empty)
    let n := behind.next
    if n.startsWith '\x7d' then return ([entry], n.advance 1)
    if !n.startsWith ',' then none
    let (entries, behind) ← flowEntries steps (n.advance 1)
    return (entry :: entries, behind)

end

end CurveMarket.Yaml
