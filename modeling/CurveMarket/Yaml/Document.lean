import CurveMarket.Yaml.Block

/-!
# Documents

A stream holds at most one document, perhaps between markers. Of YAML the documents use plain and
quoted scalars, collections by indentation and in brackets, and comments; whatever goes beyond that
is refused like any other fault.
-/

namespace CurveMarket.Yaml

def isAllowed (c : Char) : Bool :=
  let n := c.toNat
  n = 0x09 || n = 0x0A || n = 0x0D || (0x20 ≤ n && n ≤ 0x7E) || n = 0x85 ||
  (0xA0 ≤ n && n ≤ 0xFFFD) || 0x10000 ≤ n

/-- Every way of ending a line but the separators becomes a line feed. -/
def unifyBreaks : List Char → List Char
  | '\r' :: '\n' :: rest => '\n' :: unifyBreaks rest
  | '\r' :: rest => '\n' :: unifyBreaks rest
  | '\x85' :: rest => '\n' :: unifyBreaks rest
  | c :: rest => c :: unifyBreaks rest
  | [] => []

def dropOrderMark : List Char → List Char
  | '\uFEFF' :: rest => rest
  | cs => cs

/-- The root node, where a stream without content has none. -/
def rootNode (c : Cursor) : Option (Node × Cursor) :=
  if c.rest.isEmpty then some (.empty, c)
  else if !c.atEnd then blockNode (stepsFor c) 0 true c
  else if c.startsWith '-' then
    let behind := c.advance 3
    let n := behind.next
    if n.atEnd then some (.empty, behind)
    else blockNode (stepsFor c) 0 (decide (behind.line < n.line)) n
  else none

/-- Whether nothing follows but marks of the end, of which there are so many at most. -/
def isFinished : Nat → Cursor → Bool
  | 0, _ => false
  | marks + 1, c =>
    let n := c.next
    n.rest.isEmpty || (n.atEnd && n.startsWith '.' && isFinished marks (n.advance 3))

def node? (t : Text) : Option Node := do
  let cs ← t.toChars?
  if !cs.all isAllowed then none
  let start : Cursor := ⟨dropOrderMark (unifyBreaks cs), 0, 0⟩
  let (node, behind) ← rootNode start.next
  if isFinished (behind.rest.length + 1) behind then some node else none

def parse (t : Text) : Except Fault Value :=
  match node? t with
  | some node => node.value
  | none => .error .malformed

end CurveMarket.Yaml
