import CurveMarket.Value.Basic

/-!
# Values as JSON

Keys are sorted by code point. `compact` has no white space; `indented` puts every entry on a line
of its own. Strings escape the quote, the backslash and control characters only. Values that JSON
has no form for are written as nothing.
-/

namespace CurveMarket.Value

def escapePoint (p : CodePoint) : List CodePoint :=
  let escaped (cs : List Char) := ('\\' :: cs).map CodePoint.ofChar
  if p.val = 0x22 then escaped ['"']
  else if p.val = 0x5C then escaped ['\\']
  else if p.val = 0x08 then escaped ['b']
  else if p.val = 0x0C then escaped ['f']
  else if p.val = 0x0A then escaped ['n']
  else if p.val = 0x0D then escaped ['r']
  else if p.val = 0x09 then escaped ['t']
  else if p.val < 0x20 then
    escaped ['u', '0', '0', Nat.digitChar (p.val / 16), Nat.digitChar (p.val % 16)]
  else [p]

def jsonString (t : Text) : Text :=
  "\"" ++ (⟨t.points.flatMap escapePoint⟩ : Text) ++ "\""

/-- Entries by key; entries with one key keep their order. -/
def sortByKey {α : Type} (entries : List (Text × α)) : List (Text × α) :=
  entries.mergeSort fun a b => a.1.le b.1

def keyText : Value → Text
  | .text t => t
  | _ => Text.empty

mutual

def compact : Value → Text
  | .null => "null"
  | .bool b => if b then "true" else "false"
  | .int n => Text.ofInt n
  | .text t => jsonString t
  | .list xs | .tuple xs => "[" ++ Text.join "," (compactAll xs) ++ "]"
  | .map es =>
    "\x7b" ++
      Text.join "," ((sortByKey (compactEntries es)).map fun e => jsonString e.1 ++ ":" ++ e.2) ++
      "\x7d"
  | _ => Text.empty

def compactAll : List Value → List Text
  | [] => []
  | x :: xs => compact x :: compactAll xs

def compactEntries : List (Value × Value) → List (Text × Text)
  | [] => []
  | (k, v) :: es => (keyText k, compact v) :: compactEntries es

end

/-- Items between brackets, each on a line with the given margin. -/
def indentedBlock (opening closing : String) (margin : Text) (items : List Text) : Text :=
  if items.isEmpty then Text.ofString opening ++ closing
  else
    let inner : Text := "\n" ++ margin ++ "  "
    opening ++ inner ++ Text.join ("," ++ inner) items ++ "\n" ++ margin ++ closing

mutual

/-- A value over several lines, with two more blanks of margin at each level. -/
def indentedFrom (margin : Text) : Value → Text
  | .list xs | .tuple xs => indentedBlock "[" "]" margin (indentedAll (margin ++ "  ") xs)
  | .map es =>
    indentedBlock "\x7b" "\x7d" margin
      ((sortByKey (indentedEntries (margin ++ "  ") es)).map fun e =>
        jsonString e.1 ++ ": " ++ e.2)
  | v => compact v

def indentedAll (margin : Text) : List Value → List Text
  | [] => []
  | x :: xs => indentedFrom margin x :: indentedAll margin xs

def indentedEntries (margin : Text) : List (Value × Value) → List (Text × Text)
  | [] => []
  | (k, v) :: es => (keyText k, indentedFrom margin v) :: indentedEntries margin es

end

def indented (v : Value) : Text := indentedFrom Text.empty v

end CurveMarket.Value
