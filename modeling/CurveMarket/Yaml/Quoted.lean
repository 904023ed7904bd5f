import CurveMarket.Yaml.Cursor

/-!
# Scalars in quotes

Between single quotes a quote is written twice and nothing else is special. Between double quotes a
backslash begins an escape. In both, a line break is folded and the spaces around it do not count.
-/

namespace CurveMarket.Yaml

/-- White space that has been read and not yet taken as content. -/
inductive Gap where
  | blanks (cs : List Char)
  | breaks (cs : List Char)
  /-- Breaks after one that was escaped and does not count. -/
  | escapedBreak (cs : List Char)

namespace Gap

def none : Gap := .blanks []

def addBlank (c : Char) : Gap → Gap
  | blanks cs => blanks (cs ++ [c])
  | gap => gap

def addBreak (c : Char) : Gap → Gap
  | blanks _ => breaks [c]
  | breaks cs => breaks (cs ++ [c])
  | escapedBreak cs => escapedBreak (cs ++ [c])

def points (gap : Gap) : List CodePoint :=
  let cs := match gap with
    | blanks cs => cs
    | breaks cs => foldBreaks cs
    | escapedBreak cs => cs
  cs.map CodePoint.ofChar

end Gap

def shortEscapes : List (Char × Nat) := [
  ('0', 0x00), ('a', 0x07), ('b', 0x08), ('t', 0x09), ('\t', 0x09), ('n', 0x0A), ('v', 0x0B),
  ('f', 0x0C), ('r', 0x0D), ('e', 0x1B), (' ', 0x20), ('"', 0x22), ('\\', 0x5C), ('/', 0x2F),
  ('N', 0x85), ('_', 0xA0), ('L', 0x2028), ('P', 0x2029)]

/-- Escapes by number, with the count of their hexadecimal digits. -/
def numberEscapes : List (Char × Nat) := [('x', 2), ('u', 4), ('U', 8)]

def hexValue? (c : Char) : Option Nat :=
  if c.isDigit then some (c.toNat - '0'.toNat)
  else if ('a' ≤ c && c ≤ 'f') || ('A' ≤ c && c ≤ 'F') then
    some (c.toLower.toNat - 'a'.toNat + 10)
  else none

def hexNumber? (value : Nat) : List Char → Option Nat
  | [] => some value
  | c :: cs => (hexValue? c).bind fun d => hexNumber? (16 * value + d) cs

/-- The code point of the escape that follows a backslash, with the length of the escape. -/
def escape? : List Char → Option (CodePoint × Nat)
  | [] => none
  | c :: rest =>
    match shortEscapes.lookup c, numberEscapes.lookup c with
    | some n, _ => some (Fin.ofNat 0x110000 n, 1)
    | none, some width =>
      if rest.length < width then none
      else
        (hexNumber? 0 (rest.take width)).bind fun n =>
          if h : n < 0x110000 then some (⟨n, h⟩, width + 1) else none
    | none, none => none

/-- The content up to the closing quote, after a gap, and the place behind it. A document marker
must not begin a line of it. -/
def quotedFrom (quote : Char) (gap : Gap) (line column : Nat) :
    List Char → Option (List CodePoint × Cursor)
  | [] => none
  | c :: rest =>
    let after (points : List CodePoint) (r : Option (List CodePoint × Cursor)) :=
      r.map fun r => (gap.points ++ points ++ r.1, r.2)
    if column = 0 && startsMarker (c :: rest) then none
    else if isBreak c then quotedFrom quote (gap.addBreak c) (line + 1) 0 rest
    else if c = ' ' || c = '\t' then quotedFrom quote (gap.addBlank c) line (column + 1) rest
    else if c = quote then
      if quote = '\'' && rest.head? == some '\'' then
        after [CodePoint.ofChar '\''] (quotedFrom quote .none line (column + 2) (rest.drop 1))
      else some (gap.points, ⟨rest, line, column + 1⟩)
    else if c = '\\' && quote = '"' then
      if rest.head?.any isBreak then
        after [] (quotedFrom quote (.escapedBreak []) (line + 1) 0 (rest.drop 1))
      else
        match escape? rest with
        | some (p, n) => after [p] (quotedFrom quote .none line (column + 1 + n) (rest.drop n))
        | none => none
    else after [CodePoint.ofChar c] (quotedFrom quote .none line (column + 1) rest)
termination_by cs => cs.length
decreasing_by all_goals simp; try omega

def quotedScalar? (c : Cursor) : Option (Text × Cursor) :=
  match c.rest with
  | [] => none
  | quote :: rest =>
    (quotedFrom quote .none c.line (c.column + 1) rest).map fun r => (⟨r.1⟩, r.2)

end CurveMarket.Yaml
