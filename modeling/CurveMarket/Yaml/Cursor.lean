import CurveMarket.Text.Basic

/-!
# Places in a document

A cursor is what is left of a document, with its line and column. Nesting shows in the columns
alone, so every reader carries them along.

A document has three line breaks: the line feed, to which other ways of ending a line have been
reduced, and the two separators for lines and paragraphs.
-/

namespace CurveMarket.Yaml

structure Cursor where
  rest : List Char
  line : Nat
  column : Nat

def isBreak (c : Char) : Bool := c = '\n' || c = '\u2028' || c = '\u2029'

def isGap (c : Char) : Bool := c = ' ' || c = '\t' || isBreak c

/-- Whether an indicator before these characters stands for itself. -/
def startsBlank : List Char → Bool
  | [] => true
  | c :: _ => isGap c

def startsMarker : List Char → Bool
  | '-' :: '-' :: '-' :: rest => startsBlank rest
  | '.' :: '.' :: '.' :: rest => startsBlank rest
  | _ => false

/-- Line breaks inside a scalar: a line feed becomes a space, or goes when others follow. -/
def foldBreaks : List Char → List Char
  | ['\n'] => [' ']
  | '\n' :: more => more
  | breaks => breaks

/-- The first place at or after this one that is neither space, comment nor line break. A tab is no
space here. -/
def nextFrom (inComment : Bool) (line column : Nat) : List Char → Cursor
  | [] => ⟨[], line, column⟩
  | c :: rest =>
    if isBreak c then nextFrom false (line + 1) 0 rest
    else if inComment || c = ' ' || c = '#' then
      nextFrom (inComment || c = '#') line (column + 1) rest
    else ⟨c :: rest, line, column⟩

/-- The breaks of the blank lines from the start of a line, and the place after them; nothing if a
document marker stands there. -/
def blankLines (line column : Nat) : List Char → Option (List Char × Cursor)
  | [] => some ([], ⟨[], line, column⟩)
  | c :: rest =>
    if column = 0 && startsMarker (c :: rest) then none
    else if c = ' ' then blankLines line (column + 1) rest
    else if isBreak c then (blankLines (line + 1) 0 rest).map fun r => (c :: r.1, r.2)
    else some ([], ⟨c :: rest, line, column⟩)

namespace Cursor

def next (c : Cursor) : Cursor := nextFrom false c.line c.column c.rest

def advance (c : Cursor) (n : Nat) : Cursor := ⟨c.rest.drop n, c.line, c.column + n⟩

def startsWith (c : Cursor) (indicator : Char) : Bool := c.rest.head? == some indicator

def atEnd (c : Cursor) : Bool := c.rest.isEmpty || (c.column = 0 && startsMarker c.rest)

def startsEntry (c : Cursor) : Bool := c.startsWith '-' && startsBlank (c.rest.drop 1)

def startsValue (c : Cursor) : Bool := c.startsWith ':' && startsBlank (c.rest.drop 1)

/-- A key takes up at most this many characters of one line. -/
def maxKeyLength : Nat := 1024

/-- Whether what begins at `start` can be the key of a colon at `colon`. -/
def isKeyOf (start colon : Cursor) : Bool :=
  start.line = colon.line && colon.column ≤ start.column + maxKeyLength

end Cursor

end CurveMarket.Yaml
