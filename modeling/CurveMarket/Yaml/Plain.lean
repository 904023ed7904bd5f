import CurveMarket.Yaml.Cursor

/-!
# Scalars without quotes

A plain scalar ends where a comment, an indicator or a line of its surroundings begins. It may go
on over lines that are indented further than what it belongs to; inside brackets, over any line.
-/

namespace CurveMarket.Yaml

def isFlowIndicator (c : Char) : Bool := c = ',' || c = '[' || c = ']' || c = '\x7b' || c = '\x7d'

def isReserved (c : Char) : Bool :=
  isGap c || isFlowIndicator c || ['#', '&', '*', '!', '|', '>', '\'', '"', '%', '@', '\x60'].contains c

/-- Whether a plain scalar begins here. A dash, a question mark and a colon begin one when
something follows them, the latter two not inside brackets. -/
def startsPlain (inBrackets : Bool) : List Char → Bool
  | [] => false
  | c :: rest =>
    if c = '-' then !startsBlank rest
    else if c = '?' || c = ':' then !inBrackets && !startsBlank rest
    else !isReserved c

def endsAtColon (inBrackets : Bool) (cs : List Char) : Bool :=
  startsBlank cs || (inBrackets && cs.head?.any isFlowIndicator)

def plainChunk (inBrackets : Bool) : List Char → List Char
  | [] => []
  | c :: rest =>
    if isGap c || (c = ':' && endsAtColon inBrackets rest) ||
        (inBrackets && (isFlowIndicator c || c = '?')) then []
    else c :: plainChunk inBrackets rest

/-- The white space after a chunk, folded, and the place behind it; nothing if a document marker
follows. -/
def plainGap (c : Cursor) : Option (List Char × Cursor) :=
  let blanks := c.rest.takeWhile (· = ' ')
  let behind := c.advance blanks.length
  match behind.rest with
  | b :: rest =>
    if isBreak b then
      (blankLines (behind.line + 1) 0 rest).map fun r => (foldBreaks (b :: r.1), r.2)
    else some (blanks, behind)
  | [] => some (blanks, behind)

/-- The content from a cursor on, of so many chunks at most, and the place behind the last. Lines go
on from the column `margin`. -/
def plainChunks (inBrackets : Bool) (margin : Nat) : Nat → Cursor → List Char × Cursor
  | 0, c => ([], c)
  | chunks + 1, c =>
    let chunk := plainChunk inBrackets c.rest
    let behind := c.advance chunk.length
    match plainGap behind with
    | none => (chunk, behind)
    | some (gap, n) =>
      if gap.isEmpty || n.startsWith '#' || (!inBrackets && n.column < margin) ||
          (plainChunk inBrackets n.rest).isEmpty then (chunk, behind)
      else
        let r := plainChunks inBrackets margin chunks n
        (chunk ++ gap ++ r.1, r.2)

def plainScalar (inBrackets : Bool) (margin : Nat) (c : Cursor) : List Char × Cursor :=
  plainChunks inBrackets margin c.rest.length c

end CurveMarket.Yaml
