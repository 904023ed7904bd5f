import CurveMarket.Text.Printable

/-!
# Quoted texts

The form in which a text is named inside a message. It stands between single quotes, or between
double quotes when it holds a single and no double one. Inside, the backslash and the quote in use
are escaped, and every code point that is not printable is written by its number.
-/

namespace CurveMarket.Text

def hexDigits : Nat → Nat → List Char
  | 0, _ => []
  | width + 1, n => hexDigits width (n / 16) ++ [Nat.digitChar (n % 16)]

/-- The written form of one code point between the given quotes. -/
def quotedPoint (quote : Char) (p : CodePoint) : List CodePoint :=
  let escaped (cs : List Char) := ('\\' :: cs).map CodePoint.ofChar
  if p = CodePoint.ofChar '\\' then escaped ['\\']
  else if p = CodePoint.ofChar quote then escaped [quote]
  else if p = CodePoint.ofChar '\n' then escaped ['n']
  else if p = CodePoint.ofChar '\r' then escaped ['r']
  else if p = CodePoint.ofChar '\t' then escaped ['t']
  else if isPrintable p then [p]
  else if p.val < 0x100 then escaped ('x' :: hexDigits 2 p.val)
  else if p.val < 0x10000 then escaped ('u' :: hexDigits 4 p.val)
  else escaped ('U' :: hexDigits 8 p.val)

def quoteFor (t : Text) : Char :=
  if t.points.contains (CodePoint.ofChar '\'') && !t.points.contains (CodePoint.ofChar '"') then '"'
  else '\''

def quoted (t : Text) : Text :=
  let q := quoteFor t
  ⟨CodePoint.ofChar q :: (t.points.flatMap (quotedPoint q) ++ [CodePoint.ofChar q])⟩

end CurveMarket.Text
