import CurveMarket.Text.Number
import CurveMarket.Text.Quoted
import CurveMarket.Value.Basic

/-!
# Values inside messages

`inspect` shows a value so that its kind can be told, with texts in quotes. `display` leaves a
text as it is and inspects everything else. A value can be shown, and written as JSON, as long as
no integer in it is too long to be written.
-/

namespace CurveMarket.Value

/-- Bytes in quotes, after a `b`. -/
def inspectBytes (bs : List UInt8) : Text :=
  let hasSingle := bs.contains 0x27
  let hasDouble := bs.contains 0x22
  let quote : Char := if hasSingle && !hasDouble then '"' else '\''
  let written (b : UInt8) : List Char :=
    let n := b.toNat
    if n = 0x5C then ['\\', '\\']
    else if n = quote.toNat then ['\\', quote]
    else if n = 0x0A then ['\\', 'n']
    else if n = 0x0D then ['\\', 'r']
    else if n = 0x09 then ['\\', 't']
    else if 0x20 ≤ n && n < 0x7F then [Char.ofNat n]
    else '\\' :: 'x' :: Text.hexDigits 2 n
  Text.ofChars (['b', quote] ++ bs.flatMap written ++ [quote])

mutual

def inspect : Value → Text
  | .null => "None"
  | .bool b => if b then "True" else "False"
  | .int n => Text.ofInt n
  | .real x => x.render
  | .text t => t.quoted
  | .bytes bs => inspectBytes bs
  | .list xs => "[" ++ Text.join ", " (inspectAll xs) ++ "]"
  | .tuple [x] => "(" ++ inspect x ++ ",)"
  | .tuple xs => "(" ++ Text.join ", " (inspectAll xs) ++ ")"
  | .set [] => "set()"
  | .set xs => "\x7b" ++ Text.join ", " (inspectAll xs) ++ "\x7d"
  | .map es => "\x7b" ++ Text.join ", " (inspectEntries es) ++ "\x7d"
  | .record kind => kindName (.record kind) ++ Text.ofString "()"

def inspectAll : List Value → List Text
  | [] => []
  | x :: xs => inspect x :: inspectAll xs

def inspectEntries : List (Value × Value) → List Text
  | [] => []
  | (k, v) :: es => (inspect k ++ ": " ++ inspect v) :: inspectEntries es

end

mutual

def isWritable : Value → Bool
  | .int n => Text.isWritable n
  | .list xs | .tuple xs | .set xs => areWritable xs
  | .map es => entriesWritable es
  | _ => true

def areWritable : List Value → Bool
  | [] => true
  | x :: xs => isWritable x && areWritable xs

def entriesWritable : List (Value × Value) → Bool
  | [] => true
  | (k, v) :: es => isWritable k && isWritable v && entriesWritable es

end

def display : Value → Text
  | .text t => t
  | v => inspect v

end CurveMarket.Value
