import CurveMarket.Text.Basic

/-!
# Reading integers

An integer is written as decimal digits of any script, with single underscores allowed between
digits, after an optional sign; blanks around it do not count. Numbers of more than `maxDigits`
digits are neither read nor written.
-/

namespace CurveMarket.Text

/-- The code points of the digit zero; the nine after each are its other digits. -/
def digitZeros : List Nat := [
    0x30, 0x660, 0x6f0, 0x7c0, 0x966, 0x9e6, 0xa66, 0xae6, 0xb66, 0xbe6, 0xc66, 0xce6, 0xd66,
    0xde6, 0xe50, 0xed0, 0xf20, 0x1040, 0x1090, 0x17e0, 0x1810, 0x1946, 0x19d0, 0x1a80, 0x1a90,
    0x1b50, 0x1bb0, 0x1c40, 0x1c50, 0xa620, 0xa8d0, 0xa900, 0xa9d0, 0xa9f0, 0xaa50, 0xabf0,
    0xff10, 0x104a0, 0x10d30, 0x11066, 0x110f0, 0x11136, 0x111d0, 0x112f0, 0x11450, 0x114d0,
    0x11650, 0x116c0, 0x11730, 0x118e0, 0x11950, 0x11c50, 0x11d50, 0x11da0, 0x16a60, 0x16ac0,
    0x16b50, 0x1d7ce, 0x1d7d8, 0x1d7e2, 0x1d7ec, 0x1d7f6, 0x1e140, 0x1e2f0, 0x1e950, 0x1fbf0]

def digit? (p : CodePoint) : Option Nat :=
  (digitZeros.find? fun z => z ≤ p.val && p.val < z + 10).map (p.val - ·)

def isDigit (p : CodePoint) : Bool := (digit? p).isSome

/-- White space. The separators of files, groups, records and units do not count as it. -/
def isBlank (p : CodePoint) : Bool :=
  let n := p.val
  (0x09 ≤ n && n ≤ 0x0D) || n == 0x20 || n == 0x85 || n == 0xA0 || n == 0x1680 ||
  (0x2000 ≤ n && n ≤ 0x200A) || n == 0x2028 || n == 0x2029 || n == 0x202F || n == 0x205F ||
  n == 0x3000

def trim (t : Text) : Text :=
  ⟨((t.points.dropWhile isBlank).reverse.dropWhile isBlank).reverse⟩

/-- Digits of a number at most, leading zeros included. -/
def maxDigits : Nat := 4300

def isWritable (n : Int) : Bool := (ofNat n.natAbs).points.length ≤ maxDigits

/-- The value of digits that follow a number read so far; an underscore needs a digit after it. -/
def readDigits (value : Nat) : List CodePoint → Option Nat
  | [] => some value
  | p :: rest =>
    match digit? p with
    | some d => readDigits (10 * value + d) rest
    | none =>
      if p = CodePoint.ofChar '_' then
        match rest with
        | q :: rest' =>
          match digit? q with
          | some d => readDigits (10 * value + d) rest'
          | none => none
        | [] => none
      else none

def readNat? : List CodePoint → Option Nat
  | [] => none
  | p :: rest =>
    match digit? p with
    | some d => readDigits d rest
    | none => none

def toInt? (t : Text) : Option Int :=
  if maxDigits < t.points.countP isDigit then none
  else match t.trim.points with
  | [] => none
  | p :: rest =>
    if p = CodePoint.ofChar '-' then (readNat? rest).map fun n => -(n : Int)
    else if p = CodePoint.ofChar '+' then (readNat? rest).map fun n => (n : Int)
    else (readNat? (p :: rest)).map fun n => (n : Int)

end CurveMarket.Text
