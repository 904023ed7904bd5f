import CurveMarket.Text.Basic

/-!
# Numbers of the 64-bit binary format

Fractions are never computed with; they are read, compared with integers and written. A decimal
is read as the nearest number of the format, a tie going to the even mantissa, and a number is
written with the fewest digits that are read as it. Powers are `Nat.pow`, which does not depend on
the instances in scope.
-/

namespace CurveMarket

/-- A number `± mantissa * 2 ^ exponent`, an infinity, or no number. -/
inductive Binary64 where
  | notANumber
  | infinite (negative : Bool)
  | finite (negative : Bool) (mantissa : Nat) (exponent : Int)
deriving DecidableEq

namespace Binary64

def minExponent : Int := -1074

def maxExponent : Int := 971

/-- A quotient rounded to the nearest integer, a tie to the even one. -/
def roundQuotient (num den : Nat) : Nat :=
  let q := num / den
  let r := num % den
  if den < 2 * r || (2 * r == den && q % 2 == 1) then q + 1 else q

def unscale (num den : Nat) (e : Int) : Nat × Nat :=
  if 0 ≤ e then (num, den * Nat.pow 2 e.toNat) else (num * Nat.pow 2 (-e).toNat, den)

/-- The number nearest to a fraction. -/
def ofFraction (negative : Bool) (num den : Nat) : Binary64 :=
  if num = 0 then .finite negative 0 minExponent
  else
    let guess : Int := (Nat.log2 num : Int) - Nat.log2 den - 52
    let (n, d) := unscale num den guess
    let e := max (if n / d < Nat.pow 2 52 then guess - 1 else guess) minExponent
    let (n, d) := unscale num den e
    let m := roundQuotient n d
    let (m, e) := if m = Nat.pow 2 53 then (Nat.pow 2 52, e + 1) else (m, e)
    if maxExponent < e then .infinite negative else .finite negative m e

def ofDecimal (negative : Bool) (digits : Nat) (exponent : Int) : Binary64 :=
  let magnitude : Int := (Nat.toDigits 10 digits).length + exponent
  if digits = 0 || magnitude < -400 then .finite negative 0 minExponent
  else if 400 < magnitude then .infinite negative
  else if 0 ≤ exponent then ofFraction negative (digits * Nat.pow 10 exponent.toNat) 1
  else ofFraction negative digits (Nat.pow 10 (-exponent).toNat)

def digitsValue (digits : List Char) : Nat :=
  digits.foldl (fun n c => 10 * n + (c.toNat - '0'.toNat)) 0

def splitSign : List Char → Bool × List Char
  | '-' :: rest => (true, rest)
  | '+' :: rest => (false, rest)
  | rest => (false, rest)

/-- The power of ten that ends a decimal: nothing, or an integer after the mark `e`. -/
def decimalExponent? : List Char → Option Int
  | [] => some 0
  | mark :: rest =>
    let (negative, digits) := splitSign rest
    if (mark = 'e' || mark = 'E') && !digits.isEmpty && digits.all Char.isDigit then
      some (if negative then -(digitsValue digits : Int) else digitsValue digits)
    else none

/-- The number nearest to a written decimal: a sign, digits with a point anywhere among them, and a
power of ten, of which the digits alone are required. -/
def ofChars? (cs : List Char) : Option Binary64 :=
  let (negative, cs) := splitSign cs
  let whole := cs.takeWhile Char.isDigit
  let rest := cs.dropWhile Char.isDigit
  let (fraction, rest) := match rest with
    | '.' :: r => (r.takeWhile Char.isDigit, r.dropWhile Char.isDigit)
    | r => ([], r)
  if whole.isEmpty && fraction.isEmpty then none
  else
    (decimalExponent? rest).map fun e =>
      ofDecimal negative (digitsValue (whole ++ fraction)) (e - fraction.length)

def isZero : Binary64 → Bool
  | .finite _ m _ => m == 0
  | _ => false

def equalsInt : Binary64 → Int → Bool
  | .finite negative m e, n =>
    let signed : Int := if negative then -(m : Int) else m
    if 0 ≤ e then signed * Nat.pow 2 e.toNat == n else signed == n * Nat.pow 2 (-e).toNat
  | _, _ => false

def ofInt (n : Int) : Binary64 := .finite (decide (n < 0)) n.natAbs 0

/-- A finite number as a multiple of `2 ^ e`, for `e` not above its exponent. -/
def multiple (negative : Bool) (mantissa : Nat) (exponent e : Int) : Int :=
  let scaled : Int := mantissa * Nat.pow 2 (exponent - e).toNat
  if negative then -scaled else scaled

def le : Binary64 → Binary64 → Bool
  | .notANumber, _ | _, .notANumber => false
  | .infinite true, _ | _, .infinite false => true
  | .infinite false, _ | _, .infinite true => false
  | .finite a m e, .finite b n f =>
    let common := min e f
    decide (multiple a m e common ≤ multiple b n f common)

/-- Equality of numbers: both zeros are equal, and what is no number equals nothing. -/
def equals : Binary64 → Binary64 → Bool
  | .finite a m e, .finite b n f =>
    (m == 0 && n == 0) || (a == b && m == n && (e == f))
  | .infinite a, .infinite b => a == b
  | _, _ => false

def scaleTen (num den : Nat) (t : Int) : Nat × Nat :=
  if 0 ≤ t then (num * Nat.pow 10 t.toNat, den) else (num, den * Nat.pow 10 (-t).toNat)

/-- The power of ten of the leading digit of a positive fraction. -/
def leadingPower (num den : Nat) : Int :=
  if den ≤ num then ((Nat.toDigits 10 (num / den)).length : Int) - 1
  else
    match (List.range 400).find? fun k => den ≤ num * Nat.pow 10 k with
    | some k => -(k : Int)
    | none => -400

/-- The digits and the power of ten of the shortest decimal that is read as
`mantissa * 2 ^ exponent`; of two such, the nearer. -/
def shortestDigits (mantissa : Nat) (exponent : Int) : Nat × Int :=
  let quarter : Nat × Nat := unscale 1 1 (2 - exponent)
  let below : Nat := if mantissa = Nat.pow 2 52 && minExponent < exponent then 1 else 2
  let low := (4 * mantissa - below) * quarter.1
  let high := (4 * mantissa + 2) * quarter.1
  let mid := 4 * mantissa * quarter.1
  let den := quarter.2
  let power := leadingPower mid den
  let inside (c : Nat) (t : Int) : Bool :=
    let (n, d) := scaleTen c 1 t
    if mantissa % 2 = 0 then low * d ≤ n * den && n * den ≤ high * d
    else low * d < n * den && n * den < high * d
  let attempt (k : Nat) : Option (Nat × Int) :=
    let t : Int := power - k + 1
    let (n, d) := scaleTen mid den (-t)
    let q := n / d
    let nearer := roundQuotient n d
    let other := if nearer = q then q + 1 else q
    if inside nearer t then some (nearer, t)
    else if inside other t then some (other, t)
    else none
  ((List.range 17).findSome? fun k => attempt (k + 1)).getD (0, 0)

def trimZeros (digits : List Char) (t : Int) : List Char × Int :=
  let kept := (digits.reverse.dropWhile (· == '0')).reverse
  (kept, t + ((digits.length - kept.length : Nat) : Int))

/-- A number is written by position while its point lies within sixteen digits after the first or
four zeros before it, else with a signed power of ten of two digits at least. -/
def render : Binary64 → Text
  | .notANumber => "nan"
  | .infinite negative => if negative then "-inf" else "inf"
  | .finite negative m e =>
    let sign : List Char := if negative then ['-'] else []
    if m = 0 then Text.ofChars (sign ++ ['0', '.', '0'])
    else
      let (n, t) := shortestDigits m e
      let (ds, t) := trimZeros (Nat.toDigits 10 n) t
      let point : Int := ds.length + t
      if -4 < point && point ≤ 16 then
        if point ≤ 0 then
          Text.ofChars (sign ++ ['0', '.'] ++ List.replicate (-point).toNat '0' ++ ds)
        else
          let whole := ds.take point.toNat ++ List.replicate (point.toNat - ds.length) '0'
          let rest := ds.drop point.toNat
          Text.ofChars (sign ++ whole ++ ['.'] ++ (if rest.isEmpty then ['0'] else rest))
      else
        let power := point - 1
        let powerDigits := Nat.toDigits 10 power.natAbs
        let padded := if powerDigits.length < 2 then '0' :: powerDigits else powerDigits
        let rest := ds.drop 1
        Text.ofChars (sign ++ ds.take 1 ++ (if rest.isEmpty then [] else '.' :: rest) ++
          ['e', if power < 0 then '-' else '+'] ++ padded)

end Binary64

end CurveMarket
