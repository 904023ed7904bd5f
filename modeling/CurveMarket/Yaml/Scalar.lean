import CurveMarket.Text.Number
import CurveMarket.Value.Basic

/-!
# What a plain scalar stands for

A scalar without quotes may stand for nothing, a truth value, an integer or a fraction; every other
one is a text.
-/

namespace CurveMarket.Yaml

inductive Fault where
  | malformed
  /-- An integer with more digits than are read. -/
  | tooManyDigits (count : Nat)
deriving DecidableEq

def nullWords : List String := ["", "~", "null", "Null", "NULL"]

def trueWords : List String := ["yes", "Yes", "YES", "true", "True", "TRUE", "on", "On", "ON"]

def falseWords : List String := ["no", "No", "NO", "false", "False", "FALSE", "off", "Off", "OFF"]

def infinityWords : List String := [".inf", ".Inf", ".INF"]

def notANumberWords : List String := [".nan", ".NaN", ".NAN"]

def mergeWord : String := "<<"

/-- The key of the value that a mapping stands for where a scalar is expected. As a key it is a
text like others. -/
def valueWord : String := "="

def isDigitOf (radix : Nat) (c : Char) : Bool :=
  if radix ≤ 10 then '0' ≤ c && c.toNat < '0'.toNat + radix
  else c.isDigit || ('a' ≤ c && c ≤ 'f') || ('A' ≤ c && c ≤ 'F')

def digitValue (c : Char) : Nat :=
  if c.isDigit then c.toNat - '0'.toNat else c.toLower.toNat - 'a'.toNat + 10

def isNumeral (radix : Nat) (cs : List Char) : Bool :=
  !cs.isEmpty && cs.all fun c => c = '_' || isDigitOf radix c

def numeralValue (radix : Nat) (cs : List Char) : Nat :=
  (cs.filter (· ≠ '_')).foldl (fun n c => radix * n + digitValue c) 0

/-- Groups of digits to base sixty, each after a colon; every group has one or two digits. -/
def sexagesimal? (value : Nat) : List Char → Option Nat
  | [':', c] => if c.isDigit then some (60 * value + digitValue c) else none
  | ':' :: c :: ':' :: rest =>
    if c.isDigit then sexagesimal? (60 * value + digitValue c) (':' :: rest) else none
  | [':', c, d] =>
    if isDigitOf 6 c && d.isDigit then some (60 * value + (10 * digitValue c + digitValue d))
    else none
  | ':' :: c :: d :: rest =>
    if isDigitOf 6 c && d.isDigit then
      sexagesimal? (60 * value + (10 * digitValue c + digitValue d)) rest
    else none
  | _ => none

/-- The value of an integer without its sign. A leading zero announces another radix. -/
def magnitude? : List Char → Option Nat
  | [] => none
  | ['0'] => some 0
  | '0' :: 'b' :: cs => if isNumeral 2 cs then some (numeralValue 2 cs) else none
  | '0' :: 'x' :: cs => if isNumeral 16 cs then some (numeralValue 16 cs) else none
  | '0' :: cs => if isNumeral 8 cs then some (numeralValue 8 cs) else none
  | c :: cs =>
    if c.isDigit then
      let isPlain (d : Char) : Bool := d = '_' || d.isDigit
      let value := numeralValue 10 (c :: cs.takeWhile isPlain)
      match cs.dropWhile isPlain with
      | [] => some value
      | groups => sexagesimal? value groups
    else none

def integer? (cs : List Char) : Option Int :=
  let (negative, digits) := Binary64.splitSign cs
  (magnitude? digits).map fun n => if negative then -(n : Int) else n

def isPower : List Char → Bool
  | [] => true
  | mark :: sign :: digits =>
    (mark = 'e' || mark = 'E') && (sign = '+' || sign = '-') && !digits.isEmpty &&
      digits.all Char.isDigit
  | _ => false

/-- Digits, a point and more digits. A fraction that begins with the point has a digit after it and
no sign. -/
def isFraction (cs : List Char) : Bool :=
  let isPlain (d : Char) : Bool := d = '_' || d.isDigit
  let unsigned := (Binary64.splitSign cs).2
  match unsigned.takeWhile isPlain, unsigned.dropWhile isPlain with
  | [], '.' :: d :: rest =>
    cs.head? == some '.' && d.isDigit && isPower (rest.dropWhile isPlain)
  | d :: _, '.' :: rest => d.isDigit && isPower (rest.dropWhile isPlain)
  | _, _ => false

def fraction? (cs : List Char) : Option Binary64 :=
  let (negative, unsigned) := Binary64.splitSign cs
  if infinityWords.contains (String.ofList unsigned) then some (.infinite negative)
  else if notANumberWords.contains (String.ofList cs) then some .notANumber
  else if isFraction cs then Binary64.ofChars? (cs.filter (· ≠ '_'))
  else none

/-- Digits of an integer to base ten before its first colon. Other bases have no limit. -/
def decimalDigits (cs : List Char) : Nat :=
  match (Binary64.splitSign cs).2 with
  | '0' :: _ => 0
  | digits => ((digits.takeWhile fun d => d = '_' || d.isDigit).filter Char.isDigit).length

/-- The value of a plain scalar. A word that has its meaning as a key only is no value. -/
def plainValue (cs : List Char) : Except Fault Value :=
  let word := String.ofList cs
  if word = mergeWord || word = valueWord then .error .malformed
  else if nullWords.contains word then .ok .null
  else if trueWords.contains word then .ok (.bool true)
  else if falseWords.contains word then .ok (.bool false)
  else
    match integer? cs, fraction? cs with
    | some n, _ =>
      let digits := decimalDigits cs
      if Text.maxDigits < digits then .error (.tooManyDigits digits) else .ok (.int n)
    | none, some x => .ok (.real x)
    | none, none => .ok (.text (Text.ofChars cs))

end CurveMarket.Yaml
