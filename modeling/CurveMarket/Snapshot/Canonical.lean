import CurveMarket.Error.Basic
import CurveMarket.Value.Json

/-!
# Canonical bytes

Equal trees have equal bytes. A tree may hold nothing, truth values, integers, texts without
surrogates, lists and maps with text keys; anything else is refused with its path. So is an integer
that is too long to be written, wherever it has to be. Bytes that are to be hashed begin with a tag
that separates them by purpose and version.
-/

namespace CurveMarket.Snapshot

def checkText (path t : Text) : Except Error Unit :=
  if t.hasSurrogate then .error (.loneSurrogate path) else .ok ()

mutual

/-- Refuses the first value, in order, that has no canonical form. -/
def checkTree (path : Text) : Value → Except Error Unit
  | .null | .bool _ | .int _ => .ok ()
  | .text t => checkText path t
  | .list xs | .tuple xs => checkItems path 0 xs
  | .map es => checkEntries path es
  | .real x => .error (.notEncodable path (Value.real x).kindName)
  | .bytes bs => .error (.notEncodable path (Value.bytes bs).kindName)
  | .set xs => .error (.notEncodable path (Value.set xs).kindName)
  | .record kind => .error (.notEncodable path (Value.record kind).kindName)

def checkItems (path : Text) (i : Nat) : List Value → Except Error Unit
  | [] => .ok ()
  | x :: xs => do
    checkTree (path ++ "[" ++ Text.ofNat i ++ "]") x
    checkItems path (i + 1) xs

def checkEntries (path : Text) : List (Value × Value) → Except Error Unit
  | [] => .ok ()
  | (k, v) :: es => do
    match k with
    | .text t =>
      checkTree (path ++ "." ++ t) v
      checkText (path ++ "." ++ t) t
    | k => throw (.showing k (.keyNotText path k))
    checkEntries path es

end

def utf8Point (p : CodePoint) : List UInt8 :=
  let n := p.val
  if n < 0x80 then [n.toUInt8]
  else if n < 0x800 then [(0xC0 + n / 0x40).toUInt8, (0x80 + n % 0x40).toUInt8]
  else if n < 0x10000 then
    [(0xE0 + n / 0x1000).toUInt8, (0x80 + n / 0x40 % 0x40).toUInt8, (0x80 + n % 0x40).toUInt8]
  else
    [(0xF0 + n / 0x40000).toUInt8, (0x80 + n / 0x1000 % 0x40).toUInt8,
      (0x80 + n / 0x40 % 0x40).toUInt8, (0x80 + n % 0x40).toUInt8]

def utf8 (t : Text) : List UInt8 := t.points.flatMap utf8Point

def canonicalBytes (v : Value) : Except Error (List UInt8) := do
  checkTree "$" v
  if !v.isWritable then throw .figureTooLong
  pure (utf8 v.compact)

def tagPurpose : Text := "model-amm:"

def encodingVersion : Nat := 1

def isPlainLabel (t : Text) : Bool :=
  t.points.all fun p => 0 < p.val && p.val < 0x80 && p.val != 0x3A

/-- The tag of a label and a version, which ends with a zero byte. -/
def domainTag (label version : Value) : Except Error (List UInt8) := do
  let some l := label.text? | throw .labelMissing
  if l.isEmpty then throw .labelMissing
  if !isPlainLabel l then throw (.labelNotPlain l)
  let some v := version.int? | throw .versionNotPositive
  if v ≤ 0 then throw .versionNotPositive
  if !Text.isWritable v then throw .figureTooLong
  pure (utf8 (tagPurpose ++ l ++ ":v" ++ Text.ofInt v) ++ [0])

end CurveMarket.Snapshot
