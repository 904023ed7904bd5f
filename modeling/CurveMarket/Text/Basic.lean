/-!
# Texts

A text is a list of code points in which surrogates may stand alone, so that every
identifier, label and document a caller can send has a value. Texts are ordered by
code point.
-/

namespace CurveMarket

/-- A code point, surrogates included. -/
abbrev CodePoint := Fin 0x110000

/-- A sequence of code points. -/
structure Text where
  points : List CodePoint
deriving DecidableEq

def CodePoint.ofChar (c : Char) : CodePoint :=
  ⟨c.toNat, by
    have h := c.valid
    simp only [UInt32.isValidChar, Nat.isValidChar] at h
    simp only [Char.toNat, UInt32.toNat] at h ⊢
    omega⟩

/-- A code point from the range that is reserved for pairs. -/
def CodePoint.isSurrogate (p : CodePoint) : Bool :=
  0xD800 ≤ p.val && p.val ≤ 0xDFFF

namespace Text

def ofChars (cs : List Char) : Text := ⟨cs.map CodePoint.ofChar⟩

def ofString (s : String) : Text := ofChars s.toList

instance : Coe String Text := ⟨ofString⟩

instance : Inhabited Text := ⟨⟨[]⟩⟩

def empty : Text := ⟨[]⟩

def isEmpty (t : Text) : Bool := t.points.isEmpty

def append (s t : Text) : Text := ⟨s.points ++ t.points⟩

instance : Append Text := ⟨append⟩

instance : HAppend String Text Text := ⟨fun s t => ofString s ++ t⟩

instance : HAppend Text String Text := ⟨fun s t => s ++ ofString t⟩

/-- The characters of a text that holds no surrogate. -/
def toChars? (t : Text) : Option (List Char) :=
  t.points.mapM fun p => if p.isSurrogate then none else some (Char.ofNat p.val)

def hasSurrogate (t : Text) : Bool := t.points.any CodePoint.isSurrogate

def join (separator : Text) : List Text → Text
  | [] => empty
  | [t] => t
  | t :: rest => t ++ separator ++ join separator rest

/-- Order by code point, a proper beginning first. -/
def lePoints : List CodePoint → List CodePoint → Bool
  | [], _ => true
  | _ :: _, [] => false
  | p :: ps, q :: qs => p < q || (p == q && lePoints ps qs)

def le (s t : Text) : Bool := lePoints s.points t.points

/-- Decimal digits of a natural number, without leading zeros. -/
def ofNat (n : Nat) : Text := ofChars (Nat.toDigits 10 n)

/-- Decimal digits of an integer, after a minus sign when it is negative. -/
def ofInt : Int → Text
  | .ofNat n => ofNat n
  | .negSucc n => "-" ++ ofNat (n + 1)

theorem points_append (s t : Text) : (s ++ t).points = s.points ++ t.points := rfl

theorem lePoints_total (ps qs : List CodePoint) :
    lePoints ps qs = true ∨ lePoints qs ps = true := by
  induction ps generalizing qs with
  | nil => exact Or.inl rfl
  | cons p ps ih =>
    cases qs with
    | nil => exact Or.inr rfl
    | cons q qs =>
      rcases Nat.lt_trichotomy p.val q.val with h | h | h
      · exact Or.inl (by simp [lePoints, Fin.lt_def, h])
      · have hpq : p = q := Fin.ext h
        subst hpq
        rcases ih qs with hle | hle
        · exact Or.inl (by simp [lePoints, hle])
        · exact Or.inr (by simp [lePoints, hle])
      · exact Or.inr (by simp [lePoints, Fin.lt_def, h])

theorem lePoints_antisymm {ps qs : List CodePoint}
    (h : lePoints ps qs = true) (h' : lePoints qs ps = true) : ps = qs := by
  induction ps generalizing qs with
  | nil => cases qs with
    | nil => rfl
    | cons q qs => simp [lePoints] at h'
  | cons p ps ih =>
    cases qs with
    | nil => simp [lePoints] at h
    | cons q qs =>
      simp only [lePoints, Bool.or_eq_true, Bool.and_eq_true, decide_eq_true_eq, beq_iff_eq] at h h'
      rcases h with h | ⟨rfl, h⟩
      · rcases h' with h' | ⟨rfl, _⟩
        · exact absurd (Fin.lt_trans h h') (by simp)
        · exact absurd h (by simp)
      · rcases h' with h' | ⟨_, h'⟩
        · exact absurd h' (by simp)
        · rw [ih h h']

end Text

end CurveMarket
