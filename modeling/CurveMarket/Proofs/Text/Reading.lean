import Mathlib.Data.List.Forall2
import CurveMarket.Snapshot.Canonical

/-! # Writing that is read in one way

Words that stand in a row, with nothing between them, are told apart when none of them begins
another. The bytes of code points and the escapes of strings are such words: a reader finds the code
point whatever follows. The digits of a number end where something else than a digit stands.
-/

namespace CurveMarket

theorem Text.eq_of_points {s t : Text} (h : s.points = t.points) : s = t := by
  cases s
  cases t
  exact congrArg Text.mk h

section Words

variable {α β γ : Type} {write : α → List β}

/-! ## Words in a row -/

/-- No word stands at the front. -/
def Stops (write : α → List β) (rest : List β) : Prop := ∀ a x, write a ++ x ≠ rest

theorem rest_flatMap {Rest : List β → Prop} (hfollow : ∀ a x, Rest (write a ++ x))
    {r : List β} (hr : Rest r) (as : List α) : Rest (as.flatMap write ++ r) := by
  cases as with
  | nil => exact hr
  | cons a as =>
      rw [List.flatMap_cons, List.append_assoc]
      exact hfollow a _

/-- Two rows of words are alike, word by word, when each word is found in front of what may follow
it and both rows end where no word starts. -/
theorem forall₂_of_flatMap {R : α → α → Prop} (Rest : List β → Prop) {as bs : List α}
    {r s : List β} (hfollow : ∀ a x, Rest (write a ++ x)) (hr : Rest r) (hs : Rest s)
    (hstop : Stops write r) (hstop' : Stops write s)
    (hword : ∀ a ∈ as, ∀ b ∈ bs, ∀ x y, Rest x → Rest y → write a ++ x = write b ++ y →
      R a b ∧ x = y)
    (h : as.flatMap write ++ r = bs.flatMap write ++ s) : List.Forall₂ R as bs ∧ r = s := by
  induction as generalizing bs with
  | nil =>
      cases bs with
      | nil => exact ⟨.nil, h⟩
      | cons b bs =>
          rw [List.flatMap_cons, List.append_assoc] at h
          exact absurd h.symm (hstop b _)
  | cons a as ih =>
      rw [List.flatMap_cons, List.append_assoc] at h
      cases bs with
      | nil => exact absurd h (hstop' a _)
      | cons b bs =>
          rw [List.flatMap_cons, List.append_assoc] at h
          obtain ⟨hab, htail⟩ := hword a (List.mem_cons_self ..) b (List.mem_cons_self ..) _ _
            (rest_flatMap hfollow hr as) (rest_flatMap hfollow hs bs) h
          obtain ⟨hall, hrs⟩ := ih
            (fun a ha b hb => hword a (List.mem_cons_of_mem _ ha) b (List.mem_cons_of_mem _ hb))
            htail
          exact ⟨.cons hab hall, hrs⟩

/-- No word begins another. -/
def PrefixFree (write : α → List β) : Prop := ∀ a b, write a <+: write b → a = b

namespace PrefixFree

/-- What a reader sees of a row shows its first word. -/
theorem of_reader {number : α → γ} (hnumber : Function.Injective number) (read : List β → γ)
    (hread : ∀ a rest, read (write a ++ rest) = number a) : PrefixFree write := by
  intro a b hab
  obtain ⟨rest, hrest⟩ := hab
  have hb := hread b []
  rw [List.append_nil, ← hrest, hread a rest] at hb
  exact hnumber hb

theorem append_inj (hwrite : PrefixFree write) {a b : α} {r s : List β}
    (h : write a ++ r = write b ++ s) : a = b ∧ r = s := by
  have hab : a = b := by
    have ha : write a <+: write b ++ s := ⟨r, h⟩
    rcases List.prefix_or_prefix_of_prefix ha (List.prefix_append _ s) with hle | hle
    · exact hwrite a b hle
    · exact (hwrite b a hle).symm
  subst hab
  exact ⟨rfl, List.append_cancel_left h⟩

theorem flatMap_append_inj (hwrite : PrefixFree write) {as bs : List α} {r s : List β}
    (hstop : Stops write r) (hstop' : Stops write s)
    (h : as.flatMap write ++ r = bs.flatMap write ++ s) : as = bs ∧ r = s := by
  have hword : ∀ a ∈ as, ∀ b ∈ bs, ∀ x y, True → True → write a ++ x = write b ++ y →
      a = b ∧ x = y := fun _ _ _ _ _ _ _ _ => hwrite.append_inj
  obtain ⟨hall, hrs⟩ :=
    forall₂_of_flatMap (fun _ => True) (fun _ _ => trivial) trivial trivial hstop hstop' hword h
  rw [List.forall₂_eq_eq_eq] at hall
  exact ⟨hall, hrs⟩

end PrefixFree

theorem append_inj_of_kind {P : β → Bool} {a b r s : List β} (ha : ∀ x ∈ a, P x = true)
    (hb : ∀ x ∈ b, P x = true) (hr : r.takeWhile P = []) (hs : s.takeWhile P = [])
    (h : a ++ r = b ++ s) : a = b ∧ r = s := by
  have hfront := congrArg (List.takeWhile P) h
  rw [List.takeWhile_append_of_pos ha, List.takeWhile_append_of_pos hb, hr, hs, List.append_nil,
    List.append_nil] at hfront
  subst hfront
  exact ⟨rfl, List.append_cancel_left h⟩

end Words

/-! ## Bytes -/

namespace Snapshot

/-- The number that a leading part gives with some further bytes, six bits in each. -/
def readTail : Nat → Nat → List UInt8 → Nat
  | count + 1, n, b :: bytes => readTail count (n * 0x40 + b.toNat % 0x40) bytes
  | _, n, _ => n

def readPoint : List UInt8 → Nat
  | [] => 0
  | b :: bytes =>
    let n := b.toNat
    if n < 0x80 then n
    else if n < 0xE0 then readTail 1 (n - 0xC0) bytes
    else if n < 0xF0 then readTail 2 (n - 0xE0) bytes
    else readTail 3 (n - 0xF0) bytes

theorem readPoint_utf8Point (p : CodePoint) (rest : List UInt8) :
    readPoint (utf8Point p ++ rest) = p.val := by
  have hbound := p.isLt
  unfold utf8Point
  simp only
  split
  · simp only [readPoint, List.cons_append, Nat.toUInt8, UInt8.toNat_ofNat']
    rw [if_pos (by omega)]
    omega
  split
  · simp only [readPoint, readTail, List.cons_append, Nat.toUInt8, UInt8.toNat_ofNat']
    rw [if_neg (by omega), if_pos (by omega)]
    omega
  split
  · simp only [readPoint, readTail, List.cons_append, Nat.toUInt8, UInt8.toNat_ofNat']
    rw [if_neg (by omega), if_neg (by omega), if_pos (by omega)]
    omega
  · simp only [readPoint, readTail, List.cons_append, Nat.toUInt8, UInt8.toNat_ofNat']
    rw [if_neg (by omega), if_neg (by omega), if_neg (by omega)]
    omega

theorem prefixFree_utf8Point : PrefixFree utf8Point :=
  .of_reader (fun _ _ => Fin.ext) readPoint readPoint_utf8Point

theorem utf8Point_ne_nil (p : CodePoint) : utf8Point p ≠ [] := by
  unfold utf8Point
  simp only
  iterate 3
    split
    · exact List.cons_ne_nil _ _
  exact List.cons_ne_nil _ _

/-- Texts with the same bytes are the same, surrogates or not. -/
theorem utf8_injective : Function.Injective utf8 := by
  intro s t h
  have hstop : Stops utf8Point [] := fun p _ hp =>
    utf8Point_ne_nil p (List.append_eq_nil_iff.mp hp).1
  have hrows : s.points.flatMap utf8Point ++ [] = t.points.flatMap utf8Point ++ [] := by
    rw [List.append_nil, List.append_nil]
    exact h
  exact Text.eq_of_points (prefixFree_utf8Point.flatMap_append_inj hstop hstop hrows).1

/-- Only the code point zero has a zero byte. -/
theorem utf8Point_bytes_ne_zero {p : CodePoint} (hp : p.val ≠ 0) {b : UInt8}
    (hb : b ∈ utf8Point p) : b ≠ 0 := by
  have hbound := p.isLt
  have key : b.toNat ≠ 0 := by
    unfold utf8Point at hb
    simp only at hb
    split at hb
    · simp only [List.mem_singleton] at hb
      rw [hb, Nat.toUInt8, UInt8.toNat_ofNat']
      omega
    split at hb
    · simp only [List.mem_cons, List.not_mem_nil, or_false] at hb
      rcases hb with rfl | rfl <;> rw [Nat.toUInt8, UInt8.toNat_ofNat'] <;> omega
    split at hb
    · simp only [List.mem_cons, List.not_mem_nil, or_false] at hb
      rcases hb with rfl | rfl | rfl <;> rw [Nat.toUInt8, UInt8.toNat_ofNat'] <;> omega
    · simp only [List.mem_cons, List.not_mem_nil, or_false] at hb
      rcases hb with rfl | rfl | rfl | rfl <;> rw [Nat.toUInt8, UInt8.toNat_ofNat'] <;> omega
  intro hzero
  exact key (by rw [hzero]; rfl)

end Snapshot

/-! ## Strings -/

namespace Value

def readHexDigit (p : CodePoint) : Nat := if p.val < 0x3A then p.val - 0x30 else p.val - 0x57

def readEscaped : List CodePoint → Nat
  | [] => 0
  | p :: rest =>
    if p.val = 0x62 then 0x08
    else if p.val = 0x66 then 0x0C
    else if p.val = 0x6E then 0x0A
    else if p.val = 0x72 then 0x0D
    else if p.val = 0x74 then 0x09
    else if p.val = 0x75 then
      match rest with
      | _ :: _ :: high :: low :: _ => readHexDigit high * 0x10 + readHexDigit low
      | _ => 0
    else p.val

/-- The code point at the front of the inside of a string. -/
def readEscape : List CodePoint → Nat
  | [] => 0
  | p :: rest => if p.val = 0x5C then readEscaped rest else p.val

theorem readHexDigit_digitChar {d : Nat} (h : d < 0x10) :
    readHexDigit (CodePoint.ofChar (Nat.digitChar d)) = d := by
  revert d
  decide

theorem readEscape_escapePoint (p : CodePoint) (rest : List CodePoint) :
    readEscape (escapePoint p ++ rest) = p.val := by
  unfold escapePoint
  simp only
  -- The quote, the backslash and the five control characters that are escaped by a letter.
  iterate 7
    split
    · next h => exact h.symm
  split
  · next h =>
      show readHexDigit (CodePoint.ofChar (Nat.digitChar (p.val / 16))) * 0x10 +
        readHexDigit (CodePoint.ofChar (Nat.digitChar (p.val % 16))) = p.val
      rw [readHexDigit_digitChar (by omega), readHexDigit_digitChar (by omega)]
      omega
  · exact if_neg (by assumption)

theorem prefixFree_escapePoint : PrefixFree escapePoint :=
  .of_reader (fun _ _ => Fin.ext) readEscape readEscape_escapePoint

theorem stops_quote (rest : List CodePoint) :
    Stops escapePoint (CodePoint.ofChar '"' :: rest) := by
  intro p x h
  have hp := readEscape_escapePoint p x
  rw [h] at hp
  have hquote : p = CodePoint.ofChar '"' := Fin.ext hp.symm
  subst hquote
  exact absurd (List.cons.inj h).1 (by decide)

theorem points_jsonString (t : Text) :
    (jsonString t).points =
      CodePoint.ofChar '"' :: (t.points.flatMap escapePoint ++ [CodePoint.ofChar '"']) := rfl

theorem jsonString_append_inj {t u : Text} {r s : List CodePoint}
    (h : (jsonString t).points ++ r = (jsonString u).points ++ s) : t = u ∧ r = s := by
  rw [points_jsonString, points_jsonString, List.cons_append, List.cons_append, List.append_assoc,
    List.append_assoc] at h
  obtain ⟨hpoints, hrest⟩ := prefixFree_escapePoint.flatMap_append_inj (stops_quote r)
    (stops_quote s) (List.cons.inj h).2
  exact ⟨Text.eq_of_points hpoints, (List.cons.inj hrest).2⟩

end Value

/-! ## Numbers and the order of texts -/

namespace Text

theorem ofChar_injective : Function.Injective CodePoint.ofChar := by
  intro c d h
  have hval : c.val.toNat = d.val.toNat := congrArg (fun p : CodePoint => p.val) h
  exact Char.ext (UInt32.toNat_inj.mp hval)

theorem isDigit_ofChar {c : Char} (h : c.isDigit = true) : isDigit (CodePoint.ofChar c) = true := by
  have hrange : 0x30 ≤ c.toNat ∧ c.toNat ≤ 0x39 := by
    unfold Char.isDigit at h
    rw [Bool.and_eq_true, decide_eq_true_eq, decide_eq_true_eq] at h
    exact h
  unfold isDigit digit? digitZeros
  rw [List.find?_cons_of_pos]
  · rfl
  · show (decide (0x30 ≤ c.toNat) && decide (c.toNat < 0x3A)) = true
    rw [Bool.and_eq_true, decide_eq_true_eq, decide_eq_true_eq]
    omega

theorem isDigit_of_mem_ofNat {n : Nat} {p : CodePoint} (hp : p ∈ (ofNat n).points) :
    isDigit p = true := by
  obtain ⟨c, hc, rfl⟩ := List.mem_map.mp hp
  exact isDigit_ofChar (Nat.isDigit_of_mem_toDigits (by decide) (by decide) hc)

theorem ofNat_injective : Function.Injective ofNat := by
  intro m n h
  have hdigits : Nat.toDigits 10 m = Nat.toDigits 10 n :=
    List.map_injective_iff.mpr ofChar_injective (congrArg points h)
  rw [← Nat.ofDigitChars_ten_toDigits (n := m), hdigits, Nat.ofDigitChars_ten_toDigits]

/-- Digits are read up to what is no digit. -/
theorem ofNat_append_inj {m n : Nat} {r s : List CodePoint} (hr : r.takeWhile isDigit = [])
    (hs : s.takeWhile isDigit = []) (h : (ofNat m).points ++ r = (ofNat n).points ++ s) :
    m = n ∧ r = s := by
  obtain ⟨hpoints, hrest⟩ := append_inj_of_kind (fun _ => isDigit_of_mem_ofNat)
    (fun _ => isDigit_of_mem_ofNat) hr hs h
  exact ⟨ofNat_injective (eq_of_points hpoints), hrest⟩

/-- No natural number is written with a sign. -/
theorem ofNat_append_ne (n : Nat) (r s : List CodePoint) :
    (ofNat n).points ++ r ≠ CodePoint.ofChar '-' :: s := by
  intro h
  cases hpoints : (ofNat n).points with
  | nil => exact Nat.toDigits_ne_nil (List.map_eq_nil_iff.mp hpoints)
  | cons p ps =>
      rw [hpoints] at h
      have hp : isDigit p = true := isDigit_of_mem_ofNat (hpoints ▸ List.mem_cons_self ..)
      rw [(List.cons.inj h).1] at hp
      exact absurd hp (by decide)

theorem ofInt_append_inj {m n : Int} {r s : List CodePoint} (hr : r.takeWhile isDigit = [])
    (hs : s.takeWhile isDigit = []) (h : (ofInt m).points ++ r = (ofInt n).points ++ s) :
    m = n ∧ r = s := by
  cases m with
  | ofNat m =>
      cases n with
      | ofNat n =>
          obtain ⟨rfl, hrest⟩ := ofNat_append_inj hr hs h
          exact ⟨rfl, hrest⟩
      | negSucc n => exact absurd h (ofNat_append_ne m r _)
  | negSucc m =>
      cases n with
      | ofNat n => exact absurd h.symm (ofNat_append_ne n s _)
      | negSucc n =>
          obtain ⟨hmn, hrest⟩ := ofNat_append_inj hr hs (List.cons.inj h).2
          exact ⟨congrArg Int.negSucc (Nat.succ.inj hmn), hrest⟩

theorem ofInt_points_ne_zero {n : Int} {p : CodePoint} (hp : p ∈ (ofInt n).points) : p.val ≠ 0 := by
  have hdigit : ∀ n : Nat, p ∈ (ofNat n).points → p.val ≠ 0 := by
    intro n hmem hzero
    have hp := isDigit_of_mem_ofNat hmem
    rw [show p = 0 from Fin.ext hzero] at hp
    exact absurd hp (by decide)
  cases n with
  | ofNat n => exact hdigit n hp
  | negSucc n =>
      rcases List.mem_cons.mp hp with rfl | hmem
      · decide
      · exact hdigit (n + 1) hmem

theorem ofInt_injective : Function.Injective ofInt := by
  intro m n h
  exact (ofInt_append_inj rfl rfl (congrArg (·.points ++ []) h)).1

theorem lePoints_trans {ps qs rs : List CodePoint} (h : lePoints ps qs = true)
    (h' : lePoints qs rs = true) : lePoints ps rs = true := by
  induction ps generalizing qs rs with
  | nil => rfl
  | cons p ps ih =>
      cases qs with
      | nil => simp [lePoints] at h
      | cons q qs =>
          cases rs with
          | nil => simp [lePoints] at h'
          | cons r rs =>
              simp only [lePoints, Bool.or_eq_true, Bool.and_eq_true, decide_eq_true_eq,
                beq_iff_eq] at h h' ⊢
              rcases h with h | ⟨rfl, h⟩
              · rcases h' with h' | ⟨rfl, _⟩
                · exact Or.inl (Fin.lt_trans h h')
                · exact Or.inl h
              · rcases h' with h' | ⟨rfl, h'⟩
                · exact Or.inl h'
                · exact Or.inr ⟨rfl, ih h h'⟩

end Text

end CurveMarket
