import CurveMarket.Proofs.Check
import CurveMarket.Proofs.Value.Json

/-! # Canonical bytes

A tree has bytes unless something in it is out of place or too long to be written. What is out of
place is told by an error of one kind, as long as the keys of the tree can be shown. Trees have the
same bytes when they are the same as JSON, and only then.
-/

namespace CurveMarket.Snapshot

open Value

/-! ## What is refused -/

/-- A check passes when `P` holds and otherwise complains of a wrong type, or where `Q` does not
hold of a figure that is too long. -/
def Decides (P Q : Prop) : Except Error Unit → Prop
  | .ok _ => P
  | .error e => ¬ P ∧ (e.kind = .wrongType ∨ e = .figureTooLong ∧ ¬ Q)

theorem Decides.imp {P P' Q Q' : Prop} {v : Except Error Unit} (h : Decides P Q v) (hP : P ↔ P')
    (hQ : Q' → Q) : Decides P' Q' v := by
  cases v with
  | ok _ => exact hP.mp h
  | error e => exact ⟨fun hP' => h.1 (hP.mpr hP'), h.2.imp id fun hlong => ⟨hlong.1, mt hQ hlong.2⟩⟩

theorem Decides.and {P P' Q Q' : Prop} {v w : Except Error Unit} (hv : Decides P Q v)
    (hw : Decides P' Q' w) : Decides (P ∧ P') (Q ∧ Q') (v >>= fun _ => w) := by
  have hsecond : Q ∧ Q' → Q' := And.right
  cases v with
  | ok _ =>
      cases w with
      | ok _ => exact ⟨hv, hw⟩
      | error e => exact ⟨fun h => hw.1 h.2, hw.2.imp id fun hlong => ⟨hlong.1, mt hsecond hlong.2⟩⟩
  | error e => exact ⟨fun h => hv.1 h.1, hv.2.imp id fun hlong => ⟨hlong.1, mt And.left hlong.2⟩⟩

theorem decides_checkText (path t : Text) :
    Decides (t.hasSurrogate = false) True (checkText path t) := by
  unfold checkText
  cases h : t.hasSurrogate with
  | false => exact rfl
  | true => exact ⟨by decide, .inl rfl⟩

theorem decides_checkItems {xs : List Value}
    (h : ∀ x ∈ xs, ∀ path, Decides x.IsEncodable x.KeysWritable (checkTree path x)) (path : Text)
    (i : Nat) :
    Decides (∀ x ∈ xs, x.IsEncodable) (∀ x ∈ xs, x.KeysWritable) (checkItems path i xs) := by
  induction xs generalizing i with
  | nil => exact List.forall_mem_nil _
  | cons x xs ih =>
      refine .imp (.and (h x (List.mem_cons_self ..) _)
        (ih (fun y hy => h y (List.mem_cons_of_mem _ hy)) (i + 1))) ?_ ?_
      · rw [List.forall_mem_cons]
      · rw [List.forall_mem_cons]
        exact id

theorem decides_keyNotText {path : Text} {k x : Value} {es : List (Value × Value)}
    (hk : k.isPlainText = false) :
    Decides (∀ e ∈ (k, x) :: es, e.1.isPlainText = true ∧ e.2.IsEncodable)
      (∀ e ∈ (k, x) :: es, e.1.isWritable = true ∧ e.2.KeysWritable)
      (.error (.showing k (.keyNotText path k))) := by
  refine ⟨fun hall => ?_, ?_⟩
  · have hplain := (hall _ (List.mem_cons_self ..)).1
    rw [hk] at hplain
    cases hplain
  · unfold Error.showing
    split
    · exact .inl rfl
    · next hlong => exact .inr ⟨rfl, fun hall => hlong (hall _ (List.mem_cons_self ..)).1⟩

theorem decides_checkEntries {es : List (Value × Value)}
    (h : ∀ e ∈ es, ∀ path, Decides e.2.IsEncodable e.2.KeysWritable (checkTree path e.2))
    (path : Text) :
    Decides (∀ e ∈ es, e.1.isPlainText = true ∧ e.2.IsEncodable)
      (∀ e ∈ es, e.1.isWritable = true ∧ e.2.KeysWritable) (checkEntries path es) := by
  induction es with
  | nil => exact List.forall_mem_nil _
  | cons e es ih =>
      obtain ⟨k, x⟩ := e
      have hrest := ih fun e he => h e (List.mem_cons_of_mem _ he)
      have hx := h _ (List.mem_cons_self ..)
      cases k with
      | text t =>
          refine .imp (.and (hx (path ++ "." ++ t))
            (.and (decides_checkText (path ++ "." ++ t) t) hrest)) ?_ ?_
          · rw [List.forall_mem_cons]
            simp only [isPlainText, Bool.not_eq_true']
            exact ⟨fun ⟨hvalue, hkey, hrest⟩ => ⟨⟨hkey, hvalue⟩, hrest⟩,
              fun ⟨⟨hkey, hvalue⟩, hrest⟩ => ⟨hvalue, hkey, hrest⟩⟩
          · rw [List.forall_mem_cons]
            exact fun ⟨hentry, hrest⟩ => ⟨hentry.2, trivial, hrest⟩
      | _ => exact decides_keyNotText rfl

theorem decides_checkTree (v : Value) (path : Text) :
    Decides v.IsEncodable v.KeysWritable (checkTree path v) := by
  induction v using tree_induction generalizing path with
  | step v ih =>
      cases v with
      | null | bool _ | int _ => exact isEncodable_iff.mpr ⟨rfl, nofun⟩
      | text t =>
          refine (decides_checkText path t).imp ?_ fun _ => trivial
          rw [isEncodable_iff]
          exact ⟨fun h => ⟨h, nofun⟩, fun h => h.1⟩
      | list xs | tuple xs =>
          refine (decides_checkItems ih path 0).imp ?_ fun h => (keysWritable_iff.mp h).2
          rw [isEncodable_iff]
          exact ⟨fun h => ⟨rfl, h⟩, fun h => h.2⟩
      | map es =>
          exact (decides_checkEntries (fun e he => ih e.2 (List.mem_map_of_mem he)) path).imp
            isEncodable_map.symm keysWritable_map.mp
      | real _ | bytes _ | set _ | record _ =>
          exact ⟨fun h => Bool.noConfusion (isEncodable_iff.mp h).1, .inl rfl⟩

theorem canonicalBytes_eq_ok {v : Value} {b : List UInt8} :
    canonicalBytes v = .ok b ↔ v.IsEncodable ∧ v.isWritable = true ∧ utf8 v.compact = b := by
  unfold canonicalBytes
  have h := decides_checkTree v "$"
  cases hcheck : checkTree "$" v with
  | ok _ =>
      rw [hcheck] at h
      cases v.isWritable with
      | true =>
          show Except.ok (utf8 v.compact) = .ok b ↔ _
          rw [Except.ok.injEq]
          exact ⟨fun hb => ⟨h, rfl, hb⟩, fun hb => hb.2.2⟩
      | false => exact ⟨nofun, nofun⟩
  | error e =>
      rw [hcheck] at h
      exact ⟨nofun, fun hb => absurd hb.1 h.1⟩

/-- What is out of place is found before anything is written. -/
theorem canonicalBytes_eq_error {v : Value} {e : Error} (h : canonicalBytes v = .error e) :
    ¬ v.IsEncodable ∧ (e.kind = .wrongType ∨ e = .figureTooLong ∧ ¬ v.KeysWritable) ∨
      v.IsEncodable ∧ e = .figureTooLong ∧ v.isWritable = false := by
  unfold canonicalBytes at h
  have hdecides := decides_checkTree v "$"
  cases hcheck : checkTree "$" v with
  | ok _ =>
      rw [hcheck] at h hdecides
      cases hlong : v.isWritable with
      | true =>
          rw [hlong] at h
          cases h
      | false =>
          rw [hlong] at h
          cases h
          exact .inr ⟨hdecides, rfl, rfl⟩
  | error e' =>
      rw [hcheck] at h hdecides
      cases h
      exact .inl hdecides

theorem canonicalBytes_refused_iff {v : Value} :
    (∃ e, canonicalBytes v = .error e) ↔ ¬ (v.IsEncodable ∧ v.isWritable = true) := by
  cases hbytes : canonicalBytes v with
  | ok b =>
      obtain ⟨hencodable, hwritable, -⟩ := canonicalBytes_eq_ok.mp hbytes
      exact ⟨nofun, fun hout => absurd ⟨hencodable, hwritable⟩ hout⟩
  | error e =>
      refine ⟨fun _ hin => ?_, fun _ => ⟨e, rfl⟩⟩
      have hok := canonicalBytes_eq_ok.mpr ⟨hin.1, hin.2, rfl⟩
      cases hbytes.symm.trans hok

/-! ## What the bytes tell -/

/-- An encoding is refused when something in the tree has no place there or is too long to be
written. A tree whose keys can all be shown is refused for a wrong type exactly when something has
no place in it, and every other refusal is of a figure. Trees that are encoded have the same bytes
exactly when they are the same as JSON. -/
theorem canonicalBytes_exact_but_for_long_keys (v : Value) :
    (v.KeysWritable → ((∃ e, canonicalBytes v = .error e ∧ e.kind = .wrongType) ↔
      ∃ w, Value.Within w v ∧ w.isOffending = true)) ∧
    ((∃ e, canonicalBytes v = .error e) ↔
      (∃ w, Value.Within w v ∧ w.isOffending = true) ∨ v.isWritable = false) ∧
    (∀ e, canonicalBytes v = .error e → e.kind = .wrongType ∨
      e = .figureTooLong ∧ v.isWritable = false) ∧
    ∀ w b c, v.IsProper → w.IsProper → canonicalBytes v = .ok b → canonicalBytes w = .ok c →
      (b = c ↔ SameJson v w) := by
  refine ⟨fun hkeys => ?_, ?_, fun e he => ?_, ?_⟩
  · rw [← not_isEncodable_iff]
    constructor
    · rintro ⟨e, he, hkind⟩
      rcases canonicalBytes_eq_error he with ⟨hout, -⟩ | ⟨-, rfl, -⟩
      · exact hout
      · cases hkind
    · intro hout
      obtain ⟨e, he⟩ := canonicalBytes_refused_iff.mpr fun h => hout h.1
      rcases canonicalBytes_eq_error he with ⟨-, hkind | ⟨-, hlong⟩⟩ | ⟨hencodable, -⟩
      · exact ⟨e, he, hkind⟩
      · exact absurd hkeys hlong
      · exact absurd hencodable hout
  · rw [canonicalBytes_refused_iff, not_and_or, not_isEncodable_iff, Bool.not_eq_true]
  · rcases canonicalBytes_eq_error he with ⟨-, hkind | ⟨hfigure, hlong⟩⟩ | ⟨-, hfigure⟩
    · exact .inl hkind
    · exact .inr ⟨hfigure, Bool.eq_false_iff.mpr (mt keysWritable_of_isWritable hlong)⟩
    · exact .inr hfigure
  · intro w b c hv hw hb hc
    obtain ⟨hencodable, -, rfl⟩ := canonicalBytes_eq_ok.mp hb
    obtain ⟨hencodable', -, rfl⟩ := canonicalBytes_eq_ok.mp hc
    rw [utf8_injective.eq_iff, compact_eq_iff ⟨hencodable, hv⟩ ⟨hencodable', hw⟩]

def sampleEntries : List (Value × Value) := [(.text "b", .int 1), (.text "a", .null)]

theorem isProper_of_sampleEntries {es : List (Value × Value)} (h : es.Perm sampleEntries)
    (hes : KeysApart es) : (Value.map es).IsProper := by
  have hvalues : ∀ c ∈ sampleEntries.map (·.2), c.IsSnapshot := by
    simp only [sampleEntries, List.map_cons, List.forall_mem_cons]
    exact ⟨isSnapshot_of_isScalar rfl, isSnapshot_of_isScalar rfl, List.forall_mem_nil _⟩
  refine isProper_iff.mpr ⟨?_, fun c hc => (hvalues c ((h.map (·.2)).mem_iff.mp hc)).proper⟩
  rintro _ ⟨⟩
  exact hes

theorem isEncodable_sampleEntries : (Value.map sampleEntries).IsEncodable :=
  decides_checkTree (.map sampleEntries) "$"

theorem canonicalBytes_exact_for_samples :
    (∃ b, canonicalBytes (.map sampleEntries) = .ok b ∧
      canonicalBytes (.map sampleEntries.reverse) = .ok b) ∧
    ¬ SameJson (.bool true) (.int 1) ∧
    (∃ e, canonicalBytes (.tuple [.text "a", .set []]) = .error e ∧ e.kind = .wrongType) := by
  have hbytes (v : Value) := (canonicalBytes_exact_but_for_long_keys v).2.2.2
  refine ⟨?_, ?_, ?_⟩
  · have hapart : KeysApart sampleEntries := by
      unfold KeysApart
      decide
    have hapart' : KeysApart sampleEntries.reverse := by
      unfold KeysApart
      decide
    have hperm := List.reverse_perm sampleEntries
    have hsame := SameJson.of_perm hperm.symm isEncodable_sampleEntries hapart hapart'
    have hok : canonicalBytes (.map sampleEntries) = .ok _ :=
      canonicalBytes_eq_ok.mpr ⟨isEncodable_sampleEntries, by decide +kernel, rfl⟩
    have hok' : canonicalBytes (.map sampleEntries.reverse) = .ok _ :=
      canonicalBytes_eq_ok.mpr ⟨decides_checkTree (.map sampleEntries.reverse) "$",
        by decide +kernel, rfl⟩
    refine ⟨_, hok, ?_⟩
    rw [(hbytes _ _ _ _ (isProper_of_sampleEntries (.refl _) hapart)
      (isProper_of_sampleEntries hperm hapart') hok hok').mpr hsame]
    exact hok'
  · intro hsame
    have hbool : (Value.bool true).IsSnapshot := isSnapshot_of_isScalar rfl
    have hint : (Value.int 1).IsSnapshot := isSnapshot_of_isScalar rfl
    have hok : canonicalBytes (.bool true) = .ok _ :=
      canonicalBytes_eq_ok.mpr ⟨hbool.encodable, rfl, rfl⟩
    have hok' : canonicalBytes (.int 1) = .ok _ :=
      canonicalBytes_eq_ok.mpr ⟨hint.encodable, rfl, rfl⟩
    exact absurd ((hbytes _ _ _ _ hbool.proper hint.proper hok hok').mpr hsame) (by decide)
  · have hrefused := (canonicalBytes_exact_but_for_long_keys (.tuple [.text "a", .set []])).1
    refine (hrefused (keysWritable_of_isWritable rfl)).mpr ⟨.set [], ?_, rfl⟩
    exact .inside (List.mem_cons_of_mem _ (List.mem_cons_self ..)) .self

/-- The integer that is written as a one and so many zeros. -/
def oneAndZeros (k : Nat) : Int := Int.ofNat (Nat.pow 10 k)

theorem not_isWritable_oneAndZeros {k : Nat} (h : Text.maxDigits ≤ k) :
    Text.isWritable (oneAndZeros k) = false := by
  have hdigits : ¬ (Nat.toDigits 10 (Nat.pow 10 k)).length ≤ Text.maxDigits := by
    rw [Nat.length_toDigits_le_iff (by decide) (by decide), Nat.not_lt]
    exact Nat.pow_le_pow_right (by decide) h
  rw [← List.length_map] at hdigits
  exact decide_eq_false hdigits

/-- An integer has no place as a key. What it is refused for is its length, though, when it has too
many digits to be shown. -/
theorem canonicalBytes_long_key {n : Int} (h : Text.isWritable n = false) (v : Value) :
    canonicalBytes (.map [(.int n, v)]) = .error .figureTooLong := by
  have hshown : (Value.int n).isWritable = false := h
  simp only [canonicalBytes, checkTree, checkEntries, Error.showing, hshown]
  rfl

theorem long_key_refused_for_its_length :
    (Value.map [(.int (oneAndZeros 5000), .int 1)]).isOffending = true ∧
      canonicalBytes (.map [(.int (oneAndZeros 5000), .int 1)]) = .error .figureTooLong ∧
      Error.figureTooLong.kind ≠ .wrongType :=
  ⟨rfl, canonicalBytes_long_key (not_isWritable_oneAndZeros (by decide)) _, by decide⟩

end CurveMarket.Snapshot
