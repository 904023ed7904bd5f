import CurveMarket.Value.Display

/-! # Values as trees

What holds of a value and of everything inside it, which values have a place in a snapshot, and when
two of them say the same: lists and tuples are one kind, and maps are finite functions whatever the
order of their entries.
-/

namespace CurveMarket.Value

/-! ## Everything inside a value -/

/-- What a value holds directly. Keys belong to their map. -/
def children : Value → List Value
  | .list xs | .tuple xs | .set xs => xs
  | .map es => es.map (·.2)
  | _ => []

theorem sizeOf_lt_of_mem_children {c v : Value} (h : c ∈ v.children) : sizeOf c < sizeOf v := by
  cases v with
  | list xs | tuple xs | set xs =>
      have hmem : sizeOf c < sizeOf xs := List.sizeOf_lt_of_mem h
      simp only [list.sizeOf_spec, tuple.sizeOf_spec, set.sizeOf_spec]
      omega
  | map es =>
      obtain ⟨⟨k, c⟩, hmem, rfl⟩ := List.mem_map.mp h
      have hentry := List.sizeOf_lt_of_mem hmem
      simp only [Prod.mk.sizeOf_spec, map.sizeOf_spec] at hentry ⊢
      omega
  | null | bool _ | int _ | real _ | text _ | bytes _ | record _ => cases h

/-- What a value has as soon as everything it holds has it, every value has. -/
theorem tree_induction {P : Value → Prop} (step : ∀ v, (∀ c ∈ v.children, P c) → P v)
    (v : Value) : P v :=
  step v fun c _ => tree_induction step c
termination_by sizeOf v
decreasing_by exact sizeOf_lt_of_mem_children (by assumption)

/-- The value itself or one somewhere in it. -/
inductive Within (w : Value) : Value → Prop
  | self : Within w w
  | inside {c v : Value} (hc : c ∈ v.children) (h : Within w c) : Within w v

/-- A value has a property and so does everything in it. -/
def Everywhere (P : Value → Prop) (v : Value) : Prop := ∀ w, Within w v → P w

theorem everywhere_iff {P : Value → Prop} {v : Value} :
    Everywhere P v ↔ P v ∧ ∀ c ∈ v.children, Everywhere P c := by
  constructor
  · intro h
    exact ⟨h v .self, fun c hc w hw => h w (.inside hc hw)⟩
  · rintro ⟨hv, hchildren⟩ w hw
    cases hw with
    | self => exact hv
    | inside hc hw => exact hchildren _ hc w hw

/-! ## Values with a place in a snapshot -/

def isPlainText : Value → Bool
  | .text t => !t.hasSurrogate
  | _ => false

def isScalar : Value → Bool
  | .null | .bool _ | .int _ => true
  | .text t => !t.hasSurrogate
  | _ => false

/-- Whether a value has no place in a snapshot, apart from what is in it. -/
def isOffending : Value → Bool
  | .null | .bool _ | .int _ | .list _ | .tuple _ => false
  | .text t => t.hasSurrogate
  | .map es => es.any fun e => !e.1.isPlainText
  | .real _ | .bytes _ | .set _ | .record _ => true

def IsEncodable : Value → Prop := Everywhere fun w => w.isOffending = false

theorem isEncodable_iff {v : Value} :
    v.IsEncodable ↔ v.isOffending = false ∧ ∀ c ∈ v.children, c.IsEncodable := everywhere_iff

theorem not_isEncodable_iff {v : Value} :
    ¬ v.IsEncodable ↔ ∃ w, Within w v ∧ w.isOffending = true := by
  simp only [IsEncodable, Everywhere, Classical.not_forall, Bool.not_eq_false, exists_prop]

theorem isEncodable_map {es : List (Value × Value)} :
    (Value.map es).IsEncodable ↔ ∀ e ∈ es, e.1.isPlainText = true ∧ e.2.IsEncodable := by
  rw [isEncodable_iff]
  simp only [isOffending, children, List.any_eq_false, List.forall_mem_map, Bool.not_eq_true',
    Bool.not_eq_false]
  constructor
  · rintro ⟨hkeys, hvalues⟩ e he
    exact ⟨hkeys e he, hvalues e he⟩
  · intro h
    exact ⟨fun e he => (h e he).1, fun e he => (h e he).2⟩

theorem IsEncodable.textKeys {es : List (Value × Value)} (h : (Value.map es).IsEncodable) :
    ∀ e ∈ es, ∃ t, e.1 = .text t := by
  intro e he
  have hplain := (isEncodable_map.mp h e he).1
  cases hkey : e.1 with
  | text t => exact ⟨t, rfl⟩
  | _ =>
      rw [hkey] at hplain
      cases hplain

/-! ## Values that can be written -/

theorem areWritable_iff {xs : List Value} :
    areWritable xs = true ↔ ∀ x ∈ xs, x.isWritable = true := by
  induction xs with
  | nil => simp [areWritable]
  | cons x xs ih => simp [areWritable, ih]

theorem entriesWritable_iff {es : List (Value × Value)} :
    entriesWritable es = true ↔ ∀ e ∈ es, e.1.isWritable = true ∧ e.2.isWritable = true := by
  induction es with
  | nil => simp [entriesWritable]
  | cons e es ih => simp [entriesWritable, ih, and_assoc]

/-- No key of a map in the tree is too long to be shown. -/
def KeysWritable : Value → Prop :=
  Everywhere fun w => ∀ es, w = .map es → ∀ e ∈ es, e.1.isWritable = true

theorem keysWritable_iff {v : Value} :
    v.KeysWritable ↔ (∀ es, v = .map es → ∀ e ∈ es, e.1.isWritable = true) ∧
      ∀ c ∈ v.children, c.KeysWritable := everywhere_iff

theorem keysWritable_map {es : List (Value × Value)} :
    (Value.map es).KeysWritable ↔ ∀ e ∈ es, e.1.isWritable = true ∧ e.2.KeysWritable := by
  rw [keysWritable_iff]
  simp only [children, List.forall_mem_map]
  constructor
  · rintro ⟨hkeys, hvalues⟩ e he
    exact ⟨hkeys es rfl e he, hvalues e he⟩
  · rintro h
    refine ⟨?_, fun e he => (h e he).2⟩
    rintro _ ⟨⟩ e he
    exact (h e he).1

theorem keysWritable_of_isWritable {v : Value} (h : v.isWritable = true) : v.KeysWritable := by
  induction v using tree_induction with
  | step v ih =>
      cases v with
      | list xs | tuple xs | set xs =>
          exact keysWritable_iff.mpr ⟨nofun, fun c hc => ih c hc (areWritable_iff.mp h c hc)⟩
      | map es =>
          refine keysWritable_map.mpr fun e he => ?_
          obtain ⟨hkey, hvalue⟩ := entriesWritable_iff.mp h e he
          exact ⟨hkey, ih e.2 (List.mem_map_of_mem he) hvalue⟩
      | _ => exact keysWritable_iff.mpr ⟨nofun, nofun⟩

/-! ## Maps as finite functions -/

/-- No two entries have one key. -/
def KeysApart (entries : List (Value × Value)) : Prop :=
  entries.Pairwise fun d e => d.1.sameKey e.1 = false

/-- In every map of the tree the keys are apart, as in all maps that are built up by entries. -/
def IsProper : Value → Prop :=
  Everywhere fun w => ∀ es, w = .map es → KeysApart es

theorem isProper_iff {v : Value} :
    v.IsProper ↔ (∀ es, v = .map es → KeysApart es) ∧ ∀ c ∈ v.children, c.IsProper :=
  everywhere_iff

theorem mem_children_of_lookup {es : List (Value × Value)} {key x : Value}
    (h : lookup key es = some x) : x ∈ (map es).children := by
  induction es with
  | nil => cases h
  | cons e es ih =>
      unfold lookup at h
      split at h
      · obtain rfl := Option.some.inj h
        exact List.mem_cons_self ..
      · exact List.mem_cons_of_mem _ (ih h)

theorem text_sameKey {t : Text} {key : Value} :
    (Value.text t).sameKey key = true ↔ key = .text t := by
  cases key with
  | text u =>
      show (t == u) = true ↔ _
      rw [beq_iff_eq]
      constructor
      · rintro rfl
        rfl
      · intro h
        exact (text.inj h).symm
  | _ => simp [sameKey, asInt?]

/-- With text keys that are apart, the value under a key is that of the one entry with the key. -/
theorem lookup_eq_some {es : List (Value × Value)} (hkeys : ∀ e ∈ es, ∃ t, e.1 = .text t)
    (hapart : KeysApart es) {key x : Value} :
    lookup key es = some x ↔ ∃ t, key = .text t ∧ (Value.text t, x) ∈ es := by
  induction es with
  | nil => simp [lookup]
  | cons e es ih =>
      obtain ⟨k, y⟩ := e
      obtain ⟨s, hs⟩ := hkeys _ (List.mem_cons_self ..)
      obtain rfl : k = .text s := hs
      obtain ⟨hothers, hapart⟩ := List.pairwise_cons.mp hapart
      have hrest := ih (fun e he => hkeys e (List.mem_cons_of_mem _ he)) hapart
      unfold lookup
      split
      · next hsame =>
          obtain rfl := text_sameKey.mp hsame
          constructor
          · rintro ⟨⟩
            exact ⟨s, rfl, List.mem_cons_self ..⟩
          · rintro ⟨t, ht, hmem⟩
            rcases List.mem_cons.mp hmem with heq | htail
            · cases heq
              rfl
            · have hother := hothers _ htail
              rw [ht, text_sameKey.mpr rfl] at hother
              cases hother
      · next hdiffer =>
          rw [hrest]
          constructor
          · rintro ⟨t, ht, hmem⟩
            exact ⟨t, ht, List.mem_cons_of_mem _ hmem⟩
          · rintro ⟨t, ht, hmem⟩
            rcases List.mem_cons.mp hmem with heq | htail
            · cases heq
              exact absurd (text_sameKey.mpr ht) hdiffer
            · exact ⟨t, ht, htail⟩

/-! ## Values that say the same -/

def items? : Value → Option (List Value)
  | .list xs | .tuple xs => some xs
  | _ => none

/-- Equality of trees as JSON: lists and tuples are one kind, and a map is what it holds under each
key. -/
inductive SameJson : Value → Value → Prop
  | null : SameJson .null .null
  | bool (b : Bool) : SameJson (.bool b) (.bool b)
  | int (n : Int) : SameJson (.int n) (.int n)
  | text (t : Text) : SameJson (.text t) (.text t)
  | items {v w : Value} {xs ys : List Value} (hv : v.items? = some xs) (hw : w.items? = some ys)
      (hlength : xs.length = ys.length)
      (hitems : ∀ (i : Nat) x y, xs[i]? = some x → ys[i]? = some y → SameJson x y) : SameJson v w
  | map {es fs : List (Value × Value)}
      (hkeys : ∀ key, lookup key es = none ↔ lookup key fs = none)
      (hvalues : ∀ key x y, lookup key es = some x → lookup key fs = some y → SameJson x y) :
      SameJson (.map es) (.map fs)

namespace SameJson

protected theorem refl {v : Value} (h : v.IsEncodable) : SameJson v v := by
  induction v using tree_induction with
  | step v ih =>
      obtain ⟨hplain, hchildren⟩ := isEncodable_iff.mp h
      cases v with
      | null => exact .null
      | bool b => exact .bool b
      | int n => exact .int n
      | text t => exact .text t
      | list xs | tuple xs =>
          refine .items rfl rfl rfl fun i x y hx hy => ?_
          rw [hx] at hy
          obtain rfl := Option.some.inj hy
          have hmem := List.mem_of_getElem? hx
          exact ih x hmem (hchildren x hmem)
      | map es =>
          refine .map (fun _ => Iff.rfl) fun key x y hx hy => ?_
          rw [hx] at hy
          obtain rfl := Option.some.inj hy
          have hmem := mem_children_of_lookup hx
          exact ih x hmem (hchildren x hmem)
      | real _ | bytes _ | set _ | record _ => cases hplain

theorem symm {v w : Value} (h : SameJson v w) : SameJson w v := by
  induction h with
  | null => exact .null
  | bool b => exact .bool b
  | int n => exact .int n
  | text t => exact .text t
  | items hv hw hlength _ ih =>
      exact .items hw hv hlength.symm fun i y x hy hx => ih i x y hx hy
  | map hkeys _ ih => exact .map (fun key => (hkeys key).symm) fun key y x hy hx => ih key x y hx hy

theorem exists_map {es : List (Value × Value)} {w : Value} (h : SameJson (.map es) w) :
    ∃ fs, w = .map fs := by
  cases h with
  | items hv => cases hv
  | @map _ fs _ _ => exact ⟨fs, rfl⟩

theorem exists_lookup {es fs : List (Value × Value)} (h : SameJson (.map es) (.map fs))
    {key x : Value} (hx : lookup key es = some x) : ∃ y, lookup key fs = some y ∧ SameJson x y := by
  cases h with
  | items hv => cases hv
  | map hkeys hvalues =>
      cases hy : lookup key fs with
      | none =>
          rw [(hkeys key).mpr hy] at hx
          cases hx
      | some y => exact ⟨y, rfl, hvalues key x y hx hy⟩

theorem eq_of_isScalar {v w : Value} (h : SameJson v w) (hscalar : v.isScalar = true) : v = w := by
  cases h with
  | null | bool _ | int _ | text _ => rfl
  | items hv =>
      cases v with
      | list _ | tuple _ => cases hscalar
      | _ => cases hv
  | map => cases hscalar

theorem equalsInt_eq {v w : Value} (h : SameJson v w) (n : Int) :
    v.equalsInt n = w.equalsInt n := by
  have hitems : ∀ {v : Value} {xs}, v.items? = some xs → v.equalsInt n = false := by
    intro v xs hv
    cases v with
    | list _ | tuple _ => rfl
    | _ => cases hv
  cases h with
  | null | bool _ | int _ | text _ | map => rfl
  | items hv hw => rw [hitems hv, hitems hw]

theorem of_perm {es fs : List (Value × Value)} (hperm : es.Perm fs)
    (h : (Value.map es).IsEncodable) (hes : KeysApart es) (hfs : KeysApart fs) :
    SameJson (.map es) (.map fs) := by
  have hkeys : ∀ e ∈ fs, ∃ t, e.1 = .text t := fun e he => h.textKeys e (hperm.mem_iff.mpr he)
  have hlookup : ∀ key, lookup key es = lookup key fs := by
    intro key
    apply Option.ext
    intro x
    rw [lookup_eq_some h.textKeys hes, lookup_eq_some hkeys hfs]
    simp only [hperm.mem_iff]
  refine .map (fun key => by rw [hlookup key]) fun key x y hx hy => ?_
  rw [hlookup key, hy] at hx
  obtain rfl := Option.some.inj hx
  have hmem := mem_children_of_lookup (hlookup key ▸ hy)
  exact .refl ((isEncodable_iff.mp h).2 y hmem)

end SameJson

end CurveMarket.Value
