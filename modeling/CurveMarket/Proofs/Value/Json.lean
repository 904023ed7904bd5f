import Mathlib.Data.List.Nodup
import CurveMarket.Proofs.Text.Reading
import CurveMarket.Proofs.Value.Tree

/-! # Equal texts mean equal trees

The text of a tree is read in one way, whatever follows it, as long as no digit follows a number.
Its first mark shows the kind of value, each part is read up to the mark that ends it, and the
entries of a map stand in the one order of their keys.
-/

namespace CurveMarket

theorem Text.points_join_cons (separator t : Text) (ts : List Text) :
    (join separator (t :: ts)).points =
      t.points ++ ts.flatMap fun u => separator.points ++ u.points := by
  induction ts generalizing t with
  | nil => exact (List.append_nil _).symm
  | cons u ts ih =>
      show (t.points ++ separator.points) ++ (join separator (u :: ts)).points = _
      rw [ih u, List.flatMap_cons]
      simp only [List.append_assoc]

namespace Value

/-! ## The first mark -/

/-- The kinds of value that a text can begin. -/
inductive JsonKind where
  | null
  | bool
  | number
  | string
  | array
  | object

def jsonKind? : Value → Option JsonKind
  | .null => some .null
  | .bool _ => some .bool
  | .int _ => some .number
  | .text _ => some .string
  | .list _ | .tuple _ => some .array
  | .map _ => some .object
  | _ => none

def JsonKind.ofPoint? (p : CodePoint) : Option JsonKind :=
  if p = CodePoint.ofChar '-' ∨ Text.isDigit p = true then some .number
  else if p = CodePoint.ofChar 'n' then some .null
  else if p = CodePoint.ofChar 't' ∨ p = CodePoint.ofChar 'f' then some .bool
  else if p = CodePoint.ofChar '"' then some .string
  else if p = CodePoint.ofChar '[' then some .array
  else if p = CodePoint.ofChar '\x7b' then some .object
  else none

theorem exists_jsonKind {v : Value} (h : v.IsEncodable) : ∃ k, v.jsonKind? = some k := by
  have hplain := (isEncodable_iff.mp h).1
  cases v with
  | real _ | bytes _ | set _ | record _ => cases hplain
  | _ => exact ⟨_, rfl⟩

theorem exists_first_of_int (n : Int) :
    ∃ p ps, (Text.ofInt n).points = p :: ps ∧ JsonKind.ofPoint? p = some .number := by
  cases n with
  | negSucc n => exact ⟨_, _, rfl, rfl⟩
  | ofNat n =>
      cases hpoints : (Text.ofNat n).points with
      | nil => exact absurd (List.map_eq_nil_iff.mp hpoints) Nat.toDigits_ne_nil
      | cons p ps =>
          have hdigit : Text.isDigit p = true :=
            Text.isDigit_of_mem_ofNat (hpoints ▸ List.mem_cons_self ..)
          exact ⟨p, ps, hpoints, if_pos (Or.inr hdigit)⟩

theorem exists_first {v : Value} {k : JsonKind} (h : v.jsonKind? = some k) :
    ∃ p ps, (compact v).points = p :: ps ∧ JsonKind.ofPoint? p = some k := by
  cases v with
  | real _ | bytes _ | set _ | record _ => cases h
  | int n =>
      obtain rfl := Option.some.inj h
      exact exists_first_of_int n
  | bool b =>
      obtain rfl := Option.some.inj h
      cases b <;> exact ⟨_, _, rfl, rfl⟩
  | null | text _ | list _ | tuple _ | map _ =>
      obtain rfl := Option.some.inj h
      exact ⟨_, _, rfl, rfl⟩

def JsonKind.Shape (v : Value) : JsonKind → Prop
  | .null => v = .null
  | .bool => ∃ b, v = .bool b
  | .number => ∃ n, v = .int n
  | .string => ∃ t, v = .text t
  | .array => ∃ xs, v.items? = some xs
  | .object => ∃ es, v = .map es

theorem shape_of_jsonKind {v : Value} {k : JsonKind} (h : v.jsonKind? = some k) : k.Shape v := by
  cases v with
  | real _ | bytes _ | set _ | record _ => cases h
  | null =>
      obtain rfl := Option.some.inj h
      exact rfl
  | bool _ | int _ | text _ | list _ | tuple _ | map _ =>
      obtain rfl := Option.some.inj h
      exact ⟨_, rfl⟩

/-- Values whose texts begin alike are of one kind. -/
theorem jsonKind_eq {v w : Value} {k l : JsonKind} (hv : v.jsonKind? = some k)
    (hw : w.jsonKind? = some l) {r s : List CodePoint}
    (h : (compact v).points ++ r = (compact w).points ++ s) : k = l := by
  obtain ⟨p, ps, hpoints, hp⟩ := exists_first hv
  obtain ⟨q, qs, hpoints', hq⟩ := exists_first hw
  rw [hpoints, hpoints'] at h
  rw [(List.cons.inj h).1, hq] at hp
  exact (Option.some.inj hp).symm

theorem children_of_items {v : Value} {xs : List Value} (h : v.items? = some xs) :
    v.children = xs := by
  cases v with
  | list ys | tuple ys => exact Option.some.inj h
  | _ => cases h

/-! ## Parts between marks -/

/-- Points before which a number ends. -/
def EndsNumber (rest : List CodePoint) : Prop := rest.takeWhile Text.isDigit = []

theorem endsNumber_cons {p : CodePoint} (h : Text.isDigit p = false) (rest : List CodePoint) :
    EndsNumber (p :: rest) := List.takeWhile_cons_of_neg (by rw [h]; decide)

/-- Texts with commas between them, up to the mark that closes them. -/
theorem forall₂_of_join {α : Type} {write : α → Text} {R : α → α → Prop} {as bs : List α}
    {close : CodePoint} {r s : List CodePoint} (hdigit : Text.isDigit close = false)
    (hcomma : CodePoint.ofChar ',' ≠ close)
    (hopen : ∀ a, a ∈ as ∨ a ∈ bs → ∀ x y, (write a).points ++ x ≠ close :: y)
    (hword : ∀ a ∈ as, ∀ b ∈ bs, ∀ x y, EndsNumber x → EndsNumber y →
      (write a).points ++ x = (write b).points ++ y → R a b ∧ x = y)
    (h : (Text.join "," (as.map write)).points ++ close :: r =
      (Text.join "," (bs.map write)).points ++ close :: s) : List.Forall₂ R as bs ∧ r = s := by
  have hclosed : ∀ x, EndsNumber (close :: x) := endsNumber_cons hdigit
  -- After the first text, each one stands behind its comma.
  let further (a : α) : List CodePoint := CodePoint.ofChar ',' :: (write a).points
  have hjoin : ∀ a (cs : List α), (Text.join "," ((a :: cs).map write)).points =
      (write a).points ++ cs.flatMap further := by
    intro a cs
    rw [List.map_cons, Text.points_join_cons, List.flatMap_map]
    rfl
  have hfollow : ∀ a x, EndsNumber (further a ++ x) := fun _ _ => endsNumber_cons (by decide) _
  have hstop : ∀ x, Stops further (close :: x) := by
    intro x a y hy
    exact hcomma (List.cons.inj hy).1
  cases as with
  | nil =>
      cases bs with
      | nil => exact ⟨.nil, (List.cons.inj h).2⟩
      | cons b bs =>
          rw [hjoin, List.append_assoc] at h
          exact absurd h.symm (hopen b (Or.inr (List.mem_cons_self ..)) _ _)
  | cons a as =>
      rw [hjoin, List.append_assoc] at h
      cases bs with
      | nil => exact absurd h (hopen a (Or.inl (List.mem_cons_self ..)) _ _)
      | cons b bs =>
          rw [hjoin, List.append_assoc] at h
          obtain ⟨hab, htail⟩ := hword a (List.mem_cons_self ..) b (List.mem_cons_self ..) _ _
            (rest_flatMap hfollow (hclosed r) as) (rest_flatMap hfollow (hclosed s) bs) h
          obtain ⟨hall, hrest⟩ := forall₂_of_flatMap EndsNumber hfollow (hclosed r) (hclosed s)
            (hstop r) (hstop s)
            (fun c hc d hd x y hx hy hcd => hword c (List.mem_cons_of_mem _ hc) d
              (List.mem_cons_of_mem _ hd) x y hx hy (List.cons.inj hcd).2) htail
          exact ⟨.cons hab hall, (List.cons.inj hrest).2⟩

/-! ## Items and entries -/

theorem compactAll_eq_map (xs : List Value) : compactAll xs = xs.map compact := by
  induction xs with
  | nil => rfl
  | cons x xs ih => rw [compactAll, ih, List.map_cons]

theorem compactEntries_eq_map (es : List (Value × Value)) :
    compactEntries es = es.map fun e => (keyText e.1, compact e.2) := by
  induction es with
  | nil => rfl
  | cons e es ih => rw [compactEntries, ih, List.map_cons]

theorem compact_of_items {v : Value} {xs : List Value} (h : v.items? = some xs) :
    compact v = "[" ++ Text.join "," (xs.map compact) ++ "]" := by
  cases v with
  | list ys | tuple ys =>
      obtain rfl := Option.some.inj h
      rw [compact, compactAll_eq_map]
  | _ => cases h

def sortedEntries (es : List (Value × Value)) : List (Text × Value) :=
  sortByKey (es.map fun e => (keyText e.1, e.2))

def entryText (e : Text × Value) : Text := jsonString e.1 ++ ":" ++ compact e.2

/-- Sorting looks at keys alone, so values may be written before or after. -/
theorem sortByKey_compactEntries (es : List (Value × Value)) :
    sortByKey (compactEntries es) = (sortedEntries es).map fun e => (e.1, compact e.2) := by
  unfold sortedEntries sortByKey
  rw [List.map_mergeSort (r := fun a b => a.1.le b.1) (s := fun a b => a.1.le b.1)
    (f := fun e : Text × Value => (e.1, compact e.2)) (fun _ _ _ _ => rfl), List.map_map,
    compactEntries_eq_map]
  rfl

theorem compact_map (es : List (Value × Value)) :
    compact (.map es) = "\x7b" ++ Text.join "," ((sortedEntries es).map entryText) ++ "\x7d" := by
  rw [compact, sortByKey_compactEntries, List.map_map]
  rfl

theorem mem_sortedEntries {es : List (Value × Value)} (hkeys : ∀ e ∈ es, ∃ t, e.1 = .text t)
    {t : Text} {x : Value} : (t, x) ∈ sortedEntries es ↔ (Value.text t, x) ∈ es := by
  unfold sortedEntries sortByKey
  rw [(List.mergeSort_perm _ _).mem_iff, List.mem_map]
  constructor
  · rintro ⟨⟨k, y⟩, hmem, heq⟩
    obtain ⟨u, hu⟩ := hkeys _ hmem
    obtain rfl : k = .text u := hu
    cases heq
    exact hmem
  · intro hmem
    exact ⟨_, hmem, rfl⟩

/-! ## Trees of a snapshot -/

/-- A tree that may stand in a snapshot. -/
structure IsSnapshot (v : Value) : Prop where
  encodable : v.IsEncodable
  proper : v.IsProper

theorem IsSnapshot.child {c v : Value} (h : v.IsSnapshot) (hc : c ∈ v.children) :
    c.IsSnapshot :=
  ⟨(isEncodable_iff.mp h.encodable).2 c hc, (isProper_iff.mp h.proper).2 c hc⟩

theorem isSnapshot_of_isScalar {v : Value} (h : v.isScalar = true) : v.IsSnapshot := by
  cases v with
  | null | bool _ | int _ =>
      exact ⟨isEncodable_iff.mpr ⟨rfl, nofun⟩, isProper_iff.mpr ⟨nofun, nofun⟩⟩
  | text t =>
      have hplain : (text t).isOffending = false := (Bool.not_eq_true' _).mp h
      exact ⟨isEncodable_iff.mpr ⟨hplain, nofun⟩, isProper_iff.mpr ⟨nofun, nofun⟩⟩
  | _ => cases h

theorem mem_children_of_sorted {es : List (Value × Value)} (h : (map es).IsSnapshot)
    {e : Text × Value} (he : e ∈ sortedEntries es) : e.2 ∈ (map es).children :=
  List.mem_map.mpr ⟨_, (mem_sortedEntries h.encodable.textKeys).mp he, rfl⟩

theorem lookup_eq_some_iff_sorted {es : List (Value × Value)} (h : (map es).IsSnapshot)
    {key x : Value} : lookup key es = some x ↔ ∃ t, key = .text t ∧ (t, x) ∈ sortedEntries es := by
  rw [lookup_eq_some h.encodable.textKeys ((isProper_iff.mp h.proper).1 es rfl)]
  constructor
  · rintro ⟨t, ht, hmem⟩
    exact ⟨t, ht, (mem_sortedEntries h.encodable.textKeys).mpr hmem⟩
  · rintro ⟨t, ht, hmem⟩
    exact ⟨t, ht, (mem_sortedEntries h.encodable.textKeys).mp hmem⟩

/-! ## From texts to trees -/

/-- The text of a value is read in front of whatever ends a number. -/
def IsRead (v : Value) : Prop :=
  ∀ w : Value, w.IsSnapshot → ∀ r s, EndsNumber r → EndsNumber s →
    (compact v).points ++ r = (compact w).points ++ s → SameJson v w ∧ r = s

theorem IsSnapshot.opening_ne {v : Value} (h : v.IsSnapshot) {p : CodePoint}
    (hp : JsonKind.ofPoint? p = none) (x y : List CodePoint) :
    (compact v).points ++ x ≠ p :: y := by
  intro heq
  obtain ⟨k, hk⟩ := exists_jsonKind h.encodable
  obtain ⟨q, qs, hpoints, hq⟩ := exists_first hk
  rw [hpoints] at heq
  rw [(List.cons.inj heq).1, hp] at hq
  cases hq

theorem read_bool {b c : Bool} {r s : List CodePoint}
    (h : (compact (bool b)).points ++ r = (compact (bool c)).points ++ s) : b = c ∧ r = s := by
  have hmark : b = c := by
    cases b with
    | false =>
        cases c with
        | false => rfl
        | true => exact absurd (List.cons.inj h).1 (by decide)
    | true =>
        cases c with
        | false => exact absurd (List.cons.inj h).1 (by decide)
        | true => rfl
  subst hmark
  exact ⟨rfl, List.append_cancel_left h⟩

theorem read_items {v w : Value} {xs ys : List Value} (hv : v.items? = some xs)
    (hw : w.items? = some ys) (hxs : ∀ x ∈ xs, x.IsSnapshot) (hys : ∀ y ∈ ys, y.IsSnapshot)
    (hread : ∀ x ∈ xs, x.IsRead) {r s : List CodePoint}
    (h : (compact v).points ++ r = (compact w).points ++ s) : SameJson v w ∧ r = s := by
  rw [compact_of_items hv, compact_of_items hw] at h
  simp only [Text.points_append, List.append_assoc] at h
  have hopen : ∀ a, a ∈ xs ∨ a ∈ ys → ∀ x y,
      (compact a).points ++ x ≠ CodePoint.ofChar ']' :: y := by
    rintro a (ha | ha)
    · exact (hxs a ha).opening_ne rfl
    · exact (hys a ha).opening_ne rfl
  obtain ⟨hall, hrest⟩ := forall₂_of_join (by decide) (by decide) hopen
    (fun a ha b hb x y hx hy => hread a ha b (hys b hb) x y hx hy) (List.cons.inj h).2
  obtain ⟨hlength, hitems⟩ := List.forall₂_iff_get.mp hall
  refine ⟨.items hv hw hlength ?_, hrest⟩
  intro i x y hx hy
  obtain ⟨hi, rfl⟩ := List.getElem?_eq_some_iff.mp hx
  obtain ⟨hi', rfl⟩ := List.getElem?_eq_some_iff.mp hy
  exact hitems i hi hi'

theorem read_entry {e f : Text × Value} (hread : e.2.IsRead) (hf : f.2.IsSnapshot)
    {r s : List CodePoint} (hr : EndsNumber r) (hs : EndsNumber s)
    (h : (entryText e).points ++ r = (entryText f).points ++ s) :
    (e.1 = f.1 ∧ SameJson e.2 f.2) ∧ r = s := by
  unfold entryText at h
  simp only [Text.points_append, List.append_assoc] at h
  obtain ⟨hkey, h⟩ := jsonString_append_inj h
  obtain ⟨hvalue, hrest⟩ := hread f.2 hf r s hr hs (List.cons.inj h).2
  exact ⟨⟨hkey, hvalue⟩, hrest⟩

theorem exists_lookup_of_entries {R : Value → Value → Prop} {es fs : List (Value × Value)}
    (hes : (map es).IsSnapshot) (hfs : (map fs).IsSnapshot)
    (h : List.Forall₂ (fun e f => e.1 = f.1 ∧ R e.2 f.2) (sortedEntries es) (sortedEntries fs))
    {key x : Value} (hx : lookup key es = some x) : ∃ y, lookup key fs = some y ∧ R x y := by
  obtain ⟨t, rfl, hmem⟩ := (lookup_eq_some_iff_sorted hes).mp hx
  obtain ⟨i, hi, hentry⟩ := List.mem_iff_getElem.mp hmem
  have hi' : i < (sortedEntries fs).length := h.length_eq ▸ hi
  have hpair := h.get hi hi'
  rw [List.get_eq_getElem, hentry] at hpair
  obtain ⟨hkey, hvalue⟩ := hpair
  refine ⟨_, (lookup_eq_some_iff_sorted hfs).mpr ⟨t, rfl, ?_⟩, hvalue⟩
  have hmem' := List.getElem_mem hi'
  rw [show t = (sortedEntries fs)[i].1 from hkey]
  exact hmem'

theorem sameJson_of_entries {es fs : List (Value × Value)} (hes : (map es).IsSnapshot)
    (hfs : (map fs).IsSnapshot)
    (h : List.Forall₂ (fun e f => e.1 = f.1 ∧ SameJson e.2 f.2) (sortedEntries es)
      (sortedEntries fs)) : SameJson (.map es) (.map fs) := by
  have hback : List.Forall₂ (fun f e => f.1 = e.1 ∧ SameJson e.2 f.2) (sortedEntries fs)
      (sortedEntries es) := h.flip.imp fun _ _ hentry => ⟨hentry.1.symm, hentry.2⟩
  refine .map (fun key => ⟨fun hnone => ?_, fun hnone => ?_⟩) fun key x y hx hy => ?_
  · refine Option.eq_none_iff_forall_ne_some.mpr fun y hy => ?_
    obtain ⟨x, hx, -⟩ := exists_lookup_of_entries (R := fun y x => SameJson x y) hfs hes hback hy
    rw [hnone] at hx
    cases hx
  · refine Option.eq_none_iff_forall_ne_some.mpr fun x hx => ?_
    obtain ⟨y, hy, -⟩ := exists_lookup_of_entries hes hfs h hx
    rw [hnone] at hy
    cases hy
  · obtain ⟨y', hy', hsame⟩ := exists_lookup_of_entries hes hfs h hx
    rw [hy] at hy'
    rw [Option.some.inj hy']
    exact hsame

theorem read_map {es fs : List (Value × Value)} (hes : (map es).IsSnapshot)
    (hfs : (map fs).IsSnapshot) (hread : ∀ x ∈ (map es).children, x.IsRead)
    {r s : List CodePoint} (h : (compact (map es)).points ++ r = (compact (map fs)).points ++ s) :
    SameJson (map es) (map fs) ∧ r = s := by
  rw [compact_map, compact_map] at h
  simp only [Text.points_append, List.append_assoc] at h
  have hopen : ∀ e : Text × Value, e ∈ sortedEntries es ∨ e ∈ sortedEntries fs → ∀ x y,
      (entryText e).points ++ x ≠ CodePoint.ofChar '\x7d' :: y := by
    intro e _ x y heq
    exact absurd (List.cons.inj heq).1 (by decide)
  obtain ⟨hall, hrest⟩ := forall₂_of_join (by decide) (by decide) hopen
    (fun e he f hf x y hx hy => read_entry (hread _ (mem_children_of_sorted hes he))
      (hfs.child (mem_children_of_sorted hfs hf)) hx hy) (List.cons.inj h).2
  exact ⟨sameJson_of_entries hes hfs hall, hrest⟩

/-- Every tree is read: the induction is on the tree, and the first mark shows what the other
one is. -/
theorem IsSnapshot.isRead {v : Value} (h : v.IsSnapshot) : v.IsRead := by
  induction v using tree_induction with
  | step v ih =>
      intro w hw r s hr hs heq
      obtain ⟨k, hk⟩ := exists_jsonKind h.encodable
      obtain ⟨l, hl⟩ := exists_jsonKind hw.encodable
      obtain rfl := jsonKind_eq hk hl heq
      have hv := shape_of_jsonKind hk
      have hw' := shape_of_jsonKind hl
      cases k with
      | null =>
          obtain rfl : v = .null := hv
          obtain rfl : w = .null := hw'
          exact ⟨.null, List.append_cancel_left heq⟩
      | bool =>
          obtain ⟨b, rfl⟩ := hv
          obtain ⟨c, rfl⟩ := hw'
          obtain ⟨rfl, hrest⟩ := read_bool heq
          exact ⟨.bool b, hrest⟩
      | number =>
          obtain ⟨m, rfl⟩ := hv
          obtain ⟨n, rfl⟩ := hw'
          obtain ⟨rfl, hrest⟩ := Text.ofInt_append_inj hr hs heq
          exact ⟨.int m, hrest⟩
      | string =>
          obtain ⟨t, rfl⟩ := hv
          obtain ⟨u, rfl⟩ := hw'
          obtain ⟨rfl, hrest⟩ := jsonString_append_inj heq
          exact ⟨.text t, hrest⟩
      | array =>
          obtain ⟨xs, hxs⟩ := hv
          obtain ⟨ys, hys⟩ := hw'
          have hmem := children_of_items hxs
          have hmem' := children_of_items hys
          refine read_items hxs hys ?_ ?_ ?_ heq
          · exact fun x hx => h.child (hmem.symm ▸ hx)
          · exact fun y hy => hw.child (hmem'.symm ▸ hy)
          · exact fun x hx => ih x (hmem.symm ▸ hx) (h.child (hmem.symm ▸ hx))
      | object =>
          obtain ⟨es, rfl⟩ := hv
          obtain ⟨fs, rfl⟩ := hw'
          exact read_map h hw (fun x hx => ih x hx (h.child hx)) heq

/-! ## From trees to texts -/

/-- Entries with keys of their own have one order. -/
theorem sortByKey_congr {α : Type} {l l' : List (Text × α)} (h : (l.map (·.1)).Nodup)
    (h' : (l'.map (·.1)).Nodup) (hmem : ∀ e, e ∈ l ↔ e ∈ l') : sortByKey l = sortByKey l' := by
  have hperm : l.Perm l' := (List.perm_ext_iff_of_nodup h.of_map h'.of_map).mpr hmem
  have hsorted : ∀ l : List (Text × α),
      (sortByKey l).Pairwise fun a b => a.1.le b.1 = true :=
    List.pairwise_mergeSort (fun _ _ _ => Text.lePoints_trans) fun a b => by
      rw [Bool.or_eq_true]
      exact Text.lePoints_total a.1.points b.1.points
  refine List.Perm.eq_of_pairwise ?_ (hsorted l) (hsorted l')
    (((List.mergeSort_perm l _).trans hperm).trans (List.mergeSort_perm l' _).symm)
  intro a b ha hb hle hle'
  have ha' : a ∈ l := (List.mergeSort_perm l _).mem_iff.mp ha
  have hb' : b ∈ l := (hmem b).mpr ((List.mergeSort_perm l' _).mem_iff.mp hb)
  exact List.inj_on_of_nodup_map h ha' hb' (Text.eq_of_points (Text.lePoints_antisymm hle hle'))

theorem nodup_keys {es : List (Value × Value)} (h : (map es).IsSnapshot) :
    ((compactEntries es).map (·.1)).Nodup := by
  rw [compactEntries_eq_map, List.map_map, List.Nodup, List.pairwise_map]
  refine ((isProper_iff.mp h.proper).1 es rfl).imp_of_mem ?_
  intro a b ha hb hapart hsame
  obtain ⟨s, hs⟩ := h.encodable.textKeys a ha
  obtain ⟨t, ht⟩ := h.encodable.textKeys b hb
  simp only [Function.comp_apply, hs, ht, keyText] at hsame
  rw [hs, ht, hsame, text_sameKey.mpr rfl] at hapart
  cases hapart

theorem mem_compactEntries {es : List (Value × Value)} (h : (map es).IsSnapshot) {t u : Text} :
    (t, u) ∈ compactEntries es ↔ (lookup (.text t) es).map compact = some u := by
  have hsorted : (t, u) ∈ sortByKey (compactEntries es) ↔ (t, u) ∈ compactEntries es :=
    (List.mergeSort_perm _ _).mem_iff
  rw [← hsorted, sortByKey_compactEntries, List.mem_map, Option.map_eq_some_iff]
  constructor
  · rintro ⟨⟨s, x⟩, hmem, ⟨⟩⟩
    exact ⟨x, (lookup_eq_some_iff_sorted h).mpr ⟨_, rfl, hmem⟩, rfl⟩
  · rintro ⟨x, hx, rfl⟩
    obtain ⟨_, ⟨⟩, hmem⟩ := (lookup_eq_some_iff_sorted h).mp hx
    exact ⟨_, hmem, rfl⟩

theorem SameJson.compact_eq {v w : Value} (h : SameJson v w) (hv : v.IsSnapshot)
    (hw : w.IsSnapshot) : compact v = compact w := by
  induction h with
  | null => rfl
  | bool b => rfl
  | int n => rfl
  | text t => rfl
  | @items v w xs ys hxs hys hlength _ ih =>
      have hmem := children_of_items hxs
      have hmem' := children_of_items hys
      have hitems : xs.map compact = ys.map compact := by
        refine List.ext_getElem (by rw [List.length_map, List.length_map, hlength]) ?_
        intro i hi hi'
        rw [List.length_map] at hi hi'
        rw [List.getElem_map, List.getElem_map]
        exact ih i _ _ (List.getElem?_eq_getElem hi) (List.getElem?_eq_getElem hi')
          (hv.child (hmem.symm ▸ List.getElem_mem hi))
          (hw.child (hmem'.symm ▸ List.getElem_mem hi'))
      rw [compact_of_items hxs, compact_of_items hys, hitems]
  | @map es fs hkeys _ ih =>
      have hentries : sortByKey (compactEntries es) = sortByKey (compactEntries fs) := by
        refine sortByKey_congr (nodup_keys hv) (nodup_keys hw) ?_
        rintro ⟨t, u⟩
        rw [mem_compactEntries hv, mem_compactEntries hw]
        cases hx : lookup (.text t) es with
        | none => rw [(hkeys _).mp hx]
        | some x =>
            cases hy : lookup (.text t) fs with
            | none =>
                rw [(hkeys _).mpr hy] at hx
                cases hx
            | some y =>
                rw [Option.map_some, Option.map_some, ih _ x y hx hy
                  (hv.child (mem_children_of_lookup hx))
                  (hw.child (mem_children_of_lookup hy))]
      rw [compact, compact, hentries]

/-- The text of a tree is its own, up to the order of entries and the kind of sequences. -/
theorem compact_eq_iff {v w : Value} (hv : v.IsSnapshot) (hw : w.IsSnapshot) :
    compact v = compact w ↔ SameJson v w := by
  constructor
  · intro h
    exact (hv.isRead w hw [] [] rfl rfl (congrArg (·.points ++ []) h)).1
  · exact fun h => h.compact_eq hv hw

end Value

end CurveMarket
