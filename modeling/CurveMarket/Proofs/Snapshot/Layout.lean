import Mathlib.Tactic.Lift
import CurveMarket.Pool.Basic
import CurveMarket.Snapshot.Layout
import CurveMarket.Proofs.Check
import CurveMarket.Proofs.Value.Tree

/-! # The persisted layout

What is written of a state is read back as that state, and what is read holds the fields of the
state as they stand. A map that lacks a field, holds one of the wrong kind, or gives terms out of
bounds is refused.
-/

namespace CurveMarket

open Check

/-! ## Terms from arguments -/

section Bounded

variable {P : Nat → Prop} {r : { n : Nat // P n }}

theorem bounded_eq_ok {c : Prop} [Decidable c] {v : Int} {e : Error} {hP : c → P v.toNat}
    (hnonneg : c → 0 ≤ v) (hbounds : v = r.val → c) :
    (if h : c then pure ⟨v.toNat, hP h⟩ else throw e : Except Error { n : Nat // P n }) = .ok r ↔
      v = r.val := by
  constructor
  · intro h
    split at h
    · next hc =>
        cases h
        exact (Int.toNat_of_nonneg (hnonneg hc)).symm
    · cases h
  · rintro rfl
    rw [dif_pos (hbounds rfl)]
    exact congrArg Except.ok (Subtype.ext (Int.toNat_natCast _))

theorem requireInt_bind_eq_ok {what : Text} {value : Option Int}
    {check : Int → Except Error { n : Nat // P n }} (h : ∀ v, check v = .ok r ↔ v = r.val) :
    requireInt what value >>= check = .ok r ↔ value = some (r.val : Int) := by
  simp only [bind_eq_ok, requireInt_eq_ok, h, exists_eq_right]

end Bounded

theorem checkRatio_eq_ok {ratio : Option Int} {r : { r : Nat // minRatio ≤ r ∧ r ≤ maxRatio }} :
    checkRatio ratio = .ok r ↔ ratio = some (r.val : Int) := by
  have hbounds := r.property
  exact requireInt_bind_eq_ok fun v => bounded_eq_ok (fun _ => by omega) (fun _ => by omega)

theorem checkTradeFee_eq_ok {fee : Option Int} {f : { f : Nat // f ≤ maxTradeFee }} :
    checkTradeFee fee = .ok f ↔ fee = some (f.val : Int) := by
  have hmax := f.property
  refine requireInt_bind_eq_ok fun v => ?_
  rw [test_eq_ok]
  by_cases hneg : v < 0
  · exact ⟨fun h => absurd hneg h.1, by omega⟩
  · rw [and_iff_right hneg]
    exact bounded_eq_ok (fun _ => by omega) (fun _ => by omega)

theorem checkTradeCap_eq_ok {cap : Option Int} {c : { c : Nat // 0 < c ∧ c ≤ maxTradeCap }} :
    checkTradeCap cap = .ok c ↔ cap = some (c.val : Int) := by
  have hbounds := c.property
  refine requireInt_bind_eq_ok fun v => ?_
  split
  · exact bounded_eq_ok (fun _ => by omega) (fun _ => by omega)
  · exact ⟨nofun, by omega⟩

theorem checkPositive_eq_ok_iff {what : Text} {value : Option Int} {n : { n : Nat // 0 < n }} :
    checkPositive what value = .ok n ↔ value = some (n.val : Int) := by
  have hpos := n.property
  exact requireInt_bind_eq_ok fun v => bounded_eq_ok (fun _ => by omega) (fun _ => by omega)

/-- Terms come of no other arguments than their own. -/
theorem Terms.make_eq_ok_iff {q : TermsRequest} {t : Terms} :
    Terms.make q = .ok t ↔ q = t.request := by
  unfold Terms.make
  simp only [bind_eq_ok, checkRatio_eq_ok, checkTradeFee_eq_ok, checkTradeCap_eq_ok,
    checkPositive_eq_ok_iff, requireNonNegative_eq_ok]
  constructor
  · rintro ⟨ratio, hratio, fee, hfee, cap, hcap, threshold, hthreshold, price, hprice, time, htime,
      h⟩
    cases q
    cases h
    subst hratio hfee hcap hthreshold hprice htime
    rfl
  · rintro rfl
    exact ⟨⟨t.ratio, t.minRatio_le, t.ratio_le⟩, rfl, ⟨t.tradeFee, t.tradeFee_le⟩, rfl,
      ⟨t.tradeCap, t.tradeCap_pos, t.tradeCap_le⟩, rfl, ⟨t.threshold, t.threshold_pos⟩, rfl,
      ⟨t.flatPrice, t.flatPrice_pos⟩, rfl, t.buyOnlySeconds, rfl, rfl⟩

/-- Plain switches are truth values, whatever a state assembled by hand may hold. -/
theorem PoolState.hasPlainSwitches_iff {s : PoolState} :
    s.hasPlainSwitches = true ↔ (∃ g, s.graduated = .bool g) ∧ ∃ p, s.paused = .bool p := by
  obtain ⟨t, r, u, g, p⟩ := s
  cases g with
  | bool g =>
      cases p with
      | bool p => exact ⟨fun _ => ⟨⟨g, rfl⟩, p, rfl⟩, fun _ => rfl⟩
      | _ => exact ⟨nofun, fun h => nomatch h.2⟩
  | _ => exact ⟨nofun, fun h => nomatch h.1⟩

namespace Snapshot

open Value

/-! ## Fields -/

theorem readField_eq_ok {es : List (Value × Value)} {name : Text} {v : Value} :
    readField es name = .ok v ↔ field es name = some v := by
  unfold readField
  cases field es name with
  | none => simp
  | some w => simp

theorem readInt_eq_ok {es : List (Value × Value)} {name : Text} {n : Int} :
    readInt es name = .ok n ↔ field es name = some (.int n) := by
  unfold readInt
  simp only [bind_eq_ok, readField_eq_ok]
  constructor
  · rintro ⟨v, hv, h⟩
    cases v with
    | int m =>
        cases h
        exact hv
    | _ => cases h
  · exact fun h => ⟨_, h, rfl⟩

theorem readSwitch_eq_ok {es : List (Value × Value)} {name : Text} {v : Switch} :
    readSwitch es name = .ok v ↔ ∃ b, v = .bool b ∧ field es name = some (.bool b) := by
  unfold readSwitch
  simp only [bind_eq_ok, readField_eq_ok]
  constructor
  · rintro ⟨w, hw, h⟩
    cases w with
    | bool b =>
        cases h
        exact ⟨b, rfl, hw⟩
    | _ => cases h
  · rintro ⟨b, rfl, h⟩
    exact ⟨_, h, rfl⟩

theorem readEntries_eq_ok {v : Value} {es : List (Value × Value)} :
    readEntries v = .ok es ↔ v = .map es := by
  cases v with
  | map fs =>
      show Except.ok fs = .ok es ↔ _
      rw [Except.ok.injEq, map.injEq]
  | _ => exact ⟨nofun, nofun⟩

def entriesOf (fields : List (Text × Value)) : List (Value × Value) :=
  fields.map fun f => (.text f.1, f.2)

theorem keysApart_entriesOf {fields : List (Text × Value)} (h : (fields.map (·.1)).Nodup) :
    KeysApart (entriesOf fields) := by
  refine List.pairwise_map.mpr ((List.pairwise_map.mp h).imp ?_)
  intro a b hne
  refine Bool.eq_false_iff.mpr fun hsame => hne ?_
  exact (text.inj (text_sameKey.mp hsame)).symm

theorem field_entriesOf {fields : List (Text × Value)} (h : (fields.map (·.1)).Nodup)
    {f : Text × Value} (hf : f ∈ fields) : field (entriesOf fields) f.1 = some f.2 := by
  have hkeys : ∀ e ∈ entriesOf fields, ∃ t, e.1 = .text t := by
    intro e he
    obtain ⟨g, -, rfl⟩ := List.mem_map.mp he
    exact ⟨g.1, rfl⟩
  exact (lookup_eq_some hkeys (keysApart_entriesOf h)).mpr
    ⟨f.1, rfl, List.mem_map.mpr ⟨f, hf, rfl⟩⟩

def stateFields (s : PoolState) : List (Text × Value) := [
  ("reserve_balance", .int s.reserve),
  ("buy_only_until", .int s.buyOnlyUntil),
  ("has_graduated", s.graduated),
  ("paused", s.paused)]

def writtenFields (s : PoolState) : List (Text × Value) :=
  stateFields s ++ ([
    ("params", .map (entriesOf (termsFields s.terms))),
    ("version", .int layoutVersion)] : List (Text × Value))

theorem write_eq (s : PoolState) : write s = .map (entriesOf (writtenFields s)) := rfl

/-! ## Reading -/

theorem readTerms_eq_ok {es : List (Value × Value)} {t : Terms} :
    readTerms es = .ok t ↔ ∀ f ∈ termsFields t, field es f.1 = some f.2 := by
  unfold readTerms
  simp only [bind_eq_ok, readInt_eq_ok, Terms.make_eq_ok_iff, termsFields, List.forall_mem_cons,
    List.not_mem_nil, false_implies, implies_true, and_true]
  constructor
  · rintro ⟨ratio, hratio, fee, hfee, threshold, hthreshold, price, hprice, time, htime, cap, hcap,
      h⟩
    cases h
    exact ⟨hratio, hfee, hthreshold, hprice, htime, hcap⟩
  · rintro ⟨hratio, hfee, hthreshold, hprice, htime, hcap⟩
    exact ⟨_, hratio, _, hfee, _, hthreshold, _, hprice, _, htime, _, hcap, rfl⟩

/-- Exactly the state whose fields a map holds is read from it. -/
theorem read_eq_ok {es : List (Value × Value)} {s : PoolState} :
    read es = .ok s ↔
      (∀ v, field es "version" = some v → v.equalsInt layoutVersion = true) ∧
      (∃ ps, field es "params" = some (.map ps) ∧
        ∀ f ∈ termsFields s.terms, field ps f.1 = some f.2) ∧
      s.hasPlainSwitches = true ∧ ∀ f ∈ stateFields s, field es f.1 = some f.2 := by
  unfold read
  simp only [bind_eq_ok, test_eq_ok, readField_eq_ok, readEntries_eq_ok, readTerms_eq_ok,
    readInt_eq_ok, readSwitch_eq_ok, stateFields, List.forall_mem_cons, List.not_mem_nil,
    false_implies, implies_true, and_true]
  constructor
  · rintro ⟨hversion, v, hparams, ps, rfl, t, ht, r, hr, u, hu, _, ⟨g, rfl, hg⟩, _, ⟨p, rfl, hp⟩,
      h⟩
    cases h
    refine ⟨?_, ⟨ps, hparams, ht⟩, rfl, hr, hu, hg, hp⟩
    intro v hv
    rw [hv] at hversion
    simpa using hversion
  · rintro ⟨hversion, ⟨ps, hparams, ht⟩, hplain, hr, hu, hg, hp⟩
    obtain ⟨⟨g, hgraduated⟩, p, hpaused⟩ := PoolState.hasPlainSwitches_iff.mp hplain
    refine ⟨?_, _, hparams, ps, rfl, s.terms, ht, s.reserve, hr, s.buyOnlyUntil, hu, s.graduated,
      ⟨g, hgraduated, hgraduated ▸ hg⟩, s.paused, ⟨p, hpaused, hpaused ▸ hp⟩, rfl⟩
    cases hv : field es "version" with
    | none => decide
    | some v => simpa using hversion v hv

/-! ## What a map has to hold -/

/-- An integer with a property under a name. -/
def HoldsInt (es : List (Value × Value)) (name : Text) (P : Int → Prop) : Prop :=
  ∃ n, field es name = some (.int n) ∧ P n

/-- All of the terms, each an integer within its bounds. -/
structure IsTermsLayout (es : List (Value × Value)) : Prop where
  ratio : HoldsInt es "crr_ppm" fun n => minRatio ≤ n ∧ n ≤ maxRatio
  tradeFee : HoldsInt es "trade_fee_bps" fun n => 0 ≤ n ∧ n ≤ maxTradeFee
  threshold : HoldsInt es "flat_curve_threshold" fun n => 0 < n
  flatPrice : HoldsInt es "flat_curve_price" fun n => 0 < n
  buyOnlySeconds : HoldsInt es "ibr_duration_seconds" fun n => 0 ≤ n
  tradeCap : HoldsInt es "max_trade_bps" fun n => 0 < n ∧ n ≤ maxTradeCap

/-- All fields of a state with terms within bounds, and no version but the current one. -/
structure IsLayout (es : List (Value × Value)) : Prop where
  version : ∀ v, field es "version" = some v → v.equalsInt layoutVersion = true
  params : ∃ ps, field es "params" = some (.map ps) ∧ IsTermsLayout ps
  reserve : ∃ n : Int, field es "reserve_balance" = some (.int n)
  buyOnlyUntil : ∃ n : Int, field es "buy_only_until" = some (.int n)
  graduated : ∃ b : Bool, field es "has_graduated" = some (.bool b)
  paused : ∃ b : Bool, field es "paused" = some (.bool b)

theorem exists_terms_iff {es : List (Value × Value)} :
    (∃ t, ∀ f ∈ termsFields t, field es f.1 = some f.2) ↔ IsTermsLayout es := by
  simp only [termsFields, List.forall_mem_cons, List.not_mem_nil, false_implies, implies_true,
    and_true]
  constructor
  · rintro ⟨t, hratio, hfee, hthreshold, hprice, htime, hcap⟩
    obtain ⟨hmin, hmax⟩ := And.intro t.minRatio_le t.ratio_le
    have hfeeMax := t.tradeFee_le
    have hthresholdPos := t.threshold_pos
    have hpricePos := t.flatPrice_pos
    obtain ⟨hcapPos, hcapMax⟩ := And.intro t.tradeCap_pos t.tradeCap_le
    exact ⟨⟨_, hratio, by omega⟩, ⟨_, hfee, by omega⟩, ⟨_, hthreshold, by omega⟩,
      ⟨_, hprice, by omega⟩, ⟨_, htime, by omega⟩, ⟨_, hcap, by omega⟩⟩
  · rintro ⟨⟨ratio, hratio, hratioBounds⟩, ⟨fee, hfee, hfeeBounds⟩,
      ⟨threshold, hthreshold, hthresholdPos⟩, ⟨price, hprice, hpricePos⟩,
      ⟨time, htime, htimeNonneg⟩, ⟨cap, hcap, hcapBounds⟩⟩
    lift ratio to Nat using by omega
    lift fee to Nat using by omega
    lift threshold to Nat using by omega
    lift price to Nat using by omega
    lift time to Nat using by omega
    lift cap to Nat using by omega
    exact ⟨⟨ratio, fee, threshold, price, time, cap, by omega, by omega, by omega, by omega,
      by omega, by omega, by omega⟩, hratio, hfee, hthreshold, hprice, htime, hcap⟩

theorem exists_read_iff {es : List (Value × Value)} : (∃ s, read es = .ok s) ↔ IsLayout es := by
  simp only [read_eq_ok]
  constructor
  · rintro ⟨s, hversion, ⟨ps, hparams, hterms⟩, hplain, hfields⟩
    obtain ⟨⟨g, hgraduated⟩, p, hpaused⟩ := PoolState.hasPlainSwitches_iff.mp hplain
    simp only [stateFields, List.forall_mem_cons] at hfields
    obtain ⟨hr, hu, hg, hp, -⟩ := hfields
    rw [hgraduated] at hg
    rw [hpaused] at hp
    exact ⟨hversion, ⟨ps, hparams, exists_terms_iff.mp ⟨s.terms, hterms⟩⟩, ⟨_, hr⟩, ⟨_, hu⟩,
      ⟨g, hg⟩, ⟨p, hp⟩⟩
  · rintro ⟨hversion, ⟨ps, hparams, hterms⟩, ⟨r, hr⟩, ⟨u, hu⟩, ⟨g, hg⟩, ⟨p, hp⟩⟩
    obtain ⟨t, ht⟩ := exists_terms_iff.mpr hterms
    refine ⟨⟨t, r, u, .bool g, .bool p⟩, hversion, ⟨ps, hparams, ht⟩, rfl, ?_⟩
    simp only [stateFields, List.forall_mem_cons]
    exact ⟨hr, hu, hg, hp, List.forall_mem_nil _⟩

/-! ## There and back -/

def stateNames : List Text := ["reserve_balance", "buy_only_until", "has_graduated", "paused"]

def termsNames : List Text := [
  "crr_ppm", "trade_fee_bps", "flat_curve_threshold", "flat_curve_price", "ibr_duration_seconds",
  "max_trade_bps"]

theorem writtenFields_names (s : PoolState) :
    (writtenFields s).map (·.1) =
      stateNames ++ ([("params" : Text), ("version" : Text)] : List Text) := rfl

theorem termsFields_names (t : Terms) : (termsFields t).map (·.1) = termsNames := rfl

theorem nodup_writtenFields (s : PoolState) : ((writtenFields s).map (·.1)).Nodup := by
  rw [writtenFields_names]
  decide

theorem nodup_termsFields (t : Terms) : ((termsFields t).map (·.1)).Nodup := by
  rw [termsFields_names]
  decide

theorem field_written {s : PoolState} {f : Text × Value} (hf : f ∈ writtenFields s) :
    field (entriesOf (writtenFields s)) f.1 = some f.2 :=
  field_entriesOf (nodup_writtenFields s) hf

theorem field_written_of_state {s : PoolState} {f : Text × Value} (hf : f ∈ stateFields s) :
    field (entriesOf (writtenFields s)) f.1 = some f.2 :=
  field_written (List.mem_append_left _ hf)

theorem field_written_params (s : PoolState) :
    field (entriesOf (writtenFields s)) "params" =
      some (.map (entriesOf (termsFields s.terms))) :=
  field_written (s := s) (f := (_, _)) (List.mem_append_right _ (List.mem_cons_self ..))

theorem field_written_version (s : PoolState) :
    field (entriesOf (writtenFields s)) "version" = some (.int layoutVersion) :=
  field_written (s := s) (f := (_, _))
    (List.mem_append_right _ (List.mem_cons_of_mem _ (List.mem_cons_self ..)))

theorem field_terms {t : Terms} {f : Text × Value} (hf : f ∈ termsFields t) :
    field (entriesOf (termsFields t)) f.1 = some f.2 := field_entriesOf (nodup_termsFields t) hf

theorem read_written {s : PoolState} (h : s.hasPlainSwitches = true) :
    read (entriesOf (writtenFields s)) = .ok s := by
  refine read_eq_ok.mpr ⟨?_, ⟨_, field_written_params s, fun f hf => field_terms hf⟩, h,
    fun f hf => field_written_of_state hf⟩
  intro v hv
  rw [field_written_version s] at hv
  obtain rfl := Option.some.inj hv
  decide

/-- Nothing is lost on the way: a written state is read back, and what is read is written as it
stood, with the current version. Every map is refused that is no layout of a state. -/
theorem layout_lossless :
    (∀ s : PoolState, s.hasPlainSwitches = true → ∃ es, write s = .map es ∧ read es = .ok s) ∧
    (∀ es s, read es = .ok s → ∃ fs ps qs, write s = .map fs ∧ field es "params" = some (.map ps) ∧
      field fs "params" = some (.map qs) ∧ (∀ name ∈ stateNames, field fs name = field es name) ∧
      (∀ name ∈ termsNames, field qs name = field ps name) ∧
      field fs "version" = some (.int 1)) ∧
    ∀ es, (∃ e, read es = .error e) ↔ ¬ IsLayout es := by
  refine ⟨fun s hplain => ⟨_, write_eq s, read_written hplain⟩, ?_, ?_⟩
  · intro es s h
    obtain ⟨-, ⟨ps, hps, hterms⟩, -, hfields⟩ := read_eq_ok.mp h
    refine ⟨_, ps, _, write_eq s, hps, field_written_params s, ?_, ?_, field_written_version s⟩
    · show ∀ name ∈ (stateFields s).map (·.1), _
      rw [List.forall_mem_map]
      intro f hf
      rw [hfields f hf, field_written_of_state hf]
    · rw [← termsFields_names s.terms, List.forall_mem_map]
      intro f hf
      rw [hterms f hf, field_terms hf]
  · intro es
    rw [← exists_read_iff]
    cases read es with
    | ok s => exact ⟨nofun, fun h => absurd ⟨s, rfl⟩ h⟩
    | error e => exact ⟨fun _ => nofun, fun _ => ⟨e, rfl⟩⟩

/-- A state that is paused on the curve and owes its reserve. -/
def samplePersisted : PoolState where
  terms := default
  reserve := -5
  graduated := .bool true
  paused := .bool true

theorem layout_lossless_for_sample :
    (∃ es fs, write samplePersisted = .map es ∧ read es = .ok samplePersisted ∧
      write samplePersisted = .map fs ∧ ∀ name ∈ stateNames, field fs name = field es name) ∧
    ∃ e, read [(.text "version", .int 2)] = .error e := by
  obtain ⟨hwritten, hread, hrefused⟩ := layout_lossless
  obtain ⟨es, hes, hok⟩ := hwritten samplePersisted rfl
  obtain ⟨fs, _, _, hfs, -, -, hnames, -⟩ := hread es samplePersisted hok
  refine ⟨⟨es, fs, hes, hok, hfs, hnames⟩, (hrefused _).mpr fun h => ?_⟩
  exact absurd (h.version (.int 2) rfl) (by decide)

end Snapshot

end CurveMarket
