import Mathlib.Data.List.Nodup
import CurveMarket.Settings
import CurveMarket.Proofs.Check

/-! # Settings in effect

Settings that have been read from a value become governance. Governance then charges what the value
says: for a model the last rate that is written for it, whatever kind of key it is written under, and
for every other model the default. The reader accepts a model without a name and governance does not,
so settings with one are read and never come into effect.
-/

namespace CurveMarket

open CurveMarket.Action

/-- A rate within the bounds of governance. -/
def IsAccrualRate (rate : Nat) : Prop := minAccrualRate ≤ rate ∧ rate ≤ maxAccrualRate

theorem checkAccrualRate_eq_ok {rate : Option Int} {r : Nat} :
    checkAccrualRate rate = .ok r ↔ rate = some (r : Int) ∧ IsAccrualRate r := by
  unfold checkAccrualRate IsAccrualRate
  rw [Check.bind_eq_ok]
  constructor
  · intro h
    rcases h with ⟨v, hv, h⟩
    rw [Check.test_eq_ok, Check.pure_eq_ok, not_not] at h
    rcases h with ⟨hbounds, rfl⟩
    rw [requireInt_eq_ok.mp hv, Int.toNat_of_nonneg (by omega)]
    exact ⟨rfl, by omega⟩
  · intro h
    refine ⟨r, requireInt_eq_ok.mpr h.1, Check.test_eq_ok.mpr ⟨by omega, ?_⟩⟩
    rw [Int.toNat_natCast]
    rfl

/-! ## Rates one after another -/

namespace Governance

theorem putOverride_of_notMem {model : Text} {rate : Nat} {overrides : List (Text × Nat)}
    (h : model ∉ overrides.map Prod.fst) :
    putOverride model rate overrides = overrides ++ [(model, rate)] := by
  induction overrides with
  | nil => rfl
  | cons o rest ih =>
      rw [List.map_cons, List.mem_cons, not_or] at h
      unfold putOverride
      rw [if_neg (Ne.symm h.1), ih h.2]
      rfl

/-- The only thing wrong with a rate within the bounds can be the model. -/
theorem setRate_ends (model : Text) {rate : Nat} (hrate : IsAccrualRate rate) (g : Governance) :
    Ends (setRate (some model) (some (rate : Int))) g
      (fun _ g' => model.isEmpty = false ∧
        g' = { g with overrides := putOverride model rate g.overrides })
      (fun e _ => model.isEmpty = true ∧ e = .emptyIdentifier) := by
  have hchecked := checkAccrualRate_eq_ok.mpr ⟨rfl, hrate⟩
  unfold setRate
  refine .bind (ends_ofExcept (fun m hm => ?_) fun e he => ?_)
  · obtain ⟨⟨⟩, hfilled⟩ := requireModel_eq_ok.mp hm
    exact .bind (ends_ofExcept_ok hchecked (ends_modify ⟨hfilled, rfl⟩))
  · cases hempty : model.isEmpty with
    | true =>
        simp only [requireModel, hempty, if_true] at he
        exact ⟨rfl, (Except.error.inj he).symm⟩
    | false => simp [requireModel, hempty] at he

/-- Rates for models apart from each other and from those that have a rate are all added, unless
one of the models has no name. -/
theorem setRates_ends {rates : List (Text × Nat)} (hrates : ∀ o ∈ rates, IsAccrualRate o.2)
    (g : Governance) (hapart : ((g.overrides ++ rates).map Prod.fst).Nodup) :
    Ends (setRates (rates.map fun o => (some o.1, some (o.2 : Int)))) g
      (fun _ g' => (∀ o ∈ rates, o.1.isEmpty = false) ∧
        g' = { g with overrides := g.overrides ++ rates })
      (fun e _ => (∃ o ∈ rates, o.1.isEmpty = true) ∧ e = .emptyIdentifier) := by
  induction rates generalizing g with
  | nil => exact ends_pure ⟨nofun, by rw [List.append_nil]⟩
  | cons o rest ih =>
      obtain ⟨hrate, hrest⟩ := List.forall_mem_cons.mp hrates
      have hnew : o.1 ∉ g.overrides.map Prod.fst := by
        intro hmem
        rw [List.map_append, List.nodup_append] at hapart
        exact hapart.2.2 o.1 hmem o.1 (by simp) rfl
      refine .bind ((setRate_ends o.1 hrate g).imp ?_ ?_)
      · rintro - g' ⟨hfilled, rfl⟩
        rw [putOverride_of_notMem hnew]
        have hstays : ((g.overrides ++ [o]) ++ rest).map Prod.fst =
            (g.overrides ++ o :: rest).map Prod.fst := by
          rw [List.append_assoc, List.singleton_append]
        refine (ih hrest { g with overrides := g.overrides ++ [o] } (hstays ▸ hapart)).imp ?_ ?_
        · rintro - g' ⟨hothers, rfl⟩
          exact ⟨List.forall_mem_cons.mpr ⟨hfilled, hothers⟩, by simp⟩
        · rintro e g' ⟨⟨o', hmem, hempty⟩, he⟩
          exact ⟨⟨o', List.mem_cons_of_mem _ hmem, hempty⟩, he⟩
      · rintro e g' ⟨hempty, he⟩
        exact ⟨⟨o, List.mem_cons_self, hempty⟩, he⟩

end Governance

namespace Settings

/-- Settings that keep the bounds of governance and have every model once, as a reader makes them. -/
structure IsSound (s : Settings) : Prop where
  rate : IsAccrualRate s.accrualRate
  overrides : ∀ o ∈ s.overrides, IsAccrualRate o.2
  apart : (s.overrides.map Prod.fst).Nodup

theorem IsSound.governance_eq {s : Settings} (h : s.IsSound) :
    (∀ o ∈ s.overrides, o.1.isEmpty = false) ∧
        s.governance = .ok ⟨s.accrualRate, s.overrides⟩ ∨
      (∃ o ∈ s.overrides, o.1.isEmpty = true) ∧ s.governance = .error .emptyIdentifier := by
  have hends := Governance.setRates_ends h.overrides ⟨s.accrualRate, []⟩ h.apart
  have hchecked := checkAccrualRate_eq_ok.mpr ⟨rfl, h.rate⟩
  unfold governance Governance.make
  rw [hchecked]
  cases hrates : Governance.setRates (s.overrides.map fun o => (some o.1, some (o.2 : Int)))
      ⟨s.accrualRate, []⟩ with
  | ok u g =>
      obtain ⟨hfilled, rfl⟩ := hends.of_ok hrates
      simp only [bind, Except.bind, hrates]
      exact .inl ⟨hfilled, rfl⟩
  | error e g =>
      obtain ⟨hempty, rfl⟩ := hends.of_error hrates
      simp only [bind, Except.bind, hrates]
      exact .inr ⟨hempty, rfl⟩

/-! ## Figures as they are read -/

theorem requireEntry_eq_ok {name : Text} {v : Value} {n : Int} :
    requireEntry name v = .ok n ↔ v = .int n := by
  cases v with
  | int m => simp [requireEntry, Value.int?]
  | _ => simp [requireEntry, Value.int?]

theorem lookup_cons_eq {α : Type} (model : Text) (r : Text × α) (rest : List (Text × α)) :
    (r :: rest).lookup model = if model = r.1 then some r.2 else rest.lookup model := by
  by_cases h : model = r.1
  · rw [List.lookup_cons, h, beq_self_eq_true, if_pos rfl]
  · rw [List.lookup_cons, beq_eq_false_iff_ne.mpr h, if_neg h]

theorem lookup_putFigure (model m : Text) (figure : Int) (figures : List (Text × Int)) :
    (putFigure model figure figures).lookup m =
      if m = model then some figure else figures.lookup m := by
  induction figures with
  | nil => exact lookup_cons_eq m (model, figure) []
  | cons f rest ih =>
      unfold putFigure
      by_cases hf : f.1 = model
      · rw [if_pos hf, lookup_cons_eq, lookup_cons_eq, hf]
        by_cases h : m = model
        · simp [h]
        · simp [h]
      · rw [if_neg hf, lookup_cons_eq, lookup_cons_eq, ih]
        by_cases h : m = f.1
        · simp [h, hf]
        · simp [h]

/-- A model that has a figure keeps its place, and another one comes last. -/
theorem models_putFigure (model : Text) (figure : Int) (figures : List (Text × Int)) :
    (putFigure model figure figures).map Prod.fst =
      if model ∈ figures.map Prod.fst then figures.map Prod.fst
      else figures.map Prod.fst ++ [model] := by
  induction figures with
  | nil => rfl
  | cons f rest ih =>
      unfold putFigure
      by_cases hf : f.1 = model
      · simp [hf]
      · rw [if_neg hf, List.map_cons, ih]
        by_cases hmem : model ∈ rest.map Prod.fst
        · rw [if_pos hmem, List.map_cons, if_pos (List.mem_cons_of_mem _ hmem)]
        · rw [if_neg hmem, List.map_cons, if_neg, List.cons_append]
          simpa [Ne.symm hf] using hmem

theorem mem_models_putFigure {model m : Text} {figure : Int} {figures : List (Text × Int)} :
    m ∈ (putFigure model figure figures).map Prod.fst ↔
      m = model ∨ m ∈ figures.map Prod.fst := by
  rw [models_putFigure]
  split
  · rename_i hmem
    exact ⟨.inr, fun h => h.elim (fun heq => heq ▸ hmem) id⟩
  · rw [List.mem_append, List.mem_singleton, or_comm]

theorem nodup_models_putFigure {model : Text} {figure : Int} {figures : List (Text × Int)}
    (h : (figures.map Prod.fst).Nodup) :
    ((putFigure model figure figures).map Prod.fst).Nodup := by
  rw [models_putFigure]
  split
  · exact h
  · rename_i hnew
    rw [← List.concat_eq_append]
    exact List.Nodup.concat hnew h

section Read

variable {entries : List (Value × Value)} {figures result : List (Text × Int)} {m : Text}

theorem readFigures_cons_eq_ok {key v : Value} :
    readFigures ((key, v) :: entries) figures = .ok result ↔
      ∃ n, v = .int n ∧ readFigures entries (putFigure key.display n figures) = .ok result := by
  rw [readFigures, Check.bind_eq_ok]
  simp only [requireEntry_eq_ok]

theorem mem_models_of_readFigures (h : readFigures entries figures = .ok result) :
    m ∈ result.map Prod.fst ↔ m ∈ figures.map Prod.fst ∨ ∃ e ∈ entries, e.1.display = m := by
  induction entries generalizing figures with
  | nil =>
      cases h
      simp
  | cons e rest ih =>
      obtain ⟨n, -, hrest⟩ := readFigures_cons_eq_ok.mp h
      rw [ih hrest, mem_models_putFigure, List.exists_mem_cons_iff, or_assoc, or_left_comm,
        eq_comm]

theorem nodup_models_of_readFigures (h : readFigures entries figures = .ok result)
    (hfigures : (figures.map Prod.fst).Nodup) : (result.map Prod.fst).Nodup := by
  induction entries generalizing figures with
  | nil =>
      cases h
      exact hfigures
  | cons e rest ih =>
      obtain ⟨n, -, hrest⟩ := readFigures_cons_eq_ok.mp h
      exact ih hrest (nodup_models_putFigure hfigures)

theorem lookup_of_unwritten (h : readFigures entries figures = .ok result)
    (hm : ∀ e ∈ entries, e.1.display ≠ m) : result.lookup m = figures.lookup m := by
  induction entries generalizing figures with
  | nil =>
      cases h
      rfl
  | cons e rest ih =>
      obtain ⟨n, -, hrest⟩ := readFigures_cons_eq_ok.mp h
      rw [ih hrest fun e' he' => hm e' (List.mem_cons_of_mem _ he'), lookup_putFigure,
        if_neg (hm e List.mem_cons_self).symm]

/-- The figure of a model is the one in the last entry for it. -/
theorem lookup_of_written {before after : List (Value × Value)} {key v : Value}
    (h : readFigures (before ++ (key, v) :: after) figures = .ok result)
    (hlast : ∀ e ∈ after, e.1.display ≠ key.display) :
    ∃ n, v = .int n ∧ result.lookup key.display = some n := by
  -- Whatever has been put in by the entries before this one, its own figure replaces.
  induction before generalizing figures with
  | nil =>
      obtain ⟨n, hv, hrest⟩ := readFigures_cons_eq_ok.mp h
      refine ⟨n, hv, ?_⟩
      rw [lookup_of_unwritten hrest hlast, lookup_putFigure, if_pos rfl]
  | cons e rest ih =>
      obtain ⟨n, -, hrest⟩ := readFigures_cons_eq_ok.mp h
      exact ih hrest

end Read

/-! ## What a value says -/

def contents (v : Value) : List (Value × Value) := v.entries?.getD []

/-- The map under a name, which may be left out. -/
def block (v : Value) (name : Text) : Value := (Value.field (contents v) name).getD (.map [])

def writtenRates (v : Value) : List (Value × Value) :=
  contents (block (block v "governance") "models")

def writtenDefault (v : Value) : Value :=
  (Value.field (contents (block v "governance")) "default_infra_accrual_bps").getD
    (.int defaultAccrualRate)

theorem requireMapping_eq_ok {name : Text} {v : Value} {entries : List (Value × Value)} :
    requireMapping name v = .ok entries ↔ v = .map entries := by
  cases v with
  | map es => simp [requireMapping, Value.entries?]
  | _ => simp [requireMapping, Value.entries?]

theorem checked_figures {figures : List (Text × Int)} {overrides : List (Text × Nat)}
    (h : (figures.mapM fun f => do return (f.1, ← checkAccrualRate (some f.2))) = .ok overrides) :
    figures = overrides.map (fun o => (o.1, (o.2 : Int))) ∧
      ∀ o ∈ overrides, IsAccrualRate o.2 := by
  have hall := Check.forall₂_of_mapM_eq_ok h
  clear h
  induction hall with
  | nil => exact ⟨rfl, nofun⟩
  | @cons f o _ _ hchecked _ ih =>
      obtain ⟨rate, hrate, ho⟩ := Check.bind_eq_ok.mp hchecked
      cases ho
      obtain ⟨hfigure, hbounds⟩ := checkAccrualRate_eq_ok.mp hrate
      refine ⟨?_, List.forall_mem_cons.mpr ⟨hbounds, ih.2⟩⟩
      rw [List.map_cons, ← ih.1, ← Option.some.inj hfigure]

theorem read_eq_ok {v : Value} {s : Settings} (h : read v = .ok s) :
    s.IsSound ∧ writtenDefault v = .int s.accrualRate ∧
      readFigures (writtenRates v) [] =
        .ok (s.overrides.map fun o => (o.1, (o.2 : Int))) := by
  unfold read at h
  obtain ⟨root, hroot, h⟩ := Check.bind_eq_ok.mp h
  obtain ⟨-, -, h⟩ := Check.bind_eq_ok.mp h
  obtain ⟨terms, -, h⟩ := Check.bind_eq_ok.mp h
  obtain ⟨rates, hrates, h⟩ := Check.bind_eq_ok.mp h
  obtain ⟨-, -, h⟩ := Check.bind_eq_ok.mp h
  obtain ⟨rate, hrate, h⟩ := Check.bind_eq_ok.mp h
  obtain ⟨models, hmodels, h⟩ := Check.bind_eq_ok.mp h
  obtain ⟨figures, hfigures, h⟩ := Check.bind_eq_ok.mp h
  obtain ⟨accrualRate, haccrual, h⟩ := Check.bind_eq_ok.mp h
  obtain ⟨overrides, hoverrides, h⟩ := Check.bind_eq_ok.mp h
  cases h
  obtain rfl := requireMapping_eq_ok.mp hroot
  have hblock : block (.map root) "governance" = .map rates := requireMapping_eq_ok.mp hrates
  have hwritten : writtenRates (.map root) = models := by
    unfold writtenRates
    rw [hblock]
    exact congrArg contents (requireMapping_eq_ok.mp hmodels)
  have hdefault : writtenDefault (.map root) = .int rate := by
    unfold writtenDefault
    rw [hblock]
    exact requireEntry_eq_ok.mp hrate
  obtain ⟨hrate', hbounds⟩ := checkAccrualRate_eq_ok.mp haccrual
  obtain ⟨rfl, hall⟩ := checked_figures hoverrides
  have hapart := nodup_models_of_readFigures hfigures List.nodup_nil
  rw [List.map_map] at hapart
  refine ⟨⟨hbounds, hall, hapart⟩, ?_, ?_⟩
  · rw [hdefault, Option.some.inj hrate']
  · rw [hwritten, hfigures]

/-! ## What governance then charges -/

/-- Governance charges what a value says: under each model the last rate that is written for it, and
the default for every model that none is written for. -/
structure TakesEffect (v : Value) (g : Governance) : Prop where
  written : ∀ before key rate after, writtenRates v = before ++ (key, rate) :: after →
    (∀ e ∈ after, e.1.display ≠ key.display) → rate = .int (g.rate key.display)
  unwritten : ∀ model, (∀ e ∈ writtenRates v, e.1.display ≠ model) →
    writtenDefault v = .int (g.rate model)
  bounded : ∀ model, IsAccrualRate (g.rate model)

theorem lookup_map_cast (model : Text) (overrides : List (Text × Nat)) :
    (overrides.map fun o => (o.1, (o.2 : Int))).lookup model =
      (overrides.lookup model).map fun rate : Nat => (rate : Int) := by
  induction overrides with
  | nil => rfl
  | cons o rest ih =>
      rw [List.map_cons, lookup_cons_eq, lookup_cons_eq, ih]
      by_cases h : model = o.1
      · simp [h]
      · simp [h]

theorem takesEffect_of_read {v : Value} {s : Settings} (h : read v = .ok s) :
    TakesEffect v ⟨s.accrualRate, s.overrides⟩ := by
  obtain ⟨hsound, hdefault, hfigures⟩ := read_eq_ok h
  exact {
    written := by
      intro before key rate after hwritten hlast
      rw [hwritten] at hfigures
      obtain ⟨n, rfl, hn⟩ := lookup_of_written hfigures hlast
      rw [lookup_map_cast] at hn
      obtain ⟨r, hr, rfl⟩ := Option.map_eq_some_iff.mp hn
      rw [Governance.rate, hr]
      rfl
    unwritten := by
      intro model hmodel
      have hnone := lookup_of_unwritten hfigures hmodel
      rw [lookup_map_cast] at hnone
      rw [hdefault, Governance.rate, Option.map_eq_none_iff.mp hnone]
      rfl
    bounded := by
      intro model
      unfold Governance.rate
      cases hmodel : s.overrides.lookup model with
      | none => exact hsound.rate
      | some r =>
          obtain ⟨before, after, hoverrides, -⟩ := List.lookup_eq_some_iff.mp hmodel
          exact hsound.overrides (model, r) (by simp [hoverrides]) }

/-- Whatever has been read takes effect as it is written, unless a model in it has no name: then
there is no governance. -/
theorem settings_take_effect {v : Value} {s : Settings} (h : read v = .ok s) :
    ((∀ e ∈ writtenRates v, e.1.display.isEmpty = false) →
        ∃ g, s.governance = .ok g ∧ TakesEffect v g) ∧
      ((∃ e ∈ writtenRates v, e.1.display.isEmpty = true) →
        s.governance = .error .emptyIdentifier) := by
  obtain ⟨hsound, -, hfigures⟩ := read_eq_ok h
  have hmodels (m : Text) :
      (∃ o ∈ s.overrides, o.1 = m) ↔ ∃ e ∈ writtenRates v, e.1.display = m := by
    have hmem := mem_models_of_readFigures (m := m) hfigures
    rw [List.map_map] at hmem
    simpa using hmem
  rcases hsound.governance_eq with ⟨hfilled, hgoverns⟩ | ⟨⟨o, ho, hempty⟩, hrefused⟩
  · refine ⟨fun _ => ⟨_, hgoverns, takesEffect_of_read h⟩, ?_⟩
    rintro ⟨e, he, hempty⟩
    obtain ⟨o, ho, hname⟩ := (hmodels _).mpr ⟨e, he, rfl⟩
    rw [← hname, hfilled o ho] at hempty
    cases hempty
  · refine ⟨fun hfilled => ?_, fun _ => hrefused⟩
    obtain ⟨e, he, hname⟩ := (hmodels _).mp ⟨o, ho, rfl⟩
    rw [← hname, hfilled e he] at hempty
    cases hempty

def sampleValue (models : List (Value × Value)) : Value :=
  .map [(.text "curve", .map [(.text "crr_ppm", .int 100000), (.text "trade_fee_bps", .int 25),
      (.text "flat_curve_threshold", .int 1000000000), (.text "flat_curve_price", .int 10000)]),
    (.text "governance", .map [(.text "models", .map models)])]

def sampleSettings (overrides : List (Text × Nat)) : Settings where
  terms := { (default : Terms) with
    ratio := 100000, minRatio_le := by decide, ratio_le := by decide
    tradeFee := 25, tradeFee_le := by decide
    threshold := 1000000000, threshold_pos := by decide
    flatPrice := 10000, flatPrice_pos := by decide
    buyOnlySeconds := defaultBuyOnlySeconds
    tradeCap := defaultTradeCap, tradeCap_pos := by decide, tradeCap_le := by decide }
  accrualRate := defaultAccrualRate
  overrides

theorem sample_settings_take_effect :
    read (sampleValue [(.text "sales", .int 7000), (.int 1, .int 6000)]) =
        .ok (sampleSettings [("sales", 7000), ("1", 6000)]) ∧
      ∃ g, (sampleSettings [("sales", 7000), ("1", 6000)]).governance = .ok g ∧
        TakesEffect (sampleValue [(.text "sales", .int 7000), (.int 1, .int 6000)]) g := by
  have hread : read (sampleValue [(.text "sales", .int 7000), (.int 1, .int 6000)]) =
      .ok (sampleSettings [("sales", 7000), ("1", 6000)]) := rfl
  refine ⟨hread, (settings_take_effect hread).1 ?_⟩
  decide

/-- A model without a name is read and stops governance, and of two keys with one name the first is
read and has no effect. -/
theorem sample_rates_without_effect :
    (∃ s, read (sampleValue [(.text "", .int 7000)]) = .ok s ∧
        s.governance = .error .emptyIdentifier) ∧
      ∃ s g, read (sampleValue [(.int 1, .int 7000), (.text "1", .int 6000)]) = .ok s ∧
        s.governance = .ok g ∧ g.rate (Value.int 1).display = 6000 :=
  ⟨⟨sampleSettings [("", 7000)], rfl, rfl⟩,
    ⟨sampleSettings [("1", 6000)], ⟨8000, [("1", 6000)]⟩, rfl, rfl, rfl⟩⟩

end Settings

end CurveMarket
