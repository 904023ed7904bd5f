import CurveMarket.Text.Basic

/-!
# Tallies

Figures by model, zero where nothing was added. No figure is negative, which a tally carries the
proof of; a change that would take one below zero stops there, which no call ever comes to.
-/

namespace CurveMarket

structure Tally where
  figures : List (Text × Int)
  nonneg : ∀ f ∈ figures, 0 ≤ f.2
deriving DecidableEq

namespace Tally

def empty : Tally := ⟨[], by simp⟩

instance : Inhabited Tally := ⟨empty⟩

def get (t : Tally) (model : Text) : Int := (t.figures.lookup model).getD 0

/-- The figure of whatever was passed as a model; what is no text has none. -/
def get? (t : Tally) : Option Text → Int
  | some model => t.get model
  | none => 0

def addTo (model : Text) (amount : Int) : List (Text × Int) → List (Text × Int)
  | [] => [(model, max amount 0)]
  | f :: rest =>
    if f.1 = model then (model, max (f.2 + amount) 0) :: rest else f :: addTo model amount rest

theorem nonneg_addTo (model : Text) (amount : Int) {fs : List (Text × Int)}
    (h : ∀ f ∈ fs, 0 ≤ f.2) : ∀ f ∈ addTo model amount fs, 0 ≤ f.2 := by
  induction fs with
  | nil =>
    intro f hf
    rw [addTo, List.mem_singleton] at hf
    rw [hf]
    exact Int.le_max_right _ _
  | cons g rest ih =>
    have hrest : ∀ f ∈ rest, 0 ≤ f.2 := fun f hf => h f (List.mem_cons_of_mem g hf)
    intro f hf
    unfold addTo at hf
    split at hf
    · rcases List.mem_cons.mp hf with rfl | later
      · exact Int.le_max_right _ _
      · exact hrest f later
    · rcases List.mem_cons.mp hf with rfl | later
      · exact h f (by simp)
      · exact ih hrest f later

def add (t : Tally) (model : Text) (amount : Int) : Tally where
  figures := addTo model amount t.figures
  nonneg := nonneg_addTo model amount t.nonneg

theorem lookup_addTo (model other : Text) (amount : Int) (fs : List (Text × Int)) :
    ((addTo model amount fs).lookup other).getD 0 =
      if other = model then max ((fs.lookup model).getD 0 + amount) 0
      else (fs.lookup other).getD 0 := by
  induction fs with
  | nil =>
    by_cases h : other = model
    · simp [addTo, h]
    · have hb : (other == model) = false := by simp [h]
      simp [addTo, List.lookup_cons, h, hb]
  | cons f rest ih =>
    obtain ⟨name, figure⟩ := f
    by_cases hf : name = model
    · by_cases h : other = model
      · simp [addTo, hf, h]
      · have hb : (other == model) = false := by simp [h]
        simp [addTo, hf, h, List.lookup_cons, hb]
    · have hm : (model == name) = false := by simp [Ne.symm hf]
      by_cases h : other = name
      · subst h
        simp [addTo, hf]
      · have hb : (other == name) = false := by simp [h]
        simp [addTo, hf, List.lookup_cons, hb, hm, ih]

theorem get_add (t : Tally) (model other : Text) (amount : Int) :
    (t.add model amount).get other =
      if other = model then max (t.get model + amount) 0 else t.get other :=
  lookup_addTo model other amount t.figures

/-- A change that leaves the figure at zero or above is made as it is. -/
theorem get_add_of_nonneg {t : Tally} {model : Text} {amount : Int}
    (h : 0 ≤ t.get model + amount) (other : Text) :
    (t.add model amount).get other = t.get other + if other = model then amount else 0 := by
  rw [get_add]
  by_cases hsame : other = model
  · rw [if_pos hsame, if_pos hsame, hsame, Int.max_eq_left h]
  · rw [if_neg hsame, if_neg hsame, Int.add_zero]

theorem get_nonneg (t : Tally) (model : Text) : 0 ≤ t.get model := by
  unfold get
  cases h : t.figures.lookup model with
  | none => simp
  | some figure =>
    obtain ⟨before, after, hfigures, -⟩ := List.lookup_eq_some_iff.mp h
    exact t.nonneg (model, figure) (by rw [hfigures]; simp)

end Tally

end CurveMarket
