import Mathlib.Data.List.Forall2
import CurveMarket.Market.Callback
import CurveMarket.Proofs.Alike
import CurveMarket.Proofs.Market.Rollback

/-! # What calls in progress shelter

While a mutating call is in progress its instance bears a mark, and nothing that runs inside the
call takes the mark away or changes the instance. A property of marks and marked instances is
therefore kept by all that runs inside. Two programs whose carried requests agree wherever such a
property holds end alike, effects, journals and their unwinding included.
-/

namespace CurveMarket

open CurveMarket.Action Market

namespace Market

/-! ## Changes away from marks and instances -/

/-- `m'` has the marks of `m`, and all its instances as they are, perhaps with new ones. -/
structure Spares (m m' : Market) : Prop where
  entered : m'.entered = m.entered
  pools : m.pools <+: m'.pools
  reserves : m.reserves <+: m'.reserves
  splitters : m.splitters <+: m'.splitters

theorem Spares.of_eq {m m' : Market} (entered : m'.entered = m.entered)
    (pools : m'.pools = m.pools) (reserves : m'.reserves = m.reserves)
    (splitters : m'.splitters = m.splitters) : m.Spares m' :=
  ⟨entered, pools ▸ List.prefix_rfl, reserves ▸ List.prefix_rfl, splitters ▸ List.prefix_rfl⟩

theorem Spares.refl (m : Market) : m.Spares m := .of_eq rfl rfl rfl rfl

theorem Spares.trans {m₁ m₂ m₃ : Market} (h : m₁.Spares m₂) (h' : m₂.Spares m₃) : m₁.Spares m₃ :=
  ⟨h'.entered.trans h.entered, h.pools.trans h'.pools, h.reserves.trans h'.reserves,
    h.splitters.trans h'.splitters⟩

theorem spares_putTokenLedger (m : Market) (t : Nat) (l : TokenLedger) :
    m.Spares (m.putTokenLedger t l) := by
  unfold putTokenLedger
  cases (m.tokens.getD t default).ownTable with
  | none => exact .of_eq rfl rfl rfl rfl
  | some _ => exact .of_eq rfl rfl rfl rfl

/-- From `m` the action spares marks and instances, however it ends. -/
def Sparing {α : Type} (a : Action Market α) (m : Market) : Prop :=
  Ends a m (fun _ m' => m.Spares m') (fun _ m' => m.Spares m')

namespace Sparing

variable {α β : Type} {a : Action Market β} {f : β → Action Market α} {m : Market}

theorem pure (x : α) : Sparing (pure x) m := ends_pure (.refl m)

theorem throw (e : Error) : Sparing (throw e : Action Market α) m := ends_throw (.refl m)

theorem modify {g : Market → Market} (h : m.Spares (g m)) :
    Sparing (modify g : Action Market PUnit) m := ends_modify h

theorem bind (h : Sparing a m) (hf : ∀ x m', m.Spares m' → Sparing (f x) m') :
    Sparing (a >>= f) m := by
  refine Ends.bind (h.imp ?_ fun _ _ h => h)
  intro x m' hspares
  exact (hf x m' hspares).imp (fun _ _ => hspares.trans) fun _ _ => hspares.trans

theorem afterGet {f : Market → Action Market α} (h : Sparing (f m) m) : Sparing (get >>= f) m :=
  Ends.bind (ends_get h)

theorem check {v : Except Error β} (hok : ∀ x, v = .ok x → Sparing (f x) m) :
    Sparing (liftM v >>= f) m :=
  Ends.bind (ends_ofExcept hok fun _ _ => .refl m)

theorem test {c : Prop} [Decidable c] {e : Error} {next : PUnit → Action Market α}
    (h : Sparing (next ⟨⟩) m) :
    Sparing (if c then MonadExcept.throw e >>= next else next ⟨⟩) m :=
  ends_unless (fun _ => .refl m) fun _ => h

theorem focus {σ : Type} {part : Market → σ} {replace : Market → σ → Market} {a : Action σ α}
    (h : ∀ x, m.Spares (replace m x)) : Sparing (focus part replace a) m :=
  Ends.focus (ends_of (fun _ x _ => h x) fun _ x _ => h x)

end Sparing

theorem apply_sparing (e : Effect) (m : Market) : Sparing (apply e) m := by
  cases e with
  | transfer => exact .afterGet (.focus fun _ => .of_eq rfl rfl rfl rfl)
  | mint => exact .afterGet (.focus (spares_putTokenLedger m _))
  | burn => exact .afterGet (.focus (spares_putTokenLedger m _))

theorem takeCallback_sparing (target : CallbackTarget) (m : Market) :
    Sparing (takeCallback target) m := by
  unfold Sparing Ends takeCallback
  cases m.callbacks.lookup target with
  | none => exact .refl m
  | some c =>
      by_cases hnext : c.skip = 0
      · simp only [if_pos hnext]
        exact .of_eq rfl rfl rfl rfl
      · simp only [if_neg hnext]
        exact .of_eq rfl rfl rfl rfl

/-! ## Sheltered properties -/

/-- A change of the instance of a section. -/
inductive Changes : Section → Market → Market → Prop
  | pool (i : Nat) (f : Pool → Pool) (m : Market) : Changes (.pool i) m (m.updatePool i f)
  | reserve (i : Nat) (f : InfraReserve → InfraReserve) (m : Market) :
      Changes (.reserve i) m (m.updateReserve i f)
  | splitter (i : Nat) (f : Splitter → Splitter) (m : Market) :
      Changes (.splitter i) m (m.updateSplitter i f)

end Market

/-- The property does not look at the instance of the section. -/
def Ignores (I : Market → Prop) (s : Section) : Prop :=
  ∀ m m' : Market, I m → Changes s m m' → I m'

/-- A property of marks and of marked instances. -/
structure Sheltered (I : Market → Prop) : Prop where
  spares : ∀ {m m' : Market}, I m → m.Spares m' → I m'
  enter : ∀ {m : Market} (s : Section), I m → I (m.enter s)
  leave : ∀ {m m' : Market} {s : Section}, I m → s ∉ m.entered → I m' → I (m'.leave s)
  ignores : ∀ {m : Market} {s : Section}, I m → s ∉ m.entered → Ignores I s

theorem sheltered_true : Sheltered fun _ => True where
  spares := fun _ _ => trivial
  enter := fun _ _ => trivial
  leave := fun _ _ _ => trivial
  ignores := fun _ _ _ _ _ _ => trivial

theorem sheltered_mark (s : Section) : Sheltered fun m => s ∈ m.entered where
  spares := fun h hspares => hspares.entered ▸ h
  enter := fun _ h => List.mem_cons_of_mem _ h
  leave := fun {_ _ s'} h hfree h' => by
    have hne : s ≠ s' := fun heq => hfree (heq ▸ h)
    exact List.mem_filter.mpr ⟨h', by simpa using hne⟩
  ignores := fun _ _ _ _ h hchanges => by
    cases hchanges <;> exact h

theorem ignores_mark (s s' : Section) : Ignores (fun m => s ∈ m.entered) s' := by
  intro _ _ h hchanges
  cases hchanges <;> exact h

theorem getElem?_of_prefix {α : Type} {l l' : List α} (h : l <+: l') {i : Nat} {x : α}
    (hx : l[i]? = some x) : l'[i]? = some x := by
  obtain ⟨rest, rfl⟩ := h
  rw [List.getElem?_append_left (List.getElem?_eq_some_iff.mp hx).1]
  exact hx

/-- What only the calls of one section change stays as it is while that section is entered. -/
theorem sheltered_entered {β : Type} {s : Section} {read : Market → Option β} (x : β)
    (hspares : ∀ {m m' : Market}, m.Spares m' → read m = some x → read m' = some x)
    (henter : ∀ s m, read (m.enter s) = read m) (hleave : ∀ s m, read (m.leave s) = read m)
    (hchanges : ∀ {s' m m'}, s' ≠ s → Changes s' m m' → read m' = read m) :
    Sheltered fun m => s ∈ m.entered ∧ read m = some x where
  spares := fun h h' => ⟨(sheltered_mark s).spares h.1 h', hspares h' h.2⟩
  enter := fun s' h => ⟨(sheltered_mark s).enter s' h.1, (henter s' _).trans h.2⟩
  leave := fun h hfree h' => ⟨(sheltered_mark s).leave h.1 hfree h'.1, (hleave _ _).trans h'.2⟩
  ignores := fun {_ s'} h hfree _ _ h' hchange => by
    have hne : s' ≠ s := fun heq => hfree (heq ▸ h.1)
    exact ⟨ignores_mark s _ _ _ h'.1 hchange, (hchanges hne hchange).trans h'.2⟩

def InPool (i : Nat) (p : Pool) (m : Market) : Prop := .pool i ∈ m.entered ∧ m.pools[i]? = some p

theorem sheltered_pool (i : Nat) (p : Pool) : Sheltered (InPool i p) := by
  refine sheltered_entered p (fun h => getElem?_of_prefix h.pools) (fun _ _ => rfl)
    (fun _ _ => rfl) ?_
  intro s' m m' hne hchange
  cases hchange with
  | pool j f =>
      have hj : j ≠ i := fun heq => hne (heq ▸ rfl)
      exact List.getElem?_modify_ne _ _ hj
  | reserve => rfl
  | splitter => rfl

def InReserve (i : Nat) (r : InfraReserve) (m : Market) : Prop :=
  .reserve i ∈ m.entered ∧ m.reserves[i]? = some r

theorem sheltered_reserve (i : Nat) (r : InfraReserve) : Sheltered (InReserve i r) := by
  refine sheltered_entered r (fun h => getElem?_of_prefix h.reserves) (fun _ _ => rfl)
    (fun _ _ => rfl) ?_
  intro s' m m' hne hchange
  cases hchange with
  | reserve j f =>
      have hj : j ≠ i := fun heq => hne (heq ▸ rfl)
      exact List.getElem?_modify_ne _ _ hj
  | pool => rfl
  | splitter => rfl

def InSplitter (i : Nat) (x : Splitter) (m : Market) : Prop :=
  .splitter i ∈ m.entered ∧ m.splitters[i]? = some x

theorem sheltered_splitter (i : Nat) (x : Splitter) : Sheltered (InSplitter i x) := by
  refine sheltered_entered x (fun h => getElem?_of_prefix h.splitters) (fun _ _ => rfl)
    (fun _ _ => rfl) ?_
  intro s' m m' hne hchange
  cases hchange with
  | splitter j f =>
      have hj : j ≠ i := fun heq => hne (heq ▸ rfl)
      exact List.getElem?_modify_ne _ _ hj
  | pool => rfl
  | reserve => rfl

/-! ## Programs side by side -/

/-- From `m` the two actions end alike in one market, which has the marks of `m` and the
property. -/
def Same {α : Type} (I : Market → Prop) (a b : Action Market α) (m : Market) : Prop :=
  Alike a b m m (fun _ t u => t = u ∧ t.entered = m.entered ∧ I t)
    (fun _ t u => t = u ∧ t.entered = m.entered ∧ I t)

namespace Same

variable {α β : Type} {I : Market → Prop} {m : Market}

theorem of_sparing {a : Action Market α} (hI : Sheltered I) (h : I m) (ha : Sparing a m) :
    Same I a a m := by
  have hspared {t : Market} (hspares : m.Spares t) : t.entered = m.entered ∧ I t :=
    ⟨hspares.entered, hI.spares h hspares⟩
  refine Alike.imp (Ends.alike ha) ?_ ?_
  · intro _ t u hdone
    exact ⟨hdone.1, hspared hdone.2⟩
  · intro _ t u hdone
    exact ⟨hdone.1, hspared hdone.2⟩

theorem pure (h : I m) (x : α) : Same I (pure x) (pure x) m := alike_pure ⟨rfl, rfl, h⟩

theorem throw (h : I m) (e : Error) : Same I (throw e : Action Market α) (throw e) m :=
  alike_throw ⟨rfl, rfl, h⟩

/-- Actions that end alike in a later market with the marks of `m` leave the marks of `m`. -/
theorem later {a b : Action Market α} {t : Market} (h : Same I a b t)
    (hmarks : t.entered = m.entered) :
    Alike a b t t (fun _ u v => u = v ∧ u.entered = m.entered ∧ I u)
      (fun _ u v => u = v ∧ u.entered = m.entered ∧ I u) := by
  refine Alike.imp h ?_ ?_
  · rintro _ u _ ⟨rfl, hmarks', hI⟩
    exact ⟨rfl, hmarks'.trans hmarks, hI⟩
  · rintro _ u _ ⟨rfl, hmarks', hI⟩
    exact ⟨rfl, hmarks'.trans hmarks, hI⟩

theorem bind {a b : Action Market β} {f g : β → Action Market α} (h : Same I a b m)
    (hf : ∀ x m', I m' → Same I (f x) (g x) m') : Same I (a >>= f) (b >>= g) m := by
  refine Alike.bind (Alike.imp h ?_ fun _ _ _ h => h)
  rintro x t _ ⟨rfl, hmarks, hI⟩
  exact (hf x t hI).later hmarks

theorem map {a b : Action Market β} {f : β → α} (h : Same I a b m) : Same I (f <$> a) (f <$> b) m :=
  Alike.map (Alike.imp h (fun _ _ _ h => h) fun _ _ _ h => h)

theorem afterGet {f g : Market → Action Market α} (h : Same I (f m) (g m) m) :
    Same I (get >>= f) (get >>= g) m := Alike.bind (.ok rfl rfl h)

theorem check {v : Except Error β} {f g : β → Action Market α} (h : I m)
    (hok : ∀ x, v = .ok x → Same I (f x) (g x) m) : Same I (liftM v >>= f) (liftM v >>= g) m :=
  alike_check (fun _ _ => ⟨rfl, rfl, h⟩) hok

theorem tryCatch {a b : EStateM Error Market α} {f g : Error → EStateM Error Market α}
    (h : Same I a b m) (hf : ∀ e m', I m' → Same I (f e) (g e) m') :
    Same I (MonadExcept.tryCatch a f) (MonadExcept.tryCatch b g) m := by
  refine Alike.tryCatch (Alike.imp h (fun _ _ _ h => h) ?_)
  rintro e t _ ⟨rfl, hmarks, hI⟩
  exact (hf e t hI).later hmarks

theorem eq {a b : Action Market α} (h : Same I a b m) : a m = b m := by
  cases h with
  | ok left right post => rw [left, right, post.1]
  | error left right post => rw [left, right, post.1]

theorem ends {a : Action Market α} (h : Same I a a m) :
    Ends a m (fun _ t => t.entered = m.entered ∧ I t) fun _ t => t.entered = m.entered ∧ I t :=
  (Alike.ends h).imp (fun _ _ h => h.2) fun _ _ h => h.2

end Same

/-- The two executors carry every effect out alike. -/
def Executor.Matches (I : Market → Prop) (run run' : Executor) : Prop :=
  ∀ e m, I m → Same I (run e) (run' e) m

/-- The two ways to run carried requests run them alike. -/
def Market.Nested.Matches (I : Market → Prop) (call call' : Nested) : Prop :=
  ∀ r m, I m → Same I (call r) (call' r) m

/-! ## Journals side by side -/

/-- Undo steps that bring the same about, one by one. -/
def JournalsMatch (I : Market → Prop) (journal journal' : List UndoStep) : Prop :=
  List.Forall₂ (fun u v => ∀ m, I m → Same I u v m) journal journal'

/-- One market with the property, and journals that match. -/
structure Beside (I : Market → Prop) (s t : Market × List UndoStep) : Prop where
  market : s.1 = t.1
  holds : I s.1
  journals : JournalsMatch I s.2 t.2

/-- From `s` and `t` the two actions end alike, side by side and with the marks they found. -/
def SameJournaled {α : Type} (I : Market → Prop) (a b : Journaled α)
    (s t : Market × List UndoStep) : Prop :=
  Alike a b s t (fun _ s' t' => Beside I s' t' ∧ s'.1.entered = s.1.entered)
    (fun _ s' t' => Beside I s' t' ∧ s'.1.entered = s.1.entered)

namespace SameJournaled

variable {α β : Type} {I : Market → Prop} {s t : Market × List UndoStep} (h : Beside I s t)

theorem later {a b : Journaled α} {s' t' : Market × List UndoStep} (ha : SameJournaled I a b s' t')
    (hmarks : s'.1.entered = s.1.entered) :
    Alike a b s' t' (fun _ u v => Beside I u v ∧ u.1.entered = s.1.entered)
      (fun _ u v => Beside I u v ∧ u.1.entered = s.1.entered) := by
  refine Alike.imp ha ?_ ?_
  · rintro _ u v ⟨hbeside, hmarks'⟩
    exact ⟨hbeside, hmarks'.trans hmarks⟩
  · rintro _ u v ⟨hbeside, hmarks'⟩
    exact ⟨hbeside, hmarks'.trans hmarks⟩

theorem bind {a b : Journaled β} {f g : β → Journaled α} (ha : SameJournaled I a b s t)
    (hf : ∀ x s' t', Beside I s' t' → SameJournaled I (f x) (g x) s' t') :
    SameJournaled I (a >>= f) (b >>= g) s t := by
  refine Alike.bind (Alike.imp ha ?_ fun _ _ _ h => h)
  rintro x s' t' ⟨hbeside, hmarks⟩
  exact (hf x s' t' hbeside).later hmarks

include h

theorem pure (x : α) : SameJournaled I (pure x) (pure x) s t := alike_pure ⟨h, rfl⟩

theorem throw (e : Error) : SameJournaled I (throw e : Journaled α) (throw e) s t :=
  alike_throw ⟨h, rfl⟩

theorem check {v : Except Error β} {f g : β → Journaled α}
    (hok : ∀ x, v = .ok x → SameJournaled I (f x) (g x) s t) :
    SameJournaled I (liftM v >>= f) (liftM v >>= g) s t :=
  alike_check (fun _ _ => ⟨h, rfl⟩) hok

theorem afterMarket {f g : Market → Journaled α} (hf : SameJournaled I (f s.1) (g s.1) s t) :
    SameJournaled I (Journaled.market >>= f) (Journaled.market >>= g) s t := by
  obtain ⟨m, journal⟩ := s
  obtain ⟨_, journal'⟩ := t
  obtain rfl : m = _ := h.market
  exact Alike.bind (.ok rfl rfl hf)

theorem lift {a b : Action Market α} (ha : Same I a b s.1) :
    SameJournaled I (Journaled.lift a) (Journaled.lift b) s t := by
  obtain ⟨m, journal⟩ := s
  obtain ⟨_, journal'⟩ := t
  obtain rfl : m = _ := h.market
  refine Alike.focus (Alike.imp ha ?_ ?_)
  · rintro _ m₁ _ ⟨rfl, hmarks, hI⟩
    exact ⟨⟨rfl, hI, h.journals⟩, hmarks⟩
  · rintro _ m₁ _ ⟨rfl, hmarks, hI⟩
    exact ⟨⟨rfl, hI, h.journals⟩, hmarks⟩

theorem record {u v : UndoStep} (huv : ∀ m, I m → Same I u v m) :
    SameJournaled I (Journaled.record u) (Journaled.record v) s t :=
  alike_modify ⟨⟨h.market, h.holds, .cons huv h.journals⟩, rfl⟩

theorem change {f : Market → Market} (hf : I (f s.1)) (hmarks : (f s.1).entered = s.1.entered) :
    SameJournaled I (Journaled.change f) (Journaled.change f) s t :=
  alike_modify ⟨⟨congrArg f h.market, hf, h.journals⟩, hmarks⟩

end SameJournaled

end CurveMarket
