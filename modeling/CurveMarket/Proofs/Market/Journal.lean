import CurveMarket.Proofs.Ledger.Total
import CurveMarket.Proofs.Market.Atomicity

/-! # Journals kept by hand

A journal is rolled back from its newest step on, and every step comes off it before it runs. Right
after effects that were recorded while no callback waited, every step succeeds: the step of an
effect is let through in the market that the effect left, so taking the steps off one by one walks
back through the markets that the effects went through.
-/

namespace CurveMarket

open CurveMarket.Action Market

namespace Journaled

/-- A rollback does to the market what unwinding the journal does, and ends with an empty journal
unless a step fails. -/
theorem rollback_ends (m : Market) (journal : List UndoStep) :
    Ends rollback (m, journal) (fun _ s => unwind journal m = .ok () s.1 ∧ s.2 = [])
      (fun e s => unwind journal m = .error e s.1) := by
  refine .bind (ends_get ?_)
  show Ends (takeOff journal) (m, journal) _ _
  induction journal generalizing m with
  | nil => exact ends_pure ⟨rfl, rfl⟩
  | cons undo rest ih =>
      refine .bind (ends_modify (.bind (.focus (ends_of ?_ ?_))))
      · intro _ m₁ hdone
        refine (ih m₁).imp ?_ ?_
        · rintro - s ⟨hunwound, hempty⟩
          exact ⟨(bind_of_ok hdone).trans hunwound, hempty⟩
        · intro e s hstuck
          exact (bind_of_ok hdone).trans hstuck
      · intro e m₁ hfailed
        exact bind_of_error hfailed

end Journaled

theorem Undoes.rollback {before : MarketView} {s : Market × List UndoStep}
    (h : Undoes s.2 before s.1.view) :
    ∃ m', Journaled.rollback s = .ok () (m', []) ∧ m'.view = before := by
  obtain ⟨_, m', hunwound, hview⟩ := (h s.1 rfl).exists_ok
  have hends := Journaled.rollback_ends s.1 s.2
  cases hrolled : Journaled.rollback s with
  | ok _ s' =>
      obtain ⟨hsame, hempty⟩ := hends.of_ok hrolled
      cases hunwound.symm.trans hsame
      exact ⟨s'.1, by rw [← hempty], hview⟩
  | error e s' => cases hunwound.symm.trans (hends.of_error hrolled)

/-! ## Effects until one fails -/

/-- Whether an entry is an effect, and not an undo step of something else. -/
def JournalEntry.isEffect : JournalEntry → Bool
  | .record _ => false
  | _ => true

theorem resolveCapability_ends (name : Text) (m : Market) :
    Ends (resolveCapability name) m (fun _ m' => m' = m) (fun _ m' => m' = m) := by
  refine .bind (resolve_ends.imp ?_ fun _ _ h => h)
  rintro o - rfl
  cases o with
  | capability i => exact ends_pure rfl
  | _ => exact ends_throw rfl

/-- From `s` the action keeps a journal that leads back to `before`, however it ends. -/
def LeadsBack (before : MarketView) (a : Journaled Unit) (s : Market × List UndoStep) : Prop :=
  Ends a s (fun _ t => Undoes t.2 before t.1.view) fun _ t => Undoes t.2 before t.1.view

theorem LeadsBack.undoes {before : MarketView} {a : Journaled Unit} {s : Market × List UndoStep}
    (h : LeadsBack before a s) : Undoes (a.stateAfter s).2 before (a.stateAfter s).1.view :=
  Ends.stateAfter (P := fun t : Market × List UndoStep => Undoes t.2 before t.1.view) h

theorem journalEntries_leadsBack (call : Nested) {before : MarketView}
    {entries : List JournalEntry} (heffects : ∀ e ∈ entries, e.isEffect = true) {m : Market}
    (hquiet : m.callbacks = []) {journal : List UndoStep} (h : Undoes journal before m.view) :
    LeadsBack before (journalEntries call entries) (m, journal) := by
  induction entries generalizing m journal with
  | nil => exact ends_pure h
  | cons e rest ih =>
      have hrest : ∀ x ∈ rest, x.isEffect = true :=
        fun x hx => heffects x (List.mem_cons_of_mem e hx)
      have hperformed (effect : Effect) :
          LeadsBack before
            (do
              Journaled.perform (withCallbacks call) effect
              journalEntries call rest) (m, journal) := by
        have hrun : (withCallbacks call).Direct m.callbacks := by
          rw [hquiet]
          exact withCallbacks_direct call
        refine Ends.bind ((perform_ends effect hrun h).imp ?_ fun _ _ h => h.2)
        rintro - ⟨m₁, journal₁⟩ ⟨hmoves, hundoes⟩
        exact ih hrest (hmoves.callbacks_eq.symm.trans hquiet) hundoes
      have hissued (name : Text) (effect : Nat → Effect) :
          LeadsBack before
            (do
              let c ← resolveCapability name
              Journaled.perform (withCallbacks call) (effect c)
              journalEntries call rest) (m, journal) := by
        refine Ends.bind (.focus ((resolveCapability_ends name m).imp ?_ ?_))
        · intro c m' hsame
          rw [hsame]
          exact hperformed (effect c)
        · intro _ m' hsame
          rw [hsame]
          exact h
      unfold journalEntries
      cases e with
      | transfer sender recipient amount =>
          dsimp only
          split
          · -- Nothing is moved and nothing is recorded.
            exact ih hrest hquiet h
          · exact hperformed _
      | mint name account amount => exact hissued name fun c => .mint c account amount
      | burn name account amount => exact hissued name fun c => .burn c account amount
      | record step => cases heffects (.record step) List.mem_cons_self

/-! ## Back to the start -/

theorem ledgers_of_view {m m' : Market} (h : m'.view = m.view) :
    m'.table.get = m.table.get ∧ (∀ asset, m'.table.total asset = m.table.total asset) ∧
      ∀ t, m'.token t = m.token t ∧ (m'.tokenLedger t).table.get = (m.tokenLedger t).table.get := by
  have hbalances : m'.table.get = m.table.get := congrArg MarketView.balances h
  refine ⟨hbalances, fun asset => ?_, fun t => ⟨?_, ?_⟩⟩
  · exact BalanceTable.total_of_get fun account => by rw [hbalances]
  · have htoken : (m'.view.token t).token = (m.view.token t).token := by rw [h]
    rw [view_token, view_token] at htoken
    exact htoken
  · rw [← view_tokenAmounts, ← view_tokenAmounts, h]

/-- Effects on ledgers that share tables or not, between any accounts and of any amounts, are
recorded until one is refused or none is left. The rollback that follows runs every step that was
recorded, ends with an empty journal, and brings back all balances and supplies, and all else that
can be told about the market. -/
theorem rollback_inverts_effects (call : Nested) {entries : List JournalEntry}
    (heffects : ∀ e ∈ entries, e.isEffect = true) {m : Market} (hquiet : m.callbacks = []) :
    ∃ m', Journaled.rollback ((journalEntries call entries).stateAfter (m, [])) = .ok () (m', []) ∧
      m'.view = m.view ∧ m'.table.get = m.table.get ∧
      (∀ asset, m'.table.total asset = m.table.total asset) ∧
      ∀ t, m'.token t = m.token t ∧
        (m'.tokenLedger t).table.get = (m.tokenLedger t).table.get := by
  have hback : LeadsBack m.view (journalEntries call entries) (m, []) :=
    journalEntries_leadsBack call heffects hquiet (undoes_nil m.view)
  obtain ⟨m', hrolled, hview⟩ := hback.undoes.rollback
  exact ⟨m', hrolled, hview, ledgers_of_view hview⟩

/-- A market with a token in a table of its own and one in the table of the reserve asset. -/
def sampleLedgers : Market where
  now := 0
  symbol := "USDC"
  table := (BalanceTable.set ⟨"payer", "USDC"⟩ 100).stateAfter .empty
  tokens := [
    ⟨{ name := "OWN", live := [1] }, some .empty⟩,
    ⟨{ name := "SHARED", live := [2] }, none⟩]
  capabilities := [⟨0, 1, .null⟩, ⟨1, 2, .null⟩]
  names := [("own", .capability 0), ("shared", .capability 1)]

/-- A payment of all that the payer has, one to oneself, one of nothing, tokens that come and go,
and a burn of more than there is, at which the effects end. -/
def sampleEffects : List JournalEntry :=
  [.transfer (some "payer") (some "holder") (.int 100),
    .transfer (some "holder") (some "holder") (.int 40),
    .transfer (some "payer") (some "holder") (.int 0),
    .mint "own" (some "holder") (some 5),
    .mint "shared" (some "payer") (some 7),
    .burn "shared" (some "payer") (some 7),
    .burn "own" (some "holder") (some 6),
    .mint "own" (some "holder") (some 1)]

theorem rollback_inverts_sample_effects :
    (∀ e ∈ sampleEffects, e.isEffect = true) ∧ sampleLedgers.callbacks = [] ∧
      let recorded := journalEntries (fun _ => pure .nothing) sampleEffects
      let s := recorded.stateAfter (sampleLedgers, [])
      (recorded.outcome (sampleLedgers, [])).isOk = false ∧ s.2.length = 5 ∧
      s.1.held "payer" = 0 ∧ s.1.supplyOf 0 = 5 ∧
      ∃ m', Journaled.rollback s = .ok () (m', []) ∧ m'.held "payer" = 100 ∧
        (m'.token 0).supply = 0 := by
  have heffects : ∀ e ∈ sampleEffects, e.isEffect = true := by decide +kernel
  refine ⟨heffects, rfl, by decide +kernel, by decide +kernel, by decide +kernel,
    by decide +kernel, ?_⟩
  obtain ⟨m', hrolled, hview, -, -, htokens⟩ :=
    rollback_inverts_effects (fun _ => pure .nothing) heffects (m := sampleLedgers) rfl
  refine ⟨m', hrolled, ?_, ?_⟩
  · rw [← view_held, hview]
    decide +kernel
  · rw [(htokens 0).1]
    decide +kernel

end CurveMarket
