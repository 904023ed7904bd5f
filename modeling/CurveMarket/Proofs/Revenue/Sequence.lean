import CurveMarket.Proofs.Revenue.Deposit

/-! # Batches of a reserve and their entries in turn

Paying or depositing in a batch comes to the same as doing it entry by entry.
-/

namespace CurveMarket

open CurveMarket.Action Market

section Sequences

variable {run : Executor} {m : Market} (hrun : run.Direct m.callbacks) (i : Nat)
include hrun

theorem batchPay_iff_payInTurn {payments : List Payment} (hsome : payments ≠ []) :
    (∃ total m', batchPay run i payments m = .ok total m') ↔
      ∃ m', payInTurn run i payments m = .ok () m' := by
  constructor
  · intro h
    obtain ⟨total, m', h⟩ := h
    obtain ⟨hopen, -, hall⟩ := (batchPay_settles hrun payments).of_ok h
    obtain ⟨_, m'', hturn, -⟩ := (payInTurn_of_settlesAll hrun hopen hall).exists_ok
    exact ⟨m'', hturn⟩
  · intro h
    obtain ⟨m', h⟩ := h
    obtain ⟨hopen, hall⟩ := (payInTurn_settles hrun payments).of_ok h
    obtain ⟨total, m'', hbatch, -⟩ :=
      (batchPay_of_settlesAll hrun (hopen hsome) hsome hall).exists_ok
    exact ⟨total, m'', hbatch⟩

theorem view_of_batchPay {payments : List Payment} {total : Int} {m₁ m₂ : Market}
    (h₁ : batchPay run i payments m = .ok total m₁) (h₂ : payInTurn run i payments m = .ok () m₂) :
    m₁.view = m₂.view :=
  ((batchPay_settles hrun payments).of_ok h₁).2.2.unique
    ((payInTurn_settles hrun payments).of_ok h₂).2

variable {entries : List (Option Text × Option Int)} {sender : Option Text}

theorem batchDeposit_iff_depositInTurn (hsome : entries ≠ [])
    (hne : sender ≠ some (m.reserve i).account) :
    (∃ total m', batchDeposit run i (entries.map Prod.fst) (entries.map Prod.snd) sender m =
        .ok total m') ↔
      ∃ m', depositInTurn run i sender entries m = .ok () m' := by
  rw [← view_reserve_account] at hne
  constructor
  · intro h
    obtain ⟨total, m', h⟩ := h
    obtain ⟨hopen, payer, taken, ⟨rfl, -, rfl⟩, hpayer, hadmitted, hdone⟩ :=
      (batchDeposit_takes hrun entries).of_ok h
    obtain ⟨_, m'', hturn, -⟩ := (depositInTurn_of_deposited hrun (fun heq => hne (by rw [heq]))
      hopen hpayer hadmitted hdone).exists_ok
    exact ⟨m'', hturn⟩
  · intro h
    obtain ⟨m', h⟩ := h
    obtain ⟨hopen, payer, taken, rfl, hentries, hpayer, hadmitted, hdone⟩ :=
      (depositInTurn_takes hrun hne hsome).of_ok h
    have htaken : taken ≠ [] := by simpa [hentries] using hsome
    obtain ⟨total, m'', hbatch, -⟩ :=
      (batchDeposit_of_deposited hrun htaken hopen hpayer hadmitted hdone hentries).exists_ok
    exact ⟨total, m'', hbatch⟩

theorem view_of_batchDeposit (hsome : entries ≠ []) (hne : sender ≠ some (m.reserve i).account)
    {total : Int} {m₁ m₂ : Market}
    (h₁ : batchDeposit run i (entries.map Prod.fst) (entries.map Prod.snd) sender m = .ok total m₁)
    (h₂ : depositInTurn run i sender entries m = .ok () m₂) : m₁.view = m₂.view := by
  rw [← view_reserve_account] at hne
  obtain ⟨-, payer, taken, ⟨rfl, -, hentries⟩, -, -, hdone⟩ :=
    (batchDeposit_takes hrun entries).of_ok h₁
  obtain ⟨-, _, taken', heq, hentries', -, -, hdone'⟩ :=
    (depositInTurn_takes hrun hne hsome).of_ok h₂
  cases heq
  have hsame : taken = taken' := by
    refine List.map_injective_iff.mpr ?_ (hentries.symm.trans hentries')
    rintro ⟨name, a⟩ ⟨name', a'⟩ hpair
    cases hpair
    rfl
  rw [← hsame] at hdone'
  exact hdone.unique hdone'

end Sequences

/-- A batch of invoices is paid exactly when they are paid one after another, and a batch of
deposits is taken exactly when they are taken one after another; both leave the same. -/
theorem reserve_batches_eq_sequences {run : Executor} {m : Market}
    (hrun : run.Direct m.callbacks) (i : Nat) :
    (∀ payments : List Payment, payments ≠ [] →
      ((∃ total m', batchPay run i payments m = .ok total m') ↔
        ∃ m', payInTurn run i payments m = .ok () m') ∧
      (∀ total m₁ m₂, batchPay run i payments m = .ok total m₁ →
        payInTurn run i payments m = .ok () m₂ → m₁.view = m₂.view) ∧
      ∀ e m', batchPay run i payments m = .error e m' → m'.view = m.view) ∧
    ∀ (entries : List (Option Text × Option Int)) (sender : Option Text), entries ≠ [] →
      sender ≠ some (m.reserve i).account →
      ((∃ total m', batchDeposit run i (entries.map Prod.fst) (entries.map Prod.snd) sender m =
          .ok total m') ↔
        ∃ m', depositInTurn run i sender entries m = .ok () m') ∧
      ∀ total m₁ m₂, batchDeposit run i (entries.map Prod.fst) (entries.map Prod.snd) sender m =
        .ok total m₁ → depositInTurn run i sender entries m = .ok () m₂ → m₁.view = m₂.view := by
  constructor
  · intro payments hsome
    refine ⟨batchPay_iff_payInTurn hrun i hsome, ?_, ?_⟩
    · exact fun total m₁ m₂ h₁ h₂ => view_of_batchPay hrun i h₁ h₂
    · exact fun e m' h => (batchPay_ends hrun payments).of_error h
  · intro entries sender hsome hne
    refine ⟨batchDeposit_iff_depositInTurn hrun i hsome hne, ?_⟩
    exact fun total m₁ m₂ h₁ h₂ => view_of_batchDeposit hrun i hsome hne h₁ h₂

/-- Invoices of two models, one of them payable to the reserve's own account. -/
def sampleInvoices : List Payment :=
  [⟨some "m1", some "provider", some 20, .null, .null⟩,
    ⟨some "m2", some "infra", some 30, .null, .null⟩,
    ⟨some "m1", some "provider", some 50, .null, .null⟩]

def sampleEntries : List (Option Text × Option Int) :=
  [(some "m1", some 60), (some "m2", some 30), (some "m1", some 10)]

theorem sample_batches_eq_sequences :
    (∃ total m₁ m₂, batchPay apply 0 sampleInvoices sampleAccrued = .ok total m₁ ∧
      payInTurn apply 0 sampleInvoices sampleAccrued = .ok () m₂ ∧ m₁.view = m₂.view) ∧
    ∃ total m₁ m₂, batchDeposit apply 0 (sampleEntries.map Prod.fst) (sampleEntries.map Prod.snd)
        (some "payer") sampleAccrued = .ok total m₁ ∧
      depositInTurn apply 0 (some "payer") sampleEntries sampleAccrued = .ok () m₂ ∧
      m₁.view = m₂.view := by
  obtain ⟨hpaid, hdeposited⟩ := reserve_batches_eq_sequences (apply_direct sampleAccrued.callbacks) 0
  obtain ⟨hturn, hsame, -⟩ := hpaid sampleInvoices nofun
  obtain ⟨hturn', hsame'⟩ := hdeposited sampleEntries (some "payer") nofun (by decide +kernel)
  obtain ⟨total, hbatch⟩ := exists_ok_of_outcome (a := batchPay apply 0 sampleInvoices)
    (s := sampleAccrued) (by decide +kernel)
  obtain ⟨total', hbatch'⟩ := exists_ok_of_outcome (s := sampleAccrued)
    (a := batchDeposit apply 0 (sampleEntries.map Prod.fst) (sampleEntries.map Prod.snd)
      (some "payer")) (by decide +kernel)
  obtain ⟨m₂, hm₂⟩ := hturn.mp ⟨_, _, hbatch⟩
  obtain ⟨m₂', hm₂'⟩ := hturn'.mp ⟨_, _, hbatch'⟩
  exact ⟨⟨_, _, m₂, hbatch, hm₂, hsame _ _ _ hbatch hm₂⟩,
    _, _, m₂', hbatch', hm₂', hsame' _ _ _ hbatch' hm₂'⟩

end CurveMarket
