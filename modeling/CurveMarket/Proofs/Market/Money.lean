import CurveMarket.Proofs.Market.Conservation
import CurveMarket.Proofs.Market.Heard

/-! # Conservation of money

Between any two steps of a run the books of all ledgers agree, and every step keeps to the law of
its kind. Requests make the market run by such steps, whatever they carry and however they end.
-/

namespace CurveMarket

open CurveMarket.Action

namespace Market

structure Transition.Lawful (x : Transition) : Prop where
  /-- The reserve asset is made by credits alone. -/
  asset : x.after.assetTotal = x.before.assetTotal + x.event.credited
  supplies : x.after.SuppliesMatch
  /-- A supply changes through a live capability of that token. -/
  supply : ∀ t < x.before.tokens.length, (x.after.token t).supply ≠ (x.before.token t).supply →
    ∃ c, x.event.issuer? = some c ∧ x.before.isAuthorized t c = true
  authorized : ∀ c, x.event.issuer? = some c →
    x.before.isAuthorized (x.before.capability c).token c = true
  /-- An issue leaves the reserve asset alone, and the tokens that its capability has no right
  to. -/
  untouched : ∀ c, x.event.issuer? = some c → (∀ a, x.after.held a = x.before.held a) ∧
    ∀ t < x.before.tokens.length, x.before.isAuthorized t c = false →
      x.after.token t = x.before.token t ∧ ∀ a, x.after.unitsOf t a = x.before.unitsOf t a

section Runs

variable {asked : Operation → Prop} {m m' : Market} {ts : List Transition}
  (hasked : ∀ op, asked op → op.writesAmount = false)
include hasked

theorem RunsTo.keepsNames (h : RunsTo asked m m' ts) : m.KeepsNames m' := by
  induction h with
  | refl m => exact .refl m
  | cons first _ ih => exact (first.ledgerStep hasked).keepsNames.trans ih

/-- Names that are apart at the end of a run were so all along. -/
theorem RunsTo.lawful (h : RunsTo asked m m' ts) (hm : m.Accounted) (hapart : m'.IdsApart) :
    m'.Accounted ∧ ∀ x ∈ ts, x.Lawful := by
  induction h with
  | refl m => exact ⟨hm, List.forall_mem_nil _⟩
  | cons first later ih =>
      have hstep := first.ledgerStep hasked
      have hafter := (later.keepsNames hasked).idsApart hapart
      have hbefore := hstep.keepsNames.idsApart hafter
      obtain ⟨hend, hrest⟩ := ih (hstep.accounted hm hafter) hapart
      refine ⟨hend, List.forall_mem_cons.mpr ⟨?_, hrest⟩⟩
      exact
        { asset := hstep.assetTotal_eq hbefore
          supplies := hstep.suppliesMatch hm hafter
          supply := fun t => hstep.issuer_of_supply
          authorized := fun c => hstep.authorized
          untouched := fun c => hstep.untouched hbefore }

omit hasked in
theorem RunsTo.assetTotal_eq (h : RunsTo asked m m' ts) (hlawful : ∀ x ∈ ts, x.Lawful) :
    m'.assetTotal = m.assetTotal + (ts.map fun x => x.event.credited).sum := by
  induction h with
  | refl => exact (Int.add_zero _).symm
  | cons _ _ ih =>
      obtain ⟨hfirst, hrest⟩ := List.forall_mem_cons.mp hlawful
      rw [ih hrest, hfirst.asset, List.map_cons, List.sum_cons, Int.add_assoc]

theorem RunsTo.barred (h : RunsTo asked m m' ts)
    (hm : ∀ c < m.capabilities.length, (m.capability c).number = c + 1) {t c : Nat}
    (hc : c < m.capabilities.length) (hbarred : m.isAuthorized t c = false) :
    ∀ x ∈ ts, x.before.isAuthorized t c = false ∧ x.after.isAuthorized t c = false ∧
      x.before.capability c = m.capability c ∧ x.after.capability c = m.capability c := by
  induction h with
  | refl => exact List.forall_mem_nil _
  | @cons m u _ _ _ first _ ih =>
      have hstep := first.ledgerStep hasked
      obtain ⟨added, hprefix⟩ := first.evolves.capabilities
      have hkept : u.capability c = m.capability c := by
        unfold capability
        rw [← hprefix]
        simp only [List.getD_eq_getElem?_getD, List.getElem?_append_left hc]
      have hlt : c < u.capabilities.length := by
        rw [← hprefix, List.length_append]
        omega
      have hstill := hstep.barred hm hc hbarred
      refine List.forall_mem_cons.mpr ⟨⟨hbarred, hstill, rfl, hkept⟩, ?_⟩
      rw [← hkept]
      exact ih (hstep.numbered hm) hlt hstill

end Runs

theorem accounted_make {symbol : Option Text} {now : Int} {m : Market}
    (h : Market.make symbol now = .ok m) : m.Accounted := by
  obtain ⟨s, names, rfl⟩ := make_eq_ok h
  exact ⟨nofun, fun x _ _ => BalanceTable.total_empty x, nofun⟩

/-- What requests ask for, and the steps that wait in callbacks. -/
def MayAsk (m : Market) (requests : List Request) (op : Operation) : Prop :=
  (∃ r ∈ requests, op ∈ r.operations) ∨ ∃ c ∈ m.callbacks, ∃ r ∈ c.2.steps, op ∈ r.operations

theorem Sound.mayAsk {asked : Operation → Prop} {m : Market} (h : m.Sound asked)
    (requests : List Request) : m.Sound (m.MayAsk requests) :=
  { h with waits := fun c hc r hr _ hop => .inr ⟨c, hc, r, hr, hop⟩ }

end Market

open Market

/-- Whatever is asked of a new market short of writing amounts into the table, with any callbacks,
errors and rollbacks, and as long as no two ledgers of the table go by one name: the market runs by
steps in which the reserve asset is made by the accepted credits alone, one step for each of them
among the requests that are answered; tokens are issued through their own live capabilities alone;
supplies are what the holders have at every step; and a capability that has lost its right to a
token, or never had it, issues none of it again. -/
theorem money_conserved {symbol : Option Text} {now : Int} {m₀ : Market}
    (hmake : Market.make symbol now = .ok m₀) {earlier later : List Request}
    (hwrites : ∀ r ∈ earlier ++ later, ∀ op ∈ r.operations, op.writesAmount = false)
    (hapart : ((m₀.submitAll earlier).submitAll later).IdsApart) :
    let m := m₀.submitAll earlier
    ∃ ts calls, RunsTo (m.MayAsk later) m (m.submitAll later) ts ∧
      (m.submitAll later).heard = m.heard ++ calls ∧
      calls.map Exchange.answer = m.answersTo later ∧
      ts.filterMap (fun x => x.event.credit?) = calls.filterMap Exchange.credit? ∧
      (m.submitAll later).assetTotal = m.assetTotal + (calls.map Exchange.credited).sum ∧
      m.SuppliesMatch ∧ (∀ x ∈ ts, x.Lawful) ∧
      ∀ t c, c < m.capabilities.length → m.isAuthorized t c = false →
        ∀ x ∈ ts, x.after.isAuthorized t c = false ∧
          ((m.capability c).token = t → x.event.issuer? ≠ some c ∧
            ∀ e : Effect, e.issuer? = some c → ∃ err, apply e x.after = .error err x.after) := by
  intro m
  let asked (op : Operation) : Prop := ∃ r ∈ earlier, op ∈ r.operations
  have hasked (op : Operation) (hop : asked op) : op.writesAmount = false := by
    obtain ⟨r, hr, hmem⟩ := hop
    exact hwrites r (List.mem_append_left _ hr) op hmem
  have hbegun : Reaches asked m₀ m :=
    submitAll_reaches (fun r hr op hop => ⟨r, hr, hop⟩) (sound_make hmake)
  have hsound : m.Sound asked := hbegun.sound (sound_make hmake)
  -- What waits in callbacks was asked for earlier.
  have hmay (op : Operation) (hop : m.MayAsk later op) : op.writesAmount = false := by
    rcases hop with ⟨r, hr, hmem⟩ | ⟨c, hc, r, hr, hmem⟩
    · exact hwrites r (List.mem_append_right _ hr) op hmem
    · exact hasked op (hsound.waits c hc r hr op hmem)
  have hwithin (r : Request) (hr : r ∈ later) : r.Within (m.MayAsk later) :=
    fun op hop => .inl ⟨r, hr, hop⟩
  obtain ⟨first, hfirst⟩ := hbegun
  obtain ⟨ts, hts⟩ := submitAll_reaches hwithin (hsound.mayAsk later)
  obtain ⟨haccounted, -⟩ := hfirst.lawful hasked (accounted_make hmake)
    ((hts.keepsNames hmay).idsApart hapart)
  obtain ⟨-, hlawful⟩ := hts.lawful hmay haccounted hapart
  obtain ⟨calls, hcalls⟩ := hts.hears
  obtain ⟨calls', hheard, hanswers⟩ := answers_submitAll hwithin (hsound.mayAsk later)
  obtain rfl : calls = calls' := List.append_cancel_left (hcalls.heard.symm.trans hheard)
  refine ⟨ts, calls, hts, hheard, hanswers, ?_, ?_, haccounted.supplies, hlawful, ?_⟩
  · rw [← hcalls.credits, List.filterMap_map]
    rfl
  · rw [hts.assetTotal_eq hlawful, ← hcalls.credited, List.map_map]
    rfl
  intro t c hc hbarred x hx
  obtain ⟨hbefore, hafter, hcapability, hcapability'⟩ :=
    hts.barred hmay haccounted.numbered hc hbarred x hx
  refine ⟨hafter, fun hown => ⟨fun hissuer => ?_, fun e he => refused_of_barred he ?_⟩⟩
  · have hauthorized := (hlawful x hx).authorized c hissuer
    rw [hcapability, hown, hbefore] at hauthorized
    cases hauthorized
  · rw [hcapability', hown]
    exact hafter

/-- A token in the table of the reserve asset, of which some is minted before its only capability
is revoked. -/
def sampleIssues : List Request :=
  [.mk "world" (.newToken (some "TOK") true) (some "token"),
    .mk "world" (.newCapability "token" .null) (some "capability"),
    .mk "capability" (.capability (.mint (some "holder") (some 5))) none,
    .mk "asset" (.asset (.credit (some "payer") (some 100))) none,
    .mk "token" (.capability (.revoke "capability")) none]

/-- A transfer in the middle of which more is credited, and an attempt to mint. -/
def sampleAttempts : List Request :=
  [.mk "world" (.armCallback "asset"
      [.mk "asset" (.asset (.credit (some "payer") (some 7))) none] .after 0 true) none,
    .mk "asset" (.asset (.transfer (some "payer") (some "holder") (some 30))) none,
    .mk "capability" (.capability (.mint (some "holder") (some 5))) none]

theorem sample_money_conserved :
    Market.make (some "USDC") 0 = .ok sampleFresh ∧
    (∀ r ∈ sampleIssues ++ sampleAttempts, ∀ op ∈ r.operations, op.writesAmount = false) ∧
    ((sampleFresh.submitAll sampleIssues).submitAll sampleAttempts).IdsApart ∧
    ∃ ts, RunsTo ((sampleFresh.submitAll sampleIssues).MayAsk sampleAttempts)
        (sampleFresh.submitAll sampleIssues)
        ((sampleFresh.submitAll sampleIssues).submitAll sampleAttempts) ts ∧
      (∀ x ∈ ts, x.Lawful) ∧
      ts.filterMap (fun x => x.event.credit?) = [(some ("payer" : Text), some 7)] ∧
      ∀ x ∈ ts, x.event.issuer? ≠ some 0 := by
  have hmake : Market.make (some "USDC") 0 = .ok sampleFresh := rfl
  have hwrites : ∀ r ∈ sampleIssues ++ sampleAttempts, ∀ op ∈ r.operations,
      op.writesAmount = false := by
    decide +kernel
  have hapart : ((sampleFresh.submitAll sampleIssues).submitAll sampleAttempts).IdsApart :=
    ⟨by decide +kernel, by decide +kernel⟩
  obtain ⟨ts, calls, hruns, hheard, -, hcredits, -, -, hlawful, hbarred⟩ :=
    money_conserved hmake hwrites hapart
  have hcalls : calls = ((sampleFresh.submitAll sampleIssues).submitAll sampleAttempts).heard.drop
      (sampleFresh.submitAll sampleIssues).heard.length := by rw [hheard, List.drop_left]
  refine ⟨hmake, hwrites, hapart, ts, hruns, hlawful, ?_, fun x hx => ?_⟩
  · rw [hcredits, hcalls]
    decide +kernel
  · exact ((hbarred 0 0 (by decide +kernel) (by decide +kernel) x hx).2 (by decide +kernel)).1

end CurveMarket
