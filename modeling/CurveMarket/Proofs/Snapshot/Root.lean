import CurveMarket.Proofs.Snapshot.Canonical
import CurveMarket.Proofs.Snapshot.Layout

/-! # What a root is taken of

The bytes whose digest is a root tell the model and the state. The tag in front of them tells its
label and version, and where it ends, whatever follows.
-/

namespace CurveMarket.Snapshot

open Value Check

/-! ## Snapshots of states -/

theorem isSnapshot_entriesOf {fields : List (Text × Value)} (hnames : (fields.map (·.1)).Nodup)
    (hplain : ∀ name ∈ fields.map (·.1), name.hasSurrogate = false)
    (hvalues : ∀ f ∈ fields, f.2.IsSnapshot) : (map (entriesOf fields)).IsSnapshot := by
  refine ⟨isEncodable_map.mpr ?_, isProper_iff.mpr ⟨?_, ?_⟩⟩
  · intro e he
    obtain ⟨f, hf, rfl⟩ := List.mem_map.mp he
    refine ⟨?_, (hvalues f hf).encodable⟩
    rw [isPlainText, hplain f.1 (List.mem_map_of_mem hf)]
    rfl
  · rintro _ ⟨⟩
    exact keysApart_entriesOf hnames
  · intro c hc
    obtain ⟨e, he, rfl⟩ := List.mem_map.mp hc
    obtain ⟨f, hf, rfl⟩ := List.mem_map.mp he
    exact (hvalues f hf).proper

theorem termsFields_scalar (t : Terms) : ∀ f ∈ termsFields t, f.2.isScalar = true := by
  simp only [termsFields, List.forall_mem_cons]
  exact ⟨rfl, rfl, rfl, rfl, rfl, rfl, List.forall_mem_nil _⟩

theorem stateFields_scalar {s : PoolState} (h : s.hasPlainSwitches = true) :
    ∀ f ∈ stateFields s, f.2.isScalar = true := by
  obtain ⟨⟨g, hg⟩, p, hp⟩ := PoolState.hasPlainSwitches_iff.mp h
  simp only [stateFields, List.forall_mem_cons, hg, hp]
  exact ⟨rfl, rfl, rfl, rfl, List.forall_mem_nil _⟩

theorem isSnapshot_terms (t : Terms) : (map (entriesOf (termsFields t))).IsSnapshot := by
  refine isSnapshot_entriesOf (nodup_termsFields t) ?_ fun f hf =>
    isSnapshot_of_isScalar (termsFields_scalar t f hf)
  rw [termsFields_names]
  decide

theorem isSnapshot_write {s : PoolState} (h : s.hasPlainSwitches = true) :
    (write s).IsSnapshot := by
  rw [write_eq]
  refine isSnapshot_entriesOf (nodup_writtenFields s) ?_ ?_
  · rw [writtenFields_names]
    decide
  · rw [writtenFields, List.forall_mem_append]
    refine ⟨fun f hf => isSnapshot_of_isScalar (stateFields_scalar h f hf), ?_⟩
    simp only [List.forall_mem_cons]
    exact ⟨isSnapshot_terms s.terms, isSnapshot_of_isScalar rfl, List.forall_mem_nil _⟩

theorem field_eq_of_sameJson {es fs : List (Value × Value)} {fields : List (Text × Value)}
    (h : SameJson (.map es) (.map fs)) (hscalar : ∀ f ∈ fields, f.2.isScalar = true)
    (hfields : ∀ f ∈ fields, field es f.1 = some f.2) : ∀ f ∈ fields, field fs f.1 = some f.2 := by
  intro f hf
  obtain ⟨w, hw, hsame⟩ := h.exists_lookup (hfields f hf)
  rw [hsame.eq_of_isScalar (hscalar f hf)]
  exact hw

/-- Maps that say the same are read as one state. -/
theorem read_of_sameJson {es fs : List (Value × Value)} {s : PoolState}
    (hsame : SameJson (.map es) (.map fs)) (h : read es = .ok s) : read fs = .ok s := by
  obtain ⟨hversion, ⟨ps, hps, hterms⟩, hplain, hfields⟩ := read_eq_ok.mp h
  refine read_eq_ok.mpr ⟨?_, ?_, hplain,
    field_eq_of_sameJson hsame (stateFields_scalar hplain) hfields⟩
  · intro v hv
    obtain ⟨w, hw, hvw⟩ := hsame.symm.exists_lookup hv
    rw [hvw.equalsInt_eq]
    exact hversion w hw
  · obtain ⟨w, hw, hparams⟩ := hsame.exists_lookup hps
    obtain ⟨qs, rfl⟩ := hparams.exists_map
    exact ⟨qs, hw, field_eq_of_sameJson hparams (termsFields_scalar s.terms) hterms⟩

theorem write_sameJson_iff {s₁ s₂ : PoolState} (h₁ : s₁.hasPlainSwitches = true)
    (h₂ : s₂.hasPlainSwitches = true) : SameJson (write s₁) (write s₂) ↔ s₁ = s₂ := by
  constructor
  · intro hsame
    rw [write_eq, write_eq] at hsame
    have hread := read_of_sameJson hsame (read_written h₁)
    rw [read_written h₂] at hread
    exact (Except.ok.inj hread).symm
  · rintro rfl
    exact .refl (isSnapshot_write h₁).encodable

/-! ## Roots -/

def rootFields (m : Text) (s : PoolState) : List (Text × Value) :=
  [("model_id", .text m), ("state", write s)]

theorem nodup_rootFields (m : Text) (s : PoolState) : ((rootFields m s).map (·.1)).Nodup := by
  show List.Nodup [Text.ofString "model_id", Text.ofString "state"]
  decide

theorem isSnapshot_root {m : Text} {s : PoolState} (hm : m.hasSurrogate = false)
    (hs : s.hasPlainSwitches = true) : (map (entriesOf (rootFields m s))).IsSnapshot := by
  refine isSnapshot_entriesOf (nodup_rootFields m s) ?_ ?_
  · show ∀ name ∈ [Text.ofString "model_id", Text.ofString "state"], _
    decide
  · simp only [rootFields, List.forall_mem_cons]
    exact ⟨isSnapshot_of_isScalar ((Bool.not_eq_true' _).mpr hm), isSnapshot_write hs,
      List.forall_mem_nil _⟩

theorem root_sameJson_iff {m₁ m₂ : Text} {s₁ s₂ : PoolState} (hm : m₁.hasSurrogate = false)
    (h₁ : s₁.hasPlainSwitches = true) (h₂ : s₂.hasPlainSwitches = true) :
    SameJson (.map (entriesOf (rootFields m₁ s₁))) (.map (entriesOf (rootFields m₂ s₂))) ↔
      m₁ = m₂ ∧ s₁ = s₂ := by
  have hmodel : ∀ m s, field (entriesOf (rootFields m s)) "model_id" = some (.text m) :=
    fun m s => field_entriesOf (nodup_rootFields m s) (f := (_, _)) (List.mem_cons_self ..)
  have hstate : ∀ m s, field (entriesOf (rootFields m s)) "state" = some (write s) :=
    fun m s => field_entriesOf (nodup_rootFields m s) (f := (_, _))
      (List.mem_cons_of_mem _ (List.mem_cons_self ..))
  constructor
  · intro hsame
    obtain ⟨v, hv, hmodels⟩ := hsame.exists_lookup (hmodel m₁ s₁)
    obtain ⟨w, hw, hstates⟩ := hsame.exists_lookup (hstate m₁ s₁)
    obtain rfl := Option.some.inj ((hmodel m₂ s₂).symm.trans hv)
    obtain rfl := Option.some.inj ((hstate m₂ s₂).symm.trans hw)
    exact ⟨text.inj (hmodels.eq_of_isScalar ((Bool.not_eq_true' _).mpr hm)),
      (write_sameJson_iff h₁ h₂).mp hstates⟩
  · rintro ⟨rfl, rfl⟩
    exact .refl (isSnapshot_root hm h₁).encodable

/-! ## Tags -/

/-- The text of a tag, up to the zero byte that ends it. -/
def tagText (label : Text) (version : Int) : Text :=
  tagPurpose ++ label ++ ":v" ++ Text.ofInt version

theorem domainTag_eq_ok {label version : Value} {t : List UInt8} :
    domainTag label version = .ok t ↔ ∃ (l : Text) (n : Int), label = .text l ∧ version = .int n ∧
      l.isEmpty = false ∧ isPlainLabel l = true ∧ 0 < n ∧ Text.isWritable n = true ∧
        utf8 (tagText l n) ++ [0] = t := by
  unfold domainTag
  cases label with
  | text l =>
      cases version with
      | int n =>
          simp only [text?, int?, test_eq_ok, pure_eq_ok, Bool.not_eq_true, Bool.not_eq_true',
            Bool.not_eq_false, Int.not_le]
          constructor
          · rintro ⟨hfilled, hplain, hpos, hwritable, h⟩
            exact ⟨l, n, rfl, rfl, hfilled, hplain, hpos, hwritable, h⟩
          · rintro ⟨_, _, ⟨⟩, ⟨⟩, h⟩
            exact h
      | _ =>
          simp only [text?, int?, test_eq_ok]
          constructor
          · rintro ⟨-, -, ⟨⟩⟩
          · rintro ⟨_, _, -, ⟨⟩, -⟩
  | _ =>
      constructor
      · intro h
        cases h
      · rintro ⟨_, _, ⟨⟩, -⟩

theorem isPlainLabel_iff {l : Text} :
    isPlainLabel l = true ↔ ∀ p ∈ l.points, 0 < p.val ∧ p.val < 0x80 ∧ p.val ≠ 0x3A := by
  simp only [isPlainLabel, List.all_eq_true, Bool.and_eq_true, decide_eq_true_eq, bne_iff_ne,
    and_assoc]

/-- Up to its end a tag has no zero byte. -/
theorem tag_bytes_ne_zero {l : Text} (h : isPlainLabel l = true) (n : Int) :
    ∀ b ∈ utf8 (tagText l n), (b != 0) = true := by
  intro b hb
  obtain ⟨p, hp, hb⟩ := List.mem_flatMap.mp hb
  rw [bne_iff_ne]
  refine utf8Point_bytes_ne_zero ?_ hb
  simp only [tagText, Text.points_append, List.mem_append] at hp
  have hpurpose : tagPurpose.points.all (·.val != 0) = true := by decide
  have hmark : (Text.ofString ":v").points.all (·.val != 0) = true := by decide
  rcases hp with ((hp | hp) | hp) | hp
  · exact bne_iff_ne.mp (List.all_eq_true.mp hpurpose p hp)
  · exact Nat.ne_of_gt (isPlainLabel_iff.mp h p hp).1
  · exact bne_iff_ne.mp (List.all_eq_true.mp hmark p hp)
  · exact Text.ofInt_points_ne_zero hp

/-- A label ends at the first colon after the purpose. -/
theorem tagText_injective {l₁ l₂ : Text} {n₁ n₂ : Int} (h₁ : isPlainLabel l₁ = true)
    (h₂ : isPlainLabel l₂ = true) (h : tagText l₁ n₁ = tagText l₂ n₂) : l₁ = l₂ ∧ n₁ = n₂ := by
  have hpoints := congrArg Text.points h
  simp only [tagText, Text.points_append, List.append_assoc] at hpoints
  have hlabel : ∀ l, isPlainLabel l = true → ∀ p ∈ l.points, (p.val != 0x3A) = true :=
    fun l hl p hp => bne_iff_ne.mpr (isPlainLabel_iff.mp hl p hp).2.2
  obtain ⟨hlabels, hversions⟩ := append_inj_of_kind (hlabel l₁ h₁) (hlabel l₂ h₂) rfl rfl
    (List.append_cancel_left hpoints)
  exact ⟨Text.eq_of_points hlabels,
    Text.ofInt_injective (Text.eq_of_points (List.append_cancel_left hversions))⟩

/-- No tag runs into what follows it or imitates another one. -/
theorem domainTag_append_inj {l₁ l₂ v₁ v₂ : Value} {t₁ t₂ p q : List UInt8}
    (h₁ : domainTag l₁ v₁ = .ok t₁) (h₂ : domainTag l₂ v₂ = .ok t₂) (h : t₁ ++ p = t₂ ++ q) :
    l₁ = l₂ ∧ v₁ = v₂ ∧ p = q := by
  obtain ⟨l₁, n₁, rfl, rfl, -, hl₁, -, -, rfl⟩ := domainTag_eq_ok.mp h₁
  obtain ⟨l₂, n₂, rfl, rfl, -, hl₂, -, -, rfl⟩ := domainTag_eq_ok.mp h₂
  rw [List.append_assoc, List.append_assoc] at h
  obtain ⟨htags, hrest⟩ := append_inj_of_kind (tag_bytes_ne_zero hl₁ n₁) (tag_bytes_ne_zero hl₂ n₂)
    rfl rfl h
  obtain ⟨rfl, rfl⟩ := tagText_injective hl₁ hl₂ (utf8_injective htags)
  exact ⟨rfl, rfl, List.append_cancel_left hrest⟩

/-! ## Roots and tags identify -/

theorem isWritable_root (m : Text) (s : PoolState) :
    (map (entriesOf (rootFields m s))).isWritable = (write s).isWritable := by
  simp [rootFields, entriesOf, isWritable, entriesWritable]

theorem rootPreimage_eq_ok {m : Text} {s : PoolState} {b : List UInt8}
    (hfilled : m.isEmpty = false) (hm : m.hasSurrogate = false)
    (hs : s.hasPlainSwitches = true) :
    rootPreimage (some m) s = .ok b ↔ (write s).isWritable = true ∧
      (utf8 (tagText "pool_state" encodingVersion) ++ [0]) ++
        utf8 (compact (.map (entriesOf (rootFields m s)))) = b := by
  have htag : domainTag (.text "pool_state") (.int encodingVersion) = .ok _ :=
    domainTag_eq_ok.mpr ⟨"pool_state", encodingVersion, rfl, rfl, rfl, rfl, by decide, rfl, rfl⟩
  unfold rootPreimage
  refine test_eq_ok.trans ?_
  constructor
  · rintro ⟨-, h⟩
    obtain ⟨tag, htag', h⟩ := bind_eq_ok.mp h
    obtain rfl := Except.ok.inj (htag.symm.trans htag')
    obtain ⟨body, hbody, h⟩ := bind_eq_ok.mp h
    obtain ⟨-, hwritable, rfl⟩ := canonicalBytes_eq_ok.mp hbody
    rw [← isWritable_root m s]
    exact ⟨hwritable, pure_eq_ok.mp h⟩
  · rintro ⟨hwritable, h⟩
    rw [← isWritable_root m s] at hwritable
    have hbody := canonicalBytes_eq_ok.mpr ⟨(isSnapshot_root hm hs).encodable, hwritable, rfl⟩
    exact ⟨by rw [hfilled]; decide,
      bind_eq_ok.mpr ⟨_, htag, bind_eq_ok.mpr ⟨_, hbody, pure_eq_ok.mpr h⟩⟩⟩

/-- A model and a state have a preimage when no figure of the state is too long to be written. Equal
preimages are of one model and one state, and only those. A tag ends where it says, whatever
follows: with equal bytes in all, labels, versions and what follows are equal. -/
theorem root_preimages_identify :
    (∀ (m : Text) (s : PoolState), m.isEmpty = false → m.hasSurrogate = false →
      s.hasPlainSwitches = true →
      ((∃ b, rootPreimage (some m) s = .ok b) ↔ (write s).isWritable = true)) ∧
    (∀ (m₁ m₂ : Text) (s₁ s₂ : PoolState) (b₁ b₂ : List UInt8), m₁.isEmpty = false →
      m₂.isEmpty = false → m₁.hasSurrogate = false → m₂.hasSurrogate = false →
      s₁.hasPlainSwitches = true → s₂.hasPlainSwitches = true →
      rootPreimage (some m₁) s₁ = .ok b₁ → rootPreimage (some m₂) s₂ = .ok b₂ →
      (b₁ = b₂ ↔ m₁ = m₂ ∧ s₁ = s₂)) ∧
    ∀ (l₁ l₂ v₁ v₂ : Value) (t₁ t₂ p q : List UInt8), domainTag l₁ v₁ = .ok t₁ →
      domainTag l₂ v₂ = .ok t₂ → t₁ ++ p = t₂ ++ q → l₁ = l₂ ∧ v₁ = v₂ ∧ p = q := by
  refine ⟨?_, ?_, fun _ _ _ _ _ _ _ _ => domainTag_append_inj⟩
  · intro m s hfilled hm hs
    simp only [rootPreimage_eq_ok hfilled hm hs, exists_and_left, exists_eq', and_true]
  · intro m₁ m₂ s₁ s₂ b₁ b₂ hfilled₁ hfilled₂ hm₁ hm₂ hs₁ hs₂ h₁ h₂
    obtain ⟨-, rfl⟩ := (rootPreimage_eq_ok hfilled₁ hm₁ hs₁).mp h₁
    obtain ⟨-, rfl⟩ := (rootPreimage_eq_ok hfilled₂ hm₂ hs₂).mp h₂
    rw [List.append_cancel_left_eq, utf8_injective.eq_iff,
      compact_eq_iff (isSnapshot_root hm₁ hs₁) (isSnapshot_root hm₂ hs₂),
      root_sameJson_iff hm₁ hs₁ hs₂]

theorem root_preimages_identify_samples :
    (∃ b₁ b₂, rootPreimage (some "model-1") samplePersisted = .ok b₁ ∧
      rootPreimage (some "model-2") samplePersisted = .ok b₂ ∧ b₁ ≠ b₂) ∧
    ∃ t₁ t₂, domainTag (.text "pool") (.int 1) = .ok t₁ ∧
      domainTag (.text "pool") (.int 12) = .ok t₂ ∧ ∀ p q, t₁ ++ p ≠ t₂ ++ q := by
  obtain ⟨hexists, hroots, htags⟩ := root_preimages_identify
  constructor
  · have hwritable : (write samplePersisted).isWritable = true := by decide +kernel
    obtain ⟨b₁, h₁⟩ := (hexists "model-1" samplePersisted rfl rfl rfl).mpr hwritable
    obtain ⟨b₂, h₂⟩ := (hexists "model-2" samplePersisted rfl rfl rfl).mpr hwritable
    refine ⟨b₁, b₂, h₁, h₂, fun h => ?_⟩
    exact absurd ((hroots _ _ _ _ _ _ rfl rfl rfl rfl rfl rfl h₁ h₂).mp h).1 (by decide)
  · have htag : domainTag (.text "pool") (.int 1) = .ok _ := domainTag_eq_ok.mpr
      ⟨"pool", 1, rfl, rfl, rfl, rfl, by decide, rfl, rfl⟩
    have htag' : domainTag (.text "pool") (.int 12) = .ok _ := domainTag_eq_ok.mpr
      ⟨"pool", 12, rfl, rfl, rfl, rfl, by decide, by decide +kernel, rfl⟩
    refine ⟨_, _, htag, htag', fun p q h => ?_⟩
    cases (htags _ _ _ _ _ _ p q htag htag' h).2.1

end CurveMarket.Snapshot
