import AlmightyReview.Review.Events
import Mathlib.Algebra.Order.BigOperators.Group.List

/-!
# Metadata that are valid

* `Described`: what the parsers say of an execution, before its numbers are looked at.
* `Written`: the numbers have no more digits than `json.dumps` writes.
* `size_metaJson_le`: metadata that can be written are below the cap.
* `makeMeta_ok`, `makeMeta_error`: the metadata are valid exactly when they can be written;
  `written_metaOf` says what that takes.
-/

namespace VendorTelemetry

open Json (Loaded get)

/-! ## Counts -/

/-- Counts that are read can be written. -/
def Short (usage : Usage) : Prop := ∀ f ∈ usage, f.2 < Json.intLimit

theorem short_numericUsage {v : Loaded} {usage : Usage} (h : numericUsage v = some usage) :
    Short usage := by
  unfold numericUsage at h
  split at h
  · next fields =>
    split at h
    · cases h
    · next hne =>
      obtain rfl := Option.some.inj h
      intro f hf
      obtain ⟨key, -, hkey⟩ := List.mem_filterMap.mp hf
      unfold countOf at hkey
      split at hkey
      · next n hn hget =>
        split at hkey
        · obtain rfl := Option.some.inj hkey
          exact lt_of_le_of_lt (show n.toNat ≤ n.natAbs by omega) hn
        · cases hkey
      · cases hkey
  · cases h

theorem mem_of_lookup {α β : Type} [BEq α] [LawfulBEq α] {l : List (α × β)} {a : α} {b : β}
    (h : l.lookup a = some b) : (a, b) ∈ l := by
  obtain ⟨l₁, l₂, rfl, -⟩ := List.lookup_eq_some_iff.mp h
  exact List.mem_append_right _ List.mem_cons_self

theorem lookup_lt {usage : Usage} (h : Short usage) {key : Text} {n : Nat}
    (hn : usage.lookup key = some n) : n < Json.intLimit := h _ (mem_of_lookup hn)

/-- What the parsers say of an execution, before its numbers are looked at. -/
structure Described (m : Meta) : Prop where
  schemaVersion : m.schemaVersion = VendorTelemetry.schemaVersion
  cliName : isVendor m.cliName = true
  cliVersion : ∀ s ∈ m.cliVersion, s.length ≤ 24
  eventSchema : ∀ s ∈ m.eventSchema, s.length ≤ 24
  status : m.status ∈ ["done".toList, "failed".toList]
  code : ∀ c ∈ m.safeErrorCode, c ∈ safeErrorCodes
  counts : ∀ f ∈ m.counts, ∀ n ∈ f.2, 0 ≤ n
  telemetryStatus : m.telemetryStatus ∈ ["ok".toList, "partial".toList]

theorem forM_ok {α : Type} {l : List α} {f : α → Except Exc Unit} (h : ∀ a ∈ l, f a = .ok ()) :
    l.forM f = .ok () := by
  induction l with
  | nil => rfl
  | cons a l ih =>
    show (f a >>= fun _ => l.forM f) = .ok ()
    rw [h a List.mem_cons_self]
    exact ih fun a ha => h a (List.mem_cons_of_mem _ ha)

/-- Only the size is left to check. -/
theorem validateMeta_eq {m : Meta} (h : Described m) :
    validateMeta m = (dumpsMeta m >>= fun encoded =>
      reject (maxMetaBytes < encoded.encode.length)
        "vendor telemetry exceeds size cap".toList) := by
  have hversion : (m.schemaVersion != schemaVersion) = false := by simp [h.schemaVersion]
  have hstatus : (!(["done".toList, "failed".toList, "timeout".toList,
      "canceled".toList].contains m.status)) = false := by
    have := h.status
    simp only [List.mem_cons, List.not_mem_nil, or_false] at this
    rcases this with hs | hs
    · rw [hs]
      decide +kernel
    · rw [hs]
      decide +kernel
  have htelemetry : (!(["ok".toList, "partial".toList, "unavailable".toList].contains
      m.telemetryStatus)) = false := by
    have := h.telemetryStatus
    simp only [List.mem_cons, List.not_mem_nil, or_false] at this
    rcases this with hs | hs
    · rw [hs]
      decide +kernel
    · rw [hs]
      decide +kernel
  have hcode : (!m.safeErrorCode.all safeErrorCodes.contains) = false := by
    rw [Bool.not_eq_false', Option.all_eq_true]
    exact fun c hc => List.contains_iff_mem.mpr (h.code c hc)
  have hcounts : m.counts.forM (fun f => reject (f.2.any fun n => decide (n < 0))
      ("invalid numeric telemetry: ".toList ++ f.1)) = .ok () := by
    refine forM_ok fun f hf => ?_
    have hany : (f.2.any fun n => decide (n < 0)) = false := by
      rw [Option.any_eq_false]
      exact fun n hn => by simpa using h.counts f hf n hn
    rw [hany]
    rfl
  have htexts : [("cli_version".toList, m.cliVersion), ("event_schema".toList, m.eventSchema)].forM
      (fun f => reject (f.2.any fun s => decide (128 < s.length))
        ("invalid telemetry string: ".toList ++ f.1)) = .ok () := by
    refine forM_ok fun f hf => ?_
    have hany : (f.2.any fun s => decide (128 < s.length)) = false := by
      rw [Option.any_eq_false]
      intro s hs
      simp only [List.mem_cons, List.not_mem_nil, or_false] at hf
      rcases hf with rfl | rfl
      · have := h.cliVersion s hs
        simp
        omega
      · have := h.eventSchema s hs
        simp
        omega
    rw [hany]
    rfl
  unfold validateMeta
  rw [hversion, h.cliName, hstatus, htelemetry, hcode, hcounts, htexts]
  rfl

/-- The versions and the schemas that are known have short names. -/
theorem eventSchema_short {vendor version schema : Text} {attestation : Bool}
    (h : eventSchema vendor (some version) attestation = some schema) :
    version.length ≤ 24 ∧ schema.length ≤ 24 := by
  have hall : ∀ f ∈ supportedEventSchemas ++ attestationEventSchemas,
      f.1.2.length ≤ 24 ∧ f.2.length ≤ 24 := by decide +kernel
  unfold eventSchema at h
  dsimp only at h
  split at h
  · cases h
  split at h
  · next schema' hl =>
    obtain rfl := Option.some.inj h
    exact hall _ (List.mem_append_left _ (mem_of_lookup hl))
  split at h
  · exact hall _ (List.mem_append_right _ (mem_of_lookup h))
  · cases h

/-- The numbers can be written. -/
def Written (m : Meta) : Prop := ∀ f ∈ m.numbers, ∀ n ∈ f.2, n.natAbs < Json.intLimit

instance (m : Meta) : Decidable (Written m) :=
  inferInstanceAs (Decidable (∀ f ∈ m.numbers, _))

section Meta

variable {vendor cliVersion schema status telemetryStatus : Text} {safeErrorCode : Option Text}
  {exitCode : Int} {streamTruncated : Bool} {usage : Usage} {toolCalls eventCount : Nat}

theorem described_metaOf {attestation : Bool} (hvendor : isVendor vendor = true)
    (hschema : eventSchema vendor (some cliVersion) attestation = some schema)
    (hstatus : status ∈ ["done".toList, "failed".toList])
    (hcode : ∀ c ∈ safeErrorCode, c ∈ safeErrorCodes)
    (htelemetry : telemetryStatus ∈ ["ok".toList, "partial".toList]) :
    Described (metaOf vendor cliVersion schema status safeErrorCode exitCode streamTruncated usage
      toolCalls eventCount telemetryStatus) where
  schemaVersion := rfl
  cliName := hvendor
  cliVersion s hs := by
    obtain rfl := Option.mem_some_iff.mp hs
    exact (eventSchema_short hschema).1
  eventSchema s hs := by
    obtain rfl := Option.mem_some_iff.mp hs
    exact (eventSchema_short hschema).2
  status := hstatus
  code := hcode
  counts f hf n hn := by
    have hnat : ∀ (o : Option Nat), ∀ n ∈ o.map Int.ofNat, 0 ≤ n := by
      intro o n hn
      obtain ⟨m, -, rfl⟩ := Option.mem_map.mp hn
      exact Int.natCast_nonneg m
    simp only [Meta.counts, metaOf, List.mem_cons, List.not_mem_nil, or_false] at hf
    rcases hf with rfl | rfl | rfl | rfl | rfl | rfl | rfl
    · exact hnat _ n hn
    · exact hnat _ n hn
    · exact hnat _ n hn
    · exact hnat _ n hn
    · exact hnat _ n hn
    · exact hnat (some toolCalls) n hn
    · exact hnat (some eventCount) n hn
  telemetryStatus := htelemetry

theorem written_metaOf (husage : Short usage) (htools : toolCalls < Json.intLimit)
    (hevents : eventCount < Json.intLimit) :
    Written (metaOf vendor cliVersion schema status safeErrorCode exitCode streamTruncated usage
      toolCalls eventCount telemetryStatus) ↔
      exitCode.natAbs < Json.intLimit ∧ ∀ n ∈ totalTokens usage, n < Json.intLimit := by
  have hnat : ∀ (o : Option Nat), (∀ n ∈ o.map Int.ofNat, n.natAbs < Json.intLimit) ↔
      ∀ n ∈ o, n < Json.intLimit := by
    intro o
    cases o with
    | none => simp
    | some n => simp
  have hlookup : ∀ key, ∀ n ∈ usage.lookup key, n < Json.intLimit := fun key n hn =>
    lookup_lt husage hn
  unfold Written
  simp only [Meta.numbers, Meta.counts, metaOf, List.forall_mem_cons, List.not_mem_nil,
    false_imp_iff, implies_true, and_true, hnat]
  constructor
  · rintro ⟨hexit, -, -, -, -, htotal, -, -⟩
    exact ⟨hexit exitCode rfl, htotal⟩
  · rintro ⟨hexit, htotal⟩
    refine ⟨fun n hn => ?_, hlookup _, fun n hn => ?_, hlookup _, hlookup _, htotal,
      fun n hn => ?_, fun n hn => ?_⟩
    · obtain rfl := Option.mem_some_iff.mp hn
      exact hexit
    · rcases Option.or_eq_some_iff.mp hn with hn | ⟨-, hn⟩
      · exact hlookup _ n hn
      · exact hlookup _ n hn
    · obtain rfl := Option.mem_some_iff.mp hn
      exact htools
    · obtain rfl := Option.mem_some_iff.mp hn
      exact hevents

end Meta

/-! ### The size -/

theorem size_text_le {o : Option Text} (h : ∀ s ∈ o, s.length ≤ 24) :
    Json.size ((Json.ofOption .str o).dumps true) ≤ 1160 := by
  cases o with
  | none => decide +kernel
  | some s =>
    have hlen := h s rfl
    have := Json.size_quoteWith_le s
    show Json.size (Json.quoteWith true s) ≤ 1160
    omega

theorem size_number_le {o : Option Int} (h : ∀ n ∈ o, n.natAbs < Json.intLimit) :
    Json.size ((Json.ofOption .int o).dumps true) ≤ 4301 := by
  cases o with
  | none => decide +kernel
  | some n =>
    have hn := h n rfl
    unfold Json.intLimit at hn
    exact Json.size_ofInt_le (by decide) hn

theorem fieldSize_le {key : Text} {v : Json.Value} {k : Nat} (hkey : key.length ≤ 23)
    (hv : Json.size (v.dumps true) ≤ k) : Json.fieldSize (key, v) ≤ 1114 + k := by
  have := Json.size_quoteWith_le key
  unfold Json.fieldSize
  dsimp only
  omega

theorem size_texts_le {m : Meta} (h : Described m) :
    ∀ f ∈ m.texts, Json.fieldSize f ≤ 1114 + 1160 := by
  have hstr : ∀ s : Text, s.length ≤ 24 → Json.size ((Json.Value.str s).dumps true) ≤ 1160 :=
    fun s hs => size_text_le (o := some s) fun t ht => by
      obtain rfl := Option.mem_some_iff.mp ht
      exact hs
  have hvendor : m.cliName.length ≤ 24 := by
    have := h.cliName
    simp only [isVendor, Bool.or_eq_true, beq_iff_eq] at this
    rcases this with hn | hn
    · rw [hn]
      decide +kernel
    · rw [hn]
      decide +kernel
  have hstatus : ∀ s ∈ ["done".toList, "failed".toList, "ok".toList, "partial".toList],
      s.length ≤ 24 := by decide +kernel
  have hcode : ∀ c ∈ safeErrorCodes, c.length ≤ 24 := by decide +kernel
  have hone : m.status.length ≤ 24 := hstatus _ (by
    have := h.status
    simp only [List.mem_cons, List.not_mem_nil, or_false] at this ⊢
    tauto)
  have htwo : m.telemetryStatus.length ≤ 24 := hstatus _ (by
    have := h.telemetryStatus
    simp only [List.mem_cons, List.not_mem_nil, or_false] at this ⊢
    tauto)
  have hbool : ∀ b : Bool, Json.size ((Json.Value.bool b).dumps true) ≤ 1160 := by decide +kernel
  unfold Meta.texts
  simp only [List.forall_mem_cons, List.not_mem_nil, false_imp_iff, implies_true, and_true]
  refine ⟨?_, ?_, ?_, ?_, ?_, ?_, ?_, ?_⟩
  · refine fieldSize_le (by decide +kernel) ?_
    rw [h.schemaVersion]
    decide +kernel
  · exact fieldSize_le (by decide +kernel) (hstr _ hvendor)
  · exact fieldSize_le (by decide +kernel) (size_text_le h.cliVersion)
  · exact fieldSize_le (by decide +kernel) (size_text_le h.eventSchema)
  · exact fieldSize_le (by decide +kernel) (hstr _ hone)
  · exact fieldSize_le (by decide +kernel) (size_text_le fun c hc => hcode c (h.code c hc))
  · exact fieldSize_le (by decide +kernel) (hbool _)
  · exact fieldSize_le (by decide +kernel) (hstr _ htwo)

theorem size_numbers_le {m : Meta} (h : Written m) :
    ∀ f ∈ m.numbers.map fun f => (f.1, Json.ofOption .int f.2),
      Json.fieldSize f ≤ 1114 + 4301 := by
  intro f hf
  obtain ⟨g, hg, rfl⟩ := List.mem_map.mp hf
  have hkeys : ∀ key ∈ m.numbers.map Prod.fst, key.length ≤ 23 := by
    show ∀ key ∈ ["exit_code".toList, "input_tokens".toList, "cached_input_tokens".toList,
      "output_tokens".toList, "reasoning_output_tokens".toList, "total_tokens".toList,
      "tool_calls".toList, "event_count".toList], key.length ≤ 23
    decide +kernel
  exact fieldSize_le (hkeys _ (List.mem_map_of_mem hg)) (size_number_le (h g hg))

/-- **The size** of metadata whose numbers can be written is below the cap. -/
theorem size_metaJson_le {m : Meta} (h : Described m) (hw : Written m) :
    ((metaJson m).dumps true).encode.length ≤ maxMetaBytes := by
  have hobj := Json.size_dumps_obj_le
    (m.texts ++ m.numbers.map fun f => (f.1, Json.ofOption .int f.2))
  have htexts := List.sum_le_card_nsmul (m.texts.map Json.fieldSize) (1114 + 1160) (by
    intro n hn
    obtain ⟨f, hf, rfl⟩ := List.mem_map.mp hn
    exact size_texts_le h f hf)
  have hnumbers := List.sum_le_card_nsmul
    ((m.numbers.map fun f => (f.1, Json.ofOption .int f.2)).map Json.fieldSize) (1114 + 4301) (by
      intro n hn
      obtain ⟨f, hf, rfl⟩ := List.mem_map.mp hn
      exact size_numbers_le hw f hf)
  rw [List.map_append, List.sum_append] at hobj
  simp only [List.length_map, nsmul_eq_mul, Nat.cast_id] at htexts hnumbers
  have h8 : m.texts.length = 8 ∧ m.numbers.length = 8 := ⟨rfl, rfl⟩
  rw [h8.1] at htexts
  rw [h8.2] at hnumbers
  have hcap : maxMetaBytes = 65536 := by decide
  show Json.size ((metaJson m).dumps true) ≤ maxMetaBytes
  unfold metaJson
  omega

/-- **The metadata** are valid exactly when their numbers can be written. -/
theorem makeMeta_ok {m : Meta} (h : Described m) (hw : Written m) :
    makeMeta m = .ok m ∧ validateMeta m = .ok () := by
  have hdumps : dumpsMeta m = .ok ((metaJson m).dumps true) := if_pos hw
  have hsize := size_metaJson_le h hw
  have hvalid : validateMeta m = .ok () := by
    rw [validateMeta_eq h, hdumps]
    generalize (metaJson m).dumps true = encoded at hsize
    simp only [bind, Except.bind, decide_eq_false (Nat.not_lt.mpr hsize)]
    rfl
  exact ⟨by rw [makeMeta, hvalid]; rfl, hvalid⟩

theorem makeMeta_error {m : Meta} (h : Described m) (hw : ¬Written m) :
    ∃ x, makeMeta m = .error x := by
  obtain ⟨x, hx⟩ : ∃ x, dumpsMeta m = .error x := ⟨_, if_neg hw⟩
  refine ⟨x, ?_⟩
  rw [makeMeta, validateMeta_eq h, hx]
  rfl

end VendorTelemetry
