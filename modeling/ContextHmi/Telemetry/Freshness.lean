import ContextHmi.Telemetry.Store

/-!
# Ageing

Two snapshots of a store that nothing was done to in between. The age of a sample is what the clock
has gone past the time it was received, and nothing while the clock is behind that time; so the later
snapshot shows no sample fresher than the earlier one, and the quality of the whole is no better.

* `qualityOf_entryOf`  : the quality an entry shows, from the sample and its age;
* `snapshot_eq`        : a snapshot for an accepted model is never refused;
* `snapshot_no_fresher` : data never becomes fresher by waiting.
-/

namespace ContextHmi.Telemetry

open Outcome

/-! ### The age of a sample -/

theorem toNat_min (a b : UInt64) : (min a b).toNat = min a.toNat b.toNat := by
  show (if a ≤ b then a else b).toNat = _
  by_cases h : a ≤ b
  · rw [if_pos h, min_eq_left (UInt64.le_iff_toNat_le.mp h)]
  · rw [if_neg h]
    have hlt : b.toNat < a.toNat := by rwa [UInt64.le_iff_toNat_le, not_le] at h
    exact (min_eq_right hlt.le).symm

theorem toNat_ageOf (now : UInt64) (sample : Json) :
    (ageOf now sample).toNat = now.toNat - min now.toNat (receivedOf sample).toNat := by
  have hle : min now (receivedOf sample) ≤ now := by
    rw [UInt64.le_iff_toNat_le, toNat_min]
    exact min_le_left _ _
  rw [ageOf, UInt64.toNat_sub_of_le _ _ hle, toNat_min]

theorem ageOf_add (now : UInt64) (sample : Json) :
    (ageOf now sample).toNat + min now.toNat (receivedOf sample).toNat = now.toNat := by
  rw [toNat_ageOf]
  exact Nat.sub_add_cancel (min_le_left _ _)

theorem ageOf_mono {t₁ t₂ : UInt64} (h : t₁ ≤ t₂) (sample : Json) :
    ageOf t₁ sample ≤ ageOf t₂ sample := by
  rw [UInt64.le_iff_toNat_le] at h ⊢
  rw [toNat_ageOf, toNat_ageOf]
  omega

/-! ### The quality of an entry -/

theorem qualityOf_setField_ne (sample : Json) {key : Bytes} (h : key ≠ "quality") (v : Json) :
    qualityOf (sample.setField key v) = qualityOf sample := by
  rw [qualityOf, Json.find?_setField_ne sample h, qualityOf]

theorem isObject_of_qualityOf {sample : Json} (h : qualityOf sample = "good") :
    sample.isObject = true := by
  cases sample with
  | obj fields => rfl
  | _ =>
    change bytes "unknown" = bytes "good" at h
    exact absurd h (by decide)

/-- The quality a stored sample shows: its own, but for a good one that is too old. -/
theorem qualityOf_shownSample (store : Store) (now : UInt64) (tag : Tag) (sample : Json) :
    qualityOf (shownSample store now tag sample) =
      if store.staleAfterMs < ageOf now sample ∧ qualityOf sample = "good" then bytes "stale"
      else qualityOf sample := by
  have hage : bytes "age_ms" ≠ "quality" := by decide
  have hunit : bytes "unit" ≠ "quality" := by decide
  unfold shownSample
  simp only [qualityOf_setField_ne _ hunit, qualityOf_setField_ne _ hage]
  by_cases hold : store.staleAfterMs < ageOf now sample ∧ qualityOf sample = "good"
  · rw [if_pos hold, if_pos hold]
    have hobject := Json.isObject_setField
      (Json.isObject_setField (isObject_of_qualityOf hold.2) "age_ms" (.uint (ageOf now sample)))
      "unit" (.str tag.unit)
    rw [qualityOf, Json.find?_setField hobject, if_pos rfl]
  · rw [if_neg hold, if_neg hold, qualityOf_setField_ne _ hunit, qualityOf_setField_ne _ hage]

theorem qualityOf_unknownSample (tag : Tag) : qualityOf (unknownSample tag) = "unknown" := by
  rw [qualityOf, unknownSample, Json.find?_object]
  rfl

/-- The stored sample of a tag that a snapshot of this generation shows. -/
def currentSample (store : Store) (generation : Nat) (tag : Tag) : Option Json :=
  if store.contextGeneration = generation then Assoc.find? tag.id store.values else none

theorem entryOf_eq (store : Store) (generation : Nat) (now : UInt64) (tag : Tag) :
    entryOf store generation now tag = match currentSample store generation tag with
      | some sample => shownSample store now tag sample
      | none => unknownSample tag := by
  unfold entryOf currentSample
  by_cases hgeneration : store.contextGeneration = generation
  · rw [if_pos hgeneration]
    cases Assoc.find? tag.id store.values with
    | none => rfl
    | some sample => exact if_neg (not_not.mpr hgeneration)
  · rw [if_neg hgeneration]
    cases Assoc.find? tag.id store.values with
    | none => rfl
    | some sample => exact if_pos hgeneration

theorem qualityOf_entryOf (store : Store) (generation : Nat) (now : UInt64) (tag : Tag) :
    qualityOf (entryOf store generation now tag) = match currentSample store generation tag with
      | some sample => if store.staleAfterMs < ageOf now sample ∧ qualityOf sample = "good"
          then bytes "stale" else qualityOf sample
      | none => "unknown" := by
  rw [entryOf_eq]
  cases currentSample store generation tag with
  | none => exact qualityOf_unknownSample tag
  | some sample => exact qualityOf_shownSample store now tag sample

/-- How the quality an entry shows can change while time passes. -/
structure Ages (earlier later : Bytes) : Prop where
  good : later = "good" → earlier = "good"
  stale : earlier = "stale" → later = "stale"
  unavailable : earlier ≠ "good" ∧ earlier ≠ "stale" ↔ later ≠ "good" ∧ later ≠ "stale"

theorem ages_refl (quality : Bytes) : Ages quality quality := ⟨id, id, Iff.rfl⟩

theorem ages_good_stale : Ages "good" "stale" := ⟨by decide, by decide, by decide⟩

theorem ages_entryOf (store : Store) (generation : Nat) {t₁ t₂ : UInt64} (h : t₁ ≤ t₂) (tag : Tag) :
    Ages (qualityOf (entryOf store generation t₁ tag))
      (qualityOf (entryOf store generation t₂ tag)) := by
  rw [qualityOf_entryOf, qualityOf_entryOf]
  cases currentSample store generation tag with
  | none => exact ages_refl _
  | some sample =>
    by_cases hgood : qualityOf sample = "good"
    · simp only [hgood, and_true]
      by_cases hold : store.staleAfterMs < ageOf t₁ sample
      · rw [if_pos hold, if_pos (UInt64.lt_of_lt_of_le hold (ageOf_mono h sample))]
        exact ages_refl _
      · rw [if_neg hold]
        by_cases hlater : store.staleAfterMs < ageOf t₂ sample
        · rw [if_pos hlater]
          exact ages_good_stale
        · rw [if_neg hlater]
          exact ages_refl _
    · simp only [hgood, and_false]
      exact ages_refl _

/-! ### The quality of a snapshot -/

/-- The labels of a snapshot, from the worst to the best. -/
def overallQualities : List Bytes := ["unknown", "stale", "partial", "good"]

/-- One label is no better than another. -/
def NoBetter (later earlier : Bytes) : Prop :=
  overallQualities.idxOf later ≤ overallQualities.idxOf earlier

theorem overallQuality_mem (entries : List Json) : overallQuality entries ∈ overallQualities := by
  unfold overallQuality overallQualities
  simp only
  split_ifs <;> decide

section
variable {α : Type} {earlier later : α → Bytes} {l : List α}

theorem countP_good (h : ∀ a ∈ l, Ages (earlier a) (later a)) :
    (l.countP fun a => later a = "good") ≤ l.countP fun a => earlier a = "good" := by
  apply List.countP_mono_left
  intro a ha hgood
  exact decide_eq_true ((h a ha).good (of_decide_eq_true hgood))

theorem countP_stale (h : ∀ a ∈ l, Ages (earlier a) (later a)) :
    (l.countP fun a => earlier a = "stale") ≤ l.countP fun a => later a = "stale" := by
  apply List.countP_mono_left
  intro a ha hstale
  exact decide_eq_true ((h a ha).stale (of_decide_eq_true hstale))

theorem countP_available (quality : α → Bytes) :
    ((l.countP fun a => quality a = "good") + l.countP fun a => quality a = "stale") =
      l.countP fun a => quality a = "good" ∨ quality a = "stale" := by
  induction l with
  | nil => rfl
  | cons a l ih =>
    simp only [List.countP_cons, ← ih]
    by_cases hgood : quality a = "good"
    · have hstale : bytes "good" ≠ bytes "stale" := by decide
      simp only [hgood, hstale, decide_true, decide_false, true_or, if_true, Bool.false_eq_true,
        if_false]
      omega
    · simp only [hgood, decide_false, false_or, Bool.false_eq_true, if_false]
      omega

/-- Nothing becomes available, and nothing unavailable, by waiting. -/
theorem countP_unavailable (h : ∀ a ∈ l, Ages (earlier a) (later a)) :
    ((l.countP fun a => later a = "good") + l.countP fun a => later a = "stale") =
      (l.countP fun a => earlier a = "good") + l.countP fun a => earlier a = "stale" := by
  rw [countP_available, countP_available]
  apply List.countP_congr
  intro a ha
  have hsame := (h a ha).unavailable
  rw [← not_or, ← not_or, not_iff_not] at hsame
  simpa only [decide_eq_true_eq] using hsame.symm

end

/-- **The quality of the whole is no better** when that of every entry has aged. -/
theorem overallQuality_noBetter {α : Type} {earlier later : α → Json} {l : List α}
    (h : ∀ a ∈ l, Ages (qualityOf (earlier a)) (qualityOf (later a))) :
    NoBetter (overallQuality (l.map later)) (overallQuality (l.map earlier)) := by
  have hgood := countP_good h
  have hstale := countP_stale h
  have havailable := countP_unavailable h
  unfold overallQuality
  simp only [List.countP_map, List.length_map, Function.comp_def]
  generalize (l.countP fun a => decide (qualityOf (later a) = "good")) = g₂ at *
  generalize (l.countP fun a => decide (qualityOf (earlier a) = "good")) = g₁ at *
  generalize (l.countP fun a => decide (qualityOf (later a) = "stale")) = s₂ at *
  generalize (l.countP fun a => decide (qualityOf (earlier a) = "stale")) = s₁ at *
  generalize l.length = n
  split_ifs <;> first | omega | (unfold NoBetter; decide)

/-! ### Two snapshots -/

/-- What a snapshot shows of a tag. -/
def shownOf (snapshot : Json) (id : Bytes) : Option Json :=
  (snapshot.find? "values").bind fun values => values.find? id

/-- The quality a snapshot reports of a tag. -/
def reportedQuality (snapshot : Json) (id : Bytes) : Option Bytes :=
  (shownOf snapshot id).map qualityOf

/-- A tag that a snapshot reports as neither good nor stale. -/
def Unavailable (snapshot : Json) (id : Bytes) : Prop :=
  ∃ quality, reportedQuality snapshot id = some quality ∧ quality ≠ "good" ∧ quality ≠ "stale"

/-- The age of each stored sample is what the clock has gone past the time it was received. -/
def AgesExact (store : Store) (now : UInt64) : Prop :=
  ∀ p ∈ store.values, (ageOf now p.2).toNat + min now.toNat (receivedOf p.2).toNat = now.toNat

/-- The later snapshot of two shows nothing fresher than the earlier one. -/
structure NoFresher (index : ModelIndex) (earlier later : Json) : Prop where
  good : ∀ tag ∈ index.tags, reportedQuality later tag.id = some (bytes "good") →
    reportedQuality earlier tag.id = some (bytes "good")
  stale : ∀ tag ∈ index.tags, reportedQuality earlier tag.id = some (bytes "stale") →
    reportedQuality later tag.id = some (bytes "stale")
  unavailable : ∀ tag ∈ index.tags, Unavailable earlier tag.id ↔ Unavailable later tag.id
  labels : qualityOf earlier ∈ overallQualities ∧ qualityOf later ∈ overallQualities
  overall : NoBetter (qualityOf later) (qualityOf earlier)

/-- The snapshot of a store, in the words of its index. -/
def snapshotJson (store : Store) (index : ModelIndex) (generation : Nat) (sessionId : Bytes)
    (now : UInt64) (alarms : List Json) : Json :=
  .object [("schema_version", .str "context-hmi-telemetry/1"),
    ("model_id", .str index.modelId), ("model_revision", index.revision),
    ("context_generation", .uint (UInt64.ofNat generation)), ("session_id", .str sessionId),
    ("quality", .str (overallQuality ((entriesOf store index generation now).map (·.2)))),
    ("values", .object (entriesOf store index generation now)), ("alarms", .arr alarms)]

section
variable {index : ModelIndex} {store : Store} {generation : Nat} {now : UInt64}

theorem find?_entriesOf (wf : index.WellFormed) {tag : Tag} (htag : tag ∈ index.tags) :
    Assoc.find? tag.id (entriesOf store index generation now) =
      some (entryOf store generation now tag) := by
  have hkeys : (entriesOf store index generation now).map Prod.fst = index.tags.map (·.id) := by
    rw [entriesOf, List.map_map]
    rfl
  rw [Assoc.find?_eq_some_iff (hkeys ▸ wf.tags_nodup)]
  exact List.mem_map.mpr ⟨tag, htag, rfl⟩

theorem exists_alarmsOf (wf : index.WellFormed) :
    ∃ alarms, alarmsOf index (entriesOf store index generation now) = .ok alarms := by
  apply exists_mapM
  intro alarm halarm
  obtain ⟨tag, htag, -⟩ := wf.alarm_tag halarm
  obtain ⟨hmem, hid⟩ := wf.tag?_eq_some.mp htag
  refine ⟨alarmEntry alarm (entryOf store generation now tag), ?_⟩
  rw [← hid, find?_entriesOf wf hmem]

theorem snapshot_eq [Platform] {model : Json} (hindex : indexModel model = .ok index)
    (store : Store) (generation : Nat) (sessionId : Bytes) (now : UInt64) :
    ∃ alarms, store.snapshot model generation sessionId now =
      .ok (snapshotJson store index generation sessionId now alarms) := by
  obtain ⟨alarms, halarms⟩ : ∃ alarms, alarmsOf index (entriesOf store index generation now) =
      .ok alarms := exists_alarmsOf (indexModel_wellFormed hindex)
  refine ⟨alarms, ?_⟩
  rw [Store.snapshot, hindex, ok_bind]
  simp only [halarms, ok_bind]
  rfl

theorem shownOf_snapshotJson (wf : index.WellFormed) {tag : Tag} (htag : tag ∈ index.tags)
    (sessionId : Bytes) (alarms : List Json) :
    shownOf (snapshotJson store index generation sessionId now alarms) tag.id =
      some (entryOf store generation now tag) := by
  have hvalues : (snapshotJson store index generation sessionId now alarms).find? "values" =
      some (.object (entriesOf store index generation now)) := by
    rw [snapshotJson, Json.find?_object]
    rfl
  rw [shownOf, hvalues, Option.bind_some, Json.find?_object, find?_entriesOf wf htag]

theorem qualityOf_snapshotJson (sessionId : Bytes) (alarms : List Json) :
    qualityOf (snapshotJson store index generation sessionId now alarms) =
      overallQuality (index.tags.map (entryOf store generation now)) := by
  have hentries : (entriesOf store index generation now).map (·.2) =
      index.tags.map (entryOf store generation now) := by
    rw [entriesOf, List.map_map]
    rfl
  rw [qualityOf, snapshotJson, Json.find?_object, hentries]
  rfl

/-- **Data never becomes fresher by waiting.** Nothing is done to the store between two snapshots of
one generation, and the clock does not go back between them. -/
theorem snapshot_no_fresher [Platform] {model : Json} (hindex : indexModel model = .ok index)
    (store : Store) (sessionId : Bytes) {t₁ t₂ : UInt64} (h : t₁ ≤ t₂) :
    AgesExact store t₁ ∧ AgesExact store t₂ ∧
      ∃ earlier later,
        store.snapshot model store.contextGeneration sessionId t₁ = .ok earlier ∧
          store.snapshot model store.contextGeneration sessionId t₂ = .ok later ∧
          NoFresher index earlier later := by
  have wf := indexModel_wellFormed hindex
  obtain ⟨alarms₁, h₁⟩ := snapshot_eq hindex store store.contextGeneration sessionId t₁
  obtain ⟨alarms₂, h₂⟩ := snapshot_eq hindex store store.contextGeneration sessionId t₂
  refine ⟨fun p _ => ageOf_add t₁ p.2, fun p _ => ageOf_add t₂ p.2, _, _, h₁, h₂, ?_⟩
  have hages := ages_entryOf store store.contextGeneration h
  have hshown : ∀ (now : UInt64) (alarms : List Json), ∀ tag ∈ index.tags,
      reportedQuality (snapshotJson store index store.contextGeneration sessionId now alarms)
        tag.id = some (qualityOf (entryOf store store.contextGeneration now tag)) := by
    intro now alarms tag htag
    rw [reportedQuality, shownOf_snapshotJson wf htag, Option.map_some]
  refine ⟨?_, ?_, ?_, ⟨?_, ?_⟩, ?_⟩
  · intro tag htag hgood
    rw [hshown t₂ alarms₂ tag htag, Option.some.injEq] at hgood
    rw [hshown t₁ alarms₁ tag htag, (hages tag).good hgood]
  · intro tag htag hstale
    rw [hshown t₁ alarms₁ tag htag, Option.some.injEq] at hstale
    rw [hshown t₂ alarms₂ tag htag, (hages tag).stale hstale]
  · intro tag htag
    simp only [Unavailable, hshown t₁ alarms₁ tag htag, hshown t₂ alarms₂ tag htag,
      Option.some.injEq, exists_eq_left']
    exact (hages tag).unavailable
  · rw [qualityOf_snapshotJson]
    exact overallQuality_mem _
  · rw [qualityOf_snapshotJson]
    exact overallQuality_mem _
  · rw [qualityOf_snapshotJson, qualityOf_snapshotJson]
    exact overallQuality_noBetter fun tag _ => hages tag

end

section
local instance agedPlatform : Platform := samplePlatform

/-- A store with a good level that was received at 5000. -/
def levelStore : Store :=
  { contextGeneration := 1
    lastReceivedMs := 5000
    values := [("level", stamped 5000 ⟨"line", 1, []⟩ (.object [("value", .float 3),
      ("quality", .str "good"), ("timestamp_ms", .uint 4900)]))] }

/-- The clock is behind the time of receipt at first, and then past the interval of staleness. -/
theorem snapshot_no_fresher_sample :
    AgesExact levelStore 100 ∧ AgesExact levelStore 9000 ∧
      ∃ earlier later,
        levelStore.snapshot (sampleModel 1 (.int 80)) levelStore.contextGeneration "s" 100 =
            .ok earlier ∧
          levelStore.snapshot (sampleModel 1 (.int 80)) levelStore.contextGeneration "s" 9000 =
            .ok later ∧
          NoFresher (indexOf (sampleModel 1 (.int 80))) earlier later :=
  snapshot_no_fresher (indexModel_eq (by decide +kernel)) levelStore "s" (by decide)

end

end ContextHmi.Telemetry
