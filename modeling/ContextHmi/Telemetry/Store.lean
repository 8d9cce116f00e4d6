import ContextHmi.Runtime.Loading

/-!
# The telemetry store

`telemetry::Store`: batches of current values for the tags of the active model. A batch is read as a
whole before anything is stored; what is stored is kept until the next generation of the model. The
clock is an argument.

* `ingest_rejected`   : a batch that is refused leaves the store, but for the count of refusals;
* `ingest_accepted`   : a batch that is not is stored as it was read.
-/

namespace ContextHmi.Telemetry

open Outcome

/-! ### Reading a batch -/

abbrev kMaximumSourceIdBytes : Nat := 128
abbrev kMaximumStringValueBytes : Nat := 2048

def invalidTelemetry (details : Bytes) : Error := .domain "invalid_telemetry" details

def staleContext (details : Bytes) : Error := .domain "stale_context" details

/-- `valid_identity`. -/
def validIdentity (value : Bytes) : Bool :=
  !value.isEmpty && value.length ≤ kMaximumSourceIdBytes &&
    value.all fun c => Bytes.isAlnum c || c == 0x5f || c == 0x2d || c == 0x2e

/-- `require_fields`. -/
def requireFields (object : Json) (allowed : List Bytes) (location : Bytes) : Result Unit := do
  throwIf (¬ object.isObject) (invalidTelemetry (location ++ " must be an object"))
  match object.fields.find? fun field => field.1 ∉ allowed with
  | some field =>
    .error (invalidTelemetry (location ++ " contains unsupported field '" ++ field.1 ++ "'"))
  | none => .ok ()

def qualities : List Bytes := ["good", "uncertain", "bad", "unknown"]

/-- The part of `validate_value` that depends on the type of the tag, which is compared as it is
written. -/
def checkType (dataType location : Bytes) (value : Json) : Result Unit :=
  if dataType ∈ numericTypes then
    throwIf (¬ isFiniteNumber value ∨ dataType = "integer" ∧ ¬ value.isNumberInteger)
      (invalidTelemetry (location ++ ".value does not match numeric tag type"))
  else if dataType = "boolean" ∨ dataType = "bool" then
    throwIf (¬ value.isBoolean)
      (invalidTelemetry (location ++ ".value does not match boolean tag type"))
  else
    throwIf (¬ value.isStringWith fun s => s.length ≤ kMaximumStringValueBytes)
      (invalidTelemetry (location ++ ".value does not match bounded string tag type"))

/-- What `checkType` lets through. -/
def Fits (dataType : Bytes) (value : Json) : Prop :=
  if dataType ∈ numericTypes then
    isFiniteNumber value = true ∧ (dataType = "integer" → value.isNumberInteger = true)
  else if dataType = "boolean" ∨ dataType = "bool" then value.isBoolean = true
  else (value.isStringWith fun s => s.length ≤ kMaximumStringValueBytes) = true

/-- `validate_value`. -/
def validateValue (sample : Json) (tag : Tag) (location : Bytes) : Result Unit := do
  requireFields sample ["value", "quality", "timestamp_ms"] location
  match sample.find? "value", sample.find? "quality", sample.find? "timestamp_ms" with
  | some value, some quality, some timestamp =>
    throwIf (¬ quality.isString) (invalidTelemetry (location ++ ".quality must be a string"))
    throwIf (¬ quality.isStringWith fun s => s ∈ qualities)
      (invalidTelemetry (location ++ ".quality is unsupported"))
    throwIf (¬ timestamp.isNumberUnsigned)
      (invalidTelemetry (location ++ ".timestamp_ms must be an unsigned integer"))
    checkType tag.dataType location value
  | _, _, _ =>
    .error (invalidTelemetry (location ++ " requires value, quality and timestamp_ms"))

/-- Every value of a batch is one of a declared tag, and of its type. -/
def validateValues (index : ModelIndex) : List (Bytes × Json) → Result Unit
  | [] => .ok ()
  | (id, sample) :: rest => do
    match index.tag? id with
    | none =>
      .error (invalidTelemetry ("telemetry value references undeclared tag '" ++ id ++ "'"))
    | some tag => validateValue sample tag ("telemetry.values." ++ id)
    validateValues index rest

/-- A number without sign that is `generation`. -/
def isGeneration (generation : Nat) : Json → Bool
  | .uint n => n.toNat == generation
  | _ => false

/-- The batch is one for this model, revision and generation. -/
def isCurrent (index : ModelIndex) (generation : Nat) (batch : Json) : Result Bool :=
  if batch.size ≠ 7 then .ok false
  else do
    let schema ← batch.valueString "schema_version" []
    return schema == "context-hmi-telemetry/1" &&
      batch.has "model_id" (fun id => id.isString && id.eqv (.str index.modelId)) &&
      batch.has "model_revision" (fun r => r.isNumberUnsigned && r.eqv index.revision) &&
      batch.has "context_generation" (isGeneration generation)

/-- What a batch that was read says. -/
structure Batch where
  sourceId : Bytes
  sequence : UInt64
  values : List (Bytes × Json)

/-- The part of `ingest` before the store is locked. -/
def readBatch (index : ModelIndex) (generation maximumValues : Nat) (batch : Json) :
    Result Batch := do
  requireFields batch ["schema_version", "model_id", "model_revision", "context_generation",
    "source_id", "sequence", "values"] "telemetry"
  let current ← isCurrent index generation batch
  throwIf (current = false)
    (staleContext "telemetry identity, revision or generation is not current")
  match batch.find? "source_id" with
  | some (.str sourceId) =>
    throwIf (¬ validIdentity sourceId) (invalidTelemetry "telemetry.source_id is invalid")
    match batch.find? "sequence" with
    | some (.uint sequence) =>
      match batch.find? "values" with
      | some (.obj values) =>
        throwIf (values.isEmpty ∨ maximumValues < values.length)
          (invalidTelemetry "telemetry.values exceeds the configured bounded value count")
        validateValues index values
        return ⟨sourceId, sequence, values⟩
      | _ => .error (invalidTelemetry "telemetry.values exceeds the configured bounded value count")
    | _ => .error (invalidTelemetry "telemetry.sequence must be an unsigned integer")
  | _ => .error (invalidTelemetry "telemetry.source_id is invalid")

/-! ### The store -/

/-- `Store`. -/
structure Store where
  staleAfterMs : UInt64 := 3000
  maximumValuesPerBatch : Nat := 512
  values : List (Bytes × Json) := []
  sourceSequences : List (Bytes × UInt64) := []
  contextGeneration : Nat := 0
  acceptedBatches : UInt64 := 0
  rejectedBatches : UInt64 := 0
  acceptedValues : UInt64 := 0
  lastReceivedMs : UInt64 := 0

/-- A sample with where it came from; only an object can be given members. -/
def stamp (received : UInt64) (batch : Batch) (sample : Json) : Result Json :=
  match sample with
  | .obj _ | .null => .ok (sample.setFields [("received_timestamp_ms", .uint received),
      ("source_id", .str batch.sourceId), ("sequence", .uint batch.sequence)])
  | _ => .error (.json .type)

/-- The loop that stores the values of a batch, one after the other. -/
def storeValues (received : UInt64) (batch : Batch) :
    List (Bytes × Json) → List (Bytes × Json) → List (Bytes × Json) × Result Unit
  | [], stored => (stored, .ok ())
  | (id, sample) :: rest, stored => match stamp received batch sample with
    | .error e => (stored, .error e)
    | .ok current => storeValues received batch rest (Assoc.insert id current stored)

def checkSequence (store : Store) (generation : Nat) (batch : Batch) : Result Unit := do
  throwIf (store.contextGeneration ≠ generation)
    (staleContext "machine context changed before telemetry commit")
  throwIf ((Assoc.find? batch.sourceId store.sourceSequences).any fun previous =>
      batch.sequence ≤ previous)
    (.domain "telemetry_out_of_order" "telemetry sequence did not advance for this source")

def acceptedResponse (generation : Nat) (batch : Batch) (received : UInt64) : Json :=
  .object [("accepted", .bool true), ("source_id", .str batch.sourceId),
    ("sequence", .uint batch.sequence), ("value_count", .uint (UInt64.ofNat batch.values.length)),
    ("context_generation", .uint (UInt64.ofNat generation)), ("received_timestamp_ms", .uint received)]

/-- The part of `ingest` under the lock. What was stored before an exception stays stored. -/
def Store.commit (store : Store) (generation : Nat) (batch : Batch) (received : UInt64) :
    Store × Result Json :=
  match checkSequence store generation batch with
  | .error e => (store, .error e)
  | .ok () => match storeValues received batch batch.values store.values with
    | (stored, .error e) => ({ store with values := stored }, .error e)
    | (stored, .ok ()) =>
      ({ store with
          values := stored
          sourceSequences := Assoc.insert batch.sourceId batch.sequence store.sourceSequences
          acceptedBatches := store.acceptedBatches + 1
          acceptedValues := store.acceptedValues + UInt64.ofNat batch.values.length
          lastReceivedMs := received },
        .ok (acceptedResponse generation batch received))

/-- `catch (...)`. -/
def Store.reject (store : Store) : Store :=
  { store with rejectedBatches := store.rejectedBatches + 1 }

section
variable [Platform]

def readFor (model : Json) (generation maximumValues : Nat) (batch : Json) : Result Batch := do
  let index ← indexModel model
  readBatch index generation maximumValues batch

/-- `Store::ingest`. -/
def Store.ingest (store : Store) (model : Json) (generation : Nat) (batch : Json)
    (received : UInt64) : Store × Result Json :=
  match readFor model generation store.maximumValuesPerBatch batch with
  | .error e => (store.reject, .error e)
  | .ok read => match store.commit generation read received with
    | (stored, .error e) => (stored.reject, .error e)
    | (stored, .ok response) => (stored, .ok response)

end

/-- `Store::reconfigure`. -/
def Store.reconfigure (store : Store) (generation : Nat) : Store :=
  { store with
    values := []
    sourceSequences := []
    contextGeneration := generation
    lastReceivedMs := 0 }

/-- `Store::readiness`, as far as it is ready. -/
def Store.ready (store : Store) (generation : Nat) : Bool :=
  store.contextGeneration == generation && store.lastReceivedMs != 0

/-- `Store::readiness`. -/
def Store.readiness (store : Store) (generation : Nat) : Json :=
  let received := store.ready generation
  .object [("kind", .str "telemetry-ingestion"), ("ready", .bool received),
    ("reason", .str (if received then "current data received"
      else "waiting for current telemetry")),
    ("current_values", .uint (if received then UInt64.ofNat store.values.length else 0))]

/-! ### Snapshots -/

/-- `compare`. -/
def compare (value : Float) (operation : Bytes) (threshold : Float) : Bool :=
  if operation = ">" then value > threshold
  else if operation = ">=" then value ≥ threshold
  else if operation = "<" then value < threshold
  else if operation = "<=" then value ≤ threshold
  else if operation = "==" then value == threshold
  else value != threshold

/-- `get<double>()` of a number. -/
def getDouble : Json → Float
  | .int i => Json.ofInt64 i
  | .uint n => Json.ofUInt64 n
  | .float x => x
  | _ => 0

/-- The entry of a tag nothing is known of. -/
def unknownSample (tag : Tag) : Json :=
  .object [("value", .null), ("quality", .str "unknown"), ("unit", .str tag.unit),
    ("timestamp_ms", .null), ("age_ms", .null)]

/-- `value("quality", "unknown")` of an entry. -/
def qualityOf (sample : Json) : Bytes :=
  match sample.find? "quality" with
  | some (.str quality) => quality
  | _ => "unknown"

/-- `at("received_timestamp_ms")` of an entry. -/
def receivedOf (sample : Json) : UInt64 :=
  match sample.find? "received_timestamp_ms" with
  | some (.uint n) => n
  | _ => 0

/-- How long ago a stored sample was received. -/
def ageOf (now : UInt64) (sample : Json) : UInt64 := now - min now (receivedOf sample)

/-- A stored sample as a snapshot shows it. -/
def shownSample (store : Store) (now : UInt64) (tag : Tag) (sample : Json) : Json :=
  let aged := (sample.setField "age_ms" (.uint (ageOf now sample))).setField "unit" (.str tag.unit)
  if store.staleAfterMs < ageOf now sample ∧ qualityOf aged = "good" then
    aged.setField "quality" (.str "stale")
  else aged

/-- The entry of a tag. -/
def entryOf (store : Store) (generation : Nat) (now : UInt64) (tag : Tag) : Json :=
  match Assoc.find? tag.id store.values with
  | some sample =>
    if store.contextGeneration ≠ generation then unknownSample tag
    else shownSample store now tag sample
  | none => unknownSample tag

def overallQuality (entries : List Json) : Bytes :=
  let good := entries.countP fun entry => qualityOf entry = "good"
  let stale := entries.countP fun entry => qualityOf entry = "stale"
  if 0 < good ∧ stale = 0 ∧ good = entries.length then "good"
  else if 0 < good then "partial"
  else if 0 < stale then "stale"
  else "unknown"

/-- One alarm of a snapshot, over the entry of its tag. -/
def alarmEntry (alarm : Alarm) (sample : Json) : Json :=
  let number := (sample.find? "value").filter Json.isNumber
  let available := number.isSome && qualityOf sample != "bad" && qualityOf sample != "unknown"
  let value := getDouble (number.getD .null)
  .object [("id", .str alarm.id), ("alarm_id", .str alarm.id),
    ("active", .bool (available && compare value alarm.operator (getDouble alarm.threshold))),
    ("available", .bool available), ("asset_id", .str alarm.assetId), ("tag_id", .str alarm.tagId),
    ("name", .str alarm.name), ("severity", .str alarm.severity),
    ("value", if available then .float value else .null), ("threshold", alarm.threshold)]

/-- The values of a snapshot, by tag. -/
def entriesOf (store : Store) (index : ModelIndex) (generation : Nat) (now : UInt64) :
    List (Bytes × Json) :=
  index.tags.map fun tag => (tag.id, entryOf store generation now tag)

/-- The alarms of a snapshot; `at` throws where the tag of one has no entry. -/
def alarmsOf (index : ModelIndex) (entries : List (Bytes × Json)) : Result (List Json) :=
  index.alarms.mapM fun alarm => match Assoc.find? alarm.tagId entries with
    | some sample => .ok (alarmEntry alarm sample)
    | none => .error (.json .missing)

/-- `Store::snapshot`. -/
def Store.snapshot [Platform] (store : Store) (model : Json) (generation : Nat) (sessionId : Bytes)
    (now : UInt64) : Result Json := do
  let index ← indexModel model
  let entries := entriesOf store index generation now
  let alarms ← alarmsOf index entries
  return .object [("schema_version", .str "context-hmi-telemetry/1"),
    ("model_id", .str index.modelId), ("model_revision", index.revision),
    ("context_generation", .uint (UInt64.ofNat generation)), ("session_id", .str sessionId),
    ("quality", .str (overallQuality (entries.map (·.2)))),
    ("values", .object entries), ("alarms", .arr alarms)]

/-! ### What a batch that was read is -/

theorem requireFields_eq_ok {j : Json} {names : List Bytes} {p : Bytes} {u : Unit} :
    requireFields j names p = .ok u ↔ hasOnly j names := by
  simp only [requireFields, bind_eq_ok, throwIf_eq_ok, exists_const, not_not, hasOnly]
  refine and_congr_right fun _ => ?_
  cases h : j.fields.find? fun field => decide (field.1 ∉ names) with
  | none => simpa using List.find?_eq_none.mp h
  | some f =>
    have hf := List.find?_some h
    have hmem := List.mem_of_find?_eq_some h
    simp only [reduceCtorEq, false_iff, not_forall]
    exact ⟨f, hmem, by simpa using hf⟩

/-- A sample that is one of a tag. -/
structure IsSample (tag : Tag) (sample : Json) : Prop where
  only : hasOnly sample ["value", "quality", "timestamp_ms"]
  value : ∃ value, sample.find? "value" = some value ∧ Fits tag.dataType value
  quality : ∃ quality, sample.find? "quality" = some (.str quality) ∧ quality ∈ qualities
  timestamp : ∃ n, sample.find? "timestamp_ms" = some (.uint n)

theorem checkType_eq_ok {dataType location : Bytes} {value : Json} {u : Unit} :
    checkType dataType location value = .ok u ↔ Fits dataType value := by
  unfold checkType Fits
  split_ifs with hnumeric hboolean
  · simp only [throwIf_eq_ok, not_or, not_not, not_and]
  · simp only [throwIf_eq_ok, not_not]
  · simp only [throwIf_eq_ok, not_not]

theorem validateValue_eq_ok {sample : Json} {tag : Tag} {location : Bytes} {u : Unit} :
    validateValue sample tag location = .ok u ↔ IsSample tag sample := by
  simp only [validateValue, bind_eq_ok, requireFields_eq_ok, exists_const]
  constructor
  · intro h
    obtain ⟨honly, h⟩ := h
    cases hvalue : sample.find? "value" with
    | none => simp [hvalue] at h
    | some value =>
      cases hquality : sample.find? "quality" with
      | none => simp [hvalue, hquality] at h
      | some quality =>
        cases htimestamp : sample.find? "timestamp_ms" with
        | none => simp [hvalue, hquality, htimestamp] at h
        | some timestamp =>
          simp only [hvalue, hquality, htimestamp, bind_eq_ok, throwIf_eq_ok, exists_const,
            not_not, checkType_eq_ok] at h
          obtain ⟨hstring, hknown, hunsigned, hfits⟩ := h
          refine ⟨honly, ⟨value, hvalue, hfits⟩, ?_, ?_⟩
          · cases quality with
            | str s => exact ⟨s, hquality, by simpa [Json.isStringWith] using hknown⟩
            | _ => simp [Json.isString] at hstring
          · cases timestamp with
            | uint n => exact ⟨n, htimestamp⟩
            | _ => simp [Json.isNumberUnsigned] at hunsigned
  · intro h
    obtain ⟨value, hvalue, hfits⟩ := h.value
    obtain ⟨quality, hquality, hknown⟩ := h.quality
    obtain ⟨n, htimestamp⟩ := h.timestamp
    refine ⟨h.only, ?_⟩
    simp only [hvalue, hquality, htimestamp, bind_eq_ok, throwIf_eq_ok, exists_const, not_not,
      checkType_eq_ok]
    exact ⟨rfl, by simpa [Json.isStringWith] using hknown, rfl, hfits⟩

/-- Every value is a sample of a declared tag. -/
def AreSamples (index : ModelIndex) (values : List (Bytes × Json)) : Prop :=
  ∀ p ∈ values, ∃ tag, index.tag? p.1 = some tag ∧ IsSample tag p.2

theorem validateValues_eq_ok {index : ModelIndex} {values : List (Bytes × Json)} {u : Unit} :
    validateValues index values = .ok u ↔ AreSamples index values := by
  induction values with
  | nil => exact iff_of_true rfl (List.forall_mem_nil _)
  | cons p values ih =>
    obtain ⟨id, sample⟩ := p
    unfold validateValues AreSamples
    rw [List.forall_mem_cons]
    cases htag : index.tag? id with
    | none => simp
    | some tag =>
      simp only [bind_eq_ok, validateValue_eq_ok, ih, exists_const, Option.some.injEq,
        exists_eq_left']
      exact Iff.rfl

/-- A batch of the model, its revision and the generation. -/
structure Current (index : ModelIndex) (generation : Nat) (batch : Json) : Prop where
  size : batch.size = 7
  schema : batch.find? "schema_version" = some (.str "context-hmi-telemetry/1")
  modelId : batch.find? "model_id" = some (.str index.modelId)
  revision : ∃ r, batch.find? "model_revision" = some r ∧ r.isNumberUnsigned = true ∧
    r.eqv index.revision = true
  generation : ∃ n, batch.find? "context_generation" = some (.uint n) ∧ n.toNat = generation

theorem valueString_schema {batch : Json} {schema : Bytes} (hne : schema ≠ []) :
    batch.valueString "schema_version" [] = .ok schema ↔
      batch.find? "schema_version" = some (.str schema) := by
  cases batch with
  | obj fields =>
    simp only [Json.valueString, Json.find?_obj]
    cases Assoc.find? (bytes "schema_version") fields with
    | none => simp [hne.symm]
    | some v => cases v <;> simp [Json.getString]
  | _ => simp [Json.valueString, Json.find?]

theorem isCurrent_eq_ok {index : ModelIndex} {generation : Nat} {batch : Json} :
    isCurrent index generation batch = .ok true ↔ Current index generation batch := by
  have hne : bytes "context-hmi-telemetry/1" ≠ [] := by decide
  unfold isCurrent
  split_ifs with hsize
  · exact iff_of_false (by simp) fun h => hsize h.size
  · rw [not_not] at hsize
    simp only [bind_eq_ok, pure_eq_ok, Bool.and_eq_true, beq_iff_eq]
    constructor
    · intro h
      obtain ⟨schema, hschema, ⟨⟨hequal, hmodel⟩, hrevision⟩, hgeneration⟩ := h
      subst hequal
      refine ⟨hsize, (valueString_schema hne).mp hschema, ?_, ?_, ?_⟩
      · obtain ⟨id, hid, hequal⟩ := (Option.any_eq_true _ _).mp hmodel
        cases id with
        | str s =>
          simp only [Json.isString, Json.eqv, Bool.true_and, beq_iff_eq] at hequal
          exact hequal ▸ hid
        | _ => simp [Json.isString] at hequal
      · obtain ⟨r, hr, hequal⟩ := (Option.any_eq_true _ _).mp hrevision
        rw [Bool.and_eq_true] at hequal
        exact ⟨r, hr, hequal⟩
      · obtain ⟨g, hg, hequal⟩ := (Option.any_eq_true _ _).mp hgeneration
        cases g with
        | uint n => exact ⟨n, hg, by simpa [isGeneration] using hequal⟩
        | _ => cases hequal
    · intro h
      obtain ⟨r, hr, hunsigned, hequal⟩ := h.revision
      obtain ⟨n, hn, hgeneration⟩ := h.generation
      refine ⟨_, (valueString_schema hne).mpr h.schema, ⟨⟨rfl, ?_⟩, ?_⟩, ?_⟩
      · simp [Json.has, h.modelId, Json.isString, Json.eqv]
      · simp [Json.has, hr, hunsigned, hequal]
      · simp [Json.has, hn, isGeneration, hgeneration]

/-- What a batch that can be read is, in the words of its JSON. -/
structure Reads (index : ModelIndex) (generation maximumValues : Nat) (batch : Json) (read : Batch) :
    Prop where
  only : hasOnly batch ["schema_version", "model_id", "model_revision", "context_generation",
    "source_id", "sequence", "values"]
  current : Current index generation batch
  sourceId : batch.find? "source_id" = some (.str read.sourceId)
  identity : validIdentity read.sourceId = true
  sequence : batch.find? "sequence" = some (.uint read.sequence)
  values : batch.find? "values" = some (.obj read.values)
  bounded : read.values ≠ [] ∧ read.values.length ≤ maximumValues
  samples : AreSamples index read.values

theorem readBatch_eq_ok {index : ModelIndex} {generation maximumValues : Nat} {batch : Json}
    {read : Batch} : readBatch index generation maximumValues batch = .ok read ↔
      Reads index generation maximumValues batch read := by
  simp only [readBatch, bind_eq_ok, requireFields_eq_ok, throwIf_eq_ok, exists_const]
  constructor
  · intro ⟨honly, current, hcurrent, htrue, h⟩
    rw [Bool.not_eq_false] at htrue
    subst htrue
    split at h
    · rename_i sourceId hsource
      simp only [bind_eq_ok, throwIf_eq_ok, exists_const, not_not] at h
      obtain ⟨hidentity, h⟩ := h
      split at h
      · rename_i sequence hsequence
        split at h
        · rename_i values hvalues
          simp only [bind_eq_ok, throwIf_eq_ok, validateValues_eq_ok, pure_eq_ok, exists_const,
            not_or, not_lt] at h
          obtain ⟨⟨hne, hbound⟩, hsamples, rfl⟩ := h
          exact ⟨honly, isCurrent_eq_ok.mp hcurrent, hsource, hidentity, hsequence, hvalues,
            ⟨by simpa using hne, hbound⟩, hsamples⟩
        · cases h
      · cases h
    · cases h
  · intro h
    refine ⟨h.only, true, isCurrent_eq_ok.mpr h.current, by simp, ?_⟩
    simp only [h.sourceId, h.sequence, h.values, bind_eq_ok, throwIf_eq_ok, validateValues_eq_ok,
      pure_eq_ok, exists_const, not_or, not_lt, not_not]
    exact ⟨h.identity, ⟨by simpa using h.bounded.1, h.bounded.2⟩, h.samples, trivial⟩

/-! ### Storing a batch -/

/-- A stored sample. -/
def stamped (received : UInt64) (batch : Batch) (sample : Json) : Json :=
  sample.setFields [("received_timestamp_ms", .uint received), ("source_id", .str batch.sourceId),
    ("sequence", .uint batch.sequence)]

theorem find?_stamped {received : UInt64} {batch : Batch} {sample : Json}
    (hsample : sample.isObject = true) (k : Bytes) : (stamped received batch sample).find? k =
      if k = "sequence" then some (.uint batch.sequence)
      else if k = "source_id" then some (.str batch.sourceId)
      else if k = "received_timestamp_ms" then some (.uint received)
      else sample.find? k := by
  rw [stamped, Json.find?_setFields hsample]
  simp only [List.reverse_cons, List.reverse_nil, List.nil_append, List.cons_append,
    Assoc.find?_cons, Assoc.find?_nil]
  by_cases hsequence : k = "sequence"
  · subst hsequence
    rfl
  · rw [if_neg (Ne.symm hsequence), if_neg hsequence]
    by_cases hsource : k = "source_id"
    · subst hsource
      rfl
    · rw [if_neg (Ne.symm hsource), if_neg hsource]
      by_cases hreceived : k = "received_timestamp_ms"
      · subst hreceived
        rfl
      · rw [if_neg (Ne.symm hreceived), if_neg hreceived]
        rfl

/-- The store with a batch in it. -/
def Store.accept (store : Store) (batch : Batch) (received : UInt64) : Store :=
  { store with
    values := Assoc.insertAll (stamped received batch) batch.values store.values
    sourceSequences := Assoc.insert batch.sourceId batch.sequence store.sourceSequences
    acceptedBatches := store.acceptedBatches + 1
    acceptedValues := store.acceptedValues + UInt64.ofNat batch.values.length
    lastReceivedMs := received }

theorem stamp_eq_ok {received : UInt64} {batch : Batch} {sample : Json}
    (hsample : sample.isObject = true) :
    stamp received batch sample = .ok (stamped received batch sample) := by
  cases sample with
  | obj fields => rfl
  | _ => cases hsample

theorem storeValues_eq {received : UInt64} {batch : Batch} {values : List (Bytes × Json)}
    (hvalues : ∀ p ∈ values, p.2.isObject = true) (stored : List (Bytes × Json)) :
    storeValues received batch values stored =
      (Assoc.insertAll (stamped received batch) values stored, .ok ()) := by
  induction values generalizing stored with
  | nil => rfl
  | cons p values ih =>
    obtain ⟨id, sample⟩ := p
    rw [List.forall_mem_cons] at hvalues
    rw [storeValues, stamp_eq_ok hvalues.1]
    exact ih hvalues.2 _

theorem AreSamples.isObject {index : ModelIndex} {values : List (Bytes × Json)}
    (h : AreSamples index values) : ∀ p ∈ values, p.2.isObject = true := by
  intro p hp
  obtain ⟨tag, -, hsample⟩ := h p hp
  exact hsample.only.1

theorem commit_eq {index : ModelIndex} {store : Store} {generation maximumValues : Nat}
    {batch : Json} {read : Batch} (h : Reads index generation maximumValues batch read)
    (received : UInt64) : store.commit generation read received =
      match checkSequence store generation read with
      | .error e => (store, .error e)
      | .ok () => (store.accept read received, .ok (acceptedResponse generation read received)) := by
  unfold Store.commit
  rw [storeValues_eq h.samples.isObject]
  rfl

theorem checkSequence_eq_ok {store : Store} {generation : Nat} {batch : Batch} {u : Unit} :
    checkSequence store generation batch = .ok u ↔ store.contextGeneration = generation ∧
      ∀ previous, Assoc.find? batch.sourceId store.sourceSequences = some previous →
        previous < batch.sequence := by
  simp only [checkSequence, bind_eq_ok, throwIf_eq_ok, exists_const, ne_eq, not_not]
  refine and_congr_right fun _ => ?_
  cases Assoc.find? batch.sourceId store.sourceSequences <;> simp

section
variable [Platform] {index : ModelIndex} {model batch : Json} {generation : Nat} {store : Store}
  {received : UInt64}

/-- The store takes this batch. -/
structure Takes (index : ModelIndex) (generation : Nat) (store : Store) (batch : Json)
    (read : Batch) : Prop where
  reads : Reads index generation store.maximumValuesPerBatch batch read
  generation : store.contextGeneration = generation
  sequence : ∀ previous, Assoc.find? read.sourceId store.sourceSequences = some previous →
    previous < read.sequence

theorem readFor_eq (hindex : indexModel model = .ok index) (maximumValues : Nat) :
    readFor model generation maximumValues batch = readBatch index generation maximumValues batch := by
  rw [readFor, hindex, ok_bind]

/-- **A batch is stored as it was read**, when the store takes it. -/
theorem ingest_accepted (hindex : indexModel model = .ok index) {read : Batch}
    (h : Takes index generation store batch read) : store.ingest model generation batch received =
      (store.accept read received, .ok (acceptedResponse generation read received)) := by
  unfold Store.ingest
  rw [readFor_eq hindex, readBatch_eq_ok.mpr h.reads]
  have hcheck : checkSequence store generation read = .ok () :=
    checkSequence_eq_ok.mpr ⟨h.generation, h.sequence⟩
  simp only [commit_eq h.reads, hcheck]

/-- **A batch that is refused leaves the store**, but for the count of refusals. -/
theorem ingest_rejected (hindex : indexModel model = .ok index)
    (h : ¬ ∃ read, Takes index generation store batch read) (received : UInt64) :
    ∃ e, store.ingest model generation batch received = (store.reject, .error e) := by
  unfold Store.ingest
  rw [readFor_eq hindex]
  cases hread : readBatch index generation store.maximumValuesPerBatch batch with
  | error e => exact ⟨e, rfl⟩
  | ok read =>
    have hreads := readBatch_eq_ok.mp hread
    simp only [commit_eq hreads]
    cases hcheck : checkSequence store generation read with
    | error e => exact ⟨e, rfl⟩
    | ok u =>
      obtain ⟨hgeneration, hsequence⟩ := checkSequence_eq_ok.mp hcheck
      exact absurd ⟨read, hreads, hgeneration, hsequence⟩ h

theorem ingest_isOk_iff (hindex : indexModel model = .ok index) :
    (∃ response, (store.ingest model generation batch received).2 = .ok response) ↔
      ∃ read, Takes index generation store batch read := by
  by_cases h : ∃ read, Takes index generation store batch read
  · obtain ⟨read, hread⟩ := h
    rw [ingest_accepted hindex hread]
    exact iff_of_true ⟨_, rfl⟩ ⟨read, hread⟩
  · obtain ⟨e, he⟩ := ingest_rejected hindex h received
    rw [he]
    exact iff_of_false (by simp) h

end

end ContextHmi.Telemetry
