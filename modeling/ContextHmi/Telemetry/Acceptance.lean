import ContextHmi.Telemetry.Store
import ContextHmi.Execution.Dispatch
import ContextHmi.Engine.Reads

/-!
# Which batches are accepted, and how the others are refused

The model is checked with its data types in lower case, the samples with the types as they are
written. And a batch of the right size has its schema version read before its type is checked.

* `ingest_classifies_iff` : samples follow the declared types unless a type is spelled otherwise;
* `ingest_refuses_iff`    : a refusal is a domain error unless the schema version is not a string.
-/

namespace ContextHmi.Telemetry

open Outcome

/-! ### Types of values -/

/-- A value of a declared type, whose letters count as lower case. -/
def WellTyped (tag : Tag) (value : Json) : Prop := Fits (Bytes.lower tag.dataType) value

/-- A sample of the declared type. -/
structure IsTyped (tag : Tag) (sample : Json) : Prop where
  only : hasOnly sample ["value", "quality", "timestamp_ms"]
  value : ∃ value, sample.find? "value" = some value ∧ WellTyped tag value
  quality : ∃ quality, sample.find? "quality" = some (.str quality) ∧ quality ∈ qualities
  timestamp : ∃ n, sample.find? "timestamp_ms" = some (.uint n)

/-- A batch that is of this model and generation, within the limits and in order, of well-typed
samples of declared tags. -/
structure Admissible (index : ModelIndex) (generation : Nat) (store : Store) (batch : Json)
    (read : Batch) : Prop where
  only : hasOnly batch ["schema_version", "model_id", "model_revision", "context_generation",
    "source_id", "sequence", "values"]
  current : Current index generation batch
  sourceId : batch.find? "source_id" = some (.str read.sourceId)
  identity : validIdentity read.sourceId = true
  sequence : batch.find? "sequence" = some (.uint read.sequence)
  values : batch.find? "values" = some (.obj read.values)
  bounded : read.values ≠ [] ∧ read.values.length ≤ store.maximumValuesPerBatch
  samples : ∀ p ∈ read.values, ∃ tag, index.tag? p.1 = some tag ∧ IsTyped tag p.2
  generation : store.contextGeneration = generation
  advances : ∀ previous, Assoc.find? read.sourceId store.sourceSequences = some previous →
    previous < read.sequence

/-- What is in the store after a batch, and was not before, is well-typed. -/
def CommitsTyped (index : ModelIndex) (before after : Store) : Prop :=
  ∀ p ∈ after.values, p ∈ before.values ∨ ∃ tag value, index.tag? p.1 = some tag ∧
    p.2.find? "value" = some value ∧ WellTyped tag value

/-- The store and the model read the data types alike. -/
structure Classifies [Platform] (model : Json) (index : ModelIndex) : Prop where
  commits : ∀ (store : Store) (generation : Nat) (batch : Json) (received : UInt64) (response : Json),
    (store.ingest model generation batch received).2 = .ok response →
      CommitsTyped index store (store.ingest model generation batch received).1
  accepts : ∀ (store : Store) (generation : Nat) (batch : Json) (received : UInt64) (read : Batch),
    Admissible index generation store batch read →
      ∃ response, (store.ingest model generation batch received).2 = .ok response

/-- A type that is spelled in lower case, or one of strings. -/
def Spelled (tag : Tag) : Prop :=
  Bytes.lower tag.dataType = tag.dataType ∨ Bytes.lower tag.dataType = "string"

instance (tag : Tag) : Decidable (Spelled tag) := inferInstanceAs (Decidable (_ ∨ _))

theorem lower_mem_numericTypes {t : Bytes} (h : t ∈ numericTypes) : Bytes.lower t = t := by
  revert t
  decide

theorem fits_string {t : Bytes} (h : Bytes.lower t = "string") (value : Json) :
    Fits t value ↔ Fits "string" value := by
  have hnumeric : t ∉ numericTypes := by
    intro hmem
    rw [← lower_mem_numericTypes hmem, h] at hmem
    exact absurd hmem (by decide)
  have hboolean : ¬ (t = "boolean" ∨ t = "bool") := by
    intro hbool
    rcases hbool with rfl | rfl
    · exact absurd h (by decide)
    · exact absurd h (by decide)
  have hnumeric' : bytes "string" ∉ numericTypes := by decide
  have hboolean' : ¬ (bytes "string" = bytes "boolean" ∨ bytes "string" = bytes "bool") := by decide
  rw [Fits, Fits, if_neg hnumeric, if_neg hnumeric', if_neg hboolean, if_neg hboolean']

theorem Spelled.wellTyped {tag : Tag} (h : Spelled tag) (value : Json) :
    Fits tag.dataType value ↔ WellTyped tag value := by
  rcases h with hlower | hstring
  · rw [WellTyped, hlower]
  · rw [WellTyped, hstring]
    exact fits_string hstring value

section
variable {index : ModelIndex} {model : Json}

theorem commitsTyped_accept (hspelled : ∀ tag ∈ index.tags, Spelled tag) {store : Store}
    {generation : Nat} {batch : Json} {read : Batch} (h : Takes index generation store batch read)
    (received : UInt64) : CommitsTyped index store (store.accept read received) := by
  intro p hp
  rcases Assoc.mem_insertAll hp with hold | ⟨q, hq, rfl⟩
  · exact .inl hold
  · obtain ⟨tag, htag, hsample⟩ := h.reads.samples q hq
    obtain ⟨value, hvalue, hfits⟩ := hsample.value
    refine .inr ⟨tag, value, htag, ?_, ?_⟩
    · show (stamped received read q.2).find? "value" = some value
      rw [find?_stamped hsample.only.1]
      exact hvalue
    · exact ((hspelled tag (List.mem_of_find?_eq_some htag)).wellTyped value).mp hfits

theorem Admissible.takes (hspelled : ∀ tag ∈ index.tags, Spelled tag) {store : Store}
    {generation : Nat} {batch : Json} {read : Batch}
    (h : Admissible index generation store batch read) : Takes index generation store batch read := by
  refine ⟨⟨h.only, h.current, h.sourceId, h.identity, h.sequence, h.values, h.bounded, ?_⟩,
    h.generation, h.advances⟩
  intro p hp
  obtain ⟨tag, htag, htyped⟩ := h.samples p hp
  obtain ⟨value, hvalue, hwell⟩ := htyped.value
  have hfits := ((hspelled tag (List.mem_of_find?_eq_some htag)).wellTyped value).mpr hwell
  exact ⟨tag, htag, htyped.only, ⟨value, hvalue, hfits⟩, htyped.quality, htyped.timestamp⟩

/-! ### A type spelled otherwise -/

/-- The number of a revision, without a sign. -/
def unsigned (revision : Json) : Json := .uint (revision.getUInt64.toOption.getD 0)

theorem unsigned_eqv {revision : Json} (h : isRevision revision) :
    (unsigned revision).eqv revision = true := by
  cases revision with
  | uint n => simp [unsigned, Json.getUInt64, Json.eqv, Json.numberEqv, Except.toOption]
  | int i => simp [unsigned, Json.getUInt64, Json.eqv, Json.numberEqv, Except.toOption]
  | _ => simp [isRevision, isNonnegativeInteger] at h

def emptyText : Json :=
  .object [("value", .str []), ("quality", .str "good"), ("timestamp_ms", .uint 0)]

/-- A first batch, of an empty text for one tag. -/
def textBatch (index : ModelIndex) (tag : Tag) : Json :=
  .object [("schema_version", .str "context-hmi-telemetry/1"), ("model_id", .str index.modelId),
    ("model_revision", unsigned index.revision), ("context_generation", .uint 0),
    ("source_id", .str "a"), ("sequence", .uint 1), ("values", .object [(tag.id, emptyText)])]

theorem hasOnly_object {l : List (Bytes × Json)} {names : List Bytes}
    (h : ∀ p ∈ l, p.1 ∈ names) : hasOnly (.object l) names := by
  refine ⟨Json.isObject_object l, ?_⟩
  intro f hf
  exact h f (Json.mem_fields_object hf)

theorem isSample_emptyText {tag : Tag} (htext : Fits tag.dataType (.str [])) :
    IsSample tag emptyText where
  only := hasOnly_object (by simp)
  value := ⟨.str [], rfl, htext⟩
  quality := ⟨"good", rfl, by decide⟩
  timestamp := ⟨0, rfl⟩

theorem identity_a : validIdentity "a" = true := by decide

theorem takes_textBatch (wf : index.WellFormed) {tag : Tag} (htag : tag ∈ index.tags)
    (htext : Fits tag.dataType (.str [])) :
    Takes index 0 {} (textBatch index tag) ⟨"a", 1, [(tag.id, emptyText)]⟩ where
  reads := {
    only := hasOnly_object (by simp)
    current := {
      size := rfl
      schema := rfl
      modelId := rfl
      revision := ⟨_, rfl, rfl, unsigned_eqv wf.revision⟩
      generation := ⟨0, rfl, rfl⟩ }
    sourceId := rfl
    identity := identity_a
    sequence := rfl
    values := rfl
    bounded := ⟨by simp, by simp⟩
    samples := List.forall_mem_singleton.mpr
      ⟨tag, wf.tag?_eq_some.mpr ⟨htag, rfl⟩, isSample_emptyText htext⟩ }
  generation := rfl
  sequence := fun _ h => by cases h

theorem fits_text_iff {t : Bytes} :
    Fits t (.str []) ↔ t ∉ numericTypes ∧ ¬ (t = "boolean" ∨ t = "bool") := by
  unfold Fits
  split_ifs with hnumeric hboolean
  · simp [hnumeric, isFiniteNumber]
  · simp [hboolean, Json.isBoolean]
  · simp [hnumeric, hboolean, Json.isStringWith]

theorem eq_string_of_mem_dataTypes {t : Bytes} (h : t ∈ dataTypes) (hnumeric : t ∉ numericTypes)
    (hboolean : ¬ (t = "boolean" ∨ t = "bool")) : t = "string" := by
  revert hnumeric hboolean
  revert t
  decide

/-- A tag is spelled as it is read, where an empty text is refused unless it is of the type. -/
theorem spelled_of_wellTyped {tag : Tag} {assets : List Asset} (hvalid : tag.Valid assets)
    (h : Fits tag.dataType (.str []) → WellTyped tag (.str [])) : Spelled tag := by
  by_cases htext : Fits tag.dataType (.str [])
  · right
    obtain ⟨hnumeric, hboolean⟩ := fits_text_iff.mp (h htext)
    exact eq_string_of_mem_dataTypes hvalid.supported hnumeric hboolean
  · left
    rw [fits_text_iff, not_and_or, not_not, not_not] at htext
    rcases htext with hnumeric | hboolean | hbool
    · exact lower_mem_numericTypes hnumeric
    · rw [hboolean]
      decide
    · rw [hbool]
      decide

variable [Platform]

theorem commits_textBatch (hindex : indexModel model = .ok index) {tag : Tag}
    (htag : tag ∈ index.tags) (htext : Fits tag.dataType (.str []))
    (h : Classifies model index) : WellTyped tag (.str []) := by
  have wf := indexModel_wellFormed hindex
  have htakes := takes_textBatch wf htag htext
  have hingest : Store.ingest {} model 0 (textBatch index tag) 0 =
      (Store.accept {} _ 0, .ok _) := ingest_accepted hindex htakes
  have hcommits := h.commits {} 0 (textBatch index tag) 0 _ (congrArg Prod.snd hingest)
  rw [hingest] at hcommits
  rcases hcommits _ (List.mem_singleton_self _) with hold | ⟨tag', value, htag', hvalue, hwell⟩
  · cases hold
  · rw [wf.tag?_eq_some.mpr ⟨htag, rfl⟩] at htag'
    cases htag'
    cases hvalue
    exact hwell

theorem spelled_of_classifies (hindex : indexModel model = .ok index) (h : Classifies model index) :
    ∀ tag ∈ index.tags, Spelled tag := by
  intro tag htag
  have hvalid := (indexModel_wellFormed hindex).tags tag htag
  exact spelled_of_wellTyped hvalid fun htext => commits_textBatch hindex htag htext h

/-- **Samples follow the declared types** exactly where every type is spelled in lower case, or is
one of strings. -/
theorem ingest_classifies_iff (hindex : indexModel model = .ok index) :
    Classifies model index ↔ ∀ tag ∈ index.tags, Spelled tag := by
  constructor
  · exact spelled_of_classifies hindex
  · intro hspelled
    refine ⟨?_, ?_⟩
    · intro store generation batch received response hresponse
      obtain ⟨read, hread⟩ := (ingest_isOk_iff hindex).mp ⟨response, hresponse⟩
      rw [ingest_accepted hindex hread]
      exact commitsTyped_accept hspelled hread received
    · intro store generation batch received read hread
      exact (ingest_isOk_iff hindex).mpr ⟨read, hread.takes hspelled⟩

end

section
local instance typedPlatform : Platform := samplePlatform

/-- A level whose type is written `Number`. -/
def capitalized : Json :=
  samplePlant 1 [(sampleTag "level" "m").setField "data_type" (.str "Number")] []

theorem ingest_classifies_iff_sample :
    indexModel (sampleModel 1 (.int 80)) = .ok (indexOf (sampleModel 1 (.int 80))) ∧
      Classifies (sampleModel 1 (.int 80)) (indexOf (sampleModel 1 (.int 80))) := by
  have hindex : indexModel (sampleModel 1 (.int 80)) = .ok (indexOf (sampleModel 1 (.int 80))) :=
    indexModel_eq (by decide +kernel)
  exact ⟨hindex, (ingest_classifies_iff hindex).mpr (by decide +kernel)⟩

theorem not_classifies_capitalized :
    indexModel capitalized = .ok (indexOf capitalized) ∧
      ¬ Classifies capitalized (indexOf capitalized) := by
  have hindex : indexModel capitalized = .ok (indexOf capitalized) :=
    indexModel_eq (by decide +kernel)
  have hspelled : ¬ ∀ tag ∈ (indexOf capitalized).tags, Spelled tag := by decide +kernel
  exact ⟨hindex, fun h => hspelled (spelled_of_classifies hindex h)⟩

end

/-! ### Refusals -/

/-- The batch has the seven members, and its schema version is not a string. -/
def Unreadable (batch : Json) : Prop :=
  hasOnly batch ["schema_version", "model_id", "model_revision", "context_generation",
    "source_id", "sequence", "values"] ∧ batch.size = 7 ∧ ¬ Strings batch ["schema_version"]

/-- A domain error of the store, which is answered as a conflict or as an unprocessable request. -/
def IsRefusal : Error → Prop
  | .domain code _ => code ∈ [bytes "stale_context", "invalid_telemetry", "telemetry_out_of_order"] ∧
      (Execution.domainStatus code = 409 ∨ Execution.domainStatus code = 422)
  | _ => False

theorem isRefusal_invalid (details : Bytes) : IsRefusal (invalidTelemetry details) := by
  show _ ∧ _
  decide

theorem isRefusal_stale (details : Bytes) : IsRefusal (staleContext details) := by
  show _ ∧ _
  decide

theorem isRefusal_outOfOrder (details : Bytes) :
    IsRefusal (.domain "telemetry_out_of_order" details) := by
  show _ ∧ _
  decide

theorem throws_requireFields (object : Json) (allowed : List Bytes) (location : Bytes) :
    Throws IsRefusal (requireFields object allowed location) := by
  unfold requireFields
  apply throws_bind (throws_throwIf (isRefusal_invalid _))
  intro _ _
  split
  · exact throws_error (isRefusal_invalid _)
  · exact throws_ok _

theorem throws_checkType (dataType location : Bytes) (value : Json) :
    Throws IsRefusal (checkType dataType location value) := by
  unfold checkType
  split_ifs
  all_goals exact throws_throwIf (isRefusal_invalid _)

theorem throws_validateValue (sample : Json) (tag : Tag) (location : Bytes) :
    Throws IsRefusal (validateValue sample tag location) := by
  unfold validateValue
  apply throws_bind (throws_requireFields _ _ _)
  intro _ _
  split
  · apply throws_bind (throws_throwIf (isRefusal_invalid _))
    intro _ _
    apply throws_bind (throws_throwIf (isRefusal_invalid _))
    intro _ _
    apply throws_bind (throws_throwIf (isRefusal_invalid _))
    intro _ _
    exact throws_checkType _ _ _
  · exact throws_error (isRefusal_invalid _)

theorem throws_validateValues (index : ModelIndex) (values : List (Bytes × Json)) :
    Throws IsRefusal (validateValues index values) := by
  induction values with
  | nil => exact throws_ok ()
  | cons p values ih =>
    unfold validateValues
    split
    · exact throws_error (isRefusal_invalid _)
    · exact throws_bind (throws_validateValue _ _ _) fun _ _ => ih

theorem not_isRefusal_of_not_isDomain {e : Error} (h : ¬ e.IsDomain) : ¬ IsRefusal e := by
  cases e with
  | domain code details => exact absurd trivial h
  | _ => exact not_false

theorem throws_isCurrent_iff {index : ModelIndex} {generation : Nat} {batch : Json} :
    Throws IsRefusal (isCurrent index generation batch) ↔
      (batch.size = 7 → Strings batch ["schema_version"]) := by
  unfold isCurrent
  split_ifs with hsize
  · exact iff_of_true (throws_ok _) fun h => absurd h hsize
  · rw [not_not] at hsize
    rw [throws_bind_iff_of_not fun e he => not_isRefusal_of_not_isDomain (valueString_faults _ _ _ e he),
      ← valueString_isOk_iff (d := [])]
    constructor
    · intro ⟨schema, hschema, _⟩ _
      exact ⟨schema, hschema⟩
    · intro h
      obtain ⟨schema, hschema⟩ := h hsize
      exact ⟨schema, hschema, throws_pure _⟩

/-- Behind the identity of a batch, everything is refused with a domain error. -/
theorem throws_readBatch {index : ModelIndex} {generation maximumValues : Nat} {batch : Json}
    (h : hasOnly batch ["schema_version", "model_id", "model_revision", "context_generation",
      "source_id", "sequence", "values"] → Throws IsRefusal (isCurrent index generation batch)) :
    Throws IsRefusal (readBatch index generation maximumValues batch) := by
  unfold readBatch
  apply throws_bind (throws_requireFields _ _ _)
  intro _ honly
  apply throws_bind (h (requireFields_eq_ok.mp honly))
  intro _ _
  apply throws_bind (throws_throwIf (isRefusal_stale _))
  intro _ _
  split
  · apply throws_bind (throws_throwIf (isRefusal_invalid _))
    intro _ _
    split
    · split
      · apply throws_bind (throws_throwIf (isRefusal_invalid _))
        intro _ _
        exact throws_bind (throws_validateValues _ _) fun _ _ => throws_pure _
      · exact throws_error (isRefusal_invalid _)
    · exact throws_error (isRefusal_invalid _)
  · exact throws_error (isRefusal_invalid _)

theorem readBatch_unreadable {index : ModelIndex} {generation maximumValues : Nat} {batch : Json}
    (h : Unreadable batch) :
    ¬ Throws IsRefusal (readBatch index generation maximumValues batch) := by
  have hcurrent : ¬ Throws IsRefusal (isCurrent index generation batch) :=
    fun hthrows => h.2.2 (throws_isCurrent_iff.mp hthrows h.2.1)
  have honly : requireFields batch ["schema_version", "model_id", "model_revision",
      "context_generation", "source_id", "sequence", "values"] "telemetry" = .ok () :=
    requireFields_eq_ok.mpr h.1
  intro hread
  apply hcurrent
  intro e he
  apply hread e
  rw [readBatch, honly, ok_bind, he]
  rfl

section
variable [Platform] {index : ModelIndex} {model : Json}

/-- **A refused batch is a domain error** exactly where its schema version can be read as a
string, for a batch of the seven members. -/
theorem ingest_refuses_iff (hindex : indexModel model = .ok index) (store : Store)
    (generation : Nat) (batch : Json) (received : UInt64) :
    Throws IsRefusal (store.ingest model generation batch received).2 ↔ ¬ Unreadable batch := by
  have hread : Throws IsRefusal (readBatch index generation store.maximumValuesPerBatch batch) ↔
      ¬ Unreadable batch := by
    refine ⟨fun h hbatch => readBatch_unreadable hbatch h, fun h => throws_readBatch fun honly => ?_⟩
    rw [throws_isCurrent_iff]
    intro hsize
    by_contra hstrings
    exact h ⟨honly, hsize, hstrings⟩
  rw [← hread]
  unfold Store.ingest
  rw [readFor_eq hindex]
  cases hbatch : readBatch index generation store.maximumValuesPerBatch batch with
  | error e => exact ⟨fun h => throws_error (h e rfl), fun h => throws_error (h e rfl)⟩
  | ok read =>
    refine iff_of_true ?_ (throws_ok read)
    simp only [commit_eq (readBatch_eq_ok.mp hbatch)]
    have hcheck : Throws IsRefusal (checkSequence store generation read) := by
      apply throws_bind (throws_throwIf (isRefusal_stale _))
      intro _ _
      exact throws_throwIf (isRefusal_outOfOrder _)
    cases hsequence : checkSequence store generation read with
    | error e => exact throws_error (hcheck e hsequence)
    | ok u => exact throws_ok _

end

section
local instance refusedPlatform : Platform := samplePlatform

/-- A batch whose schema version is a number. -/
def numberedBatch : Json :=
  .object [("schema_version", .uint 1), ("model_id", .null), ("model_revision", .null),
    ("context_generation", .null), ("source_id", .null), ("sequence", .null), ("values", .null)]

theorem ingest_refuses_iff_sample :
    Throws IsRefusal (Store.ingest {} (sampleModel 1 (.int 80)) 0 (.object []) 7).2 := by
  have hindex : indexModel (sampleModel 1 (.int 80)) = .ok (indexOf (sampleModel 1 (.int 80))) :=
    indexModel_eq (by decide +kernel)
  refine (ingest_refuses_iff hindex {} 0 (.object []) 7).mpr fun h => ?_
  exact absurd h.2.1 (by decide)

theorem not_ingest_refuses_numberedBatch :
    (indexModel (sampleModel 1 (.int 80))).toOption.isSome = true ∧ numberedBatch.isObject = true ∧
      (Store.ingest {} (sampleModel 1 (.int 80)) 0 numberedBatch 7).2 = .error (.json .type) ∧
      ¬ IsRefusal (.json .type) :=
  ⟨by decide +kernel, by decide +kernel, eq_error_of_throwsWith (by decide +kernel), not_false⟩

end

end ContextHmi.Telemetry
