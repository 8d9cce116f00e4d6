import ContextHmi.Json.Permuted
import ContextHmi.Telemetry.Freshness

/-!
# Runs of the telemetry store

Any calls of `reconfigure` and `ingest`, beside a reference that only notes which batches were accepted.
A snapshot shows of a tag what the last batch noted since the last `reconfigure` says of it.

* `Tracks.step`   : what a call leaves of a store and its reference;
* `store_refines` : a store and its reference after any calls.
-/

namespace ContextHmi.Telemetry

open Outcome

/-! ### Calls and what is noted of them -/

/-- A call on a store; what the clock says is an argument. -/
inductive Call where
  | reconfigure (generation : Nat)
  | ingest (generation : Nat) (batch : Json) (received : UInt64)

/-- The generation of the last `reconfigure`, the batches accepted since, all those accepted, the last
one first, and the number of those refused. -/
structure Reference where
  generation : Nat
  since : List Json
  accepted : List Json
  refused : Nat

/-- A new store is one of generation zero. -/
def Reference.new : Reference := ⟨0, [], [], 0⟩

def Reference.configures (r : Reference) (generation : Nat) : Reference :=
  { r with generation := generation, since := [] }

def Reference.accepts (r : Reference) (batch : Json) : Reference :=
  { r with since := batch :: r.since, accepted := batch :: r.accepted }

def Reference.refuses (r : Reference) : Reference := { r with refused := r.refused + 1 }

/-- What a batch says of a tag. -/
def sampleOf (batch : Json) (id : Bytes) : Option Json :=
  (batch.find? "values").bind fun values => values.find? id

/-- The number of values of a batch. -/
def batchSize (batch : Json) : Nat := ((batch.find? "values").map Json.size).getD 0

/-- The last of some batches that says something of a tag. -/
def lastWith (id : Bytes) (batches : List Json) : Option Json :=
  batches.find? fun batch => (sampleOf batch id).isSome

/-- The last batch that was accepted for the generation with something of a tag. -/
def Reference.last (r : Reference) (generation : Nat) (id : Bytes) : Option Json :=
  if r.generation = generation then lastWith id r.since else none

/-- The sequence of a source's batch is past that of an earlier one. -/
def Advances (later earlier : Json) : Prop :=
  ∀ source n m, later.find? "source_id" = some (.str source) →
    earlier.find? "source_id" = some (.str source) → later.find? "sequence" = some (.uint n) →
    earlier.find? "sequence" = some (.uint m) → m < n

section
variable [Platform]

/-- A call, and what is noted of it; `models` says which model is active in which generation. -/
def step (models : Nat → Json) (p : Store × Reference) : Call → Store × Reference
  | .reconfigure generation => (p.1.reconfigure generation, p.2.configures generation)
  | .ingest generation batch received =>
    match p.1.ingest (models generation) generation batch received with
    | (store, .ok _) => (store, p.2.accepts batch)
    | (store, .error _) => (store, p.2.refuses)

/-- A new store after some calls. -/
def runOf (models : Nat → Json) (staleAfterMs : UInt64) (maximumValues : Nat) (calls : List Call) :
    Store × Reference :=
  calls.foldl (step models)
    ({ staleAfterMs := staleAfterMs, maximumValuesPerBatch := maximumValues }, .new)

end

/-- The call asks for a batch to be stored. -/
def Call.isIngest : Call → Bool
  | .reconfigure _ => false
  | .ingest _ _ _ => true

/-- The batch of a call is a value of the JSON library. -/
def Call.Canonical : Call → Prop
  | .reconfigure _ => True
  | .ingest _ batch _ => batch.Canonical

/-! ### What a store holds -/

/-- What is stored of a tag is what the batch says of it. -/
structure IsStored (id : Bytes) (batch stored : Json) : Prop where
  isObject : stored.isObject = true
  sample : ∃ sample, sampleOf batch id = some sample ∧
    stored.find? "value" = sample.find? "value" ∧ stored.find? "quality" = sample.find? "quality"
  sourceId : stored.find? "source_id" = batch.find? "source_id"
  sequence : stored.find? "sequence" = batch.find? "sequence"

/-- A stored value and the batch it comes from, or neither. -/
def StoredAs (id : Bytes) : Option Json → Option Json → Prop
  | some stored, some batch => IsStored id batch stored
  | none, none => True
  | _, _ => False

/-- A store holds what its reference has noted. -/
structure Tracks (store : Store) (r : Reference) : Prop where
  generation : store.contextGeneration = r.generation
  values : ∀ id, StoredAs id (Assoc.find? id store.values) (lastWith id r.since)
  sequences : ∀ batch ∈ r.since, ∀ source n, batch.find? "source_id" = some (.str source) →
    batch.find? "sequence" = some (.uint n) →
      ∃ previous, Assoc.find? source store.sourceSequences = some previous ∧ n ≤ previous
  advances : r.since.Pairwise Advances
  accepted : store.acceptedBatches = UInt64.ofNat r.accepted.length
  refused : store.rejectedBatches = UInt64.ofNat r.refused
  size : store.acceptedValues = UInt64.ofNat (r.accepted.map batchSize).sum

section
variable {store : Store} {r : Reference}

theorem tracks_new (staleAfterMs : UInt64) (maximumValues : Nat) :
    Tracks { staleAfterMs := staleAfterMs, maximumValuesPerBatch := maximumValues } .new :=
  ⟨rfl, fun _ => trivial, List.forall_mem_nil _, .nil, rfl, rfl, rfl⟩

theorem Tracks.reconfigure (h : Tracks store r) (generation : Nat) :
    Tracks (store.reconfigure generation) (r.configures generation) :=
  ⟨rfl, fun _ => trivial, List.forall_mem_nil _, .nil, h.accepted, h.refused, h.size⟩

theorem Tracks.reject (h : Tracks store r) : Tracks store.reject r.refuses := by
  refine ⟨h.generation, h.values, h.sequences, h.advances, h.accepted, ?_, h.size⟩
  show store.rejectedBatches + 1 = UInt64.ofNat (r.refused + 1)
  rw [h.refused, UInt64.ofNat_add]
  rfl

variable {index : ModelIndex} {generation : Nat} {batch : Json} {read : Batch}

theorem isStored_stamped (hreads : Reads index generation store.maximumValuesPerBatch batch read)
    {id : Bytes} {sample : Json} (hsample : Assoc.find? id read.values = some sample)
    (received : UInt64) : IsStored id batch (stamped received read sample) := by
  have hobject : sample.isObject = true := hreads.samples.isObject _ (Assoc.find?_mem hsample)
  refine ⟨Json.isObject_setFields hobject _, ⟨sample, ?_, ?_, ?_⟩, ?_, ?_⟩
  · rw [sampleOf, hreads.values]
    exact hsample
  · rw [find?_stamped hobject]
    rfl
  · rw [find?_stamped hobject]
    rfl
  · rw [find?_stamped hobject, hreads.sourceId]
    rfl
  · rw [find?_stamped hobject, hreads.sequence]
    rfl

/-- **A batch that the store takes is the last one.** -/
theorem Tracks.accept (h : Tracks store r) (hbatch : batch.Canonical)
    (htakes : Takes index generation store batch read) (received : UInt64) :
    Tracks (store.accept read received) (r.accepts batch) := by
  have hreads := htakes.reads
  have hkeys : (read.values.map Prod.fst).Nodup :=
    Assoc.nodup_of_sorted (hbatch.find? hreads.values).ordered
  have hsource : ∀ source, batch.find? "source_id" = some (.str source) → source = read.sourceId := by
    intro source hsource
    rw [hreads.sourceId] at hsource
    exact (Json.str.inj (Option.some.inj hsource)).symm
  have hsequence : ∀ n, batch.find? "sequence" = some (.uint n) → n = read.sequence := by
    intro n hn
    rw [hreads.sequence] at hn
    exact (Json.uint.inj (Option.some.inj hn)).symm
  refine ⟨h.generation, ?_, ?_, ?_, ?_, h.refused, ?_⟩
  · intro id
    show StoredAs id (Assoc.find? id (Assoc.insertAll _ read.values store.values))
      (lastWith id (batch :: r.since))
    have hsample : sampleOf batch id = Assoc.find? id read.values := by
      rw [sampleOf, hreads.values]
      rfl
    rw [Assoc.find?_insertAll _ hkeys, lastWith, List.find?_cons, hsample]
    cases hfind : Assoc.find? id read.values with
    | none => exact h.values id
    | some sample => exact isStored_stamped hreads hfind received
  · intro b hb source n hbsource hbn
    show ∃ previous, Assoc.find? source (Assoc.insert read.sourceId read.sequence
      store.sourceSequences) = some previous ∧ n ≤ previous
    rcases List.mem_cons.mp hb with rfl | hb
    · rw [hsource source hbsource, hsequence n hbn]
      exact ⟨_, Assoc.find?_insert_self _ _ _, UInt64.le_refl _⟩
    · obtain ⟨previous, hprevious, hle⟩ := h.sequences b hb source n hbsource hbn
      by_cases hsame : source = read.sourceId
      · subst hsame
        exact ⟨_, Assoc.find?_insert_self _ _ _,
          UInt64.le_of_lt (UInt64.lt_of_le_of_lt hle (htakes.sequence previous hprevious))⟩
      · refine ⟨previous, ?_, hle⟩
        rw [Assoc.find?_insert_ne (Ne.symm hsame), hprevious]
  · refine List.pairwise_cons.mpr ⟨?_, h.advances⟩
    intro b hb source n m hlater hearlier hn hm
    obtain ⟨previous, hprevious, hle⟩ := h.sequences b hb source m hearlier hm
    rw [hsource source hlater] at hprevious
    rw [hsequence n hn]
    exact UInt64.lt_of_le_of_lt hle (htakes.sequence previous hprevious)
  · show store.acceptedBatches + 1 = UInt64.ofNat (r.accepted.length + 1)
    rw [h.accepted, UInt64.ofNat_add]
    rfl
  · have hsize : batchSize batch = read.values.length := by
      rw [batchSize, hreads.values]
      rfl
    show store.acceptedValues + UInt64.ofNat read.values.length =
      UInt64.ofNat (batchSize batch + (r.accepted.map batchSize).sum)
    rw [h.size, hsize, UInt64.ofNat_add, UInt64.add_comm]

end

/-! ### Runs -/

section
variable [Platform] {models : Nat → Json} {store : Store} {r : Reference}

/-- **What a call leaves of a store and its reference.** -/
theorem Tracks.step (h : Tracks store r) (hmodels : ∀ g, ∃ index, indexModel (models g) = .ok index)
    {call : Call} (hcall : call.Canonical) :
    Tracks (Telemetry.step models (store, r) call).1 (Telemetry.step models (store, r) call).2 := by
  cases call with
  | reconfigure generation => exact h.reconfigure generation
  | ingest generation batch received =>
    obtain ⟨index, hindex⟩ := hmodels generation
    by_cases htakes : ∃ read, Takes index generation store batch read
    · obtain ⟨read, htakes⟩ := htakes
      simp only [Telemetry.step, ingest_accepted hindex htakes]
      exact h.accept hcall htakes received
    · obtain ⟨e, he⟩ := ingest_rejected hindex htakes received
      simp only [Telemetry.step, he]
      exact h.reject

theorem Tracks.run (h : Tracks store r) (hmodels : ∀ g, ∃ index, indexModel (models g) = .ok index)
    {calls : List Call} (hcalls : ∀ call ∈ calls, call.Canonical) :
    Tracks (calls.foldl (Telemetry.step models) (store, r)).1
      (calls.foldl (Telemetry.step models) (store, r)).2 := by
  induction calls generalizing store r with
  | nil => exact h
  | cons call calls ih =>
    rw [List.forall_mem_cons] at hcalls
    exact ih (h.step hmodels hcalls.1) hcalls.2

theorem length_accepted (models : Nat → Json) (p : Store × Reference) (calls : List Call) :
    (calls.foldl (Telemetry.step models) p).2.accepted.length +
        (calls.foldl (Telemetry.step models) p).2.refused =
      p.2.accepted.length + p.2.refused + calls.countP Call.isIngest := by
  induction calls generalizing p with
  | nil => rfl
  | cons call calls ih =>
    rw [List.foldl_cons, ih, List.countP_cons]
    cases call with
    | reconfigure generation => rfl
    | ingest generation batch received =>
      simp only [Telemetry.step, Call.isIngest, if_true]
      split
      · simp only [Reference.accepts, List.length_cons]
        omega
      · simp only [Reference.refuses]
        omega

end

/-! ### Snapshots -/

/-- What a snapshot shows of a tag, from the last batch that says something of it. -/
def Shows (tag : Tag) (entry : Json) : Option Json → Prop
  | none => entry = unknownSample tag
  | some batch => ∃ sample, sampleOf batch tag.id = some sample ∧
      entry.find? "value" = sample.find? "value" ∧
      (entry.find? "quality" = sample.find? "quality" ∨
        sample.find? "quality" = some (.str "good") ∧ entry.find? "quality" = some (.str "stale")) ∧
      entry.find? "source_id" = batch.find? "source_id" ∧
      entry.find? "sequence" = batch.find? "sequence"

theorem find?_shownSample (store : Store) (now : UInt64) (tag : Tag) (stored : Json) {k : Bytes}
    (hage : bytes "age_ms" ≠ k) (hunit : bytes "unit" ≠ k) (hquality : bytes "quality" ≠ k) :
    (shownSample store now tag stored).find? k = stored.find? k := by
  unfold shownSample
  simp only
  split_ifs
  · rw [Json.find?_setField_ne _ hquality, Json.find?_setField_ne _ hunit,
      Json.find?_setField_ne _ hage]
  · rw [Json.find?_setField_ne _ hunit, Json.find?_setField_ne _ hage]

theorem quality_shownSample (store : Store) (now : UInt64) (tag : Tag) {stored : Json}
    (hstored : stored.isObject = true) :
    (shownSample store now tag stored).find? "quality" = stored.find? "quality" ∨
      stored.find? "quality" = some (.str "good") ∧
        (shownSample store now tag stored).find? "quality" = some (.str "stale") := by
  have hage : bytes "age_ms" ≠ "quality" := by decide
  have hunit : bytes "unit" ≠ "quality" := by decide
  have haged : (((stored.setField "age_ms" (.uint (ageOf now stored))).setField "unit"
      (.str tag.unit)).find? "quality") = stored.find? "quality" := by
    rw [Json.find?_setField_ne _ hunit, Json.find?_setField_ne _ hage]
  unfold shownSample
  simp only
  split_ifs with hold
  · right
    have hgood := hold.2
    rw [qualityOf, haged] at hgood
    refine ⟨?_, ?_⟩
    · split at hgood
      · rename_i quality hquality
        rw [hquality, hgood]
      · exact absurd hgood (by decide)
    · rw [Json.find?_setField (Json.isObject_setField (Json.isObject_setField hstored _ _) _ _),
        if_pos rfl]
  · left
    exact haged

theorem shows_of_isStored (store : Store) (now : UInt64) (tag : Tag) {batch stored : Json}
    (h : IsStored tag.id batch stored) :
    Shows tag (shownSample store now tag stored) (some batch) := by
  obtain ⟨sample, hsample, hvalue, hquality⟩ := h.sample
  refine ⟨sample, hsample, ?_, ?_, ?_, ?_⟩
  · rw [← hvalue]
    exact find?_shownSample store now tag stored (by decide) (by decide) (by decide)
  · rw [← hquality]
    exact quality_shownSample store now tag h.isObject
  · rw [← h.sourceId]
    exact find?_shownSample store now tag stored (by decide) (by decide) (by decide)
  · rw [← h.sequence]
    exact find?_shownSample store now tag stored (by decide) (by decide) (by decide)

section
variable {store : Store} {r : Reference}

/-- **What an entry shows.** -/
theorem Tracks.shows (h : Tracks store r) (generation : Nat) (now : UInt64) (tag : Tag) :
    Shows tag (entryOf store generation now tag) (r.last generation tag.id) := by
  rw [entryOf_eq, currentSample, Reference.last, h.generation]
  by_cases hgeneration : r.generation = generation
  · rw [if_pos hgeneration, if_pos hgeneration]
    have hstored := h.values tag.id
    cases hlast : lastWith tag.id r.since with
    | none =>
      cases hfind : Assoc.find? tag.id store.values with
      | none => rfl
      | some stored =>
        rw [hlast, hfind] at hstored
        exact hstored.elim
    | some batch =>
      cases hfind : Assoc.find? tag.id store.values with
      | none =>
        rw [hlast, hfind] at hstored
        exact hstored.elim
      | some stored =>
        rw [hlast, hfind] at hstored
        exact shows_of_isStored store now tag hstored
  · rw [if_neg hgeneration, if_neg hgeneration]
    rfl

end

section
variable [Platform]

/-- A store after some calls agrees with its reference. -/
structure Agrees (models : Nat → Json) (calls : List Call) (store : Store) (r : Reference) : Prop where
  snapshots : ∀ generation index, indexModel (models generation) = .ok index → ∀ sessionId now,
    ∃ snapshot, store.snapshot (models generation) generation sessionId now = .ok snapshot ∧
      ∀ tag ∈ index.tags, ∃ entry, shownOf snapshot tag.id = some entry ∧
        Shows tag entry (r.last generation tag.id)
  sequences : r.since.Pairwise Advances
  refusals : ∀ generation batch received store' e,
    store.ingest (models generation) generation batch received = (store', .error e) →
      store' = store.reject
  batches : store.acceptedBatches + store.rejectedBatches = UInt64.ofNat (calls.countP Call.isIngest)
  values : store.acceptedValues = UInt64.ofNat (r.accepted.map batchSize).sum

/-- **A store after any calls is what its reference says.** Its snapshots show the last batches accepted
since the last `reconfigure`, and those of a source have growing sequences; a batch that is refused
changes the count of refusals and nothing else. -/
theorem store_refines {models : Nat → Json}
    (hmodels : ∀ generation, ∃ summary, validateModel (models generation) = .ok summary)
    {calls : List Call} (hcalls : ∀ call ∈ calls, call.Canonical) (staleAfterMs : UInt64)
    (maximumValues : Nat) :
    Agrees models calls (runOf models staleAfterMs maximumValues calls).1
      (runOf models staleAfterMs maximumValues calls).2 := by
  have hindices : ∀ generation, ∃ index, indexModel (models generation) = .ok index := by
    intro generation
    obtain ⟨summary, hsummary⟩ := hmodels generation
    rw [validateModel, bind_eq_ok] at hsummary
    obtain ⟨index, hindex, -⟩ := hsummary
    exact ⟨index, hindex⟩
  have htracks : Tracks (runOf models staleAfterMs maximumValues calls).1
      (runOf models staleAfterMs maximumValues calls).2 :=
    (tracks_new staleAfterMs maximumValues).run hindices hcalls
  have hcount := length_accepted models
    ({ staleAfterMs := staleAfterMs, maximumValuesPerBatch := maximumValues }, .new) calls
  refine ⟨?_, htracks.advances, ?_, ?_, htracks.size⟩
  · intro generation index hindex sessionId now
    have wf := indexModel_wellFormed hindex
    obtain ⟨alarms, hsnapshot⟩ := snapshot_eq hindex (runOf models staleAfterMs maximumValues calls).1
      generation sessionId now
    refine ⟨_, hsnapshot, ?_⟩
    intro tag htag
    exact ⟨_, shownOf_snapshotJson wf htag sessionId alarms, htracks.shows generation now tag⟩
  · intro generation batch received store' e hingest
    obtain ⟨index, hindex⟩ := hindices generation
    by_cases htakes : ∃ read, Takes index generation
        (runOf models staleAfterMs maximumValues calls).1 batch read
    · obtain ⟨read, htakes⟩ := htakes
      rw [ingest_accepted hindex htakes] at hingest
      cases (Prod.mk.inj hingest).2
    · obtain ⟨e', he'⟩ := ingest_rejected hindex htakes received
      rw [he'] at hingest
      exact (Prod.mk.inj hingest).1.symm
  · rw [htracks.accepted, htracks.refused, ← UInt64.ofNat_add]
    exact congrArg UInt64.ofNat (hcount.trans (Nat.zero_add _))

end

section
local instance runsPlatform : Platform := samplePlatform

/-- A level from the line. -/
def levelBatch : Json := .object [("schema_version", .str "context-hmi-telemetry/1"),
  ("model_id", .str "plant"), ("model_revision", .uint 1), ("context_generation", .uint 1),
  ("source_id", .str "line"), ("sequence", .uint 1), ("values", .object [("level",
    .object [("value", .float 3), ("quality", .str "good"), ("timestamp_ms", .uint 4900)])])]

theorem levelBatch_canonical : levelBatch.Canonical := by
  apply Json.canonical_object
  simp only [List.forall_mem_cons, List.not_mem_nil, false_implies, implies_true, and_true]
  refine ⟨.str _, .str _, .uint _, .uint _, .str _, .uint _, Json.canonical_object ?_⟩
  simp only [List.forall_mem_cons, List.not_mem_nil, false_implies, implies_true, and_true]
  apply Json.canonical_object
  simp [Json.Canonical.float, Json.Canonical.str, Json.Canonical.uint]

/-- A batch that is accepted, the same again, and a `reconfigure`. -/
def levelCalls : List Call :=
  [.reconfigure 1, .ingest 1 levelBatch 5000, .ingest 1 levelBatch 5100, .reconfigure 2]

theorem store_refines_sample :
    Agrees (fun _ => sampleModel 1 (.int 80)) levelCalls
      (runOf (fun _ => sampleModel 1 (.int 80)) 3000 512 levelCalls).1
      (runOf (fun _ => sampleModel 1 (.int 80)) 3000 512 levelCalls).2 := by
  refine store_refines ?_ ?_ 3000 512
  · intro generation
    have hvalid : (validateModel (sampleModel 1 (.int 80))).toOption.any (fun _ => true) = true := by
      decide +kernel
    obtain ⟨summary, hsummary, -⟩ := exists_ok_of_any _ hvalid
    exact ⟨summary, hsummary⟩
  · intro call hcall
    simp only [levelCalls, List.mem_cons, List.not_mem_nil, or_false] at hcall
    rcases hcall with rfl | rfl | rfl | rfl
    · trivial
    · exact levelBatch_canonical
    · exact levelBatch_canonical
    · trivial

end

end ContextHmi.Telemetry
