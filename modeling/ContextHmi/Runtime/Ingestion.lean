import ContextHmi.Library.Interleave
import ContextHmi.Runtime.Generations
import ContextHmi.Runtime.Lifecycle
import ContextHmi.Runtime.Requests
import ContextHmi.Telemetry.Runs

/-!
# Telemetry while the model changes

`Runtime::ingest_telemetry`, `Runtime::telemetry`, `Runtime::readiness` and `apply_model_change`, as
sections over the active model, the telemetry store and the lifecycle of the source. A model change
takes the next generation first and empties the store later, and a batch may be stored in between.

* `Sound.step`         : what a section keeps of the store's history;
* `telemetry_isolated` : a value shown for a generation is one of a batch of that generation;
* `source_honest`      : a source that is ready has data, unless a model change has overtaken it.
-/

namespace ContextHmi.Runtime.Ingestion

open Outcome Interleave Lifecycle Telemetry

/-! ### Sections -/

/-- A request body. -/
structure Posted where
  json : Json
  canonical : json.Canonical

section
variable [Platform]

/-- A batch the store has taken; `ticket` tells the calls apart. -/
structure Commit where
  ticket : Nat
  snapshot : Snapshot
  batch : Json

/-- How far the model change is that holds `model_change_mutex_`. -/
inductive Progress where
  | idle
  | bumped (generation : Nat)
  | reconfigured
  deriving DecidableEq

/-- What the calls share. `offered`, the snapshots the batches were offered for, by ticket, and `origins`,
the batches the stored values are from, are history. -/
structure Shared where
  generations : Generations
  change : Progress
  store : Store
  source : Machine
  offered : List Snapshot
  origins : List (Bytes × Commit)

/-- Where a call is. -/
inductive Thread where
  | ingest (batch : Posted)
  | reading (ticket : Nat) (snapshot : Snapshot) (batch : Posted)
  | rejecting (ticket : Nat) (snapshot : Snapshot) (e : Error)
  | stored (ticket : Nat) (snapshot : Snapshot) (response : Json)
  | current (ticket : Nat) (snapshot : Snapshot) (response : Json)
  | accepted (ticket : Nat) (snapshot : Snapshot) (response : Json)
  | refused (ticket : Nat) (snapshot : Snapshot) (e : Error)
  | telemetry
  | showing (snapshot : Snapshot)
  /-- What is shown, and the batches its values are from. -/
  | shown (snapshot : Snapshot) (result : Json) (origins : List (Bytes × Commit))
  | readiness
  | judging (generation : Nat)
  | judged (generation : Nat) (ready : Bool)
  | answered (ready : Bool)
  | change (cause : Cause) (candidate : AcceptedModel)
  /-- The model change that holds the mutex. -/
  | changing
  | changed
  | failed (e : Error)
  | faulted (fault : Fault)

/-- What a section reads from outside: the clock, whether the provider's transition throws, and whether
a saved view throws something else than a `DomainError` when it is reconciled. -/
structure Outside where
  clock : UInt64
  provider : Option Fault
  views : Option Error

def sourceState (ready : Bool) : State := if ready then .ready else .degraded

def sourceReason (ready : Bool) : Bytes :=
  if ready then "current data received" else "waiting for current telemetry"

/-- The transition of the source, and where the call is behind it. -/
def moveSource (s : Shared) (next : State) (reason : Bytes) (t : Thread) : Shared × Thread :=
  match s.source.transition next reason with
  | .error fault => (s, .faulted fault)
  | .ok m => ({ s with source := m }, t)

/-- `Store::ingest` up to where it returns, or to its `catch (...)`. -/
def takeBatch (s : Shared) (ticket : Nat) (snapshot : Snapshot) (batch : Json) (clock : UInt64) :
    Shared × Thread :=
  match readFor snapshot.model.json snapshot.generation s.store.maximumValuesPerBatch batch with
  | .error e => (s, .rejecting ticket snapshot e)
  | .ok read => match s.store.commit snapshot.generation read clock with
    | (store, .error e) => ({ s with store := store }, .rejecting ticket snapshot e)
    | (store, .ok response) =>
      ({ s with
          store := store
          origins := Assoc.insertAll (fun _ => ⟨ticket, snapshot, batch⟩) read.values s.origins },
        .stored ticket snapshot response)

/-- The part of `apply_model_change` under `model_mutex_`. -/
def bump (s : Shared) (cause : Cause) (candidate : AcceptedModel) (views : Option Error) :
    Shared × Thread :=
  match s.generations.checkChange cause candidate, views with
  | .error e, _ => (s, .failed e)
  | .ok (), some e => (s, .failed e)
  | .ok (), none =>
    ({ s with
        generations := s.generations.advance candidate
        change := .bumped (s.generations.active.generation + 1) },
      .changing)

/-- The next section of a call. A generation has 64 bits, and a run does not go through all of them. -/
def nextSection (sessionId : Bytes) (s : Shared) (t : Thread) (input : Outside) :
    Option (Shared × Thread) :=
  match t with
  | .ingest batch =>
    some ({ s with offered := s.offered ++ [s.generations.active] },
      .reading s.offered.length s.generations.active batch)
  | .reading ticket snapshot batch => some (takeBatch s ticket snapshot batch.json input.clock)
  | .rejecting ticket snapshot e =>
    some ({ s with store := s.store.reject }, .refused ticket snapshot e)
  | .stored ticket snapshot response =>
    if snapshot.generation ≠ s.generations.active.generation then
      some (s, .refused ticket snapshot
        (staleContext "machine context changed while telemetry was committed"))
    else some (s, .current ticket snapshot response)
  | .current ticket snapshot response =>
    some (moveSource s .ready "current telemetry received" (.accepted ticket snapshot response))
  | .telemetry => some (s, .showing s.generations.active)
  | .showing snapshot =>
    match s.store.snapshot snapshot.model.json snapshot.generation sessionId input.clock with
    | .error e => some (s, .failed e)
    | .ok result => some (s, .shown snapshot result s.origins)
  | .readiness => match input.provider with
    | some fault => some (s, .faulted fault)
    | none => some (s, .judging s.generations.active.generation)
  | .judging generation => some (s, .judged generation (s.store.ready generation))
  | .judged _ ready => some (moveSource s (sourceState ready) (sourceReason ready) (.answered ready))
  | .change cause candidate =>
    if s.change = .idle ∧ s.generations.active.generation + 1 < 2 ^ 64 then
      some (bump s cause candidate input.views)
    else none
  | .changing => match s.change with
    | .bumped generation =>
      some ({ s with
        change := .reconfigured
        store := s.store.reconfigure generation
        origins := [] }, .changing)
    | .reconfigured => some ({ s with change := .idle }, .changed)
    | .idle => none
  | .accepted .. | .refused .. | .shown .. | .answered _ | .changed | .failed _ | .faulted _ => none

/-- The calls. -/
def begins : Thread → Bool
  | .ingest _ | .telemetry | .readiness | .change .. => true
  | _ => false

def ingestion (sessionId : Bytes) : Program Shared Thread Outside := ⟨begins, nextSection sessionId⟩

omit [Platform] in
theorem source_named : bytes "source" ≠ [] ∧ (bytes "source").length ≤ kMaximumComponentBytes := by
  decide

/-- The runtime after `start`. -/
def started (model : AcceptedModel) (staleAfterMs : UInt64) (maximumValues : Nat) :
    Config Shared Thread where
  shared := {
    generations := .start model
    change := .idle
    store := { staleAfterMs := staleAfterMs, maximumValuesPerBatch := maximumValues }
    source := ⟨"source", .degraded, "waiting for current telemetry", 1, source_named⟩
    offered := []
    origins := [] }
  threads := []

/-! ### Where the stored values are from -/

/-- A stored value is one of a batch that was read for the store's generation. -/
structure FromBatch (maximumValues generation : Nat) (id : Bytes) (commit : Commit) (stored : Json) :
    Prop where
  stored : IsStored id commit.batch stored
  reads : ∃ read, Reads commit.snapshot.model.index commit.snapshot.generation maximumValues
    commit.batch read
  generation : commit.snapshot.generation = generation

def OriginOf (maximumValues generation : Nat) (id : Bytes) : Option Json → Option Commit → Prop
  | some stored, some commit => FromBatch maximumValues generation id commit stored
  | none, none => True
  | _, _ => False

/-- What the shared state keeps. -/
structure Sound (s : Shared) : Prop where
  numbered : s.generations.Numbered
  known : ∀ σ ∈ s.offered, s.generations.Known σ
  origins : ∀ id, OriginOf s.store.maximumValuesPerBatch s.store.contextGeneration id
    (Assoc.find? id s.store.values) (Assoc.find? id s.origins)
  tickets : ∀ id commit, Assoc.find? id s.origins = some commit →
    s.offered[commit.ticket]? = some commit.snapshot

/-- What is shown of a snapshot comes from batches that were read for it. -/
structure Isolated (s : Shared) (σ : Snapshot) (result : Json) (origins : List (Bytes × Commit)) :
    Prop where
  known : s.generations.Known σ
  generation : result.find? "context_generation" = some (.uint (UInt64.ofNat σ.generation))
  values : ∀ tag ∈ σ.model.index.tags, ∃ entry, shownOf result tag.id = some entry ∧
    (entry = unknownSample tag ∨ ∃ commit, Assoc.find? tag.id origins = some commit ∧
      commit.snapshot = σ ∧ Telemetry.Shows tag entry (some commit.batch) ∧
      ∃ maximumValues read, Reads σ.model.index σ.generation maximumValues commit.batch read)
  tickets : ∀ id commit, Assoc.find? id origins = some commit →
    s.offered[commit.ticket]? = some commit.snapshot

/-- What holds of a call. -/
def Holds (s : Shared) : Thread → Prop
  | .reading ticket σ _ | .rejecting ticket σ _ | .stored ticket σ _ | .current ticket σ _
  | .accepted ticket σ _ | .refused ticket σ _ => s.offered[ticket]? = some σ
  | .showing σ => s.generations.Known σ
  | .shown σ result origins => Isolated s σ result origins
  | _ => True

/-- History is only added to. -/
structure Extends (s s' : Shared) : Prop where
  offered : ∀ (n : Nat) (σ : Snapshot), s.offered[n]? = some σ → s'.offered[n]? = some σ
  known : ∀ σ, s.generations.Known σ → s'.generations.Known σ

theorem Extends.refl (s : Shared) : Extends s s := ⟨fun _ _ => id, fun _ => id⟩

theorem Holds.extends {s s' : Shared} {t : Thread} (h : Holds s t) (hs : Extends s s') :
    Holds s' t := by
  cases t with
  | reading ticket σ batch => exact hs.offered _ _ h
  | rejecting ticket σ e => exact hs.offered _ _ h
  | stored ticket σ response => exact hs.offered _ _ h
  | current ticket σ response => exact hs.offered _ _ h
  | accepted ticket σ response => exact hs.offered _ _ h
  | refused ticket σ e => exact hs.offered _ _ h
  | showing σ => exact hs.known _ h
  | shown σ result origins =>
    exact ⟨hs.known _ h.known, h.generation, h.values,
      fun id commit hcommit => hs.offered _ _ (h.tickets id commit hcommit)⟩
  | _ => trivial

variable {s s' : Shared} {t t' : Thread}

/-- **A batch that is taken is where its values are from.** -/
theorem Sound.takeBatch (h : Sound s) {ticket : Nat} {σ : Snapshot} {batch : Posted}
    (hticket : s.offered[ticket]? = some σ) {clock : UInt64}
    (hstep : Ingestion.takeBatch s ticket σ batch.json clock = (s', t')) :
    Sound s' ∧ Holds s' t' ∧ Extends s s' := by
  unfold Ingestion.takeBatch at hstep
  rw [readFor_eq σ.model.accepted] at hstep
  cases hread : readBatch σ.model.index σ.generation s.store.maximumValuesPerBatch batch.json with
  | error e =>
    rw [hread] at hstep
    obtain ⟨rfl, rfl⟩ := Prod.mk.inj hstep
    exact ⟨h, hticket, .refl s⟩
  | ok read =>
    have hreads := readBatch_eq_ok.mp hread
    simp only [hread, commit_eq hreads] at hstep
    cases hcheck : checkSequence s.store σ.generation read with
    | error e =>
      rw [hcheck] at hstep
      obtain ⟨rfl, rfl⟩ := Prod.mk.inj hstep
      exact ⟨h, hticket, .refl s⟩
    | ok u =>
      rw [hcheck] at hstep
      obtain ⟨rfl, rfl⟩ := Prod.mk.inj hstep
      obtain ⟨hgeneration, -⟩ := checkSequence_eq_ok.mp hcheck
      have hkeys : (read.values.map Prod.fst).Nodup :=
        Assoc.nodup_of_sorted (batch.canonical.find? hreads.values).ordered
      have horigin : ∀ id, Assoc.find? id (Assoc.insertAll
          (fun _ => (⟨ticket, σ, batch.json⟩ : Commit)) read.values s.origins) =
            ((Assoc.find? id read.values).map fun _ => (⟨ticket, σ, batch.json⟩ : Commit)).or
              (Assoc.find? id s.origins) := fun id => Assoc.find?_insertAll _ hkeys _
      refine ⟨⟨h.numbered, h.known, ?_, ?_⟩, hticket, fun _ _ => id, fun _ => id⟩
      · intro id
        show OriginOf s.store.maximumValuesPerBatch s.store.contextGeneration id
          (Assoc.find? id (Assoc.insertAll (stamped clock read) read.values s.store.values))
          (Assoc.find? id (Assoc.insertAll (fun _ => (⟨ticket, σ, batch.json⟩ : Commit)) read.values
            s.origins))
        rw [horigin, Assoc.find?_insertAll _ hkeys]
        cases hsample : Assoc.find? id read.values with
        | none => exact h.origins id
        | some sample =>
          exact ⟨isStored_stamped hreads hsample clock, ⟨read, hreads⟩, hgeneration.symm⟩
      · intro id commit hcommit
        rw [horigin] at hcommit
        cases hsample : Assoc.find? id read.values with
        | none =>
          rw [hsample] at hcommit
          exact h.tickets id commit hcommit
        | some sample =>
          rw [hsample] at hcommit
          obtain rfl := Option.some.inj hcommit
          exact hticket

/-- **A snapshot of the store is isolated.** -/
theorem Sound.isolated (h : Sound s) {σ : Snapshot} (hσ : s.generations.Known σ) {sessionId : Bytes}
    {clock : UInt64} {result : Json}
    (hresult : s.store.snapshot σ.model.json σ.generation sessionId clock = .ok result) :
    Isolated s σ result s.origins := by
  have wf := indexModel_wellFormed σ.model.accepted
  obtain ⟨alarms, halarms⟩ := snapshot_eq σ.model.accepted s.store σ.generation sessionId clock
  obtain rfl := Except.ok.inj (hresult.symm.trans halarms)
  refine ⟨hσ, ?_, ?_, h.tickets⟩
  · rw [snapshotJson, Json.find?_object]
    rfl
  · intro tag htag
    refine ⟨_, shownOf_snapshotJson wf htag sessionId alarms, ?_⟩
    rw [entryOf_eq, currentSample]
    by_cases hgeneration : s.store.contextGeneration = σ.generation
    · rw [if_pos hgeneration]
      have horigin := h.origins tag.id
      cases hstored : Assoc.find? tag.id s.store.values with
      | none => exact .inl rfl
      | some stored =>
        right
        cases hcommit : Assoc.find? tag.id s.origins with
        | none =>
          rw [hstored, hcommit] at horigin
          exact horigin.elim
        | some commit =>
          rw [hstored, hcommit] at horigin
          have horigin : FromBatch _ _ tag.id commit stored := horigin
          have hknown : s.generations.Known commit.snapshot :=
            h.known _ (List.mem_of_getElem? (h.tickets tag.id commit hcommit))
          have hsame : commit.snapshot = σ :=
            h.numbered.eq_of_generation hknown hσ (horigin.generation.trans hgeneration)
          refine ⟨commit, rfl, hsame, shows_of_isStored s.store clock tag horigin.stored, ?_⟩
          obtain ⟨read, hreads⟩ := horigin.reads
          rw [hsame] at hreads
          exact ⟨_, read, hreads⟩
    · rw [if_neg hgeneration]
      exact .inl rfl

theorem Sound.bump (h : Sound s) {cause : Cause} {candidate : AcceptedModel} {views : Option Error}
    (hstep : Ingestion.bump s cause candidate views = (s', t')) :
    Sound s' ∧ Holds s' t' ∧ Extends s s' := by
  unfold Ingestion.bump at hstep
  split at hstep
  · obtain ⟨rfl, rfl⟩ := Prod.mk.inj hstep
    exact ⟨h, trivial, .refl s⟩
  · obtain ⟨rfl, rfl⟩ := Prod.mk.inj hstep
    exact ⟨h, trivial, .refl s⟩
  · obtain ⟨rfl, rfl⟩ := Prod.mk.inj hstep
    exact ⟨⟨h.numbered.advance candidate, fun σ hσ => (h.known σ hσ).advance, h.origins, h.tickets⟩,
      trivial, fun _ _ => id, fun _ hσ => hσ.advance⟩

theorem Sound.moveSource (h : Sound s) {next : State} {reason : Bytes} (ht : Holds s t)
    (hstep : Ingestion.moveSource s next reason t = (s', t')) :
    Sound s' ∧ Holds s' t' ∧ Extends s s' := by
  unfold Ingestion.moveSource at hstep
  split at hstep
  · obtain ⟨rfl, rfl⟩ := Prod.mk.inj hstep
    exact ⟨h, trivial, .refl s⟩
  · obtain ⟨rfl, rfl⟩ := Prod.mk.inj hstep
    have hextends : ∀ m, Extends s { s with source := m } := fun _ => ⟨fun _ _ => id, fun _ => id⟩
    exact ⟨⟨h.numbered, h.known, h.origins, h.tickets⟩, ht.extends (hextends _), hextends _⟩

/-- **What a section keeps.** -/
theorem Sound.step (h : Sound s) {sessionId : Bytes} {input : Outside} (ht : Holds s t)
    (hstep : nextSection sessionId s t input = some (s', t')) :
    Sound s' ∧ Holds s' t' ∧ Extends s s' := by
  cases t with
  | ingest batch =>
    obtain ⟨rfl, rfl⟩ := Prod.mk.inj (Option.some.inj hstep)
    have hoffered : ∀ (n : Nat) (σ : Snapshot), s.offered[n]? = some σ →
        (s.offered ++ [s.generations.active])[n]? = some σ := by
      intro n σ hn
      rw [List.getElem?_append_left (List.getElem?_eq_some_iff.mp hn).1]
      exact hn
    refine ⟨⟨h.numbered, ?_, h.origins, fun id commit hcommit => hoffered _ _ (h.tickets id commit
      hcommit)⟩, ?_, hoffered, fun _ => id⟩
    · intro σ hσ
      rcases List.mem_append.mp hσ with hσ | hσ
      · exact h.known σ hσ
      · rw [List.mem_singleton.mp hσ]
        exact Generations.known_active _
    · show (s.offered ++ [s.generations.active])[s.offered.length]? = some s.generations.active
      rw [List.getElem?_append_right (Nat.le_refl _), Nat.sub_self]
      rfl
  | reading ticket σ batch => exact h.takeBatch ht (Option.some.inj hstep)
  | rejecting ticket σ e =>
    obtain ⟨rfl, rfl⟩ := Prod.mk.inj (Option.some.inj hstep)
    exact ⟨⟨h.numbered, h.known, h.origins, h.tickets⟩, ht, fun _ _ => id, fun _ => id⟩
  | stored ticket σ response =>
    simp only [nextSection] at hstep
    split_ifs at hstep
    · obtain ⟨rfl, rfl⟩ := Prod.mk.inj (Option.some.inj hstep)
      exact ⟨h, ht, .refl s⟩
    · obtain ⟨rfl, rfl⟩ := Prod.mk.inj (Option.some.inj hstep)
      exact ⟨h, ht, .refl s⟩
  | current ticket σ response =>
    have haccepted : Holds s (.accepted ticket σ response) := ht
    exact h.moveSource haccepted (Option.some.inj hstep)
  | telemetry =>
    obtain ⟨rfl, rfl⟩ := Prod.mk.inj (Option.some.inj hstep)
    exact ⟨h, Generations.known_active _, .refl s⟩
  | showing σ =>
    simp only [nextSection] at hstep
    split at hstep
    · obtain ⟨rfl, rfl⟩ := Prod.mk.inj (Option.some.inj hstep)
      exact ⟨h, trivial, .refl s⟩
    · rename_i result hresult
      obtain ⟨rfl, rfl⟩ := Prod.mk.inj (Option.some.inj hstep)
      exact ⟨h, h.isolated ht hresult, .refl s⟩
  | readiness =>
    simp only [nextSection] at hstep
    split at hstep
    · obtain ⟨rfl, rfl⟩ := Prod.mk.inj (Option.some.inj hstep)
      exact ⟨h, trivial, .refl s⟩
    · obtain ⟨rfl, rfl⟩ := Prod.mk.inj (Option.some.inj hstep)
      exact ⟨h, trivial, .refl s⟩
  | judging generation =>
    obtain ⟨rfl, rfl⟩ := Prod.mk.inj (Option.some.inj hstep)
    exact ⟨h, trivial, .refl s⟩
  | judged generation ready =>
    have hanswered : Holds s (.answered ready) := trivial
    exact h.moveSource hanswered (Option.some.inj hstep)
  | change cause candidate =>
    simp only [nextSection] at hstep
    split_ifs at hstep
    exact h.bump (Option.some.inj hstep)
  | changing =>
    simp only [nextSection] at hstep
    split at hstep
    · obtain ⟨rfl, rfl⟩ := Prod.mk.inj (Option.some.inj hstep)
      refine ⟨⟨h.numbered, h.known, fun _ => trivial, ?_⟩, trivial, fun _ _ => id, fun _ => id⟩
      intro id commit hcommit
      cases hcommit
    · obtain ⟨rfl, rfl⟩ := Prod.mk.inj (Option.some.inj hstep)
      exact ⟨⟨h.numbered, h.known, h.origins, h.tickets⟩, trivial, fun _ _ => id, fun _ => id⟩
    · cases hstep
  | accepted ticket σ response => cases hstep
  | refused ticket σ e => cases hstep
  | shown σ result origins => cases hstep
  | answered ready => cases hstep
  | changed => cases hstep
  | failed e => cases hstep
  | faulted fault => cases hstep

/-! ### Runs -/

theorem sound_started (model : AcceptedModel) (staleAfterMs : UInt64) (maximumValues : Nat) :
    Sound (started model staleAfterMs maximumValues).shared := by
  refine ⟨Generations.numbered_start model, List.forall_mem_nil _, fun _ => trivial, ?_⟩
  intro id commit hcommit
  cases hcommit

theorem Sound.reachable {sessionId : Bytes} {allowed : Shared → Thread → Outside → Prop}
    {model : AcceptedModel} {staleAfterMs : UInt64} {maximumValues : Nat} {c : Config Shared Thread}
    (h : Reachable (ingestion sessionId) allowed (started model staleAfterMs maximumValues) c) :
    Sound c.shared ∧ ∀ t ∈ c.threads, Holds c.shared t := by
  refine Reachable.rule (sound_started model staleAfterMs maximumValues) (List.forall_mem_nil _)
    ?_ ?_ h
  · intro s t _ hstarts
    cases t with
    | ingest batch => trivial
    | telemetry => trivial
    | readiness => trivial
    | change cause candidate => trivial
    | _ => cases hstarts
  · intro s t input s' t' hs ht _ hstep
    obtain ⟨hsound, hholds, hextends⟩ := hs.step ht hstep
    exact ⟨hsound, hholds, fun u hu => hu.extends hextends⟩

/-- What a telemetry request may show of a call that was answered with an error. -/
structure Excluded (σ : Snapshot) (result : Json) (origins : List (Bytes × Commit)) (ticket : Nat) :
    Prop where
  values : ∀ tag ∈ σ.model.index.tags, ∃ entry, shownOf result tag.id = some entry ∧
    (entry = unknownSample tag ∨ ∃ commit, Assoc.find? tag.id origins = some commit ∧
      Telemetry.Shows tag entry (some commit.batch) ∧ commit.ticket ≠ ticket)

/-- **A generation's telemetry is its own.** Whatever calls run beside it, what a telemetry request shows
comes from batches that were read for the model of its own generation; and a batch that is answered
with an error never comes to be shown in a later generation. -/
theorem telemetry_isolated {sessionId : Bytes} {model : AcceptedModel} {staleAfterMs : UInt64}
    {maximumValues : Nat} {c : Config Shared Thread}
    (h : Reachable (ingestion sessionId) always (started model staleAfterMs maximumValues) c)
    {σ : Snapshot} {result : Json} {origins : List (Bytes × Commit)}
    (hshown : .shown σ result origins ∈ c.threads) :
    Isolated c.shared σ result origins ∧
      ∀ ticket τ e, .refused ticket τ e ∈ c.threads → τ.generation < σ.generation →
        Excluded σ result origins ticket := by
  obtain ⟨-, hholds⟩ := Sound.reachable h
  have hisolated : Isolated c.shared σ result origins := hholds _ hshown
  refine ⟨hisolated, ?_⟩
  intro ticket τ e hrefused hlater
  have hticket : c.shared.offered[ticket]? = some τ := hholds _ hrefused
  refine ⟨?_⟩
  intro tag htag
  obtain ⟨entry, hentry, hfrom⟩ := hisolated.values tag htag
  refine ⟨entry, hentry, hfrom.imp_right ?_⟩
  intro hcommit
  obtain ⟨commit, hfind, hsnapshot, hshows, -⟩ := hcommit
  refine ⟨commit, hfind, hshows, ?_⟩
  intro hsame
  have hoffered := hisolated.tickets tag.id commit hfind
  rw [hsame, hticket, hsnapshot] at hoffered
  rw [Option.some.inj hoffered] at hlater
  exact Nat.lt_irrefl _ hlater

/-! ### The state the source reports -/

/-- No model change overtakes what is found out of the source: none is applied while the source is ready,
nor between where a call looks at the generation and where it moves the source to `Ready`; and no
batch is stored at time zero. -/
def Settled (s : Shared) (t : Thread) (input : Outside) : Prop :=
  match t with
  | .change cause candidate => s.generations.checkChange cause candidate = .ok () →
    input.views = none → s.source.state ≠ .ready
  | .reading _ _ _ => input.clock ≠ 0
  | .current _ snapshot _ => snapshot.generation = s.generations.active.generation
  | .judged generation ready => ready = true → generation = s.generations.active.generation
  | _ => True

/-- Where the store is while a model change is where it is. -/
def Follows (s : Shared) : Prop :=
  match s.change with
  | .bumped generation =>
    generation = s.generations.active.generation ∧ s.store.contextGeneration < generation
  | _ => s.store.contextGeneration = s.generations.active.generation

/-- A source that is ready has data. -/
structure Honest (s : Shared) : Prop where
  ready : s.source.state = .ready → s.store.ready s.generations.active.generation = true
  follows : Follows s

/-- The store has data of the generation, or has left it behind. -/
structure Reached (store : Store) (generation : Nat) : Prop where
  le : generation ≤ store.contextGeneration
  received : store.contextGeneration = generation → store.lastReceivedMs ≠ 0

/-- What a call has found out that may move the source to `Ready`. -/
def Backed (s : Shared) : Thread → Prop
  | .stored _ σ _ | .current _ σ _ => Reached s.store σ.generation
  | .judged generation ready => ready = true → Reached s.store generation
  | _ => True

/-- The store goes on to later generations, and keeps that it has data of its own. -/
structure Later (store store' : Store) : Prop where
  le : store.contextGeneration ≤ store'.contextGeneration
  received : store'.contextGeneration = store.contextGeneration → store.lastReceivedMs ≠ 0 →
    store'.lastReceivedMs ≠ 0

omit [Platform] in
theorem Later.refl (store : Store) : Later store store := ⟨Nat.le_refl _, fun _ => id⟩

omit [Platform] in
theorem Reached.later {store store' : Store} {generation : Nat} (h : Reached store generation)
    (hlater : Later store store') : Reached store' generation := by
  have hle := h.le
  have hgoes := hlater.le
  refine ⟨by omega, fun hsame => ?_⟩
  exact hlater.received (by omega) (h.received (by omega))

theorem Backed.later (ht : Backed s t) (hlater : Later s.store s'.store) : Backed s' t := by
  cases t with
  | stored ticket σ response => exact Reached.later ht hlater
  | current ticket σ response => exact Reached.later ht hlater
  | judged generation ready => exact fun hready => (ht hready).later hlater
  | _ => trivial

omit [Platform] in
theorem ready_eq_true {store : Store} {generation : Nat} : store.ready generation = true ↔
    store.contextGeneration = generation ∧ store.lastReceivedMs ≠ 0 := by
  simp only [Store.ready, Bool.and_eq_true, beq_iff_eq, bne_iff_ne, ne_eq]

omit [Platform] in
theorem reached_of_ready {store : Store} {generation : Nat} (h : store.ready generation = true) :
    Reached store generation := by
  obtain ⟨hcurrent, hreceived⟩ := ready_eq_true.mp h
  exact ⟨hcurrent.ge, fun _ => hreceived⟩

/-- **Where the store has reached the active generation, it has data of it**: it is never ahead of the
model, and behind only while a change is under way. -/
theorem Honest.ready_of_reached (h : Honest s)
    (hreached : Reached s.store s.generations.active.generation) :
    s.store.ready s.generations.active.generation = true := by
  have hfollows := h.follows
  have hle := hreached.le
  have hcurrent : s.store.contextGeneration = s.generations.active.generation := by
    unfold Follows at hfollows
    split at hfollows
    · omega
    · exact hfollows
  exact ready_eq_true.mpr ⟨hcurrent, hreached.received hcurrent⟩

theorem Honest.moveSource (h : Honest s) {next : State} {reason : Bytes}
    (hnext : next = .ready → Reached s.store s.generations.active.generation) (ht : Backed s t)
    (hstep : Ingestion.moveSource s next reason t = (s', t')) :
    Honest s' ∧ Backed s' t' ∧ Later s.store s'.store := by
  unfold Ingestion.moveSource at hstep
  split at hstep
  · obtain ⟨rfl, rfl⟩ := Prod.mk.inj hstep
    exact ⟨h, trivial, .refl _⟩
  · rename_i m hmove
    obtain ⟨rfl, rfl⟩ := Prod.mk.inj hstep
    obtain ⟨-, -, -, rfl⟩ := transition_eq_ok.mp hmove
    exact ⟨⟨fun hready => h.ready_of_reached (hnext hready), h.follows⟩, ht.later (.refl _), .refl _⟩

theorem Honest.takeBatch (h : Honest s) {ticket : Nat} {σ : Snapshot} {batch : Json} {clock : UInt64}
    (hclock : clock ≠ 0) (hstep : Ingestion.takeBatch s ticket σ batch clock = (s', t')) :
    Honest s' ∧ Backed s' t' ∧ Later s.store s'.store := by
  unfold Ingestion.takeBatch at hstep
  rw [readFor_eq σ.model.accepted] at hstep
  cases hread : readBatch σ.model.index σ.generation s.store.maximumValuesPerBatch batch with
  | error e =>
    rw [hread] at hstep
    obtain ⟨rfl, rfl⟩ := Prod.mk.inj hstep
    exact ⟨h, trivial, .refl _⟩
  | ok read =>
    simp only [hread, commit_eq (readBatch_eq_ok.mp hread)] at hstep
    cases hcheck : checkSequence s.store σ.generation read with
    | error e =>
      rw [hcheck] at hstep
      obtain ⟨rfl, rfl⟩ := Prod.mk.inj hstep
      exact ⟨h, trivial, .refl _⟩
    | ok u =>
      rw [hcheck] at hstep
      obtain ⟨rfl, rfl⟩ := Prod.mk.inj hstep
      have hcurrent := (checkSequence_eq_ok.mp hcheck).1
      refine ⟨⟨?_, h.follows⟩, ⟨hcurrent.ge, fun _ => hclock⟩, Nat.le_refl _, fun _ _ => hclock⟩
      intro hready
      exact ready_eq_true.mpr ⟨(ready_eq_true.mp (h.ready hready)).1, hclock⟩

theorem Honest.bump (h : Honest s) {cause : Cause} {candidate : AcceptedModel} {views : Option Error}
    (hidle : s.change = .idle) (hsettled : s.generations.checkChange cause candidate = .ok () →
      views = none → s.source.state ≠ .ready)
    (hstep : Ingestion.bump s cause candidate views = (s', t')) :
    Honest s' ∧ Backed s' t' ∧ Later s.store s'.store := by
  have hfollows := h.follows
  rw [Follows, hidle] at hfollows
  unfold Ingestion.bump at hstep
  split at hstep
  · obtain ⟨rfl, rfl⟩ := Prod.mk.inj hstep
    exact ⟨h, trivial, .refl _⟩
  · obtain ⟨rfl, rfl⟩ := Prod.mk.inj hstep
    exact ⟨h, trivial, .refl _⟩
  · rename_i hcheck
    obtain ⟨rfl, rfl⟩ := Prod.mk.inj hstep
    refine ⟨⟨fun hready => absurd hready (hsettled hcheck rfl), rfl, ?_⟩, trivial, .refl _⟩
    show s.store.contextGeneration < s.generations.active.generation + 1
    omega

theorem Honest.changing (h : Honest s) {sessionId : Bytes} {input : Outside}
    (hstep : nextSection sessionId s .changing input = some (s', t')) :
    Honest s' ∧ Backed s' t' ∧ Later s.store s'.store := by
  have hfollows := h.follows
  simp only [nextSection] at hstep
  split at hstep
  · rename_i generation hchange
    obtain ⟨rfl, rfl⟩ := Prod.mk.inj (Option.some.inj hstep)
    rw [Follows, hchange] at hfollows
    obtain ⟨hactive, hbehind⟩ := hfollows
    refine ⟨⟨?_, hactive⟩, trivial, hbehind.le, fun hsame => absurd hsame hbehind.ne'⟩
    intro hready
    have hcurrent := (ready_eq_true.mp (h.ready hready)).1
    omega
  · rename_i hchange
    obtain ⟨rfl, rfl⟩ := Prod.mk.inj (Option.some.inj hstep)
    rw [Follows, hchange] at hfollows
    exact ⟨⟨h.ready, hfollows⟩, trivial, .refl _⟩
  · cases hstep

/-- **What a section that no model change overtakes keeps.** -/
theorem Honest.step (h : Honest s) {sessionId : Bytes} {input : Outside} (ht : Backed s t)
    (hsettled : Settled s t input) (hstep : nextSection sessionId s t input = some (s', t')) :
    Honest s' ∧ Backed s' t' ∧ Later s.store s'.store := by
  cases t with
  | reading ticket σ batch => exact h.takeBatch hsettled (Option.some.inj hstep)
  | current ticket σ response =>
    have hgeneration : σ.generation = s.generations.active.generation := hsettled
    have hreached : Reached s.store σ.generation := ht
    refine h.moveSource (fun _ => hgeneration ▸ hreached) ?_ (Option.some.inj hstep)
    trivial
  | judged generation ready =>
    refine h.moveSource ?_ ?_ (Option.some.inj hstep)
    · intro hready
      cases ready with
      | true => exact hsettled rfl ▸ ht rfl
      | false => cases hready
    · trivial
  | judging generation =>
    obtain ⟨rfl, rfl⟩ := Prod.mk.inj (Option.some.inj hstep)
    exact ⟨h, reached_of_ready, .refl _⟩
  | stored ticket σ response =>
    simp only [nextSection] at hstep
    split_ifs at hstep
    · obtain ⟨rfl, rfl⟩ := Prod.mk.inj (Option.some.inj hstep)
      exact ⟨h, trivial, .refl _⟩
    · obtain ⟨rfl, rfl⟩ := Prod.mk.inj (Option.some.inj hstep)
      exact ⟨h, ht, .refl _⟩
  | change cause candidate =>
    simp only [nextSection] at hstep
    split_ifs at hstep with hchange
    exact h.bump hchange.1 hsettled (Option.some.inj hstep)
  | changing => exact h.changing hstep
  | ingest batch =>
    obtain ⟨rfl, rfl⟩ := Prod.mk.inj (Option.some.inj hstep)
    exact ⟨⟨h.ready, h.follows⟩, trivial, .refl _⟩
  | rejecting ticket σ e =>
    obtain ⟨rfl, rfl⟩ := Prod.mk.inj (Option.some.inj hstep)
    exact ⟨⟨h.ready, h.follows⟩, trivial, Nat.le_refl _, fun _ => id⟩
  | telemetry =>
    obtain ⟨rfl, rfl⟩ := Prod.mk.inj (Option.some.inj hstep)
    exact ⟨h, trivial, .refl _⟩
  | showing σ =>
    simp only [nextSection] at hstep
    split at hstep <;> obtain ⟨rfl, rfl⟩ := Prod.mk.inj (Option.some.inj hstep) <;>
      exact ⟨h, trivial, .refl _⟩
  | readiness =>
    simp only [nextSection] at hstep
    split at hstep <;> obtain ⟨rfl, rfl⟩ := Prod.mk.inj (Option.some.inj hstep) <;>
      exact ⟨h, trivial, .refl _⟩
  | _ => cases hstep

/-- **A source that is ready has data of the active generation**, in every run in which no model change
overtakes what was found out of it. -/
theorem source_honest {sessionId : Bytes} {model : AcceptedModel} {staleAfterMs : UInt64}
    {maximumValues : Nat} {c : Config Shared Thread}
    (h : Reachable (ingestion sessionId) Settled (started model staleAfterMs maximumValues) c)
    (hready : c.shared.source.state = .ready) :
    c.shared.store.ready c.shared.generations.active.generation = true := by
  have hhonest : Honest c.shared := by
    refine (Reachable.rule (L := Backed) ?_ (List.forall_mem_nil _) ?_ ?_ h).1
    · exact ⟨fun hready => (by cases hready), rfl⟩
    · intro s t _ hstarts
      cases t with
      | stored ticket σ response => cases hstarts
      | current ticket σ response => cases hstarts
      | judged generation ready => cases hstarts
      | _ => trivial
    · intro s t input s' t' hs ht hsettled hstep
      obtain ⟨hhonest, hbacked, hlater⟩ := hs.step ht hsettled hstep
      exact ⟨hhonest, hbacked, fun _ hu => hu.later hlater⟩
  exact hhonest.ready hready

end

section Sample
local instance ingestionPlatform : Platform := samplePlatform

/-- The plant with its tank. -/
def levelAccepted : AcceptedModel where
  json := sampleModel 1 (.int 80)
  index := indexOf (sampleModel 1 (.int 80))
  accepted := indexModel_eq (by decide +kernel)
  isText := isText_of_isSome (by decide +kernel)

def plantStarted : Config Shared Thread := started levelAccepted 3000 512

/-- A call runs some sections, with the clock at 5000. -/
def moves (k n : Nat) : List (Event Thread Outside) := List.replicate n (.move k ⟨5000, none, none⟩)

/-- The same model is selected again: generation 1. -/
def selectPlant : List (Event Thread Outside) :=
  .start (.change .scenarioSelected levelAccepted) :: moves 0 3

/-- A batch is stored, and the model is changed before its call goes on. -/
def overtaken : List (Event Thread Outside) :=
  selectPlant ++ [.start (.ingest ⟨levelBatch, levelBatch_canonical⟩)] ++ moves 1 2 ++
    [.start (.change .scenarioSelected levelAccepted)] ++ moves 2 1 ++ moves 1 1 ++
    [.start .telemetry] ++ moves 3 2

/-- A model change behind a batch that was accepted. -/
def outdated : List (Event Thread Outside) :=
  selectPlant ++ [.start (.ingest ⟨levelBatch, levelBatch_canonical⟩)] ++ moves 1 4 ++
    [.start (.change .scenarioSelected levelAccepted)] ++ moves 2 3

/-- The call has ended. -/
def Thread.ended : Thread → Bool
  | .accepted .. | .refused .. | .shown .. | .answered _ | .changed | .failed _ | .faulted _ => true
  | _ => false

def Thread.isShown : Thread → Bool
  | .shown _ _ _ => true
  | _ => false

theorem eq_shown {t : Thread} (h : t.isShown = true) : ∃ σ result origins, t = .shown σ result origins := by
  cases t with
  | shown σ result origins => exact ⟨σ, result, origins, rfl⟩
  | _ => cases h

theorem telemetry_isolated_sample : ∃ c σ result origins,
    run (ingestion "session-1") plantStarted overtaken = some c ∧
      .shown σ result origins ∈ c.threads ∧ Isolated c.shared σ result origins ∧
      ∀ ticket τ e, .refused ticket τ e ∈ c.threads → τ.generation < σ.generation →
        Excluded σ result origins ticket := by
  have hsome : (run (ingestion "session-1") plantStarted overtaken).any
      (fun c => c.threads.any Thread.isShown) = true := by decide +kernel
  obtain ⟨c, hrun, hany⟩ := (Option.any_eq_true _ _).mp hsome
  obtain ⟨t, ht, hshown⟩ := List.any_eq_true.mp hany
  obtain ⟨σ, result, origins, rfl⟩ := eq_shown hshown
  obtain ⟨hisolated, hexcluded⟩ := telemetry_isolated (reachable_run hrun) ht
  exact ⟨c, σ, result, origins, hrun, ht, hisolated, hexcluded⟩

/-- The calls have ended, the source is ready, and the store has nothing of the active generation. -/
theorem source_outdated : ∃ c, run (ingestion "session-1") plantStarted outdated = some c ∧
    c.threads.all Thread.ended = true ∧ c.shared.source.state = .ready ∧
      c.shared.store.ready c.shared.generations.active.generation = false := by
  have hsome : (run (ingestion "session-1") plantStarted outdated).any (fun c =>
      c.threads.all Thread.ended && c.shared.source.state == .ready &&
        !c.shared.store.ready c.shared.generations.active.generation) = true := by decide +kernel
  obtain ⟨c, hrun, hstate⟩ := (Option.any_eq_true _ _).mp hsome
  rw [Bool.and_eq_true, Bool.and_eq_true, Bool.not_eq_true', beq_iff_eq] at hstate
  exact ⟨c, hrun, hstate.1.1, hstate.1.2, hstate.2⟩

/-- `Settled`, to be checked. -/
def isSettled (s : Shared) (t : Thread) (input : Outside) : Bool :=
  match t with
  | .change _ _ => s.source.state != .ready
  | .reading _ _ _ => input.clock != 0
  | .current _ snapshot _ => snapshot.generation == s.generations.active.generation
  | .judged generation ready => !ready || generation == s.generations.active.generation
  | _ => true

theorem settled_of_isSettled (s : Shared) (t : Thread) (input : Outside)
    (h : isSettled s t input = true) : Settled s t input := by
  cases t with
  | change cause candidate => exact fun _ _ => bne_iff_ne.mp h
  | reading ticket σ batch => exact bne_iff_ne.mp h
  | current ticket σ response => exact beq_iff_eq.mp h
  | judged generation ready =>
    intro hready
    subst hready
    exact beq_iff_eq.mp h
  | _ => trivial

/-- A batch that is accepted, and a readiness request. -/
def served : List (Event Thread Outside) :=
  selectPlant ++ [.start (.ingest ⟨levelBatch, levelBatch_canonical⟩)] ++ moves 1 4 ++
    [.start .readiness] ++ moves 2 3

theorem source_honest_sample : ∃ c, run (ingestion "session-1") plantStarted served = some c ∧
    c.shared.source.state = .ready ∧
      c.shared.store.ready c.shared.generations.active.generation = true := by
  have hsome : (run (ingestion "session-1") plantStarted served).any
      (fun c => c.shared.source.state == .ready) = true := by decide +kernel
  have hmeets : meets isSettled (ingestion "session-1") plantStarted served = true := by
    decide +kernel
  obtain ⟨c, hrun, hstate⟩ := (Option.any_eq_true _ _).mp hsome
  rw [beq_iff_eq] at hstate
  have hreach := Reachable.init.checked settled_of_isSettled hrun hmeets
  exact ⟨c, hrun, hstate, source_honest hreach hstate⟩

end Sample

end ContextHmi.Runtime.Ingestion
