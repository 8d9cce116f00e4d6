import ContextHmi.Diagnostics.Logger
import ContextHmi.Json.Serialize
import ContextHmi.Library.Interleave

/-!
# The queue of the logger

`Logger::write` from any number of threads, the worker of `Logger::run` and calls of
`Logger::shutdown`. A section under the mutex and an atomic update outside it is one step each. Beside
the members, the state keeps what was enqueued, what the worker has taken and what it failed to write.

* `Queued.step`          : what a section keeps;
* `records_accounted`    : once the worker has ended, every accepted record was written or reported;
* `warnings_visible`     : a warning or an error is queued or reported, in every run.
-/

namespace ContextHmi.Diagnostics

open Outcome Interleave

inductive Severity where
  | debug
  | info
  | warning
  | error
  deriving DecidableEq

/-- `severity_name`. -/
def severityName : Severity → Bytes
  | .debug => "debug"
  | .info => "info"
  | .warning => "warning"
  | .error => "error"

def lowSeverity (severity : Severity) : Bool := severity = .debug || severity = .info

/-! ### Sections -/

/-- What `write_record` throws. -/
inductive Fault where
  | inspectForRotation
  | inspect
  | notRegular
  | rotation
  | cannotOpen
  | write

def Fault.what : Fault → Bytes
  | .inspectForRotation => "could not inspect diagnostic log for rotation"
  | .inspect => "could not inspect diagnostic log"
  | .notRegular => "diagnostic log path is not a regular file"
  | .rotation => "diagnostic log rotation failed"
  | .cannotOpen => "could not open diagnostic log"
  | .write => "diagnostic log write failed"

/-- Where the worker is in `run`. -/
inductive Worker where
  | waiting
  | writing (record : Bytes)
  /-- The record is written, and `written_` does not count it yet. -/
  | wrote
  | exited
  deriving DecidableEq

/-- The members of a `Logger`, the files, the error stream, and what has happened to the records. -/
structure State where
  queue : List Bytes
  accepting : Bool
  stopping : Bool
  accepted : UInt64
  written : UInt64
  dropped : UInt64
  fallback : UInt64
  failed : Bool
  worker : Worker
  files : FileSystem
  reports : List Bytes
  enqueued : List Bytes
  taken : List Bytes
  lost : List Bytes

/-- What became of a record. -/
inductive Fate where
  | queued
  | reported
  | dropped
  deriving DecidableEq

/-- Where a call is. -/
inductive Call where
  /-- The thread of the worker. -/
  | run
  | write (severity : Severity) (event : Bytes) (fields : Json)
  /-- Too large, and counted as dropped. -/
  | oversized (severity : Severity) (encoded : Bytes)
  /-- There is no log file. -/
  | unlogged (severity : Severity) (encoded : Bytes)
  | offering (severity : Severity) (encoded : Bytes)
  /-- In the queue, and `accepted_` does not count it yet. -/
  | pushed (severity : Severity) (encoded : Bytes)
  | done (severity : Severity) (encoded : Bytes) (fate : Fate)
  | threw (e : Error)
  | shutdown
  | joining
  | ended

/-- What a section reads from outside: the clock, and a fault of the file system with what it leaves
in the files. -/
structure Outside where
  clock : UInt64
  fault : Option (Fault × FileSystem)

section
variable [Platform]

def recordJson (clock : UInt64) (severity event : Bytes) (fields : Json) : Json :=
  .object [("timestamp_ms", .uint clock), ("severity", .str severity), ("event", .str event),
    ("fields", fields)]

/-- A line of the log. -/
def encodeLine (clock : UInt64) (severity event : Bytes) (fields : Json) : Result Bytes :=
  (fun text => text ++ [0x0a]) <$> (recordJson clock severity event fields).dump

/-- A line about a record that was rejected or not written; its texts are ASCII. -/
def reportLine (clock : UInt64) (event : Bytes) (fields : Json) : Bytes :=
  (encodeLine clock "error" event fields).toOption.getD []

def rejectedLine (clock : UInt64) (size : Nat) : Bytes :=
  reportLine clock "diagnostic_record_rejected"
    (.object [("reason", .str "record_too_large"), ("bytes", .uint (UInt64.ofNat size))])

def failedLine (clock : UInt64) (fault : Fault) : Bytes :=
  reportLine clock "diagnostic_write_failed" (.object [("reason", .str fault.what)])

/-- The checks of `Logger::write` on an encoded record. -/
def examine (config : LoggerConfig) (s : State) (severity : Severity) (encoded : Bytes) : State × Call :=
  if config.maximumRecordBytes < encoded.length ∨ config.rotationBytes < encoded.length then
    ({ s with dropped := s.dropped + 1 },
      if lowSeverity severity then .done severity encoded .dropped else .oversized severity encoded)
  else if config.path = [] then
    (s, if lowSeverity severity then .done severity encoded .dropped else .unlogged severity encoded)
  else (s, .offering severity encoded)

/-- `Logger::write`, up to where it needs the mutex. -/
def beginWrite (config : LoggerConfig) (s : State) (severity : Severity) (event : Bytes)
    (fields : Json) (clock : UInt64) : State × Call :=
  if event = [] ∨ 128 < event.length ∨ fields.isObject = false then
    (s, .threw (.runtime "diagnostic event is invalid"))
  else match encodeLine clock (severityName severity) event fields with
    | .error e => (s, .threw e)
    | .ok encoded => examine config s severity encoded

/-- A line on the error stream. -/
def State.report (s : State) (lines : List Bytes) : State :=
  { s with reports := s.reports ++ lines, fallback := s.fallback + 1 }

/-- The locked section of `Logger::write`. -/
def offer (config : LoggerConfig) (s : State) (severity : Severity) (encoded : Bytes) : State × Call :=
  if s.accepting = false ∨ config.queueCapacity ≤ s.queue.length then
    let s := { s with dropped := s.dropped + 1 }
    if lowSeverity severity then (s, .done severity encoded .dropped)
    else (s.report [encoded], .done severity encoded .reported)
  else ({ s with queue := s.queue ++ [encoded], enqueued := s.enqueued ++ [encoded] },
    .pushed severity encoded)

/-- The next section of the worker. -/
def advance (config : LoggerConfig) (s : State) (input : Outside) : Option State :=
  match s.worker with
  | .waiting => match s.queue with
    | record :: rest => some { s with
        queue := rest
        taken := s.taken ++ [record]
        worker := .writing record }
    | [] => if s.stopping then some { s with worker := .exited } else none
  | .writing record => match input.fault with
    | none => some { s with files := writeRecord config s.files record, worker := .wrote }
    | some (fault, files) =>
      let s := s.report [record, failedLine input.clock fault]
      some { s with
        files := files
        failed := true
        lost := s.lost ++ [record]
        worker := .waiting }
  | .wrote => some { s with written := s.written + 1, worker := .waiting }
  | .exited => none

/-- The next section of a call. -/
def nextSection (config : LoggerConfig) (s : State) (t : Call) (input : Outside) :
    Option (State × Call) :=
  match t with
  | .run => (advance config s input).map fun s => (s, .run)
  | .write severity event fields => some (beginWrite config s severity event fields input.clock)
  | .oversized severity encoded =>
    some (s.report [rejectedLine input.clock encoded.length], .done severity encoded .reported)
  | .unlogged severity encoded => some (s.report [encoded], .done severity encoded .reported)
  | .offering severity encoded => some (offer config s severity encoded)
  | .pushed severity encoded =>
    some ({ s with accepted := s.accepted + 1 }, .done severity encoded .queued)
  | .shutdown =>
    if s.stopping then some (s, .ended)
    else some ({ s with accepting := false, stopping := true }, .joining)
  -- There is no worker to join where there is no log file.
  | .joining => if config.path = [] ∨ s.worker = .exited then some (s, .ended) else none
  | .done .. | .threw _ | .ended => none

/-- The calls. -/
def begins : Call → Bool
  | .write .. | .shutdown => true
  | _ => false

def logger (config : LoggerConfig) : Program State Call Outside := ⟨begins, nextSection config⟩

/-- The logger as its constructor leaves it. -/
def started (config : LoggerConfig) (files : FileSystem) : Config State Call where
  shared := {
    queue := []
    accepting := true
    stopping := false
    accepted := 0
    written := 0
    dropped := 0
    fallback := 0
    failed := false
    worker := .waiting
    files := files
    reports := []
    enqueued := []
    taken := []
    lost := [] }
  threads := if config.path = [] then [] else [.run]

/-! ### What a section keeps -/

/-- The record the worker has taken and not dealt with. -/
def Worker.record : Worker → List Bytes
  | .writing record => [record]
  | _ => []

/-- A record was written and is not counted. -/
def Worker.uncounted : Worker → Nat
  | .wrote => 1
  | _ => 0

/-- What the queue, the worker and the counters keep. -/
structure Queued (config : LoggerConfig) (files : FileSystem) (s : State) : Prop where
  order : s.enqueued = s.taken ++ s.queue
  bounded : s.queue.length ≤ config.queueCapacity
  closed : s.stopping = true → s.accepting = false
  ended : s.worker = .exited → s.stopping = true ∧ s.queue = []
  counted : UInt64.ofNat s.taken.length =
    s.written + UInt64.ofNat (s.worker.uncounted + s.lost.length + s.worker.record.length)
  lost : s.failed = false → s.lost = []
  reported : s.lost ⊆ s.reports
  files : s.failed = false → ∃ records, s.taken = records ++ s.worker.record ∧
    s.files = writeAll config files records
  fitting : ∀ record ∈ s.enqueued, record.length ≤ config.rotationBytes

/-- What holds of a call: its record fits while it is offered, and it is where its fate says. -/
def Settled (config : LoggerConfig) (s : State) : Call → Prop
  | .offering _ encoded => encoded.length ≤ config.rotationBytes
  | .pushed _ encoded => encoded ∈ s.enqueued
  | .done severity encoded fate => match fate with
    | .queued => encoded ∈ s.enqueued
    | .reported => encoded ∈ s.reports ∨
        ∃ clock, rejectedLine clock encoded.length ∈ s.reports
    | .dropped => lowSeverity severity = true
  | _ => True

/-- Records and lines are only added. -/
structure Extends (s s' : State) : Prop where
  enqueued : s.enqueued ⊆ s'.enqueued
  reports : s.reports ⊆ s'.reports

variable {config : LoggerConfig} {files : FileSystem} {s s' : State} {t t' : Call}

theorem Settled.extends (h : Settled config s t) (hs : Extends s s') : Settled config s' t := by
  cases t with
  | offering severity encoded => exact h
  | pushed severity encoded => exact hs.enqueued h
  | done severity encoded fate =>
    cases fate with
    | queued => exact hs.enqueued h
    | dropped => exact h
    | reported =>
      rcases h with hmem | ⟨clock, hmem⟩
      · exact .inl (hs.reports hmem)
      · exact .inr ⟨clock, hs.reports hmem⟩
  | _ => trivial

omit [Platform] in
theorem Queued.report (h : Queued config files s) (lines : List Bytes) :
    Queued config files (s.report lines) :=
  ⟨h.order, h.bounded, h.closed, h.ended, h.counted, h.lost,
    fun _ hmem => List.mem_append_left _ (h.reported hmem), h.files, h.fitting⟩

omit [Platform] in
theorem extends_report (s : State) (lines : List Bytes) : Extends s (s.report lines) :=
  ⟨List.Subset.refl _, List.subset_append_left _ _⟩

/-- **What the worker keeps.** -/
theorem Queued.advance (h : Queued config files s) {input : Outside}
    (hstep : Diagnostics.advance config s input = some s') :
    Queued config files s' ∧ Extends s s' := by
  have hcounted := h.counted
  unfold Diagnostics.advance at hstep
  split at hstep
  case h_1 hworker =>
    rw [hworker] at hcounted
    split at hstep
    case h_1 record rest hqueue =>
      obtain rfl := Option.some.inj hstep
      refine ⟨⟨?_, ?_, h.closed, ?_, ?_, h.lost, h.reported, ?_, h.fitting⟩,
        List.Subset.refl _, List.Subset.refl _⟩
      · show s.enqueued = s.taken ++ [record] ++ rest
        rw [h.order, hqueue, List.append_assoc, List.singleton_append]
      · have hbounded := h.bounded
        rw [hqueue, List.length_cons] at hbounded
        show rest.length ≤ config.queueCapacity
        omega
      · intro hexited
        cases hexited
      · show UInt64.ofNat (s.taken ++ [record]).length = s.written + UInt64.ofNat (0 + s.lost.length + 1)
        rw [List.length_append, UInt64.ofNat_add, UInt64.ofNat_add _ 1, hcounted, ← UInt64.add_assoc]
        rfl
      · intro hfailed
        obtain ⟨records, htaken, hfiles⟩ := h.files hfailed
        rw [hworker] at htaken
        refine ⟨records, ?_, hfiles⟩
        show s.taken ++ [record] = records ++ [record]
        rw [htaken]
        exact congrArg (· ++ [record]) (List.append_nil records)
    case h_2 hqueue =>
      split_ifs at hstep with hstopping
      obtain rfl := Option.some.inj hstep
      refine ⟨⟨h.order, h.bounded, h.closed, fun _ => ⟨hstopping, hqueue⟩, hcounted, h.lost, h.reported,
        ?_, h.fitting⟩, List.Subset.refl _, List.Subset.refl _⟩
      intro hfailed
      obtain ⟨records, htaken, hfiles⟩ := h.files hfailed
      rw [hworker] at htaken
      exact ⟨records, htaken, hfiles⟩
  case h_2 record hworker =>
    rw [hworker] at hcounted
    split at hstep
    case h_1 =>
      obtain rfl := Option.some.inj hstep
      refine ⟨⟨h.order, h.bounded, h.closed, ?_, ?_, h.lost, h.reported, ?_, h.fitting⟩,
        List.Subset.refl _, List.Subset.refl _⟩
      · intro hexited
        cases hexited
      · show UInt64.ofNat s.taken.length = s.written + UInt64.ofNat (1 + s.lost.length + 0)
        rw [hcounted, Nat.add_comm 1]
        exact congrArg (fun n => s.written + UInt64.ofNat (n + 1)) (Nat.zero_add _)
      · intro hfailed
        obtain ⟨records, htaken, hfiles⟩ := h.files hfailed
        rw [hworker] at htaken
        refine ⟨records ++ [record], htaken.trans (List.append_nil _).symm, ?_⟩
        show writeRecord config s.files record = writeAll config files (records ++ [record])
        rw [hfiles, writeAll, writeAll, List.foldl_append]
        rfl
    case h_2 fault left _ =>
      obtain rfl := Option.some.inj hstep
      refine ⟨⟨h.order, h.bounded, h.closed, ?_, ?_, ?_, ?_, ?_, h.fitting⟩,
        List.Subset.refl _, List.subset_append_left _ _⟩
      · intro hexited
        cases hexited
      · show UInt64.ofNat s.taken.length = s.written + UInt64.ofNat (0 + (s.lost ++ [record]).length + 0)
        rw [hcounted, List.length_append]
        rfl
      · intro hfailed
        cases hfailed
      · intro lost hmem
        rcases List.mem_append.mp hmem with hmem | hmem
        · exact List.mem_append_left _ (h.reported hmem)
        · rw [List.mem_singleton.mp hmem]
          exact List.mem_append_right _ List.mem_cons_self
      · intro hfailed
        cases hfailed
  case h_3 hworker =>
    rw [hworker] at hcounted
    obtain rfl := Option.some.inj hstep
    refine ⟨⟨h.order, h.bounded, h.closed, ?_, ?_, h.lost, h.reported, ?_, h.fitting⟩,
      List.Subset.refl _, List.Subset.refl _⟩
    · intro hexited
      cases hexited
    · show UInt64.ofNat s.taken.length = s.written + 1 + UInt64.ofNat (0 + s.lost.length + 0)
      rw [hcounted, UInt64.add_assoc, Nat.zero_add]
      show _ = s.written + (UInt64.ofNat 1 + UInt64.ofNat s.lost.length)
      rw [← UInt64.ofNat_add]
      rfl
    · intro hfailed
      obtain ⟨records, htaken, hfiles⟩ := h.files hfailed
      rw [hworker] at htaken
      exact ⟨records, htaken, hfiles⟩
  case h_4 => cases hstep

omit [Platform] in
theorem Queued.drop (h : Queued config files s) :
    Queued config files { s with dropped := s.dropped + 1 } :=
  ⟨h.order, h.bounded, h.closed, h.ended, h.counted, h.lost, h.reported, h.files, h.fitting⟩

theorem Queued.examine (h : Queued config files s) {severity : Severity} {encoded : Bytes}
    (hstep : Diagnostics.examine config s severity encoded = (s', t')) :
    Queued config files s' ∧ Settled config s' t' ∧ Extends s s' := by
  have hsame : Extends s s := ⟨List.Subset.refl _, List.Subset.refl _⟩
  unfold Diagnostics.examine at hstep
  by_cases hlarge : config.maximumRecordBytes < encoded.length ∨ config.rotationBytes < encoded.length
  · rw [if_pos hlarge] at hstep
    obtain ⟨rfl, rfl⟩ := Prod.mk.inj hstep
    refine ⟨h.drop, ?_, hsame.enqueued, hsame.reports⟩
    split_ifs with hlow
    · exact hlow
    · trivial
  rw [if_neg hlarge] at hstep
  by_cases hpath : config.path = []
  · rw [if_pos hpath] at hstep
    obtain ⟨rfl, rfl⟩ := Prod.mk.inj hstep
    refine ⟨h, ?_, hsame⟩
    split_ifs with hlow
    · exact hlow
    · trivial
  · rw [if_neg hpath] at hstep
    obtain ⟨rfl, rfl⟩ := Prod.mk.inj hstep
    rw [not_or, not_lt, not_lt] at hlarge
    exact ⟨h, hlarge.2, hsame⟩

theorem Queued.offer (h : Queued config files s) {severity : Severity} {encoded : Bytes}
    (ht : encoded.length ≤ config.rotationBytes)
    (hstep : Diagnostics.offer config s severity encoded = (s', t')) :
    Queued config files s' ∧ Settled config s' t' ∧ Extends s s' := by
  have hsame : Extends s s := ⟨List.Subset.refl _, List.Subset.refl _⟩
  unfold Diagnostics.offer at hstep
  by_cases hfull : s.accepting = false ∨ config.queueCapacity ≤ s.queue.length
  · rw [if_pos hfull] at hstep
    by_cases hlow : lowSeverity severity = true
    · rw [if_pos hlow] at hstep
      obtain ⟨rfl, rfl⟩ := Prod.mk.inj hstep
      exact ⟨h.drop, hlow, hsame.enqueued, hsame.reports⟩
    · rw [if_neg hlow] at hstep
      obtain ⟨rfl, rfl⟩ := Prod.mk.inj hstep
      refine ⟨h.drop.report _, .inl ?_, hsame.enqueued, List.subset_append_left _ _⟩
      exact List.mem_append_right _ (List.mem_singleton_self _)
  · rw [if_neg hfull] at hstep
    obtain ⟨rfl, rfl⟩ := Prod.mk.inj hstep
    rw [not_or, not_le, Bool.not_eq_false] at hfull
    refine ⟨⟨?_, ?_, h.closed, ?_, h.counted, h.lost, h.reported, h.files, ?_⟩,
      List.mem_append_right _ (List.mem_singleton_self _), List.subset_append_left _ _, hsame.reports⟩
    · show s.enqueued ++ [encoded] = s.taken ++ (s.queue ++ [encoded])
      rw [h.order, List.append_assoc]
    · show (s.queue ++ [encoded]).length ≤ config.queueCapacity
      rw [List.length_append, List.length_singleton]
      exact hfull.2
    · intro hexited
      have hopen := h.closed (h.ended hexited).1
      rw [hfull.1] at hopen
      cases hopen
    · show ∀ record ∈ s.enqueued ++ [encoded], record.length ≤ config.rotationBytes
      rw [List.forall_mem_append, List.forall_mem_singleton]
      exact ⟨h.fitting, ht⟩

/-- **What a section keeps.** -/
theorem Queued.step (h : Queued config files s) {input : Outside} (ht : Settled config s t)
    (hstep : nextSection config s t input = some (s', t')) :
    Queued config files s' ∧ Settled config s' t' ∧ Extends s s' := by
  have hsame : Extends s s := ⟨List.Subset.refl _, List.Subset.refl _⟩
  cases t with
  | run =>
    obtain ⟨s₁, hadvance, heq⟩ := Option.map_eq_some_iff.mp hstep
    obtain ⟨rfl, rfl⟩ := Prod.mk.inj heq
    obtain ⟨hqueued, hextends⟩ := h.advance hadvance
    exact ⟨hqueued, trivial, hextends⟩
  | write severity event fields =>
    simp only [nextSection, beginWrite, Option.some.injEq] at hstep
    split_ifs at hstep
    · obtain ⟨rfl, rfl⟩ := Prod.mk.inj hstep
      exact ⟨h, trivial, hsame⟩
    split at hstep
    · obtain ⟨rfl, rfl⟩ := Prod.mk.inj hstep
      exact ⟨h, trivial, hsame⟩
    · exact h.examine hstep
  | oversized severity encoded =>
    obtain ⟨rfl, rfl⟩ := Prod.mk.inj (Option.some.inj hstep)
    refine ⟨h.report _, .inr ⟨input.clock, ?_⟩, extends_report _ _⟩
    exact List.mem_append_right _ (List.mem_singleton_self _)
  | unlogged severity encoded =>
    obtain ⟨rfl, rfl⟩ := Prod.mk.inj (Option.some.inj hstep)
    refine ⟨h.report _, .inl ?_, extends_report _ _⟩
    exact List.mem_append_right _ (List.mem_singleton_self _)
  | offering severity encoded => exact h.offer ht (Option.some.inj hstep)
  | pushed severity encoded =>
    obtain ⟨rfl, rfl⟩ := Prod.mk.inj (Option.some.inj hstep)
    exact ⟨⟨h.order, h.bounded, h.closed, h.ended, h.counted, h.lost, h.reported, h.files, h.fitting⟩,
      ht, hsame.enqueued, hsame.reports⟩
  | shutdown =>
    simp only [nextSection] at hstep
    split_ifs at hstep
    · obtain ⟨rfl, rfl⟩ := Prod.mk.inj (Option.some.inj hstep)
      exact ⟨h, trivial, hsame⟩
    · obtain ⟨rfl, rfl⟩ := Prod.mk.inj (Option.some.inj hstep)
      exact ⟨⟨h.order, h.bounded, fun _ => rfl, fun hexited => ⟨rfl, (h.ended hexited).2⟩, h.counted,
        h.lost, h.reported, h.files, h.fitting⟩, trivial, hsame.enqueued, hsame.reports⟩
  | joining =>
    simp only [nextSection] at hstep
    split_ifs at hstep
    obtain ⟨rfl, rfl⟩ := Prod.mk.inj (Option.some.inj hstep)
    exact ⟨h, trivial, hsame⟩
  | done severity encoded fate => cases hstep
  | threw e => cases hstep
  | ended => cases hstep

/-! ### Runs -/

/-- `accepted_` does not count the record of the call yet. -/
def Call.uncounted : Call → Bool
  | .pushed _ _ => true
  | _ => false

theorem advance_same {input : Outside} (hstep : advance config s input = some s') :
    s'.accepted = s.accepted ∧ s'.enqueued = s.enqueued := by
  unfold advance at hstep
  split at hstep
  · split at hstep
    · obtain rfl := Option.some.inj hstep
      exact ⟨rfl, rfl⟩
    · split_ifs at hstep
      obtain rfl := Option.some.inj hstep
      exact ⟨rfl, rfl⟩
  · split at hstep
    · obtain rfl := Option.some.inj hstep
      exact ⟨rfl, rfl⟩
    · obtain rfl := Option.some.inj hstep
      exact ⟨rfl, rfl⟩
  · obtain rfl := Option.some.inj hstep
    exact ⟨rfl, rfl⟩
  · cases hstep

theorem step_counts {input : Outside} (hstep : nextSection config s t input = some (s', t')) :
    s'.accepted + UInt64.ofNat (t'.uncounted.toNat + s.enqueued.length) =
      s.accepted + UInt64.ofNat (t.uncounted.toNat + s'.enqueued.length) := by
  cases t with
  | run =>
    obtain ⟨s₁, hadvance, heq⟩ := Option.map_eq_some_iff.mp hstep
    obtain ⟨rfl, rfl⟩ := Prod.mk.inj heq
    obtain ⟨haccepted, henqueued⟩ := advance_same hadvance
    rw [haccepted, henqueued]
  | write severity event fields =>
    simp only [nextSection, beginWrite, Option.some.injEq] at hstep
    split_ifs at hstep
    · obtain ⟨rfl, rfl⟩ := Prod.mk.inj hstep
      rfl
    split at hstep
    · obtain ⟨rfl, rfl⟩ := Prod.mk.inj hstep
      rfl
    · unfold examine at hstep
      by_cases hlow : lowSeverity severity = true
      · simp only [hlow, if_true] at hstep
        split_ifs at hstep <;> obtain ⟨rfl, rfl⟩ := Prod.mk.inj hstep <;> rfl
      · simp only [hlow] at hstep
        split_ifs at hstep <;> obtain ⟨rfl, rfl⟩ := Prod.mk.inj hstep <;> rfl
  | oversized severity encoded =>
    obtain ⟨rfl, rfl⟩ := Prod.mk.inj (Option.some.inj hstep)
    rfl
  | unlogged severity encoded =>
    obtain ⟨rfl, rfl⟩ := Prod.mk.inj (Option.some.inj hstep)
    rfl
  | offering severity encoded =>
    simp only [nextSection, offer, Option.some.injEq] at hstep
    split_ifs at hstep
    · obtain ⟨rfl, rfl⟩ := Prod.mk.inj hstep
      rfl
    · obtain ⟨rfl, rfl⟩ := Prod.mk.inj hstep
      rfl
    · obtain ⟨rfl, rfl⟩ := Prod.mk.inj hstep
      show s.accepted + UInt64.ofNat (1 + s.enqueued.length) =
        s.accepted + UInt64.ofNat (0 + (s.enqueued ++ [encoded]).length)
      rw [List.length_append, List.length_singleton, Nat.zero_add, Nat.add_comm]
  | pushed severity encoded =>
    obtain ⟨rfl, rfl⟩ := Prod.mk.inj (Option.some.inj hstep)
    show s.accepted + 1 + UInt64.ofNat (0 + s.enqueued.length) =
      s.accepted + UInt64.ofNat (1 + s.enqueued.length)
    rw [Nat.zero_add, UInt64.ofNat_add, UInt64.add_assoc]
    rfl
  | shutdown =>
    simp only [nextSection] at hstep
    split_ifs at hstep <;> obtain ⟨rfl, rfl⟩ := Prod.mk.inj (Option.some.inj hstep) <;> rfl
  | joining =>
    simp only [nextSection] at hstep
    split_ifs at hstep
    obtain ⟨rfl, rfl⟩ := Prod.mk.inj (Option.some.inj hstep)
    rfl
  | done severity encoded fate => cases hstep
  | threw e => cases hstep
  | ended => cases hstep

omit [Platform] in
theorem countP_split (pre post : List Call) (t : Call) :
    (pre ++ t :: post).countP Call.uncounted =
      (pre ++ post).countP Call.uncounted + t.uncounted.toNat := by
  rw [List.countP_append, List.countP_cons, List.countP_append, Nat.add_assoc]
  cases t.uncounted <;> rfl

variable {c : Config State Call}

theorem reachable_counts (h : Reachable (logger config) always (started config files) c) :
    c.shared.accepted + UInt64.ofNat (c.threads.countP Call.uncounted) =
      UInt64.ofNat c.shared.enqueued.length := by
  apply Reachable.invariant (I := fun c => c.shared.accepted +
    UInt64.ofNat (c.threads.countP Call.uncounted) = UInt64.ofNat c.shared.enqueued.length) ?_ ?_ h
  · unfold started
    split_ifs <;> rfl
  · intro c c' _ hcounts hchange
    cases hchange with
    | @start t hstarts =>
      have hidle : t.uncounted = false := by
        cases t <;> first | rfl | cases hstarts
      show c.shared.accepted + UInt64.ofNat ((c.threads ++ [t]).countP Call.uncounted) =
        UInt64.ofNat c.shared.enqueued.length
      rw [List.countP_append, List.countP_singleton, hidle]
      exact hcounts
    | @move pre post t t' s input hthreads _ hstep =>
      have hsection := step_counts hstep
      show s.accepted + UInt64.ofNat ((pre ++ t' :: post).countP Call.uncounted) =
        UInt64.ofNat s.enqueued.length
      rw [hthreads, countP_split, UInt64.ofNat_add] at hcounts
      rw [countP_split, UInt64.ofNat_add]
      rw [UInt64.ofNat_add, UInt64.ofNat_add] at hsection
      grind

theorem reachable_queued (h : Reachable (logger config) always (started config files) c) :
    Queued config files c.shared ∧ ∀ t ∈ c.threads, Settled config c.shared t := by
  apply Reachable.rule (L := Settled config) ?_ ?_ ?_ ?_ h
  · refine ⟨rfl, Nat.zero_le _, ?_, ?_, rfl, fun _ => rfl, List.nil_subset _, fun _ => ⟨[], rfl, rfl⟩,
      List.forall_mem_nil _⟩
    · intro hstopping
      cases hstopping
    · intro hexited
      cases hexited
  · intro t ht
    unfold started at ht
    split_ifs at ht
    · cases ht
    · rw [List.mem_singleton.mp ht]
      trivial
  · intro s t _ _
    cases t <;> trivial
  · intro s t input s' t' hs ht _ hstep
    obtain ⟨hqueued, hsettled, hextends⟩ := hs.step ht hstep
    exact ⟨hqueued, hsettled, fun u hu => hu.extends hextends⟩

/-- What has become of the records once the worker has ended. -/
structure Accounted (config : LoggerConfig) (s : State) : Prop where
  drained : s.queue = []
  order : s.taken = s.enqueued
  counted : s.accepted = UInt64.ofNat s.enqueued.length ∧
    s.accepted = s.written + UInt64.ofNat s.lost.length
  reported : s.lost ⊆ s.reports
  kept : s.failed = false → ∃ n, logText config s.files = (s.enqueued.drop n).flatten

/-- **Every accepted record was given to the log once, in order**, when the worker has ended and no call
has still to count its record: it was written, or it is on the error stream; where no write failed, the
logs together are a suffix of the accepted records. -/
theorem records_accounted (hvalid : config.Valid) (hpath : files config.path = none)
    (hrotated : ∀ i, files (rotatedName config.path (i + 1)) = none)
    (h : Reachable (logger config) always (started config files) c)
    (hended : c.shared.worker = .exited) (hquiet : c.threads.countP Call.uncounted = 0) :
    Accounted config c.shared := by
  obtain ⟨hqueued, -⟩ := reachable_queued h
  have hdrained := (hqueued.ended hended).2
  have horder : c.shared.enqueued = c.shared.taken := by
    rw [hqueued.order, hdrained, List.append_nil]
  have haccepted : c.shared.accepted = UInt64.ofNat c.shared.enqueued.length := by
    have hcounts := reachable_counts h
    rw [hquiet] at hcounts
    exact (UInt64.add_zero _).symm.trans hcounts
  refine ⟨hdrained, horder.symm, ⟨haccepted, ?_⟩, hqueued.reported, ?_⟩
  · have hcounted := hqueued.counted
    rw [hended] at hcounted
    rw [haccepted, horder, hcounted]
    exact congrArg (fun n => c.shared.written + UInt64.ofNat n) (Nat.zero_add _)
  · intro hfailed
    obtain ⟨records, htaken, hfiles⟩ := hqueued.files hfailed
    rw [hended] at htaken
    have hrecords : c.shared.enqueued = records := by
      rw [horder, htaken]
      exact List.append_nil _
    have hfitting := hqueued.fitting
    rw [hrecords] at hfitting
    obtain ⟨dropped, rotated, current, hkept⟩ :=
      Kept.writeAll hvalid.rotationFiles.1 hpath hrotated hfitting
    refine ⟨dropped.length, ?_⟩
    rw [hfiles, hrecords]
    exact hkept.logText

/-- **A warning or an error does not vanish**: when its call has returned, it is in the queue or was taken
from it, or it is on the error stream, or a line there says that one of its size was rejected. -/
theorem warnings_visible (h : Reachable (logger config) always (started config files) c)
    {severity : Severity} {encoded : Bytes} {fate : Fate}
    (hdone : .done severity encoded fate ∈ c.threads) (hhigh : lowSeverity severity = false) :
    encoded ∈ c.shared.taken ++ c.shared.queue ∨ encoded ∈ c.shared.reports ∨
      ∃ clock, rejectedLine clock encoded.length ∈ c.shared.reports := by
  obtain ⟨hqueued, hsettled⟩ := reachable_queued h
  have hfate := hsettled _ hdone
  cases fate with
  | queued =>
    left
    rw [← hqueued.order]
    exact hfate
  | reported => exact .inr hfate
  | dropped =>
    have hlow : lowSeverity severity = true := hfate
    rw [hhigh] at hlow
    cases hlow

end

section samples
local instance queuePlatform : Platform where
  toChars _ := []
  bucketOrder keys := keys
  bucketOrder_perm _ := .refl _

def sampleLog : LoggerConfig where
  path := "log"

theorem sampleLog_valid : sampleLog.Valid := ⟨by decide, by decide, by decide, by decide⟩

def noFiles : FileSystem := fun _ => none

/-- A thread runs some sections, and no write fails. -/
def moves (k n : Nat) : List (Event Call Outside) := List.replicate n (.move k ⟨7, none⟩)

/-- An error is written, and the logger is shut down. -/
def loggedEvents : List (Event Call Outside) :=
  .start (.write .error "store_failed" (.object [])) :: moves 1 3 ++ .start .shutdown :: moves 2 1 ++
    moves 0 4 ++ moves 2 1

theorem records_accounted_sample : ∃ c, run (logger sampleLog) (started sampleLog noFiles) loggedEvents =
    some c ∧ c.shared.enqueued.length = 1 ∧ Accounted sampleLog c.shared := by
  have hsome : (run (logger sampleLog) (started sampleLog noFiles) loggedEvents).any (fun c =>
      c.shared.enqueued.length == 1 && c.shared.worker == .exited &&
        c.threads.countP Call.uncounted == 0) = true := by decide +kernel
  obtain ⟨c, hrun, hstate⟩ := (Option.any_eq_true _ _).mp hsome
  rw [Bool.and_eq_true, Bool.and_eq_true, beq_iff_eq, beq_iff_eq, beq_iff_eq] at hstate
  exact ⟨c, hrun, hstate.1.1, records_accounted sampleLog_valid rfl (fun _ => rfl)
    (reachable_run hrun) hstate.1.2 hstate.2⟩

/-- The error, where it is done. -/
def Call.isError : Call → Bool
  | .done .error _ _ => true
  | _ => false

theorem eq_error {t : Call} (h : t.isError = true) : ∃ encoded fate, t = .done .error encoded fate := by
  cases t with
  | done severity encoded fate =>
    cases severity with
    | error => exact ⟨encoded, fate, rfl⟩
    | _ => cases h
  | _ => cases h

theorem warnings_visible_sample : ∃ c encoded fate,
    run (logger sampleLog) (started sampleLog noFiles) loggedEvents = some c ∧
      .done .error encoded fate ∈ c.threads ∧
        (encoded ∈ c.shared.taken ++ c.shared.queue ∨ encoded ∈ c.shared.reports ∨
          ∃ clock, rejectedLine clock encoded.length ∈ c.shared.reports) := by
  have hsome : (run (logger sampleLog) (started sampleLog noFiles) loggedEvents).any (fun c =>
      c.threads.any Call.isError) = true := by decide +kernel
  obtain ⟨c, hrun, hany⟩ := (Option.any_eq_true _ _).mp hsome
  obtain ⟨t, ht, herror⟩ := List.any_eq_true.mp hany
  obtain ⟨encoded, fate, rfl⟩ := eq_error herror
  exact ⟨c, encoded, fate, hrun, ht, warnings_visible (reachable_run hrun) ht rfl⟩

end samples

end ContextHmi.Diagnostics
