import ContextHmi.Engine.Settling
import ContextHmi.Library.Fifo
import ContextHmi.Library.Interleave
import ContextHmi.Runtime.Generations
import ContextHmi.Runtime.Interpret
import ContextHmi.Storage.Recovery

/-!
# The saved views

`publish_view`, `Runtime::reconcile`, `apply_model_change` and the restoring of saved tasks, as
sections over the views the service keeps. A publisher takes its number before it takes the locks and
gives its view back when the journal fails; a reconciliation works on copies of the view and of the
model, and commits where neither has changed; a model change revises every view there is.

* `step_cases` : what a section can do to the saved views.
-/

namespace ContextHmi.Runtime.Views

open Outcome Interleave

section
variable [Platform]

/-- What the sections share. -/
structure Shared where
  generations : Generations
  activeScenario : Bytes
  activeModelPath : Bytes
  views : Fifo Bytes Json
  viewSequence : Nat

/-- `maximum_saved_views`; the build may be a constrained one. -/
def maximumSavedViews (constrained : Bool) : Nat := if constrained then 24 else 64

/-- The members the runtime sets of a view it keeps. -/
def stamped (service : Service) (id : Bytes) (generation : Nat) (view : Json) : Json :=
  view.setFields [("view_id", .str id), ("session_id", .str service.sessionId),
    ("context_generation", generationJson generation)]

/-- A view is kept, as the latest; a full store forgets the oldest. -/
def save (constrained : Bool) (views : Fifo Bytes Json) (id : Bytes) (view : Json) :
    Fifo Bytes Json :=
  (views.evict (maximumSavedViews constrained)).push id view

/-! ### Restoring -/

/-- The journal a start opened. -/
structure OpenedJournal where
  config : Storage.JournalConfig
  entry : Storage.Entry
  journal : Storage.Journal
  opened : (Storage.openJournal config entry).1 = .ok journal

/-- `Journal::recent`. -/
def recentRecords (journal : Storage.Journal) (limit : Nat) : List Storage.JournalRecord :=
  journal.recent.rtake limit

/-- The records a start reads, if it has a journal. -/
def savedRecords : Option OpenedJournal → List Storage.JournalRecord
  | none => []
  | some opened => recentRecords opened.journal 512

omit [Platform] in
theorem savedRecords_distinct (journal : Option OpenedJournal) :
    (savedRecords journal).Pairwise fun r r' => r.sequence ≠ r'.sequence := by
  cases journal with
  | none => exact .nil
  | some opened =>
    obtain ⟨first, hnumbered⟩ := Storage.numbered_of_openJournal opened.opened
    have hlength : (recentRecords opened.journal 512).length ≤ 512 := by
      rw [recentRecords, List.rtake, List.length_drop]
      omega
    exact (hnumbered.drop (Nat.sub_le _ _)).distinct (hlength.trans (by decide))

def restoredId (service : Service) (sequence : UInt64) : Bytes :=
  service.sessionId ++ "-restored-view-" ++ Bytes.decimal sequence.toNat

/-- The view a saved task is restored as; other records and those of other models are passed over. -/
def restoredView (service : Service) (model : AcceptedModel) (record : Storage.JournalRecord) :
    Result (Option Json) :=
  match record.kind == "saved_task", record.payload.find? "task" with
  | true, some task => if ¬ task.isObject then .ok none else do
    let modelId ← task.valueString "model_id" []
    if modelId ≠ model.index.modelId then return none
    else do
      let view ← resolveTask model.json (task.setField "model_revision" model.index.revision)
      return some (stamped service (restoredId service record.sequence) 0 view)
  | _, _ => .ok none

/-- One turn of `restore_journal_records`: an exception only rejects the record. -/
def restoreRecord (service : Service) (constrained : Bool) (model : AcceptedModel)
    (views : Fifo Bytes Json) (record : Storage.JournalRecord) : Fifo Bytes Json :=
  match restoredView service model record with
  | .ok (some view) => save constrained views (restoredId service record.sequence) view
  | _ => views

/-- `restore_journal_records`. -/
def restoreJournalRecords (service : Service) (constrained : Bool) (model : AcceptedModel)
    (journal : Option OpenedJournal) : Fifo Bytes Json :=
  (savedRecords journal).foldl (restoreRecord service constrained model) ⟨[], []⟩

/-! ### Sections -/

/-- Who publishes a view. -/
inductive Caller where
  | resolve
  | interpret

def Caller.staleContext : Caller → Error
  | .resolve => .domain "stale_context" "active model changed while publishing view"
  | .interpret => .inference "stale_context" "active model changed while publishing view"

/-- Where a call is. -/
inductive Thread where
  | asked (caller : Caller) (task : Json)
  | publishing (caller : Caller) (snapshot : Snapshot) (view : Json)
  | numbered (caller : Caller) (snapshot : Snapshot) (sequence : Nat) (view : Json)
  | recording (id : Bytes) (view : Json)
  | rollback (id : Bytes) (error : Error)
  | published (view : Json)
  | reconcile (supplied : Json)
  | canonical (view : Json)
  | revised (view : Json) (snapshot : Snapshot) (revised : Json)
  | reconciled (view : Json)
  | change (cause : Cause) (candidate : AcceptedModel) (scenario path : Bytes)
  | changed
  | failed (error : Error)

/-- The snapshot of a call, and the view it resolves. -/
def resolve (s : Shared) (caller : Caller) (task : Json) : Thread :=
  match resolveTask s.generations.active.model.json task with
  | .error e => .failed e
  | .ok view => .publishing caller s.generations.active view

/-- The first locked section of `publish_view`. -/
def insertView (service : Service) (constrained : Bool) (s : Shared) (caller : Caller)
    (snapshot : Snapshot) (sequence : Nat) (view : Json) : Shared × Thread :=
  if s.generations.active.generation ≠ snapshot.generation then (s, .failed caller.staleContext)
  else
    let id := viewId service sequence
    let view := stamped service id snapshot.generation view
    ({ s with views := save constrained s.views id view }, .recording id view)

/-- `trusted_view`: `null` is the answer to a view that differs from the one that is kept. -/
def trustedView (s : Shared) (supplied : Json) : Option Json :=
  match supplied.find? "view_id" with
  | some (.str id) => match s.views.find? id with
    | none => none
    | some view => if supplied.size ≠ 1 ∧ ¬ supplied.eqv view then some .null else some view
  | _ => none

/-- `Runtime::reconcile`, up to the view it works on. -/
def readCanonical (s : Shared) (supplied : Json) : Thread :=
  match trustedView s supplied with
  | none => .failed (.domain "unknown_view" "view_id is not a known server view")
  | some .null =>
    .failed (.domain "view_tampered" "supplied view differs from the trusted server view")
  | some view => .canonical view

/-- Up to the revised view: the snapshot and `reconcile_view`. -/
def revise (s : Shared) (view : Json) : Thread :=
  match reconcileView s.generations.active.model.json view with
  | .error e => .failed e
  | .ok revised => .revised view s.generations.active revised

/-- The commit. -/
def commit (service : Service) (s : Shared) (view : Json) (snapshot : Snapshot) (revised : Json) :
    Shared × Thread :=
  if s.generations.active.generation ≠ snapshot.generation then
    (s, .failed (.domain "stale_context" "active model changed while reconciling view"))
  else match (view.atKey "view_id").bind Json.getString with
    | .error e => (s, .failed e)
    | .ok id => match s.views.find? id with
      | none => (s, .failed (.domain "lost_update" "view changed while reconciling"))
      | some stored =>
        if ¬ stored.eqv view then
          (s, .failed (.domain "lost_update" "view changed while reconciling"))
        else
          let revised := stamped service id snapshot.generation revised
          ({ s with views := s.views.set id revised }, .reconciled revised)

def replacementIssue (details : Bytes) : Json :=
  .object [("code", .str "model-replacement-requires-new-request"), ("severity", .str "error"),
    ("message", .str details)]

/-- A saved view that could not be reconciled with the model that replaces its own. -/
def refused (view : Json) (generation : Nat) (details : Bytes) : Json :=
  let issues := match view.find? "issues" with
    | some (.arr issues) => issues
    | _ => []
  view.setFields [("status", .str "needs-review"),
    ("issues", .arr (issues ++ [replacementIssue details])),
    ("context_generation", generationJson generation)]

/-- What a model change makes of one saved view. -/
def replaced (service : Service) (candidate : AcceptedModel) (generation : Nat) (id : Bytes)
    (view : Json) : Result Json :=
  match reconcileView candidate.json view with
  | .ok revised => .ok (stamped service id generation revised)
  | .error (.domain _ details) => .ok (refused view generation details)
  | .error e => .error e

/-- The loop over the saved views. An exception that is not a `DomainError` leaves it half-way. -/
def replaceViews (service : Service) (candidate : AcceptedModel) (generation : Nat) :
    List (Bytes × Json) → Fifo Bytes Json → Fifo Bytes Json × Option Error
  | [], views => (views, none)
  | (id, view) :: rest, views => match replaced service candidate generation id view with
    | .error e => (views, some e)
    | .ok view => replaceViews service candidate generation rest (views.set id view)

/-- `apply_model_change`, up to where it releases the locks. -/
def applyModelChange (service : Service) (s : Shared) (cause : Cause) (candidate : AcceptedModel)
    (scenario path : Bytes) : Shared × Thread :=
  match s.generations.checkChange cause candidate with
  | .error e => (s, .failed e)
  | .ok () =>
    let generation := s.generations.active.generation + 1
    match replaceViews service candidate generation (bucketed s.views.entries) s.views with
    | (views, some e) => ({ s with views }, .failed e)
    | (views, none) =>
      ({ s with
        generations := s.generations.advance candidate
        activeScenario := scenario
        activeModelPath := path
        views }, .changed)

/-- The next section of a call; the input is how the journal's append ends. A generation and a view's
number have 64 bits, and a run does not go through all of them. -/
def nextSection (service : Service) (constrained : Bool) (s : Shared) (t : Thread)
    (append : Result Unit) : Option (Shared × Thread) :=
  match t with
  | .asked caller task => some (s, resolve s caller task)
  | .publishing caller snapshot view =>
    if s.viewSequence + 1 < 2 ^ 64 then
      let sequence := s.viewSequence + 1
      some ({ s with viewSequence := sequence }, .numbered caller snapshot sequence view)
    else none
  | .numbered caller snapshot sequence view =>
    some (insertView service constrained s caller snapshot sequence view)
  | .recording id view => some (s, match append with
    | .error e => .rollback id e
    | .ok () => .published view)
  | .rollback id e => some ({ s with views := s.views.remove id }, .failed e)
  | .reconcile supplied => some (s, readCanonical s supplied)
  | .canonical view => some (s, revise s view)
  | .revised view snapshot revised => some (commit service s view snapshot revised)
  | .change cause candidate scenario path =>
    if s.generations.active.generation + 1 < 2 ^ 64 then
      some (applyModelChange service s cause candidate scenario path)
    else none
  | .published _ | .reconciled _ | .changed | .failed _ => none

/-- The calls. -/
def begins : Thread → Bool
  | .asked .. | .reconcile _ | .change .. => true
  | _ => false

def views (service : Service) (constrained : Bool) : Program Shared Thread (Result Unit) :=
  ⟨begins, nextSection service constrained⟩

/-- The runtime after `start`. -/
def started (service : Service) (constrained : Bool) (model : AcceptedModel) (scenario path : Bytes)
    (journal : Option OpenedJournal) : Config Shared Thread where
  shared := {
    generations := .start model
    activeScenario := scenario
    activeModelPath := path
    views := restoreJournalRecords service constrained model journal
    viewSequence := 0 }
  threads := []

/-! ### What a section does -/

/-- What a section of a call does to the shared state and to the call. -/
inductive Step (service : Service) (constrained : Bool) (s : Shared) :
    Thread → Shared → Thread → Prop where
  | failed (t : Thread) (e : Error) : Step service constrained s t s (.failed e)
  | resolved {caller : Caller} {task view : Json}
      (hview : resolveTask s.generations.active.model.json task = .ok view) :
      Step service constrained s (.asked caller task) s
        (.publishing caller s.generations.active view)
  | numbered (caller : Caller) (σ : Snapshot) (view : Json) :
      Step service constrained s (.publishing caller σ view)
        { s with viewSequence := s.viewSequence + 1 }
        (.numbered caller σ (s.viewSequence + 1) view)
  | inserted {caller : Caller} {σ : Snapshot} {n : Nat} {view kept : Json}
      (hactive : s.generations.active.generation = σ.generation)
      (hkept : kept = stamped service (viewId service n) σ.generation view) :
      Step service constrained s (.numbered caller σ n view)
        { s with views := save constrained s.views (viewId service n) kept }
        (.recording (viewId service n) kept)
  | recorded (id : Bytes) (view : Json) :
      Step service constrained s (.recording id view) s (.published view)
  | unrecorded (id : Bytes) (view : Json) (e : Error) :
      Step service constrained s (.recording id view) s (.rollback id e)
  | rolledBack (id : Bytes) (e : Error) :
      Step service constrained s (.rollback id e) { s with views := s.views.remove id } (.failed e)
  | read {supplied : Json} {id : Bytes} {view : Json} (hfound : s.views.find? id = some view) :
      Step service constrained s (.reconcile supplied) s (.canonical view)
  | revised {view revised : Json}
      (hrevised : reconcileView s.generations.active.model.json view = .ok revised) :
      Step service constrained s (.canonical view) s (.revised view s.generations.active revised)
  | committed {view stored revised : Json} {σ : Snapshot} {id : Bytes}
      (hactive : s.generations.active.generation = σ.generation)
      (hid : view.find? "view_id" = some (.str id)) (hstored : s.views.find? id = some stored)
      (hsame : stored.eqv view = true) :
      Step service constrained s (.revised view σ revised)
        { s with views := s.views.set id (stamped service id σ.generation revised) }
        (.reconciled (stamped service id σ.generation revised))
  | replaced {cause : Cause} {candidate : AcceptedModel} {scenario path : Bytes}
      {views : Fifo Bytes Json}
      (hbound : s.generations.active.generation + 1 < 2 ^ 64)
      (hcheck : s.generations.checkChange cause candidate = .ok ())
      (hviews : replaceViews service candidate (s.generations.active.generation + 1)
        (bucketed s.views.entries) s.views = (views, none)) :
      Step service constrained s (.change cause candidate scenario path)
        { s with
          generations := s.generations.advance candidate
          activeScenario := scenario
          activeModelPath := path
          views } .changed
  | aborted {cause : Cause} {candidate : AcceptedModel} {scenario path : Bytes}
      {views : Fifo Bytes Json} {e : Error}
      (hviews : replaceViews service candidate (s.generations.active.generation + 1)
        (bucketed s.views.entries) s.views = (views, some e)) :
      Step service constrained s (.change cause candidate scenario path) { s with views } (.failed e)

variable {service : Service} {constrained : Bool} {s s' : Shared} {t t' : Thread}

theorem trustedView_eq_some {supplied view : Json} (h : trustedView s supplied = some view)
    (hnull : view ≠ .null) : ∃ id, s.views.find? id = some view := by
  unfold trustedView at h
  split at h
  · rename_i id _
    split at h
    · cases h
    · rename_i stored hstored
      split_ifs at h
      · exact absurd (Option.some.inj h).symm hnull
      · obtain rfl := Option.some.inj h
        exact ⟨id, hstored⟩
  · cases h

/-- **What a section can do.** -/
theorem step_cases {append : Result Unit}
    (h : nextSection service constrained s t append = some (s', t')) :
    Step service constrained s t s' t' := by
  cases t with
  | asked caller task =>
    obtain ⟨rfl, rfl⟩ := Prod.mk.inj (Option.some.inj h)
    unfold resolve
    split
    · exact .failed _ _
    · exact .resolved ‹_›
  | publishing caller σ view =>
    simp only [nextSection] at h
    split_ifs at h
    obtain ⟨rfl, rfl⟩ := Prod.mk.inj (Option.some.inj h)
    exact .numbered caller σ view
  | numbered caller σ n view =>
    simp only [nextSection, insertView, Option.some.injEq] at h
    split_ifs at h with hstale
    · obtain ⟨rfl, rfl⟩ := Prod.mk.inj h
      exact .failed _ _
    · obtain ⟨rfl, rfl⟩ := Prod.mk.inj h
      exact .inserted (not_not.mp hstale) rfl
  | recording id view =>
    obtain ⟨rfl, rfl⟩ := Prod.mk.inj (Option.some.inj h)
    split
    · exact .unrecorded id view _
    · exact .recorded id view
  | rollback id e =>
    obtain ⟨rfl, rfl⟩ := Prod.mk.inj (Option.some.inj h)
    exact .rolledBack id e
  | reconcile supplied =>
    obtain ⟨rfl, rfl⟩ := Prod.mk.inj (Option.some.inj h)
    unfold readCanonical
    split
    · exact .failed _ _
    · exact .failed _ _
    · rename_i view hnull hfound
      obtain ⟨id, hid⟩ := trustedView_eq_some hfound hnull
      exact .read hid
  | canonical view =>
    obtain ⟨rfl, rfl⟩ := Prod.mk.inj (Option.some.inj h)
    unfold revise
    split
    · exact .failed _ _
    · exact .revised ‹_›
  | revised view σ revised =>
    simp only [nextSection, commit, Option.some.injEq] at h
    split_ifs at h with hstale
    · obtain ⟨rfl, rfl⟩ := Prod.mk.inj h
      exact .failed _ _
    · split at h
      · obtain ⟨rfl, rfl⟩ := Prod.mk.inj h
        exact .failed _ _
      · rename_i id hid
        obtain ⟨v, hv, hstring⟩ := bind_eq_ok.mp hid
        split at h
        · obtain ⟨rfl, rfl⟩ := Prod.mk.inj h
          exact .failed _ _
        · rename_i stored hstored
          split_ifs at h with hsame
          · obtain ⟨rfl, rfl⟩ := Prod.mk.inj h
            refine .committed (not_not.mp hstale) ?_ hstored hsame
            cases v with
            | str id' =>
              obtain rfl := Except.ok.inj hstring
              exact Json.atKey_eq_ok.mp hv
            | _ => cases hstring
          · obtain ⟨rfl, rfl⟩ := Prod.mk.inj h
            exact .failed _ _
  | change cause candidate scenario path =>
    simp only [nextSection, applyModelChange] at h
    split_ifs at h with hbound
    rw [Option.some.injEq] at h
    split at h
    · obtain ⟨rfl, rfl⟩ := Prod.mk.inj h
      exact .failed _ _
    · rename_i hcheck
      split at h
      · obtain ⟨rfl, rfl⟩ := Prod.mk.inj h
        exact .aborted ‹_›
      · obtain ⟨rfl, rfl⟩ := Prod.mk.inj h
        exact .replaced hbound hcheck ‹_›
  | published _ => cases h
  | reconciled _ => cases h
  | changed => cases h
  | failed _ => cases h

theorem section_cases {append : Result Unit}
    (h : (views service constrained).step s t append = some (s', t')) :
    Step service constrained s t s' t' :=
  @step_cases _ service constrained s s' t t' append h

end

end ContextHmi.Runtime.Views
