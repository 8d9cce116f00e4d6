import ContextHmi.Library.Interleave
import ContextHmi.Runtime.Generations
import ContextHmi.Runtime.Requests
import Mathlib.Logic.Function.Basic

/-!
# The watcher of the model file

`watch_models`, `select_scenario` and whoever writes the files, in any order. The watcher reads the
active path, asks for the time of the file, loads what it finds changed, compares and applies it, each at
a moment of its own; the first time it sees a path it only notes the time.

* `selection_kept`      : the model an operator selected stays, unless a rescan was overtaken;
* `selection_overridden` : such a rescan;
* `edits_read`          : an edit is read, unless its time was noted before it was;
* `edit_missed`         : such an edit.
-/

namespace ContextHmi.Runtime.Watcher

open Outcome Interleave

/-! ### Files -/

/-- A regular file; its time is counted from before all of them. -/
structure File where
  modified : Nat
  body : Bytes

/-- What stands at each path; `none` is nothing, a link, or no regular file. -/
abbrev Files := Bytes → Option File

abbrev kMaximumModelBytes : Nat := 1024 * 1024

/-- `read_file_bounded`; the host may fail to open the file. -/
def readFileBounded (file : Option File) (fails : Bool) : Result Bytes := do
  match file with
  | none => .error (.runtime "model file is missing or not a regular file")
  | some file =>
    throwIf (kMaximumModelBytes < file.body.length) (.runtime "model file is too large")
    throwIf (fails = true) (.runtime "could not open model file")
    return file.body

/-- `valid_id`. -/
def validId (id : Bytes) : Bool :=
  !id.isEmpty && id.length ≤ 128 && id.head?.any Bytes.isAlnum &&
    id.all fun c => Bytes.isAlnum c || c == 0x5f || c == 0x2e || c == 0x2d

/-- `models_dir / (id + ".json")`. -/
def scenarioPath (modelsDir id : Bytes) : Bytes :=
  if modelsDir = [] ∨ modelsDir.getLast? = some 0x2f then modelsDir ++ id ++ ".json"
  else modelsDir ++ "/" ++ id ++ ".json"

section
variable [Platform]

/-- `load_model_file` on the bytes of a file, with the index of the model. -/
def acceptBody (body : Bytes) : Result AcceptedModel :=
  match hload : loadModelFile body with
  | .error e => .error e
  | .ok model => match hindex : indexModel model with
    | .error e => .error e
    | .ok index => .ok ⟨model, index, hindex,
        (loadModelFile_accepted hload).elim fun accepted h => h ▸ accepted.isText⟩

/-- `load_model_file`. -/
def loadFile (file : Option File) (fails : Bool) : Result AcceptedModel :=
  (readFileBounded file fails).bind acceptBody

theorem acceptBody_of_loadFile {file : File} {fails : Bool} {model : AcceptedModel}
    (h : loadFile (some file) fails = .ok model) : acceptBody file.body = .ok model := by
  obtain ⟨body, hread, haccept⟩ := bind_eq_ok.mp h
  simp only [readFileBounded, bind_eq_ok, pure_eq_ok] at hread
  obtain ⟨_, _, _, _, rfl⟩ := hread
  exact haccept

/-! ### The watcher and the calls -/

/-- The variables of the watcher's loop. -/
structure Observed where
  path : Bytes
  time : Nat
  haveTime : Bool

/-- Where the watcher is in its loop. -/
inductive Position where
  | top (w : Observed)
  | pathRead (w : Observed) (path : Bytes)
  | inspected (w : Observed) (path : Bytes) (safe : Bool)
  /-- The time of the file, if there was no error. -/
  | timed (w : Observed) (path : Bytes) (modified : Option Nat)
  | rescanning (w : Observed) (path : Bytes)
  | comparing (w : Observed) (path : Bytes) (file : File) (candidate : AcceptedModel)
  | applying (w : Observed) (path : Bytes) (file : File) (candidate : AcceptedModel)
  /-- An iteration has ended. -/
  | waiting (w : Observed)

/-- One call of `load_model_file`, and the file it found. -/
structure Load where
  path : Bytes
  file : File

/-- What the calls share. The last five are history: the time of the last write of each path, the
readings of files, those that were applied, found equal, refused or counted, the path of the last
selection, and the last one since the watcher read the active path. -/
structure Shared where
  files : Files
  generations : Generations
  activeScenario : Bytes
  activePath : Bytes
  watcher : Position
  failures : Nat
  written : Bytes → Nat
  loads : List Load
  settled : List Load
  selected : Option Bytes
  overtaken : Option Bytes

/-- Where a call is. -/
inductive Thread where
  /-- The thread of the watcher. -/
  | watch
  | select (id : Bytes)
  | selecting (id path : Bytes) (file : File) (candidate : AcceptedModel)
  | selected
  | write (path : Bytes) (file : File)
  | remove (path : Bytes)
  | written
  | failed (e : Error)

/-- The model of a file becomes the active one. The saved views are replaced without an exception
(`replaced_isOk`). -/
def activate (s : Shared) (candidate : AcceptedModel) (scenario path : Bytes) (file : File) : Shared :=
  { s with
    generations := s.generations.advance candidate
    activeScenario := scenario
    activePath := path
    settled := ⟨path, file⟩ :: s.settled }

/-- `path(...).stem()`. -/
def stem (path : Bytes) : Bytes :=
  let name := (path.reverse.takeWhile (· ≠ 0x2f)).reverse
  match name.reverse.dropWhile (· ≠ 0x2e) with
  | [] => name
  | _ :: rest => if rest = [] ∨ name = ".." then name else rest.reverse

/-- The watcher's decision, once it has the time of the file. -/
def judge (s : Shared) (w : Observed) (path : Bytes) (modified : Option Nat) : Shared :=
  if path ≠ w.path then
    { s with watcher := .waiting ⟨path, modified.getD 0, modified.isSome⟩ }
  else match modified with
    | some time =>
      if w.haveTime then
        if time ≠ w.time then { s with watcher := .rescanning { w with time := time } path }
        else { s with watcher := .waiting w }
      else { s with watcher := .waiting { w with time := time, haveTime := true } }
    | none => { s with
        failures := s.failures + 1
        watcher := .waiting { w with haveTime := false } }

/-- A rescan's loading: a failure is counted. -/
def rescan (s : Shared) (w : Observed) (path : Bytes) (fails : Bool) : Shared :=
  match s.files path with
  | none => { s with failures := s.failures + 1, watcher := .waiting w }
  | some file => match loadFile (some file) fails with
    | .error _ => { s with
        failures := s.failures + 1
        loads := ⟨path, file⟩ :: s.loads
        settled := ⟨path, file⟩ :: s.settled
        watcher := .waiting w }
    | .ok candidate => { s with
        loads := ⟨path, file⟩ :: s.loads
        watcher := .comparing w path file candidate }

/-- The watcher's application of what it has loaded. -/
def applyRescan (s : Shared) (w : Observed) (path : Bytes) (file : File) (candidate : AcceptedModel) :
    Shared :=
  match s.generations.checkChange .fileRescan candidate with
  | .error _ => { s with
      failures := s.failures + 1
      settled := ⟨path, file⟩ :: s.settled
      watcher := .waiting w }
  | .ok () =>
    let s := activate s candidate (stem path) path file
    { s with watcher := .waiting w }

/-- The watcher's next section; `fails` is an error of the host. -/
def watch (s : Shared) (fails : Bool) : Shared :=
  match s.watcher with
  | .top w => { s with watcher := .pathRead w s.activePath, overtaken := none }
  | .pathRead w path =>
    { s with watcher := .inspected w path ((s.files path).isSome && !fails) }
  | .inspected w path safe =>
    let modified := if safe && !fails then (s.files path).map (·.modified) else none
    { s with watcher := .timed w path modified }
  | .timed w path modified => judge s w path modified
  | .rescanning w path => rescan s w path fails
  | .comparing w path file candidate =>
    if candidate.json.eqv s.generations.active.model.json then
      { s with settled := ⟨path, file⟩ :: s.settled, watcher := .waiting w }
    else { s with watcher := .applying w path file candidate }
  | .applying w path file candidate => applyRescan s w path file candidate
  | .waiting w => { s with watcher := .top w }

/-- `select_scenario`, up to the model it has loaded. -/
def select (modelsDir : Bytes) (s : Shared) (id : Bytes) (fails : Bool) : Shared × Thread :=
  if validId id = false then (s, .failed (.domain "invalid_scenario" "scenario id is invalid"))
  else
    let path := scenarioPath modelsDir id
    match s.files path with
    | none => (s, .failed (.domain "scenario_not_found" []))
    | some file => match loadFile (some file) fails with
      -- The details are the text of what was thrown.
      | .error _ => (s, .failed (.domain "scenario_not_found" []))
      | .ok candidate =>
        ({ s with loads := ⟨path, file⟩ :: s.loads }, .selecting id path file candidate)

/-- The next section of a call. A generation has 64 bits, and a run does not go through all of them. -/
def nextSection (modelsDir : Bytes) (s : Shared) (t : Thread) (fails : Bool) :
    Option (Shared × Thread) :=
  match t with
  | .watch => some (watch s fails, .watch)
  | .select id => some (select modelsDir s id fails)
  | .selecting id path file candidate =>
    let s := activate s candidate id path file
    some ({ s with selected := some path, overtaken := some path }, .selected)
  | .write path file =>
    some ({ s with
      files := Function.update s.files path (some file)
      written := Function.update s.written path file.modified }, .written)
  | .remove path => some ({ s with files := Function.update s.files path none }, .written)
  | .selected | .written | .failed _ => none

/-- The calls. -/
def begins : Thread → Bool
  | .select _ | .write _ _ | .remove _ => true
  | _ => false

def service (modelsDir : Bytes) : Program Shared Thread Bool := ⟨begins, nextSection modelsDir⟩

/-- The model file that `start` has loaded. -/
structure Opened where
  files : Files
  path : Bytes
  file : File
  model : AcceptedModel
  found : files path = some file
  loaded : acceptBody file.body = .ok model

/-- The service once its model is loaded. -/
def started (opened : Opened) : Config Shared Thread where
  shared := {
    files := opened.files
    generations := .start opened.model
    activeScenario := stem opened.path
    activePath := opened.path
    watcher := .top ⟨[], 0, false⟩
    failures := 0
    written := fun path => ((opened.files path).map (·.modified)).getD 0
    loads := [⟨opened.path, opened.file⟩]
    settled := [⟨opened.path, opened.file⟩]
    selected := none
    overtaken := none }
  threads := [.watch]

theorem judge_loads (s : Shared) (w : Observed) (path : Bytes) (modified : Option Nat) :
    (judge s w path modified).loads = s.loads ∧ (judge s w path modified).settled = s.settled := by
  unfold judge
  by_cases hpath : path ≠ w.path
  · rw [if_pos hpath]
    exact ⟨rfl, rfl⟩
  · rw [if_neg hpath]
    cases modified with
    | none => exact ⟨rfl, rfl⟩
    | some time =>
      dsimp only
      split_ifs <;> exact ⟨rfl, rfl⟩

theorem applyRescan_loads (s : Shared) (w : Observed) (path : Bytes) (file : File)
    (candidate : AcceptedModel) : (applyRescan s w path file candidate).loads = s.loads := by
  unfold applyRescan
  cases s.generations.checkChange .fileRescan candidate <;> rfl

/-! ### What an operator has selected -/

/-- The path the watcher has read, while it is in an iteration. -/
def Position.held : Position → Option Bytes
  | .top _ | .waiting _ => none
  | .pathRead _ path | .inspected _ path _ | .timed _ path _ | .rescanning _ path
  | .comparing _ path _ _ | .applying _ path _ _ => some path

/-- A reading, and the model it gave, that the watcher has still to deal with. -/
def Position.carries : Position → Option (Load × AcceptedModel)
  | .comparing _ path file candidate | .applying _ path file candidate =>
    some (⟨path, file⟩, candidate)
  | _ => none

/-- A reading that a selection has still to apply. -/
def Thread.carries : Thread → Option (Load × AcceptedModel)
  | .selecting _ path file candidate => some (⟨path, file⟩, candidate)
  | _ => none

/-- A rescan is not overtaken: where it changes the model, no other file was selected since the watcher
has read the active path. -/
def Unovertaken (s : Shared) (t : Thread) (_ : Bool) : Prop :=
  match t, s.watcher with
  | .watch, .applying _ path _ candidate => s.generations.checkChange .fileRescan candidate = .ok () →
    s.overtaken = none ∨ s.overtaken = some path
  | _, _ => True

/-- A reading of a file that gave a model. -/
def ReadAs (s : Shared) (load : Load) (model : AcceptedModel) : Prop :=
  load ∈ s.loads ∧ acceptBody load.file.body = .ok model

/-- What a selection keeps. -/
structure Kept (s : Shared) : Prop where
  selected : ∀ path, s.selected = some path → s.activePath = path
  overtaken : ∀ path, s.overtaken = some path → s.activePath = path
  held : s.overtaken = none → ∀ path, s.watcher.held = some path → s.activePath = path
  source : ∃ load, load.path = s.activePath ∧ ReadAs s load s.generations.active.model
  carried : ∀ load model, s.watcher.carries = some (load, model) → ReadAs s load model

/-- What a call carries was read. -/
def Carried (s : Shared) (t : Thread) : Prop :=
  ∀ load model, t.carries = some (load, model) → ReadAs s load model

variable {s s' : Shared} {t t' : Thread}

theorem Kept.moved (h : Kept s) (position : Position)
    (hheld : ∀ path, position.held = some path → s.watcher.held = some path)
    (hcarries : ∀ r, position.carries = some r → s.watcher.carries = some r)
    (failures : Nat) (settled : List Load) :
    Kept { s with failures := failures, settled := settled, watcher := position } :=
  ⟨h.selected, h.overtaken, fun hnone path hpath => h.held hnone path (hheld path hpath), h.source,
    fun load model hload => h.carried load model (hcarries _ hload)⟩

theorem Kept.waits (h : Kept s) (w : Observed) (failures : Nat) (settled : List Load) :
    Kept { s with failures := failures, settled := settled, watcher := .waiting w } := by
  refine h.moved (.waiting w) ?_ ?_ failures settled
  · intro path hpath
    cases hpath
  · intro load hload
    cases hload

theorem Kept.judge (h : Kept s) {w : Observed} {path : Bytes} {modified : Option Nat}
    (hwatcher : s.watcher = .timed w path modified) : Kept (Watcher.judge s w path modified) := by
  have hrescan : ∀ w', Kept { s with watcher := .rescanning w' path } := by
    intro w'
    refine h.moved (.rescanning w' path) ?_ ?_ s.failures s.settled
    · intro path' hpath
      rw [hwatcher]
      exact hpath
    · intro load hload
      cases hload
  unfold Watcher.judge
  by_cases hpath : path ≠ w.path
  · rw [if_pos hpath]
    exact h.waits _ s.failures s.settled
  · rw [if_neg hpath]
    cases modified with
    | none => exact h.waits _ (s.failures + 1) s.settled
    | some time =>
      show Kept (if w.haveTime then
        if time ≠ w.time then { s with watcher := .rescanning { w with time := time } path }
        else { s with watcher := .waiting w }
      else { s with watcher := .waiting { w with time := time, haveTime := true } })
      split_ifs
      · exact hrescan _
      · exact h.waits _ s.failures s.settled
      · exact h.waits _ s.failures s.settled

theorem Kept.rescan (h : Kept s) {w : Observed} {path : Bytes} {fails : Bool}
    (hwatcher : s.watcher = .rescanning w path) :
    Kept (Watcher.rescan s w path fails) ∧ s.loads ⊆ (Watcher.rescan s w path fails).loads := by
  have hsource : ∀ loads, s.loads ⊆ loads → ∃ load : Load, load.path = s.activePath ∧
      load ∈ loads ∧ acceptBody load.file.body = .ok s.generations.active.model := by
    intro loads hloads
    obtain ⟨load, hpath, hmem, hload⟩ := h.source
    exact ⟨load, hpath, hloads hmem, hload⟩
  cases hfile : s.files path with
  | none =>
    simp only [Watcher.rescan, hfile]
    exact ⟨h.waits w (s.failures + 1) s.settled, List.Subset.refl _⟩
  | some file =>
    have hloads := List.subset_cons_self (⟨path, file⟩ : Load) s.loads
    cases hload : loadFile (some file) fails with
    | error e =>
      simp only [Watcher.rescan, hfile, hload]
      refine ⟨⟨h.selected, h.overtaken, ?_, hsource _ hloads, ?_⟩, hloads⟩
      · intro _ path' hpath
        cases hpath
      · intro load model hcarries
        cases hcarries
    | ok candidate =>
      simp only [Watcher.rescan, hfile, hload]
      refine ⟨⟨h.selected, h.overtaken, ?_, hsource _ hloads, ?_⟩, hloads⟩
      · intro hnone path' hpath
        obtain rfl := Option.some.inj hpath
        apply h.held hnone
        rw [hwatcher]
        rfl
      · intro load model hcarries
        obtain ⟨rfl, rfl⟩ := Prod.mk.inj (Option.some.inj hcarries)
        exact ⟨List.mem_cons_self, acceptBody_of_loadFile hload⟩

/-- **What is rescanned is the active file**, when the rescan was not overtaken. -/
theorem Kept.applyRescan (h : Kept s) {w : Observed} {path : Bytes} {file : File}
    {candidate : AcceptedModel} {fails : Bool}
    (hwatcher : s.watcher = .applying w path file candidate)
    (hallowed : Unovertaken s .watch fails) :
    Kept (Watcher.applyRescan s w path file candidate) := by
  unfold Watcher.applyRescan
  cases hcheck : s.generations.checkChange .fileRescan candidate with
  | error e => exact h.waits w (s.failures + 1) _
  | ok u =>
    have hactive : s.activePath = path := by
      simp only [Unovertaken, hwatcher] at hallowed
      rcases hallowed hcheck with hnone | hsome
      · exact h.held hnone path (by rw [hwatcher]; rfl)
      · exact h.overtaken path hsome
    refine ⟨?_, ?_, ?_, ?_, ?_⟩
    · intro path' hselected
      exact hactive.symm.trans (h.selected path' hselected)
    · intro path' hovertaken
      exact hactive.symm.trans (h.overtaken path' hovertaken)
    · intro _ path' hpath
      cases hpath
    · refine ⟨⟨path, file⟩, rfl, h.carried _ _ ?_⟩
      rw [hwatcher]
      rfl
    · intro load model hload
      cases hload

theorem Kept.watch (h : Kept s) {fails : Bool} (hallowed : Unovertaken s .watch fails) :
    Kept (Watcher.watch s fails) ∧ s.loads ⊆ (Watcher.watch s fails).loads := by
  unfold Watcher.watch
  split
  case h_1 w hwatcher =>
    refine ⟨⟨h.selected, ?_, ?_, h.source, ?_⟩, List.Subset.refl _⟩
    · intro path hpath
      cases hpath
    · intro _ path hpath
      exact Option.some.inj hpath
    · intro load model hload
      cases hload
  case h_2 w path hwatcher =>
    refine ⟨h.moved (.inspected w path _) ?_ ?_ s.failures s.settled,
      List.Subset.refl _⟩
    · intro path' hpath
      rw [hwatcher]
      exact hpath
    · intro load hload
      cases hload
  case h_3 w path safe hwatcher =>
    refine ⟨h.moved (.timed w path _) ?_ ?_ s.failures s.settled, List.Subset.refl _⟩
    · intro path' hpath
      rw [hwatcher]
      exact hpath
    · intro load hload
      cases hload
  case h_4 w path modified hwatcher =>
    refine ⟨h.judge hwatcher, ?_⟩
    rw [(judge_loads s w path modified).1]
    exact List.Subset.refl _
  case h_5 w path hwatcher => exact h.rescan hwatcher
  case h_6 w path file candidate hwatcher =>
    split_ifs
    · exact ⟨h.waits w s.failures _, List.Subset.refl _⟩
    · refine ⟨h.moved (.applying w path file candidate) ?_ ?_ s.failures s.settled,
        List.Subset.refl _⟩
      · intro path' hpath
        rw [hwatcher]
        exact hpath
      · intro load hload
        rw [hwatcher]
        exact hload
  case h_7 w path file candidate hwatcher =>
    refine ⟨h.applyRescan hwatcher hallowed, ?_⟩
    rw [applyRescan_loads]
    exact List.Subset.refl _
  case h_8 w hwatcher =>
    refine ⟨h.moved (.top w) ?_ ?_ s.failures s.settled, List.Subset.refl _⟩
    · intro path hpath
      cases hpath
    · intro load hload
      cases hload

theorem ReadAs.mono {load : Load} {model : AcceptedModel} (h : ReadAs s load model)
    (hloads : s.loads ⊆ s'.loads) : ReadAs s' load model := ⟨hloads h.1, h.2⟩

theorem Kept.reads (h : Kept s) (files : Files) (written : Bytes → Nat) {loads : List Load}
    (hloads : s.loads ⊆ loads) :
    Kept { s with files := files, written := written, loads := loads } := by
  obtain ⟨load, hpath, hmem, hload⟩ := h.source
  exact ⟨h.selected, h.overtaken, h.held, ⟨load, hpath, hloads hmem, hload⟩,
    fun load model hcarries => (h.carried load model hcarries).mono hloads⟩

/-- **What a section keeps of a selection.** -/
theorem Kept.step (h : Kept s) {modelsDir : Bytes} {fails : Bool} (ht : Carried s t)
    (hallowed : Unovertaken s t fails) (hstep : nextSection modelsDir s t fails = some (s', t')) :
    Kept s' ∧ Carried s' t' ∧ s.loads ⊆ s'.loads := by
  have hnone : ∀ (s : Shared) (t : Thread), t.carries = none → Carried s t := by
    intro s t ht load model hload
    rw [ht] at hload
    cases hload
  cases t with
  | watch =>
    obtain ⟨rfl, rfl⟩ := Prod.mk.inj (Option.some.inj hstep)
    obtain ⟨hkept, hloads⟩ := h.watch hallowed
    exact ⟨hkept, hnone _ _ rfl, hloads⟩
  | select id =>
    simp only [nextSection, Watcher.select, Option.some.injEq] at hstep
    split at hstep
    · obtain ⟨rfl, rfl⟩ := Prod.mk.inj hstep
      exact ⟨h, hnone _ _ rfl, List.Subset.refl _⟩
    · split at hstep
      · obtain ⟨rfl, rfl⟩ := Prod.mk.inj hstep
        exact ⟨h, hnone _ _ rfl, List.Subset.refl _⟩
      · split at hstep
        · obtain ⟨rfl, rfl⟩ := Prod.mk.inj hstep
          exact ⟨h, hnone _ _ rfl, List.Subset.refl _⟩
        · rename_i file _ _ candidate hload
          obtain ⟨rfl, rfl⟩ := Prod.mk.inj hstep
          have hloads := List.subset_cons_self (⟨scenarioPath modelsDir id, file⟩ : Load) s.loads
          refine ⟨h.reads s.files s.written hloads, ?_, hloads⟩
          intro load model hcarries
          obtain ⟨rfl, rfl⟩ := Prod.mk.inj (Option.some.inj hcarries)
          exact ⟨List.mem_cons_self, acceptBody_of_loadFile hload⟩
  | selecting id path file candidate =>
    obtain ⟨rfl, rfl⟩ := Prod.mk.inj (Option.some.inj hstep)
    refine ⟨⟨?_, ?_, ?_, ⟨⟨path, file⟩, rfl, ht _ _ rfl⟩, h.carried⟩, hnone _ _ rfl,
      List.Subset.refl _⟩
    · exact fun _ hselected => Option.some.inj hselected
    · exact fun _ hovertaken => Option.some.inj hovertaken
    · intro hovertaken
      cases hovertaken
  | write path file =>
    obtain ⟨rfl, rfl⟩ := Prod.mk.inj (Option.some.inj hstep)
    exact ⟨h.reads _ _ (List.Subset.refl _), hnone _ _ rfl, List.Subset.refl _⟩
  | remove path =>
    obtain ⟨rfl, rfl⟩ := Prod.mk.inj (Option.some.inj hstep)
    exact ⟨h.reads _ _ (List.Subset.refl _), hnone _ _ rfl, List.Subset.refl _⟩
  | selected => cases hstep
  | written => cases hstep
  | failed e => cases hstep

theorem kept_started (opened : Opened) : Kept (started opened).shared := by
  refine ⟨?_, ?_, ?_, ⟨_, rfl, List.mem_cons_self, opened.loaded⟩, ?_⟩
  · intro path hselected
    cases hselected
  · intro path hovertaken
    cases hovertaken
  · intro _ path hheld
    cases hheld
  · intro load model hcarries
    cases hcarries

/-- **A file rescan does not override a selection**, unless a rescan changes the model although another
file was selected since the watcher read the active path. -/
theorem selection_kept {modelsDir : Bytes} {opened : Opened} {c : Config Shared Thread}
    (h : Reachable (service modelsDir) Unovertaken (started opened) c) {path : Bytes}
    (hselected : c.shared.selected = some path) :
    c.shared.activePath = path ∧ ∃ load ∈ c.shared.loads, load.path = path ∧
      acceptBody load.file.body = .ok c.shared.generations.active.model := by
  have hrule : Kept c.shared ∧ ∀ t ∈ c.threads, Carried c.shared t := by
    apply Reachable.rule (kept_started opened) ?_ ?_ ?_ h
    · intro t ht load model hload
      rw [List.mem_singleton.mp ht] at hload
      cases hload
    · intro s t _ hstarts load model hload
      cases t <;> cases hstarts <;> cases hload
    · intro s t fails s' t' hkept ht hallowed hstep
      obtain ⟨hkept', ht', hloads⟩ := hkept.step ht hallowed hstep
      exact ⟨hkept', ht', fun u hu load model hload => (hu load model hload).mono hloads⟩
  have hactive := hrule.1.selected path hselected
  obtain ⟨load, hpath, hmem, hload⟩ := hrule.1.source
  exact ⟨hactive, load, hmem, hpath.trans hactive, hload⟩

/-! ### What the watcher has noticed -/

/-- The file at a path was read, if its time is this one. -/
def ReadAt (s : Shared) (path : Bytes) (time : Nat) : Prop :=
  ∀ file, s.files path = some file → file.modified = time → ⟨path, file⟩ ∈ s.loads

/-- The time the watcher remembers is that of a file it need not read again. -/
def Noted (s : Shared) (w : Observed) : Prop :=
  w.haveTime = true → w.time ≤ s.written w.path ∧ ReadAt s w.path w.time

def Position.Sound (s : Shared) : Position → Prop
  | .top w | .pathRead w _ | .inspected w _ _ | .comparing w _ _ _ | .applying w _ _ _
  | .waiting w => Noted s w
  | .timed w path modified => Noted s w ∧ ∀ time, modified = some time → time ≤ s.written path
  | .rescanning w path => w.path = path ∧ w.time ≤ s.written path

/-- What the files, the readings and the watcher keep. -/
structure Watched (s : Shared) : Prop where
  times : ∀ path file, s.files path = some file → file.modified = s.written path
  loads : ∀ load ∈ s.loads, load.file.modified ≤ s.written load.path ∧ ∀ file,
    s.files load.path = some file → load.file.modified = file.modified → load.file = file
  position : s.watcher.Sound s

/-- A write advances the time of its file, and the watcher does not remember the time of a file that it
has not seen before and that nobody has read. -/
def Noticed (s : Shared) (t : Thread) (_ : Bool) : Prop :=
  match t, s.watcher with
  | .write path file, _ => s.written path < file.modified
  | .watch, .timed w path (some time) => path ≠ w.path ∨ w.haveTime = false →
    (∃ load ∈ s.loads, load.path = path ∧ load.file.modified = time) ∨ time < s.written path
  | _, _ => True

/-- Readings are only added, and what was written is newer than what was there. -/
structure Later (s s' : Shared) : Prop where
  loads : s.loads ⊆ s'.loads
  written : ∀ path, s.written path ≤ s'.written path
  files : ∀ path file, s'.files path = some file →
    s.files path = some file ∨ s.written path < file.modified

theorem Noted.later {w : Observed} (h : Noted s w) (hs : Later s s') : Noted s' w := by
  intro hhave
  obtain ⟨htime, hread⟩ := h hhave
  refine ⟨Nat.le_trans htime (hs.written _), ?_⟩
  intro file hfile hmodified
  rcases hs.files _ file hfile with hsame | hnewer
  · exact hs.loads (hread file hsame hmodified)
  · omega

theorem Position.Sound.later {position : Position} (h : position.Sound s) (hs : Later s s') :
    position.Sound s' := by
  cases position with
  | timed w path modified =>
    exact ⟨Noted.later h.1 hs, fun time htime => Nat.le_trans (h.2 time htime) (hs.written path)⟩
  | rescanning w path => exact ⟨h.1, Nat.le_trans h.2 (hs.written path)⟩
  | top w => exact Noted.later h hs
  | pathRead w path => exact Noted.later h hs
  | inspected w path safe => exact Noted.later h hs
  | comparing w path file candidate => exact Noted.later h hs
  | applying w path file candidate => exact Noted.later h hs
  | waiting w => exact Noted.later h hs

theorem Watched.read (h : Watched s) {path : Bytes} {file : File} (hfile : s.files path = some file) :
    Later s { s with loads := ⟨path, file⟩ :: s.loads } ∧
      ∀ load ∈ (⟨path, file⟩ : Load) :: s.loads, load.file.modified ≤ s.written load.path ∧
        ∀ file, s.files load.path = some file → load.file.modified = file.modified →
          load.file = file := by
  refine ⟨⟨List.subset_cons_self _ _, fun _ => Nat.le_refl _, fun _ _ hfile => .inl hfile⟩, ?_⟩
  intro load hload
  rcases List.mem_cons.mp hload with rfl | hload
  · refine ⟨Nat.le_of_eq (h.times path file hfile), ?_⟩
    intro file' hfile' _
    exact Option.some.inj (hfile.symm.trans hfile')
  · exact h.loads load hload

/-- **A time that is remembered is that of a file that was read**, or no longer of the file. -/
theorem Watched.noted (h : Watched s) {path : Bytes} {time : Nat} {haveTime : Bool}
    (hle : time ≤ s.written path)
    (hread : (∃ load ∈ s.loads, load.path = path ∧ load.file.modified = time) ∨
      time < s.written path) : Noted s ⟨path, time, haveTime⟩ := by
  intro _
  refine ⟨hle, ?_⟩
  intro file hfile (hmodified : file.modified = time)
  have htimes := h.times path file hfile
  rcases hread with ⟨load, hmem, rfl, htime⟩ | hold
  · have hsame := (h.loads load hmem).2 file hfile (htime.trans hmodified.symm)
    rw [← hsame]
    exact hmem
  · omega

theorem Watched.judge (h : Watched s) {w : Observed} {path : Bytes} {modified : Option Nat}
    {fails : Bool} (hwatcher : s.watcher = .timed w path modified) (hallowed : Noticed s .watch fails) :
    Watched (Watcher.judge s w path modified) := by
  have hposition := h.position
  rw [hwatcher] at hposition
  obtain ⟨hnoted, htimed⟩ := hposition
  have hforgets : ∀ w' : Observed, w'.haveTime = false → Noted s w' := by
    intro w' hfalse htrue
    rw [hfalse] at htrue
    cases htrue
  unfold Watcher.judge
  by_cases hpath : path ≠ w.path
  · rw [if_pos hpath]
    refine ⟨h.times, h.loads, ?_⟩
    cases modified with
    | none => exact hforgets _ rfl
    | some time =>
      simp only [Noticed, hwatcher] at hallowed
      exact h.noted (htimed time rfl) (hallowed (.inl hpath))
  · rw [if_neg hpath]
    have hsame : path = w.path := not_not.mp hpath
    cases modified with
    | none => exact ⟨h.times, h.loads, hforgets _ rfl⟩
    | some time =>
      show Watched (if w.haveTime then
        if time ≠ w.time then { s with watcher := .rescanning { w with time := time } path }
        else { s with watcher := .waiting w }
      else { s with watcher := .waiting { w with time := time, haveTime := true } })
      split_ifs with hhave
      · exact ⟨h.times, h.loads, hsame.symm, htimed time rfl⟩
      · exact ⟨h.times, h.loads, hnoted⟩
      · refine ⟨h.times, h.loads, ?_⟩
        simp only [Noticed, hwatcher] at hallowed
        subst hsame
        exact h.noted (htimed time rfl) (hallowed (.inr (Bool.eq_false_iff.mpr hhave)))

/-- **A rescan reads the file that is there.** -/
theorem Watched.rescan (h : Watched s) {w : Observed} {path : Bytes} {fails : Bool}
    (hwatcher : s.watcher = .rescanning w path) : Watched (Watcher.rescan s w path fails) := by
  have hposition := h.position
  rw [hwatcher] at hposition
  obtain ⟨rfl, htime⟩ := hposition
  cases hfile : s.files w.path with
  | none =>
    simp only [Watcher.rescan, hfile]
    refine ⟨h.times, h.loads, fun _ => ⟨htime, ?_⟩⟩
    intro file hsome
    have hcontra := hfile.symm.trans hsome
    cases hcontra
  | some file =>
    have hloads := (h.read hfile).2
    have hread : ∀ file', s.files w.path = some file' → file'.modified = w.time →
        (⟨w.path, file'⟩ : Load) ∈ (⟨w.path, file⟩ : Load) :: s.loads := by
      intro file' hfile' _
      obtain rfl := Option.some.inj (hfile.symm.trans hfile')
      exact List.mem_cons_self
    cases hload : loadFile (some file) fails with
    | error e =>
      simp only [Watcher.rescan, hfile, hload]
      exact ⟨h.times, hloads, fun _ => ⟨htime, hread⟩⟩
    | ok candidate =>
      simp only [Watcher.rescan, hfile, hload]
      exact ⟨h.times, hloads, fun _ => ⟨htime, hread⟩⟩

theorem Watched.watch (h : Watched s) {fails : Bool} (hallowed : Noticed s .watch fails) :
    Watched (Watcher.watch s fails) := by
  have hposition := h.position
  unfold Watcher.watch
  split
  case h_1 w hwatcher =>
    rw [hwatcher] at hposition
    exact ⟨h.times, h.loads, hposition⟩
  case h_2 w path hwatcher =>
    rw [hwatcher] at hposition
    exact ⟨h.times, h.loads, hposition⟩
  case h_3 w path safe hwatcher =>
    rw [hwatcher] at hposition
    refine ⟨h.times, h.loads, hposition, ?_⟩
    intro time htime
    split_ifs at htime
    obtain ⟨file, hfile, rfl⟩ := Option.map_eq_some_iff.mp htime
    exact Nat.le_of_eq (h.times path file hfile)
  case h_4 w path modified hwatcher => exact h.judge hwatcher hallowed
  case h_5 w path hwatcher => exact h.rescan hwatcher
  case h_6 w path file candidate hwatcher =>
    rw [hwatcher] at hposition
    split_ifs
    · exact ⟨h.times, h.loads, hposition⟩
    · exact ⟨h.times, h.loads, hposition⟩
  case h_7 w path file candidate hwatcher =>
    rw [hwatcher] at hposition
    unfold Watcher.applyRescan
    cases s.generations.checkChange .fileRescan candidate with
    | error e => exact ⟨h.times, h.loads, hposition⟩
    | ok u => exact ⟨h.times, h.loads, hposition⟩
  case h_8 w hwatcher =>
    rw [hwatcher] at hposition
    exact ⟨h.times, h.loads, hposition⟩

theorem Watched.write (h : Watched s) {path : Bytes} {file : File}
    (hnew : s.written path < file.modified) :
    Watched { s with
      files := Function.update s.files path (some file)
      written := Function.update s.written path file.modified } := by
  have hlater : Later s { s with
      files := Function.update s.files path (some file)
      written := Function.update s.written path file.modified } := by
    refine ⟨List.Subset.refl _, ?_, ?_⟩
    · intro path'
      show s.written path' ≤ Function.update s.written path file.modified path'
      by_cases hpath : path' = path
      · subst hpath
        rw [Function.update_self]
        omega
      · rw [Function.update_of_ne hpath]
    · intro path' file' hfile'
      have hfile' : Function.update s.files path (some file) path' = some file' := hfile'
      by_cases hpath : path' = path
      · subst hpath
        rw [Function.update_self] at hfile'
        obtain rfl := Option.some.inj hfile'
        exact .inr hnew
      · rw [Function.update_of_ne hpath] at hfile'
        exact .inl hfile'
  refine ⟨?_, ?_, h.position.later hlater⟩
  · intro path' file' hfile'
    show file'.modified = Function.update s.written path file.modified path'
    have hfile' : Function.update s.files path (some file) path' = some file' := hfile'
    by_cases hpath : path' = path
    · subst hpath
      rw [Function.update_self] at hfile' ⊢
      obtain rfl := Option.some.inj hfile'
      rfl
    · rw [Function.update_of_ne hpath] at hfile' ⊢
      exact h.times path' file' hfile'
  · intro load hload
    obtain ⟨hle, hsame⟩ := h.loads load hload
    refine ⟨Nat.le_trans hle (hlater.written load.path), ?_⟩
    intro file' hfile' hmodified
    rcases hlater.files load.path file' hfile' with hold | hnewer
    · exact hsame file' hold hmodified
    · omega

theorem Watched.remove (h : Watched s) (path : Bytes) :
    Watched { s with files := Function.update s.files path none } := by
  have hfiles : ∀ path' file, Function.update s.files path none path' = some file →
      s.files path' = some file := by
    intro path' file hfile
    by_cases hpath : path' = path
    · subst hpath
      rw [Function.update_self] at hfile
      cases hfile
    · rw [Function.update_of_ne hpath] at hfile
      exact hfile
  refine ⟨fun path' file hfile => h.times path' file (hfiles path' file hfile), ?_, ?_⟩
  · intro load hload
    obtain ⟨hle, hsame⟩ := h.loads load hload
    exact ⟨hle, fun file hfile => hsame file (hfiles _ file hfile)⟩
  · exact h.position.later ⟨List.Subset.refl _, fun _ => Nat.le_refl _,
      fun path' file hfile => .inl (hfiles path' file hfile)⟩

/-- **What a section keeps of what was noticed.** -/
theorem Watched.step (h : Watched s) {modelsDir : Bytes} {fails : Bool} (hallowed : Noticed s t fails)
    (hstep : nextSection modelsDir s t fails = some (s', t')) : Watched s' := by
  cases t with
  | watch =>
    obtain ⟨rfl, rfl⟩ := Prod.mk.inj (Option.some.inj hstep)
    exact h.watch hallowed
  | select id =>
    simp only [nextSection, Watcher.select, Option.some.injEq] at hstep
    split at hstep
    · obtain ⟨rfl, rfl⟩ := Prod.mk.inj hstep
      exact h
    · split at hstep
      · obtain ⟨rfl, rfl⟩ := Prod.mk.inj hstep
        exact h
      · rename_i file hfile
        split at hstep
        · obtain ⟨rfl, rfl⟩ := Prod.mk.inj hstep
          exact h
        · obtain ⟨rfl, rfl⟩ := Prod.mk.inj hstep
          obtain ⟨hlater, hloads⟩ := h.read hfile
          exact ⟨h.times, hloads, h.position.later hlater⟩
  | selecting id path file candidate =>
    obtain ⟨rfl, rfl⟩ := Prod.mk.inj (Option.some.inj hstep)
    exact ⟨h.times, h.loads, h.position.later ⟨List.Subset.refl _, fun _ => Nat.le_refl _,
      fun _ _ hfile => .inl hfile⟩⟩
  | write path file =>
    obtain ⟨rfl, rfl⟩ := Prod.mk.inj (Option.some.inj hstep)
    exact h.write hallowed
  | remove path =>
    obtain ⟨rfl, rfl⟩ := Prod.mk.inj (Option.some.inj hstep)
    exact h.remove path
  | selected => cases hstep
  | written => cases hstep
  | failed e => cases hstep

theorem watched_started (opened : Opened) : Watched (started opened).shared := by
  have htimes : ∀ path file, opened.files path = some file →
      file.modified = ((opened.files path).map (·.modified)).getD 0 := by
    intro path file hfile
    rw [hfile]
    rfl
  refine ⟨htimes, ?_, ?_⟩
  · intro load hload
    obtain rfl := List.mem_singleton.mp hload
    refine ⟨Nat.le_of_eq (htimes _ _ opened.found), ?_⟩
    intro file hfile _
    exact Option.some.inj (opened.found.symm.trans hfile)
  · intro htrue
    cases htrue

/-! ### What becomes of a reading -/

/-- A reading was dealt with, or will be. -/
def Outstanding (s : Shared) (t : Thread) (load : Load) : Prop :=
  load ∈ s.settled ∨ (∃ model, s.watcher.carries = some (load, model)) ∨
    ∃ model, t.carries = some (load, model)

def Pending (s : Shared) (threads : List Thread) (load : Load) : Prop :=
  load ∈ s.settled ∨ (∃ model, s.watcher.carries = some (load, model)) ∨
    ∃ t ∈ threads, ∃ model, t.carries = some (load, model)

theorem watch_outstanding (s : Shared) (fails : Bool) :
    (∀ load ∈ (watch s fails).loads, load ∈ s.loads ∨ Outstanding (watch s fails) .watch load) ∧
      ∀ load, Outstanding s .watch load → Outstanding (watch s fails) .watch load := by
  have hkeeps : ∀ s' : Shared, s'.loads = s.loads → s'.settled = s.settled →
      s.watcher.carries = none → (∀ load ∈ s'.loads, load ∈ s.loads ∨ Outstanding s' .watch load) ∧
        ∀ load, Outstanding s .watch load → Outstanding s' .watch load := by
    intro s' hloads hsettled hnone
    refine ⟨fun load hload => .inl (hloads ▸ hload), ?_⟩
    rintro load (hmem | ⟨model, hcarries⟩ | ⟨model, hcarries⟩)
    · exact .inl (hsettled ▸ hmem)
    · rw [hnone] at hcarries
      cases hcarries
    · cases hcarries
  have hsettles : ∀ (s' : Shared) (load₀ : Load) (model₀ : AcceptedModel), s'.loads = s.loads →
      s'.settled = load₀ :: s.settled → s.watcher.carries = some (load₀, model₀) →
        (∀ load ∈ s'.loads, load ∈ s.loads ∨ Outstanding s' .watch load) ∧
          ∀ load, Outstanding s .watch load → Outstanding s' .watch load := by
    intro s' load₀ model₀ hloads hsettled hsome
    refine ⟨fun load hload => .inl (hloads ▸ hload), ?_⟩
    rintro load (hmem | ⟨model, hcarries⟩ | ⟨model, hcarries⟩)
    · exact .inl (hsettled ▸ List.mem_cons_of_mem _ hmem)
    · obtain ⟨rfl, -⟩ := Prod.mk.inj (Option.some.inj (hsome.symm.trans hcarries))
      exact .inl (hsettled ▸ List.mem_cons_self)
    · cases hcarries
  unfold watch
  split
  case h_1 w hwatcher => exact hkeeps _ rfl rfl (by rw [hwatcher]; rfl)
  case h_2 w path hwatcher => exact hkeeps _ rfl rfl (by rw [hwatcher]; rfl)
  case h_3 w path safe hwatcher => exact hkeeps _ rfl rfl (by rw [hwatcher]; rfl)
  case h_4 w path modified hwatcher =>
    exact hkeeps _ (judge_loads _ _ _ _).1 (judge_loads _ _ _ _).2 (by rw [hwatcher]; rfl)
  case h_5 w path hwatcher =>
    have hnone : s.watcher.carries = none := by
      rw [hwatcher]
      rfl
    cases hfile : s.files path with
    | none =>
      simp only [Watcher.rescan, hfile]
      exact hkeeps { s with failures := s.failures + 1, watcher := .waiting w } rfl rfl hnone
    | some file =>
      cases hload : loadFile (some file) fails with
      | error e =>
        simp only [Watcher.rescan, hfile, hload]
        refine ⟨?_, ?_⟩
        · intro load hmem
          rcases List.mem_cons.mp hmem with rfl | hmem
          · exact .inr (.inl List.mem_cons_self)
          · exact .inl hmem
        · rintro load (hmem | ⟨model, hcarries⟩ | ⟨model, hcarries⟩)
          · exact .inl (List.mem_cons_of_mem _ hmem)
          · rw [hnone] at hcarries
            cases hcarries
          · cases hcarries
      | ok candidate =>
        simp only [Watcher.rescan, hfile, hload]
        refine ⟨?_, ?_⟩
        · intro load hmem
          rcases List.mem_cons.mp hmem with rfl | hmem
          · exact .inr (.inr (.inl ⟨candidate, rfl⟩))
          · exact .inl hmem
        · rintro load (hmem | ⟨model, hcarries⟩ | ⟨model, hcarries⟩)
          · exact .inl hmem
          · rw [hnone] at hcarries
            cases hcarries
          · cases hcarries
  case h_6 w path file candidate hwatcher =>
    have hsome : s.watcher.carries = some (⟨path, file⟩, candidate) := by
      rw [hwatcher]
      rfl
    split_ifs
    · exact hsettles _ _ _ rfl rfl hsome
    · refine ⟨fun load hload => .inl hload, ?_⟩
      rintro load (hmem | ⟨model, hcarries⟩ | ⟨model, hcarries⟩)
      · exact .inl hmem
      · rw [hsome] at hcarries
        exact .inr (.inl ⟨model, hcarries⟩)
      · cases hcarries
  case h_7 w path file candidate hwatcher =>
    have hsome : s.watcher.carries = some (⟨path, file⟩, candidate) := by
      rw [hwatcher]
      rfl
    unfold applyRescan
    cases s.generations.checkChange .fileRescan candidate with
    | error e => exact hsettles _ _ _ rfl rfl hsome
    | ok u => exact hsettles _ _ _ rfl rfl hsome
  case h_8 w hwatcher => exact hkeeps _ rfl rfl (by rw [hwatcher]; rfl)

/-- **A reading is not forgotten.** -/
theorem step_outstanding {modelsDir : Bytes} {fails : Bool}
    (hstep : nextSection modelsDir s t fails = some (s', t')) :
    (∀ load ∈ s'.loads, load ∈ s.loads ∨ Outstanding s' t' load) ∧
      ∀ load, Outstanding s t load → Outstanding s' t' load := by
  have hidle : ∀ {s' : Shared} {t'}, t.carries = none → s'.settled = s.settled →
      s'.watcher = s.watcher → ∀ load, Outstanding s t load → Outstanding s' t' load := by
    intro s' t' hnone hsettled hwatcher load hload
    rcases hload with hmem | hcarries | ⟨model, hcarries⟩
    · exact .inl (hsettled ▸ hmem)
    · exact .inr (.inl (hwatcher ▸ hcarries))
    · rw [hnone] at hcarries
      cases hcarries
  cases t with
  | watch =>
    obtain ⟨rfl, rfl⟩ := Prod.mk.inj (Option.some.inj hstep)
    exact watch_outstanding s fails
  | select id =>
    simp only [nextSection, Watcher.select, Option.some.injEq] at hstep
    split at hstep
    · obtain ⟨rfl, rfl⟩ := Prod.mk.inj hstep
      exact ⟨fun _ => .inl, hidle rfl rfl rfl⟩
    · split at hstep
      · obtain ⟨rfl, rfl⟩ := Prod.mk.inj hstep
        exact ⟨fun _ => .inl, hidle rfl rfl rfl⟩
      · split at hstep
        · obtain ⟨rfl, rfl⟩ := Prod.mk.inj hstep
          exact ⟨fun _ => .inl, hidle rfl rfl rfl⟩
        · obtain ⟨rfl, rfl⟩ := Prod.mk.inj hstep
          refine ⟨?_, hidle rfl rfl rfl⟩
          intro load hload
          rcases List.mem_cons.mp hload with rfl | hload
          · exact .inr (.inr (.inr ⟨_, rfl⟩))
          · exact .inl hload
  | selecting id path file candidate =>
    obtain ⟨rfl, rfl⟩ := Prod.mk.inj (Option.some.inj hstep)
    refine ⟨fun _ => .inl, ?_⟩
    intro load hload
    rcases hload with hmem | hcarries | ⟨model, hcarries⟩
    · exact .inl (List.mem_cons_of_mem _ hmem)
    · exact .inr (.inl hcarries)
    · obtain ⟨rfl, -⟩ := Prod.mk.inj (Option.some.inj hcarries)
      exact .inl List.mem_cons_self
  | write path file =>
    obtain ⟨rfl, rfl⟩ := Prod.mk.inj (Option.some.inj hstep)
    exact ⟨fun _ => .inl, hidle rfl rfl rfl⟩
  | remove path =>
    obtain ⟨rfl, rfl⟩ := Prod.mk.inj (Option.some.inj hstep)
    exact ⟨fun _ => .inl, hidle rfl rfl rfl⟩
  | selected => cases hstep
  | written => cases hstep
  | failed e => cases hstep

theorem Outstanding.pending {threads : List Thread} {load : Load} (h : Outstanding s t load)
    (ht : t ∈ threads) : Pending s threads load := by
  rcases h with hmem | hcarries | hcarries
  · exact .inl hmem
  · exact .inr (.inl hcarries)
  · exact .inr (.inr ⟨t, ht, hcarries⟩)

/-- **Every reading was dealt with, or will be**, in every run. -/
theorem loads_pending {modelsDir : Bytes} {allowed : Shared → Thread → Bool → Prop} {opened : Opened}
    {c : Config Shared Thread} (h : Reachable (service modelsDir) allowed (started opened) c) :
    ∀ load ∈ c.shared.loads, Pending c.shared c.threads load := by
  apply Reachable.invariant (fun load hload => .inl hload) ?_ h
  intro c c' _ hpending hchange load hload
  cases hchange with
  | start hstarts =>
    rcases hpending load hload with hmem | hcarries | ⟨t, ht, hcarries⟩
    · exact .inl hmem
    · exact .inr (.inl hcarries)
    · exact .inr (.inr ⟨t, List.mem_append_left _ ht, hcarries⟩)
  | @move pre post t t' s input hthreads _ hstep =>
    obtain ⟨hloads, hkeeps⟩ := step_outstanding hstep
    have hmoved : t' ∈ pre ++ t' :: post := List.mem_append_right _ List.mem_cons_self
    rcases hloads load hload with hold | hnew
    · rcases hpending load hold with hmem | hcarries | ⟨u, hu, hcarries⟩
      · exact (hkeeps load (.inl hmem)).pending hmoved
      · exact (hkeeps load (.inr (.inl hcarries))).pending hmoved
      · rw [hthreads] at hu
        rcases List.mem_append.mp hu with hu | hu
        · exact .inr (.inr ⟨u, List.mem_append_left _ hu, hcarries⟩)
        · rcases List.mem_cons.mp hu with rfl | hu
          · exact (hkeeps load (.inr (.inr hcarries))).pending hmoved
          · exact .inr (.inr ⟨u, List.mem_append_right _ (List.mem_cons_of_mem _ hu), hcarries⟩)
    · exact hnew.pending hmoved

/-- **The watcher misses no edit**, in every run in which it does not remember the time of a file that
it has not seen before and that nobody has read. -/
theorem edits_read {modelsDir : Bytes} {opened : Opened} {c : Config Shared Thread}
    (h : Reachable (service modelsDir) Noticed (started opened) c) {w : Observed}
    (hend : c.shared.watcher = .waiting w) (htime : w.haveTime = true) {file : File}
    (hfile : c.shared.files w.path = some file) (hcurrent : w.time = file.modified) :
    ⟨w.path, file⟩ ∈ c.shared.loads ∧ (⟨w.path, file⟩ ∈ c.shared.settled ∨
      ∃ t ∈ c.threads, ∃ model, t.carries = some (⟨w.path, file⟩, model)) := by
  have hwatched : Watched c.shared := by
    refine (Reachable.rule (L := fun _ _ => True) (watched_started opened) (fun _ _ => trivial)
      (fun _ _ _ _ => trivial) ?_ h).1
    intro s t fails s' t' hs _ hallowed hstep
    exact ⟨hs.step hallowed hstep, trivial, fun _ _ => trivial⟩
  have hposition := hwatched.position
  rw [hend] at hposition
  have hread := (hposition htime).2 file hfile hcurrent.symm
  refine ⟨hread, ?_⟩
  rcases loads_pending h _ hread with hsettled | ⟨model, hcarries⟩ | hcarries
  · exact .inl hsettled
  · rw [hend] at hcarries
    cases hcarries
  · exact .inr hcarries

end

section Sample
local instance watcherPlatform : Platform := samplePlatform

/-- A file with the text of a model. -/
def fileOf (modified : Nat) (model : Json) : File := ⟨modified, (Json.dump model).toOption.getD []⟩

/-- A model of another id. -/
def otherPlant (revision : UInt64) : Json :=
  (sampleModel revision (.int 80)).setField "model_id" (.str "other")

/-- Two scenarios; the plant is the active one. -/
def plantFiles : Files := fun path =>
  if path = "m/plant.json" then some (fileOf 1 (sampleModel 1 (.int 80)))
  else if path = "m/other.json" then some (fileOf 1 (otherPlant 1))
  else none

def plantOpened : Opened where
  files := plantFiles
  path := "m/plant.json"
  file := fileOf 1 (sampleModel 1 (.int 80))
  model := (acceptBody (fileOf 1 (sampleModel 1 (.int 80))).body).toOption.getD tankAccepted
  found := rfl
  loaded := eq_ok_of_isSome (by decide +kernel) _

/-- A thread runs some sections. -/
def moves (k n : Nat) : List (Event Thread Bool) := List.replicate n (.move k false)

/-- Thread `k` writes a file. -/
def edits (k : Nat) (path : Bytes) (file : File) : List (Event Thread Bool) :=
  .start (.write path file) :: moves k 1

def selectOther (k : Nat) : List (Event Thread Bool) := .start (.select "other") :: moves k 2

def plantEdit : File := fileOf 2 (sampleModel 2 (.int 90))

/-- The plant is edited, and the other scenario is selected while the watcher rescans the plant. -/
def overridden : List (Event Thread Bool) :=
  moves 0 5 ++ edits 1 "m/plant.json" plantEdit ++ moves 0 6 ++ selectOther 2 ++ moves 0 1

/-- The other scenario is selected, edited and rescanned. -/
def kept : List (Event Thread Bool) :=
  moves 0 5 ++ selectOther 1 ++ moves 0 5 ++ edits 2 "m/other.json" (fileOf 2 (otherPlant 2)) ++
    moves 0 7

/-- The watcher's first iteration, after an edit. -/
def missed : List (Event Thread Bool) := edits 1 "m/plant.json" plantEdit ++ moves 0 4

/-- An edit after the watcher's first iteration, and the second. -/
def noticed : List (Event Thread Bool) :=
  moves 0 5 ++ edits 1 "m/plant.json" plantEdit ++ moves 0 7

/-- A rescan of the file that was active before puts its model over the one selected. -/
theorem selection_overridden : ∃ c path, run (service "m") (started plantOpened) overridden = some c ∧
    c.shared.selected = some path ∧ c.shared.activePath ≠ path := by
  have hsome : (run (service "m") (started plantOpened) overridden).any (fun c =>
      c.shared.selected.any (c.shared.activePath != ·)) = true := by decide +kernel
  obtain ⟨c, hrun, hstate⟩ := (Option.any_eq_true _ _).mp hsome
  obtain ⟨path, hselected, hother⟩ := (Option.any_eq_true _ _).mp hstate
  exact ⟨c, path, hrun, hselected, bne_iff_ne.mp hother⟩

/-- `Unovertaken`, to be checked. -/
def isUnovertaken (s : Shared) (t : Thread) (_ : Bool) : Bool :=
  match t, s.watcher with
  | .watch, .applying _ path _ _ => s.overtaken.all (· = path)
  | _, _ => true

theorem unovertaken_of_check (s : Shared) (t : Thread) (fails : Bool)
    (h : isUnovertaken s t fails = true) : Unovertaken s t fails := by
  unfold isUnovertaken at h
  split at h
  case h_1 w path file candidate hwatcher =>
    simp only [Unovertaken, hwatcher]
    intro _
    cases hovertaken : s.overtaken with
    | none => exact .inl rfl
    | some path' =>
      rw [hovertaken] at h
      exact .inr (congrArg some (of_decide_eq_true h))
  case h_2 hother =>
    unfold Unovertaken
    split
    · exact (hother _ _ _ _ rfl ‹_›).elim
    · trivial

theorem selection_kept_sample : ∃ c path, run (service "m") (started plantOpened) kept = some c ∧
    c.shared.selected = some path ∧ c.shared.generations.active.generation = 2 ∧
      c.shared.activePath = path ∧ ∃ load ∈ c.shared.loads, load.path = path ∧
        acceptBody load.file.body = .ok c.shared.generations.active.model := by
  have hsome : (run (service "m") (started plantOpened) kept).any (fun c =>
      c.shared.selected.isSome && c.shared.generations.active.generation == 2) = true := by
    decide +kernel
  have hmeets : meets isUnovertaken (service "m") (started plantOpened) kept = true := by
    decide +kernel
  obtain ⟨c, hrun, hstate⟩ := (Option.any_eq_true _ _).mp hsome
  rw [Bool.and_eq_true, beq_iff_eq] at hstate
  obtain ⟨path, hselected⟩ := Option.isSome_iff_exists.mp hstate.1
  have hreach := Reachable.init.checked unovertaken_of_check hrun hmeets
  exact ⟨c, path, hrun, hselected, hstate.2, selection_kept hreach hselected⟩

/-- Writes advance the time of their file. -/
def Advances (s : Shared) (t : Thread) (_ : Bool) : Prop :=
  match t with
  | .write path file => s.written path < file.modified
  | _ => True

def isAdvancing (s : Shared) (t : Thread) (_ : Bool) : Bool :=
  match t with
  | .write path file => s.written path < file.modified
  | _ => true

theorem advances_of_check (s : Shared) (t : Thread) (fails : Bool)
    (h : isAdvancing s t fails = true) : Advances s t fails := by
  cases t with
  | write path file => exact of_decide_eq_true (p := s.written path < file.modified) h
  | _ => trivial

/-- The iteration has ended with the time of the active file, as far as the watcher knows. -/
def upToDate (s : Shared) : Option (Observed × File) :=
  match s.watcher with
  | .waiting w => (s.files w.path).bind fun file =>
    if w.haveTime ∧ w.path = s.activePath ∧ w.time = file.modified then some (w, file) else none
  | _ => none

theorem upToDate_eq_some {s : Shared} {w : Observed} {file : File} (h : upToDate s = some (w, file)) :
    s.watcher = .waiting w ∧ w.haveTime = true ∧ w.path = s.activePath ∧
      s.files w.path = some file ∧ w.time = file.modified := by
  unfold upToDate at h
  split at h
  case h_1 w' hwatcher =>
    obtain ⟨file', hfile, hif⟩ := Option.bind_eq_some_iff.mp h
    split_ifs at hif with hstate
    obtain ⟨rfl, rfl⟩ := Prod.mk.inj (Option.some.inj hif)
    exact ⟨hwatcher, hstate.1, hstate.2.1, hfile, hstate.2.2⟩
  case h_2 => cases h

/-- The first iteration remembers the time of an edit that nobody has read. -/
theorem edit_missed : ∃ c, ∃ w : Observed, ∃ file, run (service "m") (started plantOpened) missed = some c ∧
    Reachable (service "m") Advances (started plantOpened) c ∧
      c.shared.watcher = .waiting w ∧ w.haveTime = true ∧ w.path = c.shared.activePath ∧
        c.shared.files w.path = some file ∧ w.time = file.modified ∧
          ⟨w.path, file⟩ ∉ c.shared.loads := by
  have hsome : (run (service "m") (started plantOpened) missed).any (fun c =>
      (upToDate c.shared).any fun r => c.shared.loads.all (·.file.modified != r.2.modified)) = true := by
    decide +kernel
  have hmeets : meets isAdvancing (service "m") (started plantOpened) missed = true := by
    decide +kernel
  obtain ⟨c, hrun, hstate⟩ := (Option.any_eq_true _ _).mp hsome
  obtain ⟨⟨w, file⟩, hend, hunread⟩ := (Option.any_eq_true _ _).mp hstate
  obtain ⟨hwatcher, htime, hpath, hfile, hcurrent⟩ := upToDate_eq_some hend
  refine ⟨c, w, file, hrun, Reachable.init.checked advances_of_check hrun hmeets, hwatcher, htime,
    hpath, hfile, hcurrent, ?_⟩
  intro hread
  exact bne_iff_ne.mp (List.all_eq_true.mp hunread _ hread) rfl

/-- `Noticed`, to be checked. -/
def isNoticed (s : Shared) (t : Thread) (_ : Bool) : Bool :=
  match t, s.watcher with
  | .write path file, _ => s.written path < file.modified
  | .watch, .timed w path (some time) => path = w.path && w.haveTime ||
    s.loads.any (fun load => load.path = path && load.file.modified = time) || time < s.written path
  | _, _ => true

theorem noticed_of_check (s : Shared) (t : Thread) (fails : Bool)
    (h : isNoticed s t fails = true) : Noticed s t fails := by
  unfold isNoticed at h
  unfold Noticed
  split at h
  case h_1 path file => exact of_decide_eq_true h
  case h_2 w path time hwatcher =>
    rw [hwatcher]
    intro hnew
    simp only [Bool.or_eq_true, Bool.and_eq_true, decide_eq_true_eq, List.any_eq_true] at h
    rcases h with (⟨hpath, hhave⟩ | hload) | hold
    · rcases hnew with hnew | hnew
      · exact (hnew hpath).elim
      · rw [hhave] at hnew
        cases hnew
    · exact .inl hload
    · exact .inr hold
  case h_3 hwrite hwatch =>
    split
    · exact (hwrite _ _ rfl).elim
    · exact (hwatch _ _ _ rfl ‹_›).elim
    · trivial

theorem edits_read_sample : ∃ c, ∃ w : Observed, ∃ file, run (service "m") (started plantOpened) noticed = some c ∧
    w.haveTime = true ∧ c.shared.files w.path = some file ∧ file.modified = 2 ∧
      ⟨w.path, file⟩ ∈ c.shared.loads ∧ (⟨w.path, file⟩ ∈ c.shared.settled ∨
        ∃ t ∈ c.threads, ∃ model, t.carries = some (⟨w.path, file⟩, model)) := by
  have hsome : (run (service "m") (started plantOpened) noticed).any (fun c =>
      (upToDate c.shared).any fun r => r.2.modified == 2) = true := by decide +kernel
  have hmeets : meets isNoticed (service "m") (started plantOpened) noticed = true := by
    decide +kernel
  obtain ⟨c, hrun, hstate⟩ := (Option.any_eq_true _ _).mp hsome
  obtain ⟨⟨w, file⟩, hend, hmodified⟩ := (Option.any_eq_true _ _).mp hstate
  obtain ⟨hwatcher, htime, _, hfile, hcurrent⟩ := upToDate_eq_some hend
  have hreach := Reachable.init.checked noticed_of_check hrun hmeets
  exact ⟨c, w, file, hrun, htime, hfile, beq_iff_eq.mp hmodified,
    edits_read hreach hwatcher htime hfile hcurrent⟩

end Sample

end ContextHmi.Runtime.Watcher
