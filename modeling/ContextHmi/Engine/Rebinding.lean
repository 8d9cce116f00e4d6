import ContextHmi.Engine.Merging
import ContextHmi.Library.Ledger

/-!
# No silent rebinding

A chain of reconciliations against revisions of one model. What the chain keeps is an invariant that
ties each component that is not blocked to a subject the current model declares, and to the
dependency that records it; a step to the next revision is then a step of a ledger of bindings.

* `reconcileViewImpl_sound` : a reconciliation keeps the invariant, and steps the ledger;
* `Chain.no_silent_rebinding`.
-/

namespace ContextHmi

open Outcome

/-- What a composed or reconciled view holds, against the model it was last composed with. -/
structure Sound [Platform] (index : ModelIndex) (task₀ : Json) (subjects : List Subject)
    (components dependencies : List Json) (view : Json) : Prop where
  isObject : view.isObject = true
  task : ∃ task, view.find? "task" = some task ∧ taskScope task = taskScope task₀
  hasComponents : view.find? "components" = some (.arr components)
  hasDependencies : view.find? "dependencies" = some (.arr dependencies)
  component : ∀ c ∈ components, IsComponent c
  nodup : (components.map (fieldOf · "id")).Nodup
  /-- Every dependency records a subject the view has a component for. -/
  recorded : ∀ d ∈ dependencies,
    ∃ s : Subject, s.Proper ∧ s.RecordedBy d ∧ s.id ∈ components.map (fieldOf · "id")
  keys : (dependencies.map keyOf).Nodup
  /-- A component that is not blocked shows a declared subject, whose dependency the view has. -/
  held : ∀ c ∈ components, ¬ Blocked c → ∃ s ∈ subjects, s.component index = .ok c ∧
    ∃ d ∈ dependencies, s.dependency = .ok d
  status : ∃ status, view.find? "status" = some (.str status) ∧
    (status = "ready" ∨ status = "needs-review" ∨ status = "conflict") ∧
    (∀ c ∈ components, fieldOf c "status" = "conflict" → status = "conflict") ∧
    ∀ c ∈ components, Blocked c → status ≠ "ready"

namespace Sound

variable [Platform] {index : ModelIndex} {task₀ : Json} {subjects : List Subject}
  {components dependencies : List Json} {view : Json}
  (h : Sound index task₀ subjects components dependencies view)
include h

theorem toRecorded : Recorded dependencies :=
  ⟨fun d hd => (h.recorded d hd).imp fun _ hs => ⟨hs.1, hs.2.1⟩, h.keys⟩

end Sound

/-! ### Composed views are sound -/

section composed
variable [Platform] {index : ModelIndex} (wf : index.WellFormed)

namespace Subject

omit [Platform]

theorem identity_ne_nil {s : Bytes} (h : isIdentity s = true) : s ≠ [] := by
  rintro rfl
  simp [isIdentity, isText] at h

include wf in
theorem Selected.proper {kind anchor : Bytes} {roles : List Bytes} {s : Subject}
    (h : s.Selected index kind anchor roles) : s.Proper :=
  ⟨identity_ne_nil (wf.tags _ h.tag).id, fun a ha =>
    ⟨identity_ne_nil (wf.alarms _ (h.alarm a ha).1).id, (h.alarm a ha).2⟩⟩

theorem ShownBy.isComponent {s : Subject} (hs : s.Proper) {c : Json} (h : s.ShownBy c) :
    IsComponent c := by
  have htag : c.find? "tag_id" = some (.str s.tag.id) := by
    rw [h.tagId]
    obtain ⟨tag, alarm⟩ := s
    cases alarm with
    | none => rfl
    | some a => simp [(hs.alarm a rfl).2]
  refine ⟨h.isObject, by rw [fieldOf_eq h.id, h.id], by rw [fieldOf_eq htag, htag], ?_, ?_,
    h.relationshipId, .inl h.status⟩
  · rw [fieldOf_eq htag]
    exact hs.tagId
  · rw [h.alarmId]
    obtain ⟨tag, alarm⟩ := s
    cases alarm with
    | none => exact .inl rfl
    | some a => exact .inr ⟨a.id, (hs.alarm a rfl).1, rfl⟩

theorem ShownBy.not_blocked {s : Subject} {c : Json} (h : s.ShownBy c) : ¬ Blocked c := by
  simp [Blocked, fieldOf_none h.status, isBlocked]

theorem ShownBy.boundOf_eq {s : Subject} (hs : s.Proper) {c : Json} (h : s.ShownBy c) :
    boundOf c = ⟨s.tag.id, s.alarmId, []⟩ := by
  obtain ⟨tag, alarm⟩ := s
  cases alarm with
  | none => simp [boundOf, fieldOf, h.tagId, h.alarmId, h.relationshipId, Subject.alarmId]
  | some a =>
    simp [boundOf, fieldOf, h.tagId, h.alarmId, h.relationshipId, Subject.alarmId,
      (hs.alarm a rfl).2]

end Subject

namespace Composed

variable {task : Json} {c : Composed} (h : c.Of index task)
include h

theorem Of.components_ids : c.components.map (fieldOf · "id") = c.subjects.map (·.id) := by
  rw [components, List.map_map]
  refine (forall₂_map_eq (fun s b hsb => ?_) h.bound).symm
  exact (fieldOf_eq (Subject.component_shows (Subject.bind_eq_ok.mp hsb).1).id).symm

theorem Of.dependencies_keys : c.dependencies.map keyOf = c.subjects.map (·.key) := by
  rw [dependencies, List.map_map]
  refine (forall₂_map_eq (fun s b hsb => ?_) h.bound).symm
  exact (Subject.dependency_records (Subject.bind_eq_ok.mp hsb).2).keyOf_eq.symm

include wf

theorem Of.proper {s : Subject} (hs : s ∈ c.subjects) : s.Proper :=
  ((mem_selection wf h.subjects).mp hs).proper wf

theorem Of.nodup_keys : (c.dependencies.map keyOf).Nodup := by
  rw [h.dependencies_keys]
  have hids := nodup_selection wf h.subjects
  refine List.Nodup.map_on (fun s hs s' hs' hkey => ?_) (List.Nodup.of_map _ hids)
  exact List.inj_on_of_nodup_map hids hs hs'
    (Subject.key_inj (h.proper wf hs) (h.proper wf hs') hkey).1

/-- **A composed view is sound.** -/
theorem Of.sound :
    Sound index task c.subjects c.components c.dependencies (c.view index task) where
  isObject := by simp [view, composeView]
  task := by
    refine ⟨effectiveTask index task, ?_, ?_⟩
    · rw [view_find? c task (by simp)]
      simp [composeView]
    · simp only [taskScope]
      rw [effectiveTask_find? h.isObject (by simp), effectiveTask_find? h.isObject (by simp),
        effectiveTask_find? h.isObject (by simp)]
  hasComponents := by
    rw [view_find? c task (by simp)]
    simp [composeView, components]
  hasDependencies := by
    rw [view_find? c task (by simp)]
    simp [composeView, dependencies]
  component := by
    intro j hj
    obtain ⟨s, hs, hcomp⟩ := h.mem_components.mp hj
    exact (Subject.component_shows hcomp).isComponent (h.proper wf hs)
  nodup := by
    rw [h.components_ids]
    exact nodup_selection wf h.subjects
  recorded := by
    intro j hj
    obtain ⟨s, hs, hdep⟩ := h.mem_dependencies.mp hj
    refine ⟨s, h.proper wf hs, Subject.dependency_records hdep, ?_⟩
    rw [h.components_ids]
    exact List.mem_map_of_mem hs
  keys := h.nodup_keys wf
  held := by
    intro j hj _
    obtain ⟨s, hs, hcomp⟩ := h.mem_components.mp hj
    obtain ⟨_, -, -, dep, hdep, hsdep⟩ := h.bound_of_mem hs
    exact ⟨s, hs, hcomp, dep, hdep, hsdep⟩
  status := by
    have hfree : ∀ j ∈ c.components, ¬ Blocked j := by
      intro j hj
      obtain ⟨s, -, hcomp⟩ := h.mem_components.mp hj
      exact (Subject.component_shows hcomp).not_blocked
    refine ⟨if c.bound.isEmpty then "needs-review" else "ready", ?_, ?_, ?_, ?_⟩
    · rw [view_find? c task (by simp)]
      simp [composeView]
    · split <;> simp
    · intro j hj hst
      exact absurd (by simp [Blocked, hst, isBlocked]) (hfree j hj)
    · exact fun j hj hb => absurd hb (hfree j hj)

end Composed

end composed

/-! ### One reconciliation -/

theorem previousArray_some {view : Json} {k details : Bytes} {items : List Json}
    {r : Option (List Json)} (h : view.find? k = some (.arr items))
    (hr : previousArray view k details = .ok r) : r = some items := by
  simp only [previousArray, h, bind_eq_ok, throwIf_eq_ok, pure_eq_ok] at hr
  obtain ⟨_, -, rfl⟩ := hr
  rfl

theorem hasConflictStatus_eq {c : Json} (hobj : c.isObject = true)
    (h : c.find? "status" = none ∨ ∃ s, c.find? "status" = some (.str s)) :
    hasConflictStatus c = .ok (fieldOf c "status" == "conflict") := by
  simp only [hasConflictStatus, valueString_fieldOf hobj h, ok_bind]
  rfl

section status
variable {f : Findings} {prior : Bool} {issues : List Json} {previous : Bytes}

theorem reconciledStatus_cases :
    reconciledStatus f prior issues previous = "ready" ∨
      reconciledStatus f prior issues previous = "needs-review" ∨
      reconciledStatus f prior issues previous = "conflict" := by
  unfold reconciledStatus
  split_ifs <;> simp

theorem reconciledStatus_conflict (h : f.Conflicted ∨ prior = true) :
    reconciledStatus f prior issues previous = "conflict" := by
  refine if_pos ?_
  simpa [Findings.Conflicted, or_assoc] using h

theorem reconciledStatus_ne_ready (h : f.Missing ∨ previous = "needs-review") :
    reconciledStatus f prior issues previous ≠ "ready" := by
  unfold reconciledStatus
  split_ifs with h₁ h₂
  · simp
  · simp
  · refine absurd ?_ h₂
    simp only [Findings.Missing] at h
    simp only [Bool.or_eq_true, Bool.not_eq_true', List.isEmpty_eq_false_iff, beq_iff_eq]
    tauto

end status

variable [Platform]

/-- The parts of a reconciliation of a sound view. -/
structure Reconciled (index : ModelIndex) (task₀ : Json) (components dependencies : List Json)
    (view view' : Json) where
  task : Json
  composed : Composed
  findings : Findings
  changes : List Json
  issues : List Json
  prior : Bool
  status : Bytes
  allIssues : List Json
  of : composed.Of index task
  scope : taskScope task = taskScope task₀
  compared : compareView index changes issues components dependencies = .ok findings
  hasStatus : view.find? "status" = some (.str status)
  prior_of_status : status = "conflict" → prior = true
  prior_of_component : ∀ c ∈ components, fieldOf c "status" = "conflict" → prior = true
  view_eq : view' = (composed.view index task).setFields [("task", task),
    ("changes", .arr findings.changes), ("issues", .arr allIssues),
    ("components", .arr (keptComponents findings composed.components components)),
    ("dependencies", .arr (keptDependencies findings composed.dependencies dependencies)),
    ("status", .str (reconciledStatus findings prior allIssues status)),
    ("reconciled", .bool true)]

omit [Platform] in
theorem taskScope_setFields {task : Json} (hobj : task.isObject = true) (modelId revision : Json) :
    taskScope (task.setFields [("model_id", modelId), ("model_revision", revision)]) =
      taskScope task := by
  simp [taskScope, Json.find?_setFields hobj]

theorem reconcileViewImpl_parts {index index' : ModelIndex} {task₀ view view' : Json}
    {subjects : List Subject} {components dependencies : List Json}
    (wf' : index'.WellFormed)
    (hs : Sound index task₀ subjects components dependencies view)
    (h : reconcileViewImpl index' view = .ok view') :
    Nonempty (Reconciled index' task₀ components dependencies view view') := by
  simp only [reconcileViewImpl, readPrevious, bind_eq_ok, throwIf_eq_ok, pure_eq_ok] at h
  obtain ⟨previous, ⟨_, -, task, htask, comps, hcomps, deps, hdeps, issues, hissues, changes,
    hchanges, rfl⟩, _, -, _, -, fresh, hfresh, f, hf, merged, hmerged, _, -, mergedDeps,
    hmergedDeps, prior, hprior, status, hstatus, rfl⟩ := h
  obtain ⟨task', htask', hscope⟩ := hs.task
  obtain ⟨htaskEq, hobj⟩ : task = task' ∧ task.isObject = true := by
    simp only [previousTask, htask', map_eq_ok, throwIf_eq_ok, not_not] at htask
    obtain ⟨_, hobj, rfl⟩ := htask
    exact ⟨rfl, hobj⟩
  subst htaskEq
  have hcompsEq : comps = components := by
    simp only [previousComponents, bind_eq_ok] at hcomps
    obtain ⟨r, hr, hcomps⟩ := hcomps
    obtain rfl := previousArray_some hs.hasComponents hr
    simp only [pure_eq_ok] at hcomps
    exact hcomps.symm
  subst hcompsEq
  obtain rfl := previousArray_some hs.hasDependencies hdeps
  obtain ⟨c, hc, rfl⟩ := resolveTaskImpl_eq_ok.mp hfresh
  have hcsound := hc.sound wf'
  obtain ⟨st, hst, -, -⟩ := hs.status
  have hstEq : status = st := by
    rw [Json.valueString_of_find? hst] at hstatus
    exact (Except.ok.inj hstatus).symm
  subst hstEq
  simp only [hcsound.hasComponents, hcsound.hasDependencies, Option.getD_some, Json.items,
    mergedDependencies] at hmerged hmergedDeps
  rw [mergeComponents_eq f _ hs.component] at hmerged
  rw [mergeDependencies_eq f _ hs.toRecorded] at hmergedDeps
  obtain rfl := Except.ok.inj hmerged
  obtain rfl := Except.ok.inj hmergedDeps
  simp only [priorConflict, hasConflictStatus_eq hs.isObject (.inr ⟨_, hst⟩), ok_bind] at hprior
  rw [mapM_eq_map (l := comps) (g := fun c => fieldOf c "status" == "conflict") fun c hc =>
    hasConflictStatus_eq (hs.component c hc).isObject
      ((hs.component c hc).status.imp_right fun hs => hs.imp fun _ h => h.2)] at hprior
  simp only [bind_eq_ok, ok_bind, pure_eq_ok] at hprior
  obtain ⟨kinds, -, rfl⟩ := hprior
  refine ⟨⟨_, c, f, _, _, _, status, _, hc, ?_, hf, hst, ?_, ?_, rfl⟩⟩
  · rw [taskScope_setFields hobj, hscope]
  · intro hconf
    simp [fieldOf_eq hst, hconf]
  · intro c hc hconf
    have hany : (comps.map fun c => fieldOf c "status" == "conflict").any id = true := by
      rw [List.any_map, List.any_eq_true]
      exact ⟨c, hc, by simp [hconf]⟩
    simp [hany]

/-! ### What a reconciliation keeps -/

omit [Platform] in
theorem Subject.Same.key {s s' : Subject} (h : s.Same s') : s.key = s'.key := by
  obtain ⟨tag, alarm⟩ := s
  cases alarm with
  | none => simp [Subject.key, Subject.alarmId, h.noAlarm rfl, ← h.tagId]
  | some a =>
    obtain ⟨a', ha', hid, -⟩ := h.alarm a rfl
    simp [Subject.key, Subject.alarmId, ha', hid, ← h.tagId]

omit [Platform] in
theorem Findings.spares_of_blocks {f : Findings} {s : Subject} {c : Json} (hs : s.Proper)
    (hsc : s.ShownBy c) (h : f.blocks (boundOf c) = false) : f.Spares s := by
  rw [hsc.boundOf_eq hs] at h
  simp only [Findings.blocks, Bool.or_eq_false_iff, List.contains_eq_mem, decide_eq_false_iff_not] at h
  obtain ⟨⟨⟨⟨⟨hct, hrt⟩, hca⟩, hra⟩, -⟩, -⟩ := h
  refine ⟨hrt, hct, fun a ha => ?_⟩
  have hid : s.alarmId = a.id := by simp [Subject.alarmId, ha]
  exact ⟨hid ▸ hra, hid ▸ hca⟩

omit [Platform] in
theorem Findings.blocksDependency_of_spares {f : Findings} {s : Subject} {d : Json}
    (hsd : s.RecordedBy d) (h : f.Spares s) :
    f.blocksDependency (fieldOf d "tag_id") (fieldOf d "alarm_id") = false := by
  obtain ⟨tag, alarm⟩ := s
  have hr := h.removedTag
  have hc := h.conflictedTag
  cases alarm with
  | none => simp_all [Findings.blocksDependency, fieldOf, hsd.tagId, hsd.alarmId]
  | some a =>
    have ha := h.alarm a rfl
    simp_all [Findings.blocksDependency, fieldOf, hsd.tagId, hsd.alarmId]

/-- A component that neither was nor is blocked shows the same subject, as the new model declares
it, and its dependency is renewed with it. -/
theorem Sound.renewed {index index' : ModelIndex} {task₀ task view : Json} {subjects : List Subject}
    {components dependencies changes issues : List Json} {kind anchor : Bytes} {roles : List Bytes}
    {composed : Composed} {f : Findings} (wf : index.WellFormed) (wf' : index'.WellFormed)
    (hs : Sound index task₀ subjects components dependencies view)
    (hsel : ∀ s ∈ subjects, s.Selected index kind anchor roles) (hof : composed.Of index' task)
    (hsel' : ∀ s, s ∈ composed.subjects ↔ s.Selected index' kind anchor roles)
    (hcompared : compareView index' changes issues components dependencies = .ok f)
    {c : Json} (hc : c ∈ components) (hfree : ¬ Blocked c) (hspare : f.blocks (boundOf c) = false) :
    ∃ s ∈ subjects, s.component index = .ok c ∧ ∃ s' ∈ composed.subjects, s.Same s' ∧
      s'.component index' = .ok (kept f composed.components c) ∧
      kept f composed.components c ∈ composed.components ∧
      ∃ d ∈ keptDependencies f composed.dependencies dependencies, s'.dependency = .ok d := by
  obtain ⟨s, hmem, hcomp, d, hd, hdep⟩ := hs.held c hc hfree
  have hproper := (hsel s hmem).proper wf
  have hshown := Subject.component_shows hcomp
  have hrecord := Subject.dependency_records hdep
  have hspares := Findings.spares_of_blocks hproper hshown hspare
  obtain ⟨s', hsame, htag, halarm⟩ :=
    compareView_subject wf' hcompared hs.toRecorded hd hproper hrecord hspares
  have hmem' := (hsel' s').mpr (hsame.selected (hsel s hmem) htag halarm)
  obtain ⟨c', hc', hcomp', d', hd', hdep'⟩ := hof.bound_of_mem hmem'
  have hfresh := hof.sound wf'
  have hkept : kept f composed.components c = c' := by
    have hfind : (composed.components.find? fun current =>
        fieldOf current "id" = fieldOf c "id") = some c' := by
      rw [Assoc.findKey_eq_some_iff (fieldOf · "id") hfresh.nodup]
      refine ⟨hc', ?_⟩
      rw [fieldOf_eq (Subject.component_shows hcomp').id, fieldOf_eq hshown.id, hsame.id]
    have hstatus : isBlocked (fieldOf c "status") = false := by simpa [Blocked] using hfree
    simp [kept, keepComponent, hstatus, hspare, hfind]
  have hkeptDep : keptDependency f composed.dependencies d = d' := by
    have hfind : (composed.dependencies.find? fun current =>
        keyOf current = keyOf d) = some d' := by
      rw [Assoc.findKey_eq_some_iff keyOf hfresh.keys]
      exact ⟨hd', by rw [(Subject.dependency_records hdep').keyOf_eq, hrecord.keyOf_eq, hsame.key]⟩
    have hkey : dependencyKey (fieldOf d "tag_id") (fieldOf d "alarm_id") = keyOf d := rfl
    simp [keptDependency, keepDependency, Findings.blocksDependency_of_spares hrecord hspares, hkey,
      hfind]
  refine ⟨s, hmem, hcomp, s', hmem', hsame, hkept ▸ hcomp', hkept ▸ hc', d', ?_, hdep'⟩
  exact List.mem_append_left _ (List.mem_map.mpr ⟨d, hd, hkeptDep⟩)

namespace Reconciled

variable {index index' : ModelIndex} {task₀ view view' : Json} {subjects : List Subject}
  {components dependencies : List Json} {kind anchor : Bytes} {roles : List Bytes}
  (r : Reconciled index' task₀ components dependencies view view')
  (wf : index.WellFormed) (wf' : index'.WellFormed)
  (hs : Sound index task₀ subjects components dependencies view)
  (hsel : ∀ s ∈ subjects, s.Selected index kind anchor roles)
  (hsel' : ∀ s, s ∈ r.composed.subjects ↔ s.Selected index' kind anchor roles)
include wf wf' hs hsel hsel'

theorem renewed {c : Json} (hc : c ∈ components) (hfree : ¬ Blocked c)
    (hspare : r.findings.blocks (boundOf c) = false) :
    ∃ s ∈ subjects, s.component index = .ok c ∧ ∃ s' ∈ r.composed.subjects, s.Same s' ∧
      s'.component index' = .ok (kept r.findings r.composed.components c) ∧
      kept r.findings r.composed.components c ∈ r.composed.components ∧
      ∃ d ∈ keptDependencies r.findings r.composed.dependencies dependencies,
        s'.dependency = .ok d :=
  Sound.renewed wf wf' hs hsel r.of hsel' r.compared hc hfree hspare

omit wf wf' hsel hsel' in
theorem clean : r.findings.Clean :=
  compareView_clean hs.toRecorded.alarmSlot_ne (fun c hc => (hs.component c hc).relationshipId)
    r.compared

/-- What becomes of an old component: it is kept, blocked, with a status the findings or the old view
account for; or it is renewed. -/
theorem kept_cases {c : Json} (hc : c ∈ components) :
    ((Blocked c ∨ r.findings.blocks (boundOf c) = true) ∧
      kept r.findings r.composed.components c = r.findings.preserve (boundOf c) c ∧
      Blocked (kept r.findings r.composed.components c)) ∨
    (¬ Blocked c ∧ ∃ s ∈ subjects, s.component index = .ok c ∧ ∃ s' ∈ r.composed.subjects,
      s.Same s' ∧ s'.component index' = .ok (kept r.findings r.composed.components c) ∧
      kept r.findings r.composed.components c ∈ r.composed.components ∧
      ∃ d ∈ keptDependencies r.findings r.composed.dependencies dependencies,
        s'.dependency = .ok d) := by
  by_cases hb : Blocked c ∨ r.findings.blocks (boundOf c) = true
  · have hkept : kept r.findings r.composed.components c = r.findings.preserve (boundOf c) c := by
      have hcond : (isBlocked (fieldOf c "status") || r.findings.blocks (boundOf c)) = true := by
        simpa [Blocked] using hb
      simp [kept, keepComponent, hcond]
    exact .inl ⟨hb, hkept, hkept ▸ (hs.component c hc).preserve_blocked (r.clean hs) hb⟩
  · obtain ⟨hfree, hspare⟩ := not_or.mp hb
    exact .inr ⟨hfree, r.renewed wf wf' hs hsel hsel' hc hfree (by simpa using hspare)⟩

theorem kept_id {c : Json} (hc : c ∈ components) :
    fieldOf (kept r.findings r.composed.components c) "id" = fieldOf c "id" := by
  rcases r.kept_cases wf wf' hs hsel hsel' hc with ⟨-, hkept, -⟩ | ⟨-, s, -, hcomp, s', -, hsame,
    hcomp', -⟩
  · rw [hkept]
    exact (hs.component c hc).preserve_id _ _
  · rw [fieldOf_eq (Subject.component_shows hcomp').id, fieldOf_eq (Subject.component_shows hcomp).id,
      hsame.id]

theorem kept_isComponent {c : Json} (hc : c ∈ components) :
    IsComponent (kept r.findings r.composed.components c) := by
  rcases r.kept_cases wf wf' hs hsel hsel' hc with ⟨-, hkept, -⟩ | ⟨-, s, -, -, s', hs', -, hcomp', -⟩
  · rw [hkept]
    exact (hs.component c hc).preserve _ _
  · exact (Subject.component_shows hcomp').isComponent (((hsel' s').mp hs').proper wf')

theorem keptComponents_ids :
    (keptComponents r.findings r.composed.components components).map (fieldOf · "id") =
      components.map (fieldOf · "id") ++ (r.composed.components.map (fieldOf · "id")).filter
        fun id => id ∉ components.map (fieldOf · "id") := by
  rw [keptComponents, List.map_append, List.map_map, List.filter_map]
  congr 1
  exact List.map_congr_left fun c hc => r.kept_id wf wf' hs hsel hsel' hc

theorem mem_ids_of_fresh {x : Bytes} (h : x ∈ r.composed.components.map (fieldOf · "id")) :
    x ∈ (keptComponents r.findings r.composed.components components).map (fieldOf · "id") := by
  rw [r.keptComponents_ids wf wf' hs hsel hsel', List.mem_append, List.mem_filter]
  by_cases hx : x ∈ components.map (fieldOf · "id")
  · exact .inl hx
  · exact .inr ⟨h, by simpa using hx⟩

omit wf wf' hs hsel hsel' in
theorem keptDependencies_keys (hs : Sound index task₀ subjects components dependencies view) :
    (keptDependencies r.findings r.composed.dependencies dependencies).map keyOf =
      dependencies.map keyOf ++ (r.composed.dependencies.map keyOf).filter
        fun key => key ∉ dependencies.map keyOf := by
  rw [keptDependencies, List.map_append, List.map_map, List.filter_map]
  congr 1
  refine List.map_congr_left fun d hd => ?_
  obtain ⟨s, -, hsd, -⟩ := hs.recorded d hd
  have hkey : dependencyKey (fieldOf d "tag_id") (fieldOf d "alarm_id") = keyOf d := rfl
  simp only [Function.comp_apply, keptDependency, keepDependency, hkey]
  split
  · rfl
  · cases hfind : r.composed.dependencies.find? fun current => decide (keyOf current = keyOf d) with
    | none => rfl
    | some d' => simpa using List.find?_some hfind

/-- The status of a kept component that is not renewed: what the reconciled status must be. -/
theorem status_of_kept {c : Json} (hc : c ∈ components) :
    (fieldOf (kept r.findings r.composed.components c) "status" = "conflict" →
      reconciledStatus r.findings r.prior r.allIssues r.status = "conflict") ∧
    (Blocked (kept r.findings r.composed.components c) →
      reconciledStatus r.findings r.prior r.allIssues r.status ≠ "ready") := by
  obtain ⟨status, hstatus, hvalues, -, hready⟩ := hs.status
  obtain rfl : r.status = status := by simpa [r.hasStatus] using hstatus
  have hconflict : reconciledStatus r.findings r.prior r.allIssues r.status = "conflict" →
      reconciledStatus r.findings r.prior r.allIssues r.status ≠ "ready" := fun h => by simp [h]
  rcases r.kept_cases wf wf' hs hsel hsel' hc with ⟨-, hkept, hblocked⟩ |
    ⟨-, _, -, -, _, -, -, hcomp', -⟩
  · rw [hkept] at hblocked ⊢
    rcases r.findings.preserve_status (boundOf c) (hs.component c hc).isObject with
      ⟨hst, -⟩ | ⟨hst, hf⟩ | ⟨hst, hf⟩
    · have hsame : fieldOf (r.findings.preserve (boundOf c) c) "status" = fieldOf c "status" := by
        rw [fieldOf, hst, fieldOf]
      rw [Blocked, hsame]
      refine ⟨fun h => reconciledStatus_conflict (.inr (r.prior_of_component c hc h)), fun h => ?_⟩
      rcases hvalues with hv | hv | hv
      · exact absurd hv (hready c hc h)
      · exact reconciledStatus_ne_ready (.inr hv)
      · exact hconflict (reconciledStatus_conflict (.inr (r.prior_of_status hv)))
    · exact ⟨fun _ => reconciledStatus_conflict (.inl hf),
        fun _ => hconflict (reconciledStatus_conflict (.inl hf))⟩
    · refine ⟨fun h => ?_, fun _ => reconciledStatus_ne_ready (.inl hf)⟩
      rw [fieldOf_eq hst] at h
      simp at h
  · have hshown := Subject.component_shows hcomp'
    refine ⟨fun h => ?_, fun h => absurd h hshown.not_blocked⟩
    rw [fieldOf_none hshown.status] at h
    simp at h

theorem components_sound {c : Json}
    (hc : c ∈ keptComponents r.findings r.composed.components components) : IsComponent c := by
  rcases List.mem_append.mp hc with hc | hc
  · obtain ⟨b, hb, rfl⟩ := List.mem_map.mp hc
    exact r.kept_isComponent wf wf' hs hsel hsel' hb
  · exact (r.of.sound wf').component c (List.mem_of_mem_filter hc)

theorem ids_sound :
    ((keptComponents r.findings r.composed.components components).map (fieldOf · "id")).Nodup := by
  rw [r.keptComponents_ids wf wf' hs hsel hsel', List.nodup_append]
  refine ⟨hs.nodup, (r.of.sound wf').nodup.filter _, fun x hx y hy e => ?_⟩
  have hnot := (List.mem_filter.mp hy).2
  simp only [decide_eq_true_eq] at hnot
  exact hnot (e ▸ hx)

theorem recorded_sound {d : Json}
    (hd : d ∈ keptDependencies r.findings r.composed.dependencies dependencies) :
    ∃ s : Subject, s.Proper ∧ s.RecordedBy d ∧ s.id ∈
      (keptComponents r.findings r.composed.components components).map (fieldOf · "id") := by
  have hnew : ∀ d ∈ r.composed.dependencies, ∃ s : Subject, s.Proper ∧ s.RecordedBy d ∧ s.id ∈
      (keptComponents r.findings r.composed.components components).map (fieldOf · "id") := by
    intro d hd
    obtain ⟨s, hproper, hsd, hid⟩ := (r.of.sound wf').recorded d hd
    exact ⟨s, hproper, hsd, r.mem_ids_of_fresh wf wf' hs hsel hsel' hid⟩
  rcases List.mem_append.mp hd with hd | hd
  · obtain ⟨b, hb, rfl⟩ := List.mem_map.mp hd
    have hold : ∃ s : Subject, s.Proper ∧ s.RecordedBy b ∧ s.id ∈
        (keptComponents r.findings r.composed.components components).map (fieldOf · "id") := by
      obtain ⟨s, hproper, hsd, hid⟩ := hs.recorded b hb
      refine ⟨s, hproper, hsd, ?_⟩
      rw [r.keptComponents_ids wf wf' hs hsel hsel']
      exact List.mem_append_left _ hid
    simp only [keptDependency, keepDependency]
    split
    · exact hold
    · split
      · rename_i hfound
        exact hnew _ (List.mem_of_find?_eq_some hfound)
      · exact hold
  · exact hnew d (List.mem_of_mem_filter hd)

omit wf hsel hsel' in
theorem keys_sound :
    ((keptDependencies r.findings r.composed.dependencies dependencies).map keyOf).Nodup := by
  rw [r.keptDependencies_keys hs, List.nodup_append]
  refine ⟨hs.keys, (r.of.sound wf').keys.filter _, fun x hx y hy e => ?_⟩
  have hnot := (List.mem_filter.mp hy).2
  simp only [decide_eq_true_eq] at hnot
  exact hnot (e ▸ hx)

theorem held_sound {c : Json}
    (hc : c ∈ keptComponents r.findings r.composed.components components) (hfree : ¬ Blocked c) :
    ∃ s ∈ r.composed.subjects, s.component index' = .ok c ∧
      ∃ d ∈ keptDependencies r.findings r.composed.dependencies dependencies,
        s.dependency = .ok d := by
  rcases List.mem_append.mp hc with hc | hc
  · obtain ⟨b, hb, rfl⟩ := List.mem_map.mp hc
    rcases r.kept_cases wf wf' hs hsel hsel' hb with ⟨-, -, hblocked⟩ |
      ⟨-, -, -, -, s', hs', -, hcomp', -, d', hd', hdep'⟩
    · exact absurd hblocked hfree
    · exact ⟨s', hs', hcomp', d', hd', hdep'⟩
  · obtain ⟨hmem, hnew⟩ := List.mem_filter.mp hc
    simp only [decide_eq_true_eq] at hnew
    obtain ⟨s', hs', hcomp'⟩ := r.of.mem_components.mp hmem
    obtain ⟨-, -, -, d', hd', hdep'⟩ := r.of.bound_of_mem hs'
    refine ⟨s', hs', hcomp', d', List.mem_append_right _ (List.mem_filter.mpr ⟨hd', ?_⟩), hdep'⟩
    -- an old dependency of this key would belong to an old component of this id
    simp only [decide_eq_true_eq]
    intro hkey
    obtain ⟨d, hd, hdkey⟩ := List.mem_map.mp hkey
    obtain ⟨s, hproper, hsd, hid⟩ := hs.recorded d hd
    rw [hsd.keyOf_eq, (Subject.dependency_records hdep').keyOf_eq] at hdkey
    have hids := (Subject.key_inj hproper (((hsel' s').mp hs').proper wf') hdkey).1
    rw [fieldOf_eq (Subject.component_shows hcomp').id, ← hids] at hnew
    exact hnew hid

theorem status_sound {c : Json}
    (hc : c ∈ keptComponents r.findings r.composed.components components) :
    (fieldOf c "status" = "conflict" →
      reconciledStatus r.findings r.prior r.allIssues r.status = "conflict") ∧
    (Blocked c → reconciledStatus r.findings r.prior r.allIssues r.status ≠ "ready") := by
  rcases List.mem_append.mp hc with hc | hc
  · obtain ⟨b, hb, rfl⟩ := List.mem_map.mp hc
    exact r.status_of_kept wf wf' hs hsel hsel' hb
  · obtain ⟨s, -, hcomp⟩ := r.of.mem_components.mp (List.mem_of_mem_filter hc)
    have hshown := Subject.component_shows hcomp
    refine ⟨fun h => ?_, fun h => absurd h hshown.not_blocked⟩
    rw [fieldOf_none hshown.status] at h
    simp at h

omit wf hs hsel hsel' in
theorem find?_view (k : Bytes) : view'.find? k = (Assoc.find? k [("reconciled", .bool true),
    ("status", .str (reconciledStatus r.findings r.prior r.allIssues r.status)),
    ("dependencies", .arr (keptDependencies r.findings r.composed.dependencies dependencies)),
    ("components", .arr (keptComponents r.findings r.composed.components components)),
    ("issues", .arr r.allIssues), ("changes", .arr r.findings.changes), ("task", r.task)]).or
      ((r.composed.view index' r.task).find? k) :=
  (congrArg (·.find? k) r.view_eq).trans (Json.find?_setFields (r.of.sound wf').isObject _ k)

omit wf hs hsel hsel' in
theorem hasStatus' : view'.find? "status" =
    some (.str (reconciledStatus r.findings r.prior r.allIssues r.status)) := by
  simpa using r.find?_view wf' "status"

/-- **A reconciliation keeps a view sound**, against the model it reconciles with. -/
theorem sound :
    Sound index' task₀ r.composed.subjects
      (keptComponents r.findings r.composed.components components)
      (keptDependencies r.findings r.composed.dependencies dependencies) view' := by
  have hfind := r.find?_view wf'
  refine ⟨?_, ⟨r.task, by simpa using hfind "task", r.scope⟩, by simpa using hfind "components",
    by simpa using hfind "dependencies", fun c => r.components_sound wf wf' hs hsel hsel',
    r.ids_sound wf wf' hs hsel hsel', fun d => r.recorded_sound wf wf' hs hsel hsel',
    r.keys_sound wf' hs, fun c => r.held_sound wf wf' hs hsel hsel',
    reconciledStatus r.findings r.prior r.allIssues r.status, r.hasStatus' wf',
    reconciledStatus_cases, fun c hc => (r.status_sound wf wf' hs hsel hsel' hc).1,
    fun c hc => (r.status_sound wf wf' hs hsel hsel' hc).2⟩
  rw [r.view_eq]
  exact Json.isObject_setFields (r.of.sound wf').isObject _

end Reconciled

end ContextHmi
