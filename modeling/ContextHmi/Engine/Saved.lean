import ContextHmi.Engine.Findings
import ContextHmi.Engine.Rebinding

/-!
# Saved views

What a view the service keeps holds, whatever model it was last composed with and whatever became of
it since: enough to reconcile it with any accepted model, or to be told with a `DomainError` that it
cannot be.

* `reconcileViewImpl_refuses` : reconciling a saved view only throws `DomainError`;
* `reconcileViewImpl_eq_ok`   : when a saved view is reconciled, and with what;
* `Composed.Of.saved`, `Saved.next` : composed and reconciled views can be saved.
-/

namespace ContextHmi

open Outcome

/-- The exception is a `DomainError`. -/
def Error.IsDomain : Error → Prop
  | .domain .. => True
  | _ => False

/-- The call returns or throws a `DomainError`. -/
abbrev Refuses {α : Type} (x : Result α) : Prop := Throws Error.IsDomain x

/-! ### Resolving a task only refuses it -/

/-- The exception is `invalid_task`. -/
def Error.IsInvalidTask (e : Error) : Prop := ∃ details, e = invalidTask details

/-- The call returns or throws `invalid_task`. -/
abbrev RefusesTask {α : Type} (x : Result α) : Prop := Throws Error.IsInvalidTask x

theorem taskString_refuses (object : Json) (key place : Bytes) (max : Nat) :
    RefusesTask (taskString object key place max) := by
  unfold taskString
  split
  · exact throws_error ⟨_, rfl⟩
  · split_ifs
    · exact throws_error ⟨_, rfl⟩
    · exact throws_ok _
  · exact throws_error ⟨_, rfl⟩

theorem checkTaskFields_refuses (task : Json) : RefusesTask (checkTaskFields task) := by
  unfold checkTaskFields
  refine throws_bind (throws_throwIf ⟨_, rfl⟩) fun _ _ => ?_
  split
  · exact throws_error ⟨_, rfl⟩
  · exact throws_ok ()

theorem checkTaskRevision_refuses (index : ModelIndex) (task : Json) :
    RefusesTask (checkTaskRevision index task) := by
  unfold checkTaskRevision
  split
  · exact throws_error ⟨_, rfl⟩
  · exact throws_bind (throws_throwIf ⟨_, rfl⟩) fun _ _ => throws_throwIf ⟨_, rfl⟩

theorem checkTaskModelId_refuses (index : ModelIndex) (task : Json) :
    RefusesTask (checkTaskModelId index task) := by
  unfold checkTaskModelId
  split
  · exact throws_ok ()
  · exact throws_throwIf ⟨_, rfl⟩

theorem checkTaskAnchor_refuses (index : ModelIndex) (task : Json) :
    RefusesTask (checkTaskAnchor index task) := by
  unfold checkTaskAnchor
  split
  · exact throws_ok ()
  · exact throws_bind (throws_throwIf ⟨_, rfl⟩) fun _ _ => throws_throwIf ⟨_, rfl⟩
  · exact throws_error ⟨_, rfl⟩

theorem checkTask_refuses (index : ModelIndex) (task : Json) : RefusesTask (checkTask index task) := by
  unfold checkTask
  refine throws_bind (checkTaskFields_refuses task) fun _ _ => ?_
  refine throws_bind (taskString_refuses _ _ _ _) fun _ _ => ?_
  refine throws_bind (throws_throwIf ⟨_, rfl⟩) fun _ _ => ?_
  refine throws_bind (checkTaskRevision_refuses index task) fun _ _ => ?_
  refine throws_bind (checkTaskModelId_refuses index task) fun _ _ => ?_
  refine throws_bind (taskString_refuses _ _ _ _) fun _ _ => ?_
  exact throws_bind (checkTaskAnchor_refuses index task) fun _ _ => throws_pure _

theorem requestedRoles_refuses (task : Json) : RefusesTask (requestedRoles task) := by
  unfold requestedRoles
  split
  · exact throws_ok []
  · refine throws_bind (throws_throwIf ⟨_, rfl⟩) fun _ _ => ?_
    refine throws_bind (throws_mapM fun role _ => ?_) fun _ _ => ?_
    · unfold requestedRole
      split
      · split_ifs
        · exact throws_error ⟨_, rfl⟩
        · exact throws_ok _
      · exact throws_error ⟨_, rfl⟩
    · exact throws_bind (throws_throwIf ⟨_, rfl⟩) fun _ _ => throws_pure _

theorem clientDimension_refuses (client : Json) (name : Bytes) (minimum maximum : Nat) :
    RefusesTask (clientDimension client name minimum maximum) := by
  unfold clientDimension
  split
  · exact throws_ok none
  · rename_i v _
    refine throws_bind (throws_throwIf ⟨_, rfl⟩) fun _ hinteger => ?_
    have hread : ∃ n, v.getUInt64 = .ok n := by
      rw [throwIf_eq_ok, not_not] at hinteger
      cases v with
      | int i => exact ⟨_, rfl⟩
      | uint n => exact ⟨_, rfl⟩
      | _ => simp [isNonnegativeInteger] at hinteger
    refine throws_bind (throws_of_ok hread) fun _ _ => ?_
    exact throws_bind (throws_throwIf ⟨_, rfl⟩) fun _ _ => throws_pure _

theorem clientChoice_refuses (client : Json) (name : Bytes) (choices : List Bytes)
    (details : Bytes) : RefusesTask (clientChoice client name choices details) := by
  unfold clientChoice
  split
  · exact throws_ok none
  · split_ifs
    · exact throws_ok _
    · exact throws_error ⟨_, rfl⟩
  · exact throws_error ⟨_, rfl⟩

theorem checkClientFields_refuses (client : Json) : RefusesTask (checkClientFields client) := by
  unfold checkClientFields
  refine throws_bind (throws_throwIf ⟨_, rfl⟩) fun _ _ => ?_
  split
  · exact throws_error ⟨_, rfl⟩
  · exact throws_ok ()

theorem clientMotion_refuses (client : Json) : RefusesTask (clientMotion client) := by
  unfold clientMotion
  split
  · exact throws_ok none
  · exact throws_bind (throws_throwIf ⟨_, rfl⟩) fun _ _ => throws_pure _

theorem responsiveLayout_refuses (task : Json) : RefusesTask (responsiveLayout task) := by
  simp only [responsiveLayout]
  split
  · exact throws_ok _
  · unfold clientLayout
    refine throws_bind (checkClientFields_refuses _) fun _ _ => ?_
    refine throws_bind (clientDimension_refuses _ _ _ _) fun _ _ => ?_
    refine throws_bind (clientDimension_refuses _ _ _ _) fun _ _ => ?_
    refine throws_bind (clientChoice_refuses _ _ _ _) fun _ _ => ?_
    refine throws_bind (clientChoice_refuses _ _ _ _) fun _ _ => ?_
    exact throws_bind (clientMotion_refuses _) fun _ _ => throws_pure _

theorem taskAnchor_of_checkTask {index : ModelIndex} {task : Json} {kind : Bytes}
    (h : checkTask index task = .ok kind) :
    ∃ anchor, taskAnchor (effectiveTask index task) = .ok anchor ∧
      (anchor ≠ [] → (index.asset? anchor).isSome) := by
  have hobj := (checkTask_eq_ok h).1
  simp only [checkTask, bind_eq_ok, pure_eq_ok] at h
  obtain ⟨_, -, _, -, _, -, _, -, _, -, _, -, _, hcheck, -⟩ := h
  rw [taskAnchor, effectiveTask_find? hobj (by simp)]
  unfold checkTaskAnchor at hcheck
  cases hfind : task.find? "anchor_asset_id" with
  | none => exact ⟨[], rfl, fun h => absurd rfl h⟩
  | some v =>
    rw [hfind] at hcheck
    cases v with
    | str anchor =>
      simp only [bind_eq_ok, throwIf_eq_ok, Option.isNone_iff_eq_none] at hcheck
      obtain ⟨_, -, hdeclared⟩ := hcheck
      exact ⟨anchor, rfl, fun _ => Option.isSome_iff_ne_none.mpr hdeclared⟩
    | _ => cases hcheck

section
variable [Platform] {index : ModelIndex} (wf : index.WellFormed) (htext : index.IsText)
include wf htext

/-- **Resolving a task against an accepted model only refuses the task.** -/
theorem resolveTaskImpl_refusesTask (task : Json) : RefusesTask (resolveTaskImpl index task) := by
  unfold resolveTaskImpl
  refine throws_bind (checkTask_refuses index task) fun kind hkind => ?_
  refine throws_bind ?_ fun _ _ =>
    throws_bind (responsiveLayout_refuses _) fun _ _ => throws_pure _
  obtain ⟨anchor, hanchor, hdeclared⟩ := taskAnchor_of_checkTask hkind
  rw [resolveKind_eq index (checkTask_kind hkind), hanchor, ok_bind]
  refine throws_bind (throws_of_ok ?_) fun _ _ =>
    throws_bind (requestedRoles_refuses _) fun roles _ =>
      throws_bind (throws_of_ok (selection_isOk wf kind anchor roles)) fun subjects hsubjects =>
        throws_bind (throws_of_ok (exists_mapM fun s hs => ?_)) fun _ _ => throws_pure _
  · unfold viewNames
    split
    · exact ⟨_, rfl⟩
    · rename_i hne
      obtain ⟨asset, hasset⟩ := Option.isSome_iff_exists.mp (hdeclared (by simpa using hne))
      exact ⟨_, by simp [assetName, hasset, pure, Except.pure]; rfl⟩
  · have hselected := (mem_selection wf hsubjects).mp hs
    exact (Subject.bind_isOk_iff wf hselected).mpr
      ⟨htext.tags _ hselected.tag, fun a ha => htext.alarms a (hselected.alarm a ha).1⟩

theorem resolveTaskImpl_refuses (task : Json) : Refuses (resolveTaskImpl index task) := by
  intro e he
  obtain ⟨details, rfl⟩ := resolveTaskImpl_refusesTask wf htext task e he
  trivial

end

/-! ### Saved views -/

/-- The members of a saved view that reconciling reads. -/
structure SavedParts where
  task : Json
  components : List Json
  dependencies : List Json
  changes : List Json
  issues : List Json
  status : Bytes

/-- A view made of these parts. -/
structure Saved (view : Json) (p : SavedParts) : Prop where
  isObject : view.isObject = true
  task : view.find? "task" = some p.task
  components : view.find? "components" = some (.arr p.components)
  dependencies : view.find? "dependencies" = some (.arr p.dependencies)
  changes : view.find? "changes" = some (.arr p.changes) ∨
    view.find? "changes" = none ∧ p.changes = []
  issues : view.find? "issues" = some (.arr p.issues)
  status : view.find? "status" = some (.str p.status)
  component : ∀ c ∈ p.components, IsComponent c
  plain : ∀ c ∈ p.components, c.Plain
  comparable : Comparable p.dependencies
  kinds : ∀ change ∈ p.changes, ∃ kind, change.find? "kind" = some (.str kind)

theorem Saved.unique {view : Json} {p p' : SavedParts} (hs : Saved view p) (hs' : Saved view p') :
    p = p' := by
  have htask : p.task = p'.task := Option.some.inj (hs.task.symm.trans hs'.task)
  have hcomponents : p.components = p'.components :=
    Json.arr.inj (Option.some.inj (hs.components.symm.trans hs'.components))
  have hdependencies : p.dependencies = p'.dependencies :=
    Json.arr.inj (Option.some.inj (hs.dependencies.symm.trans hs'.dependencies))
  have hissues : p.issues = p'.issues :=
    Json.arr.inj (Option.some.inj (hs.issues.symm.trans hs'.issues))
  have hstatus : p.status = p'.status :=
    Json.str.inj (Option.some.inj (hs.status.symm.trans hs'.status))
  have hchanges : p.changes = p'.changes := by
    rcases hs.changes with h | ⟨h, hnil⟩ <;> rcases hs'.changes with h' | ⟨h', hnil'⟩
    · exact Json.arr.inj (Option.some.inj (h.symm.trans h'))
    · exact absurd (h.symm.trans h') (Option.some_ne_none _)
    · exact absurd (h'.symm.trans h) (Option.some_ne_none _)
    · rw [hnil, hnil']
  show SavedParts.mk _ _ _ _ _ _ = SavedParts.mk _ _ _ _ _ _
  rw [SavedParts.mk.injEq]
  exact ⟨htask, hcomponents, hdependencies, hchanges, hissues, hstatus⟩

/-- The members of a view that reconciling reads, next to its model. -/
def savedKeys : List Bytes := ["task", "components", "dependencies", "changes", "issues", "status"]

theorem Saved.congr {view view' : Json} {p : SavedParts} (hs : Saved view p)
    (hobj : view'.isObject = true) (h : ∀ k ∈ savedKeys, view'.find? k = view.find? k) :
    Saved view' p := by
  simp only [savedKeys, List.forall_mem_cons, List.not_mem_nil, false_implies, implies_true,
    and_true] at h
  obtain ⟨htask, hcomponents, hdependencies, hchanges, hissues, hstatus⟩ := h
  exact ⟨hobj, htask ▸ hs.task, hcomponents ▸ hs.components, hdependencies ▸ hs.dependencies,
    hchanges ▸ hs.changes, hissues ▸ hs.issues, hstatus ▸ hs.status, hs.component, hs.plain,
    hs.comparable, hs.kinds⟩

namespace SavedParts

/-- The task a view is reconciled for. -/
def newTask (p : SavedParts) (index : ModelIndex) : Json :=
  p.task.setFields [("model_id", .str index.modelId), ("model_revision", index.revision)]

/-- The change is one of the three conflicts. -/
def isConflict (change : Json) : Bool := (isConflictChange change).toOption.getD false

/-- `prior_conflict`. -/
def prior (p : SavedParts) : Bool :=
  p.status == "conflict" || p.changes.any isConflict ||
    p.components.any fun c => fieldOf c "status" == "conflict"

/-- An array of the composed view. -/
def itemsOf (fresh : Json) (key : Bytes) : List Json := ((fresh.find? key).getD .null).items

variable [Platform]

def findings (p : SavedParts) (index : ModelIndex) : Findings :=
  (findingsOf index p.dependencies).foldl Findings.add
    ⟨p.changes, p.issues, [], [], [], [], [], []⟩

/-- The parts of the reconciled view. -/
def next (p : SavedParts) (index : ModelIndex) (fresh : Json) : SavedParts :=
  let f := p.findings index
  let issues := (itemsOf fresh "issues").foldl addOnce f.issues
  { task := p.newTask index
    components := keptComponents f (itemsOf fresh "components") p.components
    dependencies := keptDependencies f (itemsOf fresh "dependencies") p.dependencies
    changes := f.changes
    issues := issues
    status := reconciledStatus f p.prior issues p.status }

end SavedParts

/-- A composed view with the parts of a reconciled one. -/
def reconciledFrom (fresh : Json) (p : SavedParts) : Json :=
  fresh.setFields [("task", p.task), ("changes", .arr p.changes), ("issues", .arr p.issues),
    ("components", .arr p.components), ("dependencies", .arr p.dependencies),
    ("status", .str p.status), ("reconciled", .bool true)]

/-- What reconciling asks of a saved view before it composes a fresh one. -/
structure Fits (index : ModelIndex) (view : Json) (p : SavedParts) : Prop where
  task : p.task.isObject = true
  components : p.components.length ≤ kMaxComponents
  dependencies : p.dependencies.length ≤ kMaxComponents
  issues : p.issues.length ≤ kMaxComponents
  changes : p.changes.length ≤ kMaxComponents
  model : ∀ v, view.find? "model_id" = some v → v.eqv (.str index.modelId) = true
  taskModel : ∀ v, p.task.find? "model_id" = some v → v.eqv (.str index.modelId) = true

theorem sameModel_eq_ok {object : Json} {modelId details : Bytes} :
    sameModel object modelId details = .ok () ↔
      ∀ v, object.find? "model_id" = some v → v.eqv (.str modelId) = true := by
  unfold sameModel
  cases object.find? "model_id" <;> simp

theorem sameModel_refuses (object : Json) (modelId details : Bytes) :
    Refuses (sameModel object modelId details) := by
  unfold sameModel
  split
  · exact throws_ok ()
  · exact throws_throwIf trivial

theorem previousArray_refuses (view : Json) (key details : Bytes) :
    Refuses (previousArray view key details) := by
  unfold previousArray
  split
  · exact throws_ok none
  · exact throws_bind (throws_throwIf trivial) fun _ _ => throws_pure _

theorem previousTask_refuses (view : Json) : Refuses (previousTask view) := by
  unfold previousTask
  split
  · exact throws_map (throws_throwIf trivial)
  · exact throws_error trivial

theorem previousComponents_refuses (view : Json) : Refuses (previousComponents view) := by
  unfold previousComponents
  refine throws_bind (previousArray_refuses _ _ _) fun r _ => ?_
  cases r with
  | none => exact throws_error trivial
  | some components => exact throws_pure _

theorem readPrevious_refuses (view : Json) : Refuses (readPrevious view) := by
  unfold readPrevious
  refine throws_bind (throws_throwIf trivial) fun _ _ => ?_
  refine throws_bind (previousTask_refuses view) fun _ _ => ?_
  refine throws_bind (previousComponents_refuses view) fun _ _ => ?_
  refine throws_bind (previousArray_refuses _ _ _) fun _ _ => ?_
  refine throws_bind (previousArray_refuses _ _ _) fun _ _ => ?_
  exact throws_bind (previousArray_refuses _ _ _) fun _ _ => throws_pure _

theorem previousArray_eq_ok {view : Json} {key details : Bytes} {items : List Json}
    (h : view.find? key = some (.arr items)) {r : Option (List Json)} :
    previousArray view key details = .ok r ↔ items.length ≤ kMaxComponents ∧ r = some items := by
  simp only [previousArray, h, bind_eq_ok, throwIf_eq_ok, pure_eq_ok, exists_const, Json.isArray,
    Json.size, Json.items, not_true_eq_false, false_or, not_lt]
  exact and_congr_right fun _ => eq_comm

namespace Saved

section
variable {view : Json} {p : SavedParts} (hs : Saved view p)
include hs

theorem previousChanges_eq_ok (details : Bytes) :
    (∃ r, previousArray view "changes" details = .ok r ∧ r.getD [] = p.changes) ↔
      p.changes.length ≤ kMaxComponents := by
  rcases hs.changes with hc | ⟨hc, hnil⟩
  · simp [previousArray_eq_ok hc]
  · simp [previousArray, hc, hnil]

theorem readPrevious_eq_ok {previous : Previous} (h : readPrevious view = .ok previous) :
    previous.task = p.task ∧ previous.components = p.components ∧
      previous.dependencies = some p.dependencies ∧ previous.issues = some p.issues ∧
      previous.changes.getD [] = p.changes := by
  simp only [readPrevious, bind_eq_ok, pure_eq_ok] at h
  obtain ⟨_, -, task, htask, comps, hcomps, deps, hdeps, issues, hissues, changes, hchanges,
    rfl⟩ := h
  simp only [previousTask, hs.task, map_eq_ok] at htask
  obtain ⟨_, -, rfl⟩ := htask
  simp only [previousComponents, bind_eq_ok, previousArray_eq_ok hs.components] at hcomps
  obtain ⟨_, ⟨-, rfl⟩, hcomps⟩ := hcomps
  refine ⟨rfl, (pure_eq_ok.mp hcomps).symm, ((previousArray_eq_ok hs.dependencies).mp hdeps).2,
    ((previousArray_eq_ok hs.issues).mp hissues).2, ?_⟩
  rcases hs.changes with hc | ⟨hc, hnil⟩
  · obtain ⟨-, rfl⟩ := (previousArray_eq_ok hc).mp hchanges
    rfl
  · simp only [previousArray, hc, Except.ok.injEq] at hchanges
    simp [← hchanges, hnil]

theorem readPrevious_isOk_iff :
    (∃ previous, readPrevious view = .ok previous) ↔
      p.task.isObject = true ∧ p.components.length ≤ kMaxComponents ∧
        p.dependencies.length ≤ kMaxComponents ∧ p.issues.length ≤ kMaxComponents ∧
        p.changes.length ≤ kMaxComponents := by
  have hchanges := hs.previousChanges_eq_ok "previous_view.changes is invalid or exceeds limit"
  simp only [readPrevious, bind_eq_ok, pure_eq_ok, throwIf_eq_ok, previousTask, hs.task, map_eq_ok,
    previousComponents, previousArray_eq_ok hs.components, previousArray_eq_ok hs.dependencies,
    previousArray_eq_ok hs.issues, hs.isObject, exists_const, not_true_eq_false, not_false_eq_true,
    not_not, true_and]
  constructor
  · rintro ⟨_, _, ⟨hobj, rfl⟩, comps, ⟨_, ⟨hclen, rfl⟩, hcomps⟩, deps, ⟨hdlen, rfl⟩, issues,
      ⟨hilen, rfl⟩, changes, hread, rfl⟩
    refine ⟨hobj, hclen, hdlen, hilen, hchanges.mp ⟨changes, hread, ?_⟩⟩
    rcases hs.changes with hc | ⟨hc, hnil⟩
    · obtain ⟨-, rfl⟩ := (previousArray_eq_ok hc).mp hread
      rfl
    · simp only [previousArray, hc, Except.ok.injEq] at hread
      simp [← hread, hnil]
  · rintro ⟨hobj, hclen, hdlen, hilen, hchlen⟩
    obtain ⟨changes, hread, -⟩ := hchanges.mpr hchlen
    exact ⟨_, _, ⟨hobj, rfl⟩, _, ⟨_, ⟨hclen, rfl⟩, rfl⟩, _, ⟨hdlen, rfl⟩, _, ⟨hilen, rfl⟩, changes,
      hread, rfl⟩

theorem priorConflict_eq {previous : Previous} (h : readPrevious view = .ok previous) :
    priorConflict view previous = .ok p.prior := by
  obtain ⟨-, hcomps, -, -, hchanges⟩ := hs.readPrevious_eq_ok h
  have hkinds : ∀ change ∈ p.changes, isConflictChange change = .ok (SavedParts.isConflict change) := by
    intro change hchange
    obtain ⟨kind, hkind⟩ := hs.kinds change hchange
    simp [SavedParts.isConflict, isConflictChange, Json.valueString_of_find? hkind, pure, Except.pure,
      Except.toOption]
  have hstatus : ∀ c ∈ p.components, hasConflictStatus c = .ok (fieldOf c "status" == "conflict") :=
    fun c hc => hasConflictStatus_eq (hs.component c hc).isObject
      ((hs.component c hc).status.imp_right fun hst => hst.imp fun _ h => h.2)
  rw [priorConflict, hasConflictStatus_eq hs.isObject (.inr ⟨_, hs.status⟩), hchanges, hcomps,
    mapM_eq_map hkinds, mapM_eq_map hstatus, fieldOf_eq hs.status]
  simp [SavedParts.prior, pure, Except.pure, List.any_map]

end

variable [Platform] {index : ModelIndex} {view : Json} {p : SavedParts} (hs : Saved view p)
  (wf : index.WellFormed) (htext : index.IsText)
include hs wf htext

omit htext in
theorem compareView_eq (hcompare : TagsCompare index p.dependencies) :
    compareView index p.changes p.issues p.components p.dependencies = .ok (p.findings index) :=
  ContextHmi.compareView_eq wf (fun c hc => (hs.component c hc).relationshipId)
    hs.comparable hcompare _ _

/-- **Reconciling a saved view only refuses it.** -/
theorem reconcileViewImpl_refuses : Refuses (reconcileViewImpl index view) := by
  unfold reconcileViewImpl
  refine throws_bind (readPrevious_refuses view) fun previous hprevious => ?_
  obtain ⟨htask, hcomps, hdeps, hissues, hchanges⟩ := hs.readPrevious_eq_ok hprevious
  rw [htask, hcomps, hdeps, hissues, hchanges]
  refine throws_bind (sameModel_refuses _ _ _) fun _ _ => ?_
  refine throws_bind (sameModel_refuses _ _ _) fun _ _ => ?_
  refine throws_bind (resolveTaskImpl_refuses wf htext _) fun fresh _ => ?_
  refine throws_bind (throws_of_ok ⟨_, hs.compareView_eq wf (hs.comparable.tagsCompare wf htext)⟩)
    fun f _ => ?_
  refine throws_bind (throws_of_ok ⟨_, mergeComponents_eq f _ hs.component⟩) fun _ _ => ?_
  refine throws_bind (throws_throwIf trivial) fun _ _ => ?_
  refine throws_bind (throws_of_ok ⟨_, mergeDependencies_eq f _ hs.comparable.toRecorded⟩)
    fun _ _ => ?_
  refine throws_bind (throws_of_ok ⟨_, hs.priorConflict_eq hprevious⟩) fun _ _ => ?_
  exact throws_bind (throws_of_ok ⟨_, Json.valueString_of_find? hs.status []⟩) fun _ _ =>
    throws_pure _

omit htext in
theorem of_reconcileViewImpl_compared {view' : Json} (h : reconcileViewImpl index view = .ok view') :
    compareView index p.changes p.issues p.components p.dependencies = .ok (p.findings index) ∧
    Fits index view p ∧ ∃ fresh, resolveTaskImpl index (p.newTask index) = .ok fresh ∧
      (p.next index fresh).components.length ≤ kMaxComponents ∧
      view' = reconciledFrom fresh (p.next index fresh) := by
  simp only [reconcileViewImpl, bind_eq_ok, pure_eq_ok] at h
  obtain ⟨previous, hprevious, _, hmodel, _, htaskModel, fresh, hfresh, f, hf, comps, hcomps, _,
    hlen, deps, hdeps, prior, hprior, status, hstatus, rfl⟩ := h
  obtain ⟨htask, hc, hd, hi, hch⟩ := hs.readPrevious_eq_ok hprevious
  rw [htask] at htaskModel hfresh
  rw [hc, hd, hi, hch] at hf
  rw [hc] at hcomps
  rw [hd] at hdeps
  obtain rfl : p.findings index = f := (ContextHmi.compareView_sum wf
    (fun c hc => (hs.component c hc).relationshipId) hs.comparable hf).symm
  obtain rfl := Except.ok.inj ((mergeComponents_eq _ _ hs.component).symm.trans hcomps)
  obtain rfl := Except.ok.inj
    ((mergeDependencies_eq _ _ hs.comparable.toRecorded).symm.trans hdeps)
  obtain rfl := Except.ok.inj ((hs.priorConflict_eq hprevious).symm.trans hprior)
  obtain rfl := Except.ok.inj ((Json.valueString_of_find? hs.status []).symm.trans hstatus)
  obtain ⟨hobj, hclen, hdlen, hilen, hchlen⟩ := hs.readPrevious_isOk_iff.mp ⟨previous, hprevious⟩
  refine ⟨hf, ⟨hobj, hclen, hdlen, hilen, hchlen, sameModel_eq_ok.mp hmodel,
    sameModel_eq_ok.mp htaskModel⟩, fresh, hfresh, ?_, ?_⟩
  · exact not_lt.mp (throwIf_eq_ok.mp hlen)
  · rw [htask]
    rfl

omit htext in
theorem of_reconcileViewImpl {view' : Json} (h : reconcileViewImpl index view = .ok view') :
    Fits index view p ∧ ∃ fresh, resolveTaskImpl index (p.newTask index) = .ok fresh ∧
      (p.next index fresh).components.length ≤ kMaxComponents ∧
      view' = reconciledFrom fresh (p.next index fresh) :=
  (hs.of_reconcileViewImpl_compared wf h).2

omit htext in
theorem reconcileViewImpl_of_compare (hcompare : TagsCompare index p.dependencies)
    (hfits : Fits index view p) {fresh : Json}
    (hfresh : resolveTaskImpl index (p.newTask index) = .ok fresh)
    (hlen : (p.next index fresh).components.length ≤ kMaxComponents) :
    reconcileViewImpl index view = .ok (reconciledFrom fresh (p.next index fresh)) := by
  obtain ⟨previous, hprevious⟩ := hs.readPrevious_isOk_iff.mpr ⟨hfits.task, hfits.components,
    hfits.dependencies, hfits.issues, hfits.changes⟩
  obtain ⟨htask, hc, hd, hi, hch⟩ := hs.readPrevious_eq_ok hprevious
  have hlen' : ¬ kMaxComponents < (keptComponents (p.findings index)
      (SavedParts.itemsOf fresh "components") p.components).length := not_lt.mpr hlen
  simp only [reconcileViewImpl, hprevious, ok_bind, htask, hc, hd, hi, hch,
    sameModel_eq_ok.mpr hfits.model, sameModel_eq_ok.mpr hfits.taskModel]
  rw [SavedParts.newTask] at hfresh
  simp only [hfresh, ok_bind, Option.getD_some, hs.compareView_eq wf hcompare,
    mergeComponents_eq _ _ hs.component, mergedDependencies,
    mergeDependencies_eq _ _ hs.comparable.toRecorded, hs.priorConflict_eq hprevious,
    Json.valueString_of_find? hs.status []]
  exact bind_eq_ok.mpr ⟨(), throwIf_of_not _ hlen', rfl⟩

/-- **When a saved view is reconciled, and with what.** -/
theorem reconcileViewImpl_eq_ok {view' : Json} :
    reconcileViewImpl index view = .ok view' ↔ Fits index view p ∧ ∃ fresh,
      resolveTaskImpl index (p.newTask index) = .ok fresh ∧
      (p.next index fresh).components.length ≤ kMaxComponents ∧
      view' = reconciledFrom fresh (p.next index fresh) := by
  refine ⟨hs.of_reconcileViewImpl wf, ?_⟩
  rintro ⟨hfits, fresh, hfresh, hlen, rfl⟩
  exact hs.reconcileViewImpl_of_compare wf (hs.comparable.tagsCompare wf htext) hfits hfresh hlen

end Saved

/-! ### Composed and reconciled views can be saved -/

theorem mark_plain {c : Json} (hc : c.Plain) (status reason : Bytes) : (mark c status reason).Plain :=
  (hc.setField (.str status) _).setField (.str reason) _

theorem Findings.preserve_plain {c : Json} (hc : c.Plain) (f : Findings) (b : Bound) :
    (f.preserve b c).Plain := by
  unfold Findings.preserve
  generalize f.marks b = marks
  induction marks generalizing c with
  | nil => exact hc
  | cons m marks ih =>
    rw [List.foldl_cons]
    split
    · exact ih (mark_plain hc _ _)
    · exact ih hc

theorem IsComponent.mark_unavailable {c : Json} (hc : IsComponent c) (reason : Bytes) :
    IsComponent (mark c "unavailable" reason) := by
  have hkeep : ∀ k : Bytes, k ≠ "status" → k ≠ "reason" →
      (mark c "unavailable" reason).find? k = c.find? k := fun k h₁ h₂ =>
    find?_mark hc.isObject h₁ h₂ _ _
  have hfield : ∀ k : Bytes, k ≠ "status" → k ≠ "reason" →
      fieldOf (mark c "unavailable" reason) k = fieldOf c k := fun k h₁ h₂ => by
    rw [fieldOf, hkeep k h₁ h₂, fieldOf]
  refine ⟨isObject_mark hc.isObject _ _, ?_, ?_, ?_, ?_, ?_,
    .inr ⟨_, by simp [isBlocked], find?_mark_status hc.isObject _ _⟩⟩
  · rw [hkeep _ (by simp) (by simp), hfield _ (by simp) (by simp)]
    exact hc.id
  · rw [hkeep _ (by simp) (by simp), hfield _ (by simp) (by simp)]
    exact hc.tagId
  · rw [hfield _ (by simp) (by simp)]
    exact hc.tagId_ne
  · rw [hkeep _ (by simp) (by simp)]
    exact hc.alarmId
  · rw [hkeep _ (by simp) (by simp)]
    exact hc.relationshipId

theorem kept_cases (f : Findings) (fresh : List Json) (c : Json) :
    ((Blocked c ∨ f.blocks (boundOf c) = true) ∧ kept f fresh c = f.preserve (boundOf c) c) ∨
    (¬ Blocked c ∧ f.blocks (boundOf c) = false) ∧
      ((∃ current ∈ fresh, fieldOf current "id" = fieldOf c "id" ∧ kept f fresh c = current) ∨
        kept f fresh c = mark (f.preserve (boundOf c) c) "unavailable"
          "Previously bound component is no longer declared") := by
  unfold kept keepComponent
  by_cases h : Blocked c ∨ f.blocks (boundOf c) = true
  · have hcond : (isBlocked (fieldOf c "status") || f.blocks (boundOf c)) = true := by
      simpa [Blocked] using h
    exact .inl ⟨h, if_pos hcond⟩
  · have hcond : ¬ (isBlocked (fieldOf c "status") || f.blocks (boundOf c)) = true := by
      simpa [Blocked] using h
    rw [if_neg hcond]
    obtain ⟨hfree, hspare⟩ := not_or.mp h
    refine .inr ⟨⟨hfree, by simpa using hspare⟩, ?_⟩
    split
    · rename_i current hfind
      exact .inl ⟨current, List.mem_of_find?_eq_some hfind, by simpa using List.find?_some hfind, rfl⟩
    · exact .inr rfl

section
variable [Platform] {index : ModelIndex} {task : Json} {c : Composed}

theorem Subject.component_plain {s : Subject} {j : Json} (h : s.component index = .ok j) :
    j.Plain := by
  obtain ⟨tag, alarm⟩ := s
  cases alarm with
  | some alarm =>
    simp only [component, alarmComponentFor, Outcome.bind_eq_ok, pure_eq_ok] at h
    obtain ⟨_, -, _, -, rfl⟩ := h
    refine Json.plain_object ?_
    simp [Json.Plain.str, Json.plain_strings]
  | none =>
    simp only [component, componentFor, Outcome.bind_eq_ok, pure_eq_ok] at h
    obtain ⟨_, -, _, -, rfl⟩ := h
    refine (Json.plain_object ?_).setField (Json.plain_strings _) _
    simp [Json.Plain.str]

theorem Subject.dependency_fingerprint {s : Subject} {d : Json} (h : s.dependency = .ok d) :
    ∃ f, d.find? "fingerprint" = some (.str f) := by
  obtain ⟨tag, alarm⟩ := s
  cases alarm with
  | some alarm =>
    simp only [dependency, dependencyForAlarm, dependencyFor, Outcome.bind_eq_ok, pure_eq_ok] at h
    obtain ⟨_, ⟨f, -, rfl⟩, _, -, rfl⟩ := h
    exact ⟨f, by simp [Json.find?_setField, Json.find?_setFields]⟩
  | none =>
    simp only [dependency, dependencyFor, Outcome.bind_eq_ok, pure_eq_ok] at h
    obtain ⟨f, -, rfl⟩ := h
    exact ⟨f, by simp [Json.find?_setField]⟩

/-- The parts of a composed view. -/
def Composed.parts (c : Composed) (index : ModelIndex) (task : Json) : SavedParts where
  task := effectiveTask index task
  components := c.components
  dependencies := c.dependencies
  changes := []
  issues := if c.bound.isEmpty then [(viewKind c.kind).nothing] else []
  status := if c.bound.isEmpty then "needs-review" else "ready"

/-- **A composed view can be saved.** -/
theorem Composed.Of.saved (h : c.Of index task) (wf : index.WellFormed) :
    Saved (c.view index task) (c.parts index task) := by
  have hsound := h.sound wf
  have hfind : ∀ k : Bytes, k ≠ "layout" → (c.view index task).find? k = _ := fun k hk =>
    Composed.view_find? c task hk
  refine ⟨hsound.isObject, ?_, hsound.hasComponents, hsound.hasDependencies, .inr ⟨?_, rfl⟩, ?_, ?_,
    hsound.component, fun j hj => ?_, ⟨hsound.toRecorded, fun d hd => ?_⟩, by simp [parts]⟩
  · rw [hfind _ (by simp)]
    simp [composeView, parts]
  · rw [hfind _ (by simp)]
    simp [composeView]
  · rw [hfind _ (by simp)]
    simp [composeView, parts]
  · rw [hfind _ (by simp)]
    simp [composeView, parts]
  · obtain ⟨s, -, hcomponent⟩ := h.mem_components.mp hj
    exact Subject.component_plain hcomponent
  · obtain ⟨s, -, hdependency⟩ := h.mem_dependencies.mp hd
    exact Subject.dependency_fingerprint hdependency

theorem resolveTaskImpl_saved {fresh : Json} (wf : index.WellFormed)
    (h : resolveTaskImpl index task = .ok fresh) : ∃ q, Saved fresh q := by
  obtain ⟨c, hc, rfl⟩ := resolveTaskImpl_eq_ok.mp h
  exact ⟨_, hc.saved wf⟩

end

/-! ### A reconciled view can be saved -/

section
variable {view fresh : Json} {p q : SavedParts} (hs : Saved view p) (hq : Saved fresh q)

theorem itemsOf_eq {key : Bytes} {items : List Json}
    (h : view.find? key = some (.arr items)) : SavedParts.itemsOf view key = items := by
  simp [SavedParts.itemsOf, h, Json.items]

include hs hq in
theorem Saved.keptComponent {f : Findings} {c : Json} (hc : c ∈ p.components) :
    IsComponent (kept f q.components c) ∧ (kept f q.components c).Plain := by
  rcases kept_cases f q.components c with ⟨-, h⟩ | ⟨-, ⟨current, hcurrent, -, h⟩ | h⟩
  · rw [h]
    exact ⟨(hs.component c hc).preserve _ _, Findings.preserve_plain (hs.plain c hc) _ _⟩
  · rw [h]
    exact ⟨hq.component current hcurrent, hq.plain current hcurrent⟩
  · rw [h]
    exact ⟨((hs.component c hc).preserve _ _).mark_unavailable _,
      mark_plain (Findings.preserve_plain (hs.plain c hc) _ _) _ _⟩

theorem keyOf_keptDependency (f : Findings) (fresh : List Json) (d : Json) :
    keyOf (keptDependency f fresh d) = keyOf d := by
  have hkey : dependencyKey (fieldOf d "tag_id") (fieldOf d "alarm_id") = keyOf d := rfl
  simp only [keptDependency, keepDependency, hkey]
  split
  · rfl
  · cases hfind : fresh.find? fun current => decide (keyOf current = keyOf d) with
    | none => rfl
    | some d' => simpa using List.find?_some hfind

theorem keptDependency_cases (f : Findings) (fresh : List Json) (d : Json) :
    keptDependency f fresh d = d ∨ keptDependency f fresh d ∈ fresh := by
  simp only [keptDependency, keepDependency]
  split
  · exact .inl rfl
  · split
    · rename_i hfind
      exact .inr (List.mem_of_find?_eq_some hfind)
    · exact .inl rfl

theorem Comparable.kept {f : Findings} {fresh old : List Json} (hold : Comparable old)
    (hfresh : Comparable fresh) : Comparable (keptDependencies f fresh old) := by
  have hmem : ∀ d ∈ keptDependencies f fresh old, d ∈ old ∨ d ∈ fresh := by
    intro d hd
    rcases List.mem_append.mp hd with hd | hd
    · obtain ⟨b, hb, rfl⟩ := List.mem_map.mp hd
      exact (keptDependency_cases f fresh b).imp_left fun (e : keptDependency f fresh b = b) => by rwa [e]
    · exact .inr (List.mem_of_mem_filter hd)
  refine ⟨⟨fun d hd => ?_, ?_⟩, fun d hd => ?_⟩
  · exact (hmem d hd).elim (hold.subject d) (hfresh.subject d)
  · have hkeys : (keptDependencies f fresh old).map keyOf = old.map keyOf ++
        (fresh.map keyOf).filter fun key => key ∉ old.map keyOf := by
      rw [keptDependencies, List.map_append, List.map_map, List.filter_map]
      exact congrArg (· ++ _) (List.map_congr_left fun d _ => keyOf_keptDependency f fresh d)
    rw [hkeys, List.nodup_append]
    refine ⟨hold.nodup, hfresh.nodup.filter _, fun x hx y hy e => ?_⟩
    have hnot := (List.mem_filter.mp hy).2
    simp only [decide_eq_true_eq] at hnot
    exact hnot (e ▸ hx)
  · exact (hmem d hd).elim (hold.fingerprint d) (hfresh.fingerprint d)

variable [Platform] {index : ModelIndex}

include hs hq in
/-- **A reconciled view can be saved.** -/
theorem Saved.next : Saved (reconciledFrom fresh (p.next index fresh)) (p.next index fresh) := by
  have hfind : ∀ k, (reconciledFrom fresh (p.next index fresh)).find? k = _ :=
    fun k => Json.find?_setFields hq.isObject _ k
  have hcomponents := itemsOf_eq hq.components
  have hdependencies := itemsOf_eq hq.dependencies
  have hcomponent : ∀ c ∈ (p.next index fresh).components, IsComponent c ∧ c.Plain := by
    intro c hc
    simp only [SavedParts.next, hcomponents] at hc
    rcases List.mem_append.mp hc with hc | hc
    · obtain ⟨b, hb, rfl⟩ := List.mem_map.mp hc
      exact hs.keptComponent hq hb
    · exact ⟨hq.component c (List.mem_of_mem_filter hc), hq.plain c (List.mem_of_mem_filter hc)⟩
  refine ⟨Json.isObject_setFields hq.isObject _, ?_, ?_, ?_, .inl ?_, ?_, ?_,
    fun c hc => (hcomponent c hc).1, fun c hc => (hcomponent c hc).2, ?_, fun change hchange => ?_⟩
  · simpa using hfind "task"
  · simpa using hfind "components"
  · simpa using hfind "dependencies"
  · simpa using hfind "changes"
  · simpa using hfind "issues"
  · simpa using hfind "status"
  · simp only [SavedParts.next, hdependencies]
    exact hs.comparable.kept hq.comparable
  · rcases mem_changes_foldl hchange with h | ⟨g, hg, h⟩
    · exact hs.kinds change h
    · exact ((findingsOf_described hg).changes change h).2

end

end ContextHmi
