import ContextHmi.Engine.Composer

/-!
# Reconciling a view

`reconcile_view`: a saved view against another revision of its model. The dependencies the view
carries are compared with what the new revision declares; what was removed or changed meaning is
recorded, the components it reaches are kept and marked, and every other component is taken from the
view the task composes now.

The previous view is any JSON document: reads that can throw on one stay in `Result`.
-/

namespace ContextHmi

open Outcome

/-! ### Findings -/

/-- What the comparison of a view with a model has recorded so far. -/
structure Findings where
  changes : List Json
  issues : List Json
  removedTags : List Bytes
  conflictedTags : List Bytes
  removedAlarms : List Bytes
  conflictedAlarms : List Bytes
  removedRelationships : List Bytes
  changedRelationships : List Bytes

/-- `add_issue_once`, `add_change_once`. -/
def addOnce (items : List Json) (item : Json) : List Json :=
  if items.any fun existing => existing.eqv item then items else items ++ [item]

namespace Findings

def addChange (f : Findings) (change : List (Bytes × Json)) : Findings :=
  { f with changes := addOnce f.changes (.object change) }

def addIssue (f : Findings) (code message : Bytes) : Findings :=
  { f with issues := addOnce f.issues (issue code message "error") }

end Findings

/-- An unordered map in the order it is iterated. -/
def bucketed [Platform] (map : List (Bytes × Json)) : List (Bytes × Json) :=
  (Platform.bucketOrder (map.map (·.1))).filterMap fun k => (Assoc.find? k map).map (k, ·)

/-- The dependencies of a view by tag id, and by alarm id for those that carry one. -/
structure OldDependencies where
  tags : List (Bytes × Json)
  alarms : List (Bytes × Json)

/-- The alarm id a dependency is kept under. -/
def alarmSlot (dep : Json) : Option Bytes :=
  match dep.find? "tag_id", dep.find? "alarm_id" with
  | some (.str _), some (.str alarmId) => some alarmId
  | _, _ => none

/-- The tag id a dependency is kept under, where it carries no alarm id. -/
def tagSlot (dep : Json) : Option Bytes :=
  match dep.find? "tag_id", dep.find? "alarm_id" with
  | some (.str _), some (.str _) => none
  | some (.str tagId), _ => some tagId
  | _, _ => none

def oldDependencies (dependencies : List Json) : OldDependencies :=
  ⟨Assoc.fill tagSlot [] dependencies, Assoc.fill alarmSlot [] dependencies⟩

/-! ### Dependencies against the model -/

/-- A top-level summary that differs from the canonical snapshot it summarizes. -/
def overrides (dep canonical : Json) (key inner : Bytes) : Bool :=
  match dep.find? key with
  | some summary => ! summary.eqv ((canonical.find? inner).getD .null)
  | none => false

/-- `old_dep.at(key) != current`, where the member is there. -/
def memberDiffers (dep : Json) (key : Bytes) (current : Json) : Bool :=
  match dep.find? key with
  | some v => ! v.eqv current
  | none => false

def bindingDiffers (dep : Json) (current : Tag) : Bool :=
  match dep.find? "binding" with
  | some binding =>
    if binding.isObject then
      ! binding.eqv (tagBindingSnapshot current) || overrides dep binding "owner" "owner" ||
        overrides dep binding "role" "role" || overrides dep binding "unit" "unit" ||
        overrides dep binding "source" "source"
    else true
  | none =>
    if dep.contains "owner" && dep.contains "role" && dep.contains "unit" &&
        dep.contains "source" then
      memberDiffers dep "owner" (.str current.assetId) ||
        memberDiffers dep "role" (.str current.role) ||
        memberDiffers dep "unit" (.str current.unit) ||
        memberDiffers dep "source" current.source.toJson ||
        memberDiffers dep "data_type" (.str current.dataType)
    else true

/-- `a || b`, where the right side is evaluated only if the left is false. -/
def orElse (a b : Result Bool) : Result Bool := do
  if ← a then return true else b

/-- `old_dep.value(key, "") != current`. -/
def summaryDiffers (dep : Json) (key current : Bytes) : Result Bool := do
  let old ← dep.valueString key []
  return old != current

def definitionDiffers (dep : Json) (current : Alarm) : Result Bool :=
  match dep.find? "alarm_definition" with
  | some definition =>
    .ok (! definition.eqv (alarmDefinitionSnapshot current) ||
      definition.isObject && (overrides dep definition "alarm_owner" "owner" ||
        overrides dep definition "alarm_name" "name" ||
        overrides dep definition "operator" "operator" ||
        overrides dep definition "threshold" "threshold" ||
        overrides dep definition "severity" "severity"))
  | none =>
    orElse (summaryDiffers dep "alarm_owner" current.assetId) <|
    orElse (summaryDiffers dep "alarm_name" current.name) <|
    orElse (summaryDiffers dep "tag_id" current.tagId) <|
    orElse (summaryDiffers dep "operator" current.operator) <|
    orElse (.ok (! ((dep.find? "threshold").getD .null).eqv current.threshold)) <|
    summaryDiffers dep "severity" current.severity

section
variable [Platform]

/-- One dependency on a tag. -/
def checkTagDependency (index : ModelIndex) (f : Findings) (entry : Bytes × Json) :
    Result Findings := do
  let (tagId, dep) := entry
  match index.tag? tagId with
  | none =>
    return { f with removedTags := tagId :: f.removedTags }
      |>.addChange [("kind", .str "removed"), ("tag_id", .str tagId),
        ("message", .str "Previously bound tag was removed")]
      |>.addIssue "removed-tag" ("Previously bound tag " ++ tagId ++ " is unavailable")
  | some current =>
    if bindingDiffers dep current then
      let previous ← dep.valueString "fingerprint" []
      let fingerprint ← tagFingerprint current
      return { f with conflictedTags := tagId :: f.conflictedTags }
        |>.addChange [("kind", .str "conflict"), ("tag_id", .str tagId),
          ("previous_fingerprint", .str previous), ("current_fingerprint", .str fingerprint),
          ("message", .str "The same tag ID changed owner, role, unit, type, or source")]
        |>.addIssue "binding-conflict"
          ("Tag " ++ tagId ++ " retained its ID but changed meaning; review the binding")
    else return f

omit [Platform] in
/-- The tag of an alarm dependency whose alarm is gone. -/
def removedAlarmTag (index : ModelIndex) (f : Findings) (dep : Json) : Findings :=
  match dep.find? "tag_id" with
  | some (.str tagId) =>
    if (index.tag? tagId).isNone then { f with removedTags := tagId :: f.removedTags } else f
  | _ => f

omit [Platform] in
/-- The tag of an alarm dependency whose alarm is still declared. -/
def checkAlarmTag (index : ModelIndex) (f : Findings) (dep : Json) (current : Alarm) : Findings :=
  match index.tag? current.tagId with
  | none =>
    { f with removedTags := current.tagId :: f.removedTags }
      |>.addIssue "removed-tag" ("Previously bound alarm tag " ++ current.tagId ++ " is unavailable")
  | some tag =>
    if memberDiffers dep "binding" (tagBindingSnapshot tag) then
      { f with conflictedTags := current.tagId :: f.conflictedTags }
        |>.addChange [("kind", .str "conflict"), ("tag_id", .str current.tagId),
          ("message", .str "The alarm's tag ID retained its identity but changed meaning")]
        |>.addIssue "binding-conflict"
          ("Alarm tag " ++ current.tagId ++ " changed meaning; review the binding")
    else f

omit [Platform] in
/-- One dependency on an alarm. -/
def checkAlarmDependency (index : ModelIndex) (f : Findings) (entry : Bytes × Json) :
    Result Findings := do
  let (alarmId, dep) := entry
  match index.alarm? alarmId with
  | none =>
    let f := removedAlarmTag index f dep
    return { f with removedAlarms := alarmId :: f.removedAlarms }
      |>.addChange [("kind", .str "removed-alarm"), ("alarm_id", .str alarmId),
        ("message", .str "Previously bound alarm was removed")]
      |>.addIssue "removed-alarm" ("Previously bound alarm " ++ alarmId ++ " is unavailable")
  | some current =>
    let f := checkAlarmTag index f dep current
    if ← definitionDiffers dep current then
      return { f with conflictedAlarms := alarmId :: f.conflictedAlarms }
        |>.addChange [("kind", .str "alarm-conflict"), ("alarm_id", .str alarmId),
          ("message", .str
            "The same alarm ID changed its owner, threshold, operator, severity, or tag")]
        |>.addIssue "alarm-conflict"
          ("Alarm " ++ alarmId ++ " changed meaning; review the binding")
    else return f

omit [Platform] in
/-- One component drawn from a relationship. -/
def checkRelationship (index : ModelIndex) (f : Findings) (component : Json) : Result Findings :=
  match component.find? "relationship_id" with
  | some (.str relId) =>
    match index.relationship? relId with
    | none =>
      return { f with removedRelationships := relId :: f.removedRelationships }
        |>.addChange [("kind", .str "removed-relationship"), ("relationship_id", .str relId),
          ("message", .str "Previously declared feed relationship was removed")]
        |>.addIssue "removed-relationship"
          ("Previously declared feed relationship " ++ relId ++ " is unavailable")
    | some current => do
      let differs ←
        orElse (summaryDiffers component "relationship_kind" current.kind) <|
        orElse (summaryDiffers component "relationship_from" current.fromId) <|
        summaryDiffers component "relationship_to" current.toId
      if differs then
        return { f with changedRelationships := relId :: f.changedRelationships }
          |>.addChange [("kind", .str "relationship-conflict"), ("relationship_id", .str relId),
            ("message", .str "The same relationship ID changed endpoints or kind")]
          |>.addIssue "relationship-conflict"
            ("Relationship " ++ relId ++ " changed meaning; review the binding")
      else return f
  | _ => .ok f

/-- Every comparison of a view with a model, from the changes and issues the view already has. -/
def compareView (index : ModelIndex) (changes issues components dependencies : List Json) :
    Result Findings := do
  let old := oldDependencies dependencies
  let f : Findings := ⟨changes, issues, [], [], [], [], [], []⟩
  let f ← (bucketed old.tags).foldlM (checkTagDependency index) f
  let f ← (bucketed old.alarms).foldlM (checkAlarmDependency index) f
  components.foldlM (checkRelationship index) f

end

/-! ### Merging -/

/-- A string member of a record this engine composed. -/
def fieldOf (record : Json) (key : Bytes) : Bytes :=
  match record.find? key with
  | some (.str s) => s
  | _ => []

/-- `component["status"] = status; component["reason"] = reason`. -/
def mark (component : Json) (status reason : Bytes) : Json :=
  (component.setField "status" (.str status)).setField "reason" (.str reason)

/-- A mark and whether the findings ask for it. -/
structure Mark where
  applies : Bool
  status : Bytes
  reason : Bytes

/-- `value("status", "")` is one of the two blocked states. -/
def isBlocked (status : Bytes) : Bool := status == "conflict" || status == "unavailable"

/-- The ids a component is bound through. -/
structure Bound where
  tagId : Bytes
  alarmId : Bytes
  relId : Bytes

namespace Findings

def blocksDependency (f : Findings) (tagId alarmId : Bytes) : Bool :=
  f.removedTags.contains tagId || f.conflictedTags.contains tagId ||
    !alarmId.isEmpty && (f.removedAlarms.contains alarmId || f.conflictedAlarms.contains alarmId)

def blocks (f : Findings) (b : Bound) : Bool :=
  f.conflictedTags.contains b.tagId || f.removedTags.contains b.tagId ||
    f.conflictedAlarms.contains b.alarmId || f.removedAlarms.contains b.alarmId ||
    f.removedRelationships.contains b.relId || f.changedRelationships.contains b.relId

def marks (f : Findings) (b : Bound) : List Mark := [
  ⟨!b.tagId.isEmpty && f.removedTags.contains b.tagId, "unavailable",
    "Previously bound tag was removed from the model"⟩,
  ⟨!b.tagId.isEmpty && f.conflictedTags.contains b.tagId, "conflict",
    "Same-ID binding changed; no silent rebinding was performed"⟩,
  ⟨!b.alarmId.isEmpty && f.removedAlarms.contains b.alarmId, "unavailable",
    "Previously bound alarm was removed from the model"⟩,
  ⟨!b.alarmId.isEmpty && f.conflictedAlarms.contains b.alarmId, "conflict",
    "Same-ID alarm definition changed; no silent rebinding was performed"⟩,
  ⟨!b.relId.isEmpty && f.removedRelationships.contains b.relId, "unavailable",
    "Declared relationship was removed; no replacement was inferred"⟩,
  ⟨!b.relId.isEmpty && f.changedRelationships.contains b.relId, "conflict",
    "Same-ID relationship changed; no silent rebinding was performed"⟩]

/-- A kept component with its marks: a later one overwrites an earlier one. -/
def preserve (f : Findings) (b : Bound) (component : Json) : Json :=
  (f.marks b).foldl (fun c m => if m.applies then mark c m.status m.reason else c) component

end Findings

/-- What an old component becomes: itself, marked, when it is or was blocked; else the fresh component
of its id; else itself, marked as no longer declared. -/
def keepComponent (f : Findings) (fresh : List Json) (id status : Bytes) (b : Bound)
    (component : Json) : Json :=
  if isBlocked status || f.blocks b then f.preserve b component
  else match fresh.find? fun current => fieldOf current "id" = id with
    | some current => current
    | none => mark (f.preserve b component) "unavailable"
        "Previously bound component is no longer declared"

/-- One old component with its id; `none` for an entry without a string id. -/
def mergeComponent (f : Findings) (fresh : List Json) (component : Json) :
    Result (Option (Bytes × Json)) :=
  match component.find? "id" with
  | some (.str id) => do
    let tagId ← component.valueString "tag_id" []
    let alarmId ← component.valueString "alarm_id" []
    let relId ← component.valueString "relationship_id" []
    let status ← component.valueString "status" []
    return some (id, keepComponent f fresh id status ⟨tagId, alarmId, relId⟩ component)
  | _ => .ok none

/-- The components of a reconciled view: every old one, then the fresh ones whose ids are new. -/
def mergeComponents (f : Findings) (fresh old : List Json) : Result (List Json) := do
  let kept ← old.mapM (mergeComponent f fresh)
  let kept := kept.filterMap id
  let emitted := kept.map (·.1)
  return kept.map (·.2) ++ fresh.filter fun current => fieldOf current "id" ∉ emitted

/-- What a dependency is kept under. -/
def dependencyKey (tagId alarmId : Bytes) : Bytes :=
  if alarmId.isEmpty then "tag:" ++ tagId else "alarm:" ++ alarmId

/-- The key of a dependency this engine composed. -/
def keyOf (dep : Json) : Bytes := dependencyKey (fieldOf dep "tag_id") (fieldOf dep "alarm_id")

/-- What an old dependency becomes: itself when it is blocked or gone, else the fresh one of its
key. -/
def keepDependency (f : Findings) (fresh : List Json) (tagId alarmId : Bytes) (dep : Json) : Json :=
  if f.blocksDependency tagId alarmId then dep
  else match fresh.find? fun current => keyOf current = dependencyKey tagId alarmId with
    | some current => current
    | none => dep

/-- One old dependency with its key; `none` for an entry without a string tag id. -/
def mergeDependency (f : Findings) (fresh : List Json) (dep : Json) :
    Result (Option (Bytes × Json)) :=
  match dep.find? "tag_id" with
  | some (.str tagId) => do
    let alarmId ← dep.valueString "alarm_id" []
    return some (dependencyKey tagId alarmId, keepDependency f fresh tagId alarmId dep)
  | _ => .ok none

/-- The dependencies of a reconciled view: every old one, then the fresh ones whose keys are new. -/
def mergeDependencies (f : Findings) (fresh old : List Json) : Result (List Json) := do
  let kept ← old.mapM (mergeDependency f fresh)
  let kept := kept.filterMap id
  let emitted := kept.map (·.1)
  return kept.map (·.2) ++ fresh.filter fun current => keyOf current ∉ emitted

/-- A view without dependencies takes the fresh ones as they are. -/
def mergedDependencies (f : Findings) (fresh : List Json) (old : Option (List Json)) :
    Result (List Json) :=
  match old with
  | some old => mergeDependencies f fresh old
  | none => .ok fresh

/-! ### The reconciled view -/

/-- An array member of the previous view; `none` where it is absent. -/
def previousArray (view : Json) (key details : Bytes) : Result (Option (List Json)) :=
  match view.find? key with
  | none => .ok none
  | some v => do
    throwIf (¬ v.isArray ∨ kMaxComponents < v.size) (invalidView details)
    return some v.items

/-- The shape `reconcile_view_impl` asks of the previous view. -/
structure Previous where
  task : Json
  components : List Json
  dependencies : Option (List Json)
  issues : Option (List Json)
  changes : Option (List Json)

def previousTask (view : Json) : Result Json :=
  match view.find? "task" with
  | some task => (fun _ => task) <$>
      throwIf (¬ task.isObject) (invalidView "previous_view.task is required")
  | none => .error (invalidView "previous_view.task is required")

def previousComponents (view : Json) : Result (List Json) := do
  match ← previousArray view "components" "previous_view.components is invalid or exceeds limit" with
  | some components => return components
  | none => .error (invalidView "previous_view.components is invalid or exceeds limit")

def readPrevious (view : Json) : Result Previous := do
  throwIf (¬ view.isObject) (invalidView "previous_view must be an object")
  let task ← previousTask view
  let components ← previousComponents view
  let dependencies ← previousArray view "dependencies"
    "previous_view.dependencies is invalid or exceeds limit"
  let issues ← previousArray view "issues" "previous_view.issues is invalid or exceeds limit"
  let changes ← previousArray view "changes" "previous_view.changes is invalid or exceeds limit"
  return ⟨task, components, dependencies, issues, changes⟩

/-- A member that, where it is there, must be the id of the active model. -/
def sameModel (object : Json) (modelId details : Bytes) : Result Unit :=
  match object.find? "model_id" with
  | none => .ok ()
  | some v => throwIf (¬ v.eqv (.str modelId)) (.domain "model_mismatch" details)

/-- A change that records a conflict. -/
def isConflictChange (change : Json) : Result Bool := do
  let kind ← change.valueString "kind" []
  return kind == "conflict" || kind == "relationship-conflict" || kind == "alarm-conflict"

def hasConflictStatus (record : Json) : Result Bool := do
  let status ← record.valueString "status" []
  return status == "conflict"

/-- `prior_conflict`: the view, one of its changes or one of its components records a conflict. -/
def priorConflict (view : Json) (previous : Previous) : Result Bool := do
  let status ← hasConflictStatus view
  let changes ← (previous.changes.getD []).mapM isConflictChange
  let components ← previous.components.mapM hasConflictStatus
  return status || changes.any id || components.any id

/-- The status of a reconciled view. -/
def reconciledStatus (f : Findings) (prior : Bool) (issues : List Json) (previous : Bytes) : Bytes :=
  if !f.conflictedTags.isEmpty || !f.conflictedAlarms.isEmpty || !f.changedRelationships.isEmpty ||
      prior then "conflict"
  else if !f.removedTags.isEmpty || !f.removedAlarms.isEmpty || !f.removedRelationships.isEmpty ||
      !issues.isEmpty || previous == "needs-review" then "needs-review"
  else "ready"

variable [Platform]

/-- `reconcile_view_impl`. -/
def reconcileViewImpl (index : ModelIndex) (previousView : Json) : Result Json := do
  let previous ← readPrevious previousView
  sameModel previousView index.modelId
    "a view from another model cannot be reconciled by revision alone"
  sameModel previous.task index.modelId "task belongs to another model"
  let newTask := previous.task.setFields
    [("model_id", .str index.modelId), ("model_revision", index.revision)]
  let fresh ← resolveTaskImpl index newTask
  let freshItems := fun key => ((fresh.find? key).getD .null).items
  let f ← compareView index (previous.changes.getD []) (previous.issues.getD [])
    previous.components (previous.dependencies.getD [])
  let components ← mergeComponents f (freshItems "components") previous.components
  throwIf (kMaxComponents < components.length)
    (invalidView "reconciled component count exceeds limit")
  let dependencies ← mergedDependencies f (freshItems "dependencies") previous.dependencies
  let issues := (freshItems "issues").foldl addOnce f.issues
  let prior ← priorConflict previousView previous
  let status ← previousView.valueString "status" []
  return fresh.setFields [("task", newTask), ("changes", .arr f.changes), ("issues", .arr issues),
    ("components", .arr components), ("dependencies", .arr dependencies),
    ("status", .str (reconciledStatus f prior issues status)), ("reconciled", .bool true)]

/-- `reconcile_view`. -/
def reconcileView (model previousView : Json) : Result Json := do
  let index ← indexModel model
  reconcileViewImpl index previousView

end ContextHmi
