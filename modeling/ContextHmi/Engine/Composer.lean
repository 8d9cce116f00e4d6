import ContextHmi.Engine.Model

/-!
# Composing a screen

`resolve_task`: an accepted task selects declared tags or alarms, and every selected one becomes a
component of the view next to the dependency that records what it was bound to. Overview and alarm
views differ in what they select; the rest of the view is composed the same way.
-/

namespace ContextHmi

open Outcome

/-! ### Bindings -/

/-- The 64-bit FNV-1a hash of a text, in hexadecimal. -/
def fnvHex (input : Bytes) : Bytes :=
  let hash := input.foldl (fun (hash : UInt64) c => (hash ^^^ c.toUInt64) * 1099511628211)
    14695981039346656037
  (List.range 16).map fun i => Json.hexDigit ((hash >>> UInt64.ofNat (60 - 4 * i)).toNat % 16)

def Source.toJson (source : Source) : Json :=
  .object [("server", .str source.server), ("namespace_uri", .str source.namespaceUri),
    ("identifier", .str source.identifier)]

/-- `tag_binding_snapshot`. -/
def tagBindingSnapshot (tag : Tag) : Json :=
  .object [("owner", .str tag.assetId), ("role", .str tag.role), ("data_type", .str tag.dataType),
    ("unit", .str tag.unit), ("source", tag.source.toJson)]

/-- `alarm_definition_snapshot`. -/
def alarmDefinitionSnapshot (alarm : Alarm) : Json :=
  .object [("owner", .str alarm.assetId), ("name", .str alarm.name), ("tag_id", .str alarm.tagId),
    ("operator", .str alarm.operator), ("threshold", alarm.threshold),
    ("severity", .str alarm.severity)]

section
variable [Platform]

def tagFingerprint (tag : Tag) : Result Bytes := fnvHex <$> (tagBindingSnapshot tag).dump

def alarmDefinitionFingerprint (alarm : Alarm) : Result Bytes :=
  fnvHex <$> (alarmDefinitionSnapshot alarm).dump

def dependencyFor (tag : Tag) : Result Json := do
  let fingerprint ← tagFingerprint tag
  return (Json.object [("tag_id", .str tag.id), ("owner", .str tag.assetId),
    ("owner_asset_id", .str tag.assetId), ("role", .str tag.role),
    ("data_type", .str tag.dataType), ("unit", .str tag.unit), ("source", tag.source.toJson),
    ("binding", tagBindingSnapshot tag)]).setField "fingerprint" (.str fingerprint)

def dependencyForAlarm (alarm : Alarm) (tag : Tag) : Result Json := do
  let result ← dependencyFor tag
  let fingerprint ← alarmDefinitionFingerprint alarm
  return result.setFields [("alarm_id", .str alarm.id), ("alarm_owner", .str alarm.assetId),
    ("alarm_name", .str alarm.name), ("operator", .str alarm.operator),
    ("threshold", alarm.threshold), ("severity", .str alarm.severity),
    ("alarm_definition", alarmDefinitionSnapshot alarm), ("alarm_fingerprint", .str fingerprint)]

def componentFor (tag : Tag) (kind label reason : Bytes) : Result Json := do
  let fingerprint ← tagFingerprint tag
  return (Json.object [("id", .str tag.id), ("kind", .str kind), ("label", .str label),
    ("asset_id", .str tag.assetId), ("tag_id", .str tag.id), ("role", .str tag.role),
    ("unit", .str tag.unit), ("reason", .str reason)]).setField
    "dependency_fingerprints" (Json.strings [fingerprint])

def alarmComponentFor (alarm : Alarm) (tag : Tag) : Result Json := do
  let binding ← tagFingerprint tag
  let definition ← alarmDefinitionFingerprint alarm
  return .object [("id", .str alarm.id), ("kind", .str "alarm"), ("label", .str alarm.name),
    ("asset_id", .str alarm.assetId), ("alarm_id", .str alarm.id), ("tag_id", .str alarm.tagId),
    ("role", .str tag.role), ("unit", .str tag.unit),
    ("reason", .str "Declared alarm threshold"),
    ("dependency_fingerprints", Json.strings [binding, definition])]

end

def issue (code message severity : Bytes) : Json :=
  .object [("code", .str code), ("message", .str message), ("severity", .str severity)]

/-! ### Reading a task -/

def taskString (object : Json) (key place : Bytes) (max : Nat) : Result Bytes :=
  match object.find? key with
  | none => .error (invalidTask (place ++ " requires '" ++ key ++ "'"))
  | some (.str s) =>
    if s.isEmpty ∨ max < s.length then
      .error (invalidTask (place ++ "." ++ key ++ " must be a non-empty string of at most " ++
        Bytes.decimal max ++ " characters"))
    else .ok s
  | some _ => .error (invalidTask (place ++ "." ++ key ++
      " must be a non-empty string of at most " ++ Bytes.decimal max ++ " characters"))

def requestedRole (role : Json) : Result Bytes :=
  match role with
  | .str s =>
    if s.isEmpty ∨ kMaxString < s.length then
      .error (invalidTask "task.measurement_roles contains an invalid role")
    else .ok s
  | _ => .error (invalidTask "task.measurement_roles contains an invalid role")

/-- `requested_roles`: none where the task does not name any. -/
def requestedRoles (task : Json) : Result (List Bytes) :=
  match task.find? "measurement_roles" with
  | none => .ok []
  | some requested => do
    throwIf (¬ requested.isArray ∨ requested.isEmpty ∨ 16 < requested.size)
      (invalidTask "task.measurement_roles must be a non-empty array of at most 16 roles")
    let roles ← requested.items.mapM requestedRole
    throwIf (¬ roles.Nodup) (invalidTask "task.measurement_roles must not contain duplicates")
    return roles

/-- `roles.empty() || roles.contains(role)`. -/
def wants (roles : List Bytes) (role : Bytes) : Bool := roles.isEmpty || roles.contains role

/-! ### Layout -/

def clientDimension (client : Json) (name : Bytes) (minimum maximum : Nat) :
    Result (Option UInt64) :=
  match client.find? name with
  | none => .ok none
  | some v => do
    throwIf (¬ isNonnegativeInteger v) (invalidTask ("task.client." ++ name ++ " must be an integer"))
    let value ← v.getUInt64
    throwIf (value.toNat < minimum ∨ maximum < value.toNat)
      (invalidTask ("task.client." ++ name ++ " is out of range"))
    return some value

/-- An optional member with a closed set of values. -/
def clientChoice (client : Json) (name : Bytes) (choices : List Bytes) (details : Bytes) :
    Result (Option Json) :=
  match client.find? name with
  | none => .ok none
  | some (.str s) => if s ∈ choices then .ok (some (.str s)) else .error (invalidTask details)
  | some _ => .error (invalidTask details)

def layoutWidth (layout : Json) (width : UInt64) : Json :=
  let layout := layout.setField "viewport_width_px" (.uint width)
  if width < 600 then
    (layout.setField "size_class" (.str "compact")).setField "minimum_component_width_px" (.int 156)
  else if width < 1200 then
    (layout.setField "size_class" (.str "standard")).setField "minimum_component_width_px" (.int 200)
  else layout.setField "size_class" (.str "wide")

def clientFields : List Bytes := ["width_px", "height_px", "size_class", "density", "reduced_motion"]

def checkClientFields (client : Json) : Result Unit := do
  throwIf (¬ client.isObject) (invalidTask "task.client must be an object")
  match client.fields.find? fun field => field.1 ∉ clientFields with
  | some field =>
    .error (invalidTask ("task.client contains unsupported field '" ++ field.1 ++ "'"))
  | none => .ok ()

def clientMotion (client : Json) : Result (Option Json) :=
  match client.find? "reduced_motion" with
  | none => .ok none
  | some motion => do
    throwIf (¬ motion.isBoolean) (invalidTask "task.client.reduced_motion must be boolean")
    return some motion

/-- `responsive_layout` of a client. -/
def clientLayout (layout client : Json) : Result Json := do
  checkClientFields client
  let width ← clientDimension client "width_px" 240 7680
  let height ← clientDimension client "height_px" 160 4320
  let layout := (width.map (layoutWidth layout)).getD layout
  let layout := layout.setOptional "viewport_height_px" (height.map .uint)
  let sizeClass ← clientChoice client "size_class" ["small", "medium", "large"]
    "task.client.size_class must be small, medium, or large"
  let layout := layout.setOptional "reported_size_class" sizeClass
  let density ← clientChoice client "density" ["compact", "comfortable"]
    "task.client.density must be compact or comfortable"
  let narrow := width.any fun width => width < 600
  let layout := layout.setField "density"
    (density.getD (.str (if narrow then "compact" else "comfortable")))
  let motion ← clientMotion client
  return layout.setOptional "reduced_motion" motion

/-- `responsive_layout`. -/
def responsiveLayout (task : Json) : Result Json :=
  let layout := Json.object [("strategy", .str "responsive-grid"), ("reflow", .bool true),
    ("minimum_component_width_px", .int 220), ("size_class", .str "unspecified")]
  match task.find? "client" with
  | none => .ok layout
  | some client => clientLayout layout client

/-! ### Views -/

/-- `asset_name`. -/
def assetName (index : ModelIndex) (id : Bytes) : Result Bytes :=
  match index.asset? id with
  | some asset => .ok asset.name
  | none => .error .absent

/-- The anchor a task names, or the empty string. -/
def taskAnchor (task : Json) : Result Bytes :=
  match task.find? "anchor_asset_id" with
  | some v => v.getString
  | none => .ok []

/-- The view of the components and dependencies selected for a task, or the issue that says there
are none. -/
def composeView (index : ModelIndex) (viewId title : Bytes) (task : Json)
    (bound : List (Json × Json)) (nothing : Json) : Json :=
  let empty := bound.isEmpty
  .object [("view_id", .str viewId),
    ("model_id", .str index.modelId),
    ("model_revision", index.revision),
    ("status", .str (if empty then "needs-review" else "ready")),
    ("title", .str title),
    ("task", task),
    ("components", .arr (bound.map (·.1))),
    ("issues", .arr (if empty then [nothing] else [])),
    ("dependencies", .arr (bound.map (·.2)))]

/-- The title and the view id of a task's view. -/
def viewNames (index : ModelIndex) (anchor slug word : Bytes) : Result (Bytes × Bytes) :=
  if anchor.isEmpty then .ok ("view-" ++ slug, word)
  else do
    let name ← assetName index anchor
    return ("view-" ++ anchor ++ "-" ++ slug, name ++ " - " ++ word)

/-- The tags an overview shows: those of its assets, in the order of asset and tag ids. -/
def overviewTags (index : ModelIndex) (roles : List Bytes) (anchor : Bytes) : List Tag :=
  let assets := if anchor.isEmpty then index.assets.map (·.id) else [anchor]
  (Bytes.sortBy id assets).flatMap fun asset =>
    Bytes.sortBy Tag.id (index.tags.filter fun tag => tag.assetId = asset && wants roles tag.role)

/-- How an overview draws a role. -/
def overviewKind (role : Bytes) : Bytes :=
  let role := Bytes.lower role
  if role = "level" then "gauge"
  else if role = "status" ∨ role = "state" ∨ role = "operating_state" then "status"
  else "value"

variable [Platform]

/-- `resolve_overview`. -/
def resolveOverview (index : ModelIndex) (task : Json) : Result Json := do
  let anchor ← taskAnchor task
  let (viewId, title) ← viewNames index anchor "overview" "Overview"
  let roles ← requestedRoles task
  let bound ← (overviewTags index roles anchor).mapM fun tag => do
    let owner ← assetName index tag.assetId
    let component ← componentFor tag (overviewKind tag.role) (owner ++ " " ++ tag.name)
      "Declared tag in machine overview"
    let dependency ← dependencyFor tag
    return (component, dependency)
  return composeView index viewId title task bound
    (issue "missing-overview-tags" "No declared tags are available for this overview" "error")

/-- `index.tags.at(alarm->at("tag_id"))`. -/
def alarmTag (index : ModelIndex) (alarm : Alarm) : Result Tag :=
  match index.tag? alarm.tagId with
  | some tag => .ok tag
  | none => .error .absent

/-- The alarms an alarm view shows with their tags, in the order of their ids. -/
def alarmRows (index : ModelIndex) (roles : List Bytes) (anchor : Bytes) :
    Result (List (Alarm × Tag)) := do
  let inScope := index.alarms.filter fun alarm => anchor.isEmpty || alarm.assetId = anchor
  let rows ← inScope.mapM fun alarm => (fun tag => (alarm, tag)) <$> alarmTag index alarm
  return Bytes.sortBy (fun row => row.1.id) (rows.filter fun row => wants roles row.2.role)

/-- `resolve_alarms`. -/
def resolveAlarms (index : ModelIndex) (task : Json) : Result Json := do
  let anchor ← taskAnchor task
  let (viewId, title) ← viewNames index anchor "alarms" "Alarms"
  let roles ← requestedRoles task
  let rows ← alarmRows index roles anchor
  let bound ← rows.mapM fun (alarm, tag) => do
    let component ← alarmComponentFor alarm tag
    let dependency ← dependencyForAlarm alarm tag
    return (component, dependency)
  return composeView index viewId title task bound
    (issue "no-alarms" "No declared alarms are available for this scope" "info")

def taskFields : List Bytes := ["kind", "model_id", "anchor_asset_id", "measurement_roles", "client",
  "model_revision", "original_request"]

def checkTaskFields (task : Json) : Result Unit := do
  throwIf (¬ task.isObject) (invalidTask "task must be an object")
  match task.fields.find? fun item => item.1 ∉ taskFields with
  | some item => .error (invalidTask ("task contains unsupported field '" ++ item.1 ++ "'"))
  | none => .ok ()

def checkTaskRevision (index : ModelIndex) (task : Json) : Result Unit :=
  match task.find? "model_revision" with
  | none => .error (invalidTask "task.model_revision must be a non-negative integer")
  | some revision => do
    throwIf (¬ isNonnegativeInteger revision)
      (invalidTask "task.model_revision must be a non-negative integer")
    throwIf (¬ revision.eqv index.revision)
      (invalidTask "task.model_revision does not match the active model")

def checkTaskModelId (index : ModelIndex) (task : Json) : Result Unit :=
  match task.find? "model_id" with
  | none => .ok ()
  | some modelId => throwIf (¬ modelId.eqv (.str index.modelId))
      (invalidTask "task.model_id does not match the active model")

def checkTaskAnchor (index : ModelIndex) (task : Json) : Result Unit :=
  match task.find? "anchor_asset_id" with
  | none => .ok ()
  | some (.str anchor) => do
    throwIf anchor.isEmpty (invalidTask "task.anchor_asset_id must be a non-empty string")
    throwIf (index.asset? anchor).isNone
      (invalidTask "task.anchor_asset_id references an unknown asset")
  | some _ => .error (invalidTask "task.anchor_asset_id must be a non-empty string")

/-- The checks of `resolve_task_impl`; returns the kind. -/
def checkTask (index : ModelIndex) (task : Json) : Result Bytes := do
  checkTaskFields task
  let kind ← taskString task "kind" "task" 32
  throwIf (kind ≠ "overview" ∧ kind ≠ "alarms")
    (invalidTask ("unsupported task kind '" ++ kind ++ "'"))
  checkTaskRevision index task
  checkTaskModelId index task
  let _ ← taskString task "original_request" "task" kMaxPrompt
  checkTaskAnchor index task
  return kind

/-- The task a view is composed for: it names the active model. -/
def effectiveTask (index : ModelIndex) (task : Json) : Json :=
  if task.contains "model_id" then task else task.setField "model_id" (.str index.modelId)

def resolveKind (index : ModelIndex) (kind : Bytes) (task : Json) : Result Json :=
  if kind = "overview" then resolveOverview index task else resolveAlarms index task

/-- `resolve_task_impl`. -/
def resolveTaskImpl (index : ModelIndex) (task : Json) : Result Json := do
  let kind ← checkTask index task
  let view ← resolveKind index kind (effectiveTask index task)
  let layout ← responsiveLayout (effectiveTask index task)
  return view.setField "layout" layout

/-- `resolve_task`. -/
def resolveTask (model task : Json) : Result Json := do
  let index ← indexModel model
  resolveTaskImpl index task

end ContextHmi
