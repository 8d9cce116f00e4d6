import ContextHmi.Engine.Reconciliation
import ContextHmi.Engine.Composition
import ContextHmi.Json.Permuted

/-!
# The documents behind an index

`index_model` keeps pointers into the document of the model, in unordered maps, and the composer
reads every member it needs with `at(key)` and `get<std::string>()`. Here `resolve_task` is written
that way, over any iteration order of the maps.
-/

namespace ContextHmi

open Outcome

/-- `ModelIndex`: the documents of a model by their ids, in unordered maps. -/
structure Documents where
  model : Json
  assets : List (Bytes × Json)
  relationships : List (Bytes × Json)
  tags : List (Bytes × Json)
  alarms : List (Bytes × Json)

namespace Documents

/-- `at(id)` of a map. -/
def lookup (map : List (Bytes × Json)) (id : Bytes) : Result Json :=
  match Assoc.find? id map with
  | some document => .ok document
  | none => .error .absent

/-- `count(id)` of a map. -/
def declares (map : List (Bytes × Json)) (id : Bytes) : Bool := (Assoc.find? id map).isSome

/-- `at(key).get<std::string>()`. -/
def stringAt (document : Json) (key : Bytes) : Result Bytes := do (← document.atKey key).getString

/-! ### `index_model` -/

section
variable [Platform]

/-- The body of the loop over the assets, up to the id. -/
def checkAsset (place : Bytes) (asset : Json) : Result Bytes := do
  allowOnly asset ["id", "name", "kind", "aliases", "metadata"] place
  let id ← identityField asset "id" place
  let _ ← stringField asset "name" place kMaxString
  let _ ← stringField asset "kind" place kMaxString
  let _ ← aliasesField asset place
  checkMetadata asset 4096 (place ++ ".metadata must be an object of at most 4 KiB")
  return id

end

def checkRelationship (assets : List (Bytes × Json)) (place : Bytes) (rel : Json) :
    Result Bytes := do
  allowOnly rel ["id", "from", "to", "kind", "metadata"] place
  let id ← identityField rel "id" place
  let fromId ← identityField rel "from" place
  let toId ← identityField rel "to" place
  let _ ← stringField rel "kind" place kMaxString
  throwIf (¬ declares assets fromId ∨ ¬ declares assets toId)
    (invalid (place ++ " references an unknown asset"))
  throwIf (fromId = toId) (invalid (place ++ " cannot connect an asset to itself"))
  return id

def checkTag (assets : List (Bytes × Json)) (place : Bytes) (tag : Json) : Result Bytes := do
  allowOnly tag ["id", "asset_id", "name", "role", "data_type", "unit", "source", "metadata"] place
  let id ← identityField tag "id" place
  let owner ← identityField tag "asset_id" place
  let _ ← stringField tag "name" place kMaxString
  let _ ← stringField tag "role" place kMaxString
  let dataType ← stringField tag "data_type" place kMaxString
  throwIf (Bytes.lower dataType ∉ dataTypes) (invalid (place ++ " has unsupported data_type"))
  let _ ← unitField tag "unit" place
  let role ← stringAt tag "role"
  throwIf (isMeasured role ∧ Bytes.lower dataType ∉ numericTypes)
    (invalid (place ++ " level and flow roles must use a numeric data_type"))
  let _ ← sourceField tag place
  throwIf (¬ declares assets owner) (invalid (place ++ " references an unknown asset"))
  return id

def checkAlarm (assets tags : List (Bytes × Json)) (place : Bytes) (alarm : Json) :
    Result Bytes := do
  allowOnly alarm
    ["id", "asset_id", "name", "tag_id", "operator", "threshold", "severity", "metadata"] place
  let id ← identityField alarm "id" place
  let owner ← identityField alarm "asset_id" place
  let tagId ← identityField alarm "tag_id" place
  let op ← stringField alarm "operator" place 8
  let severity ← stringField alarm "severity" place 16
  let _ ← stringField alarm "name" place kMaxString
  let threshold ← required alarm "threshold" place
  throwIf (¬ isFiniteNumber threshold)
    (invalid (place ++ ".threshold must be a finite numeric value"))
  throwIf (¬ declares assets owner) (invalid (place ++ " references an unknown asset"))
  throwIf (¬ declares tags tagId) (invalid (place ++ " references an unknown tag"))
  let tagOwner ← stringAt (← lookup tags tagId) "asset_id"
  throwIf (tagOwner ≠ owner) (invalid (place ++ " asset_id does not own tag_id"))
  let dataType ← stringAt (← lookup tags tagId) "data_type"
  throwIf (Bytes.lower dataType ∉ numericTypes)
    (invalid (place ++ " tag_id must reference a numeric tag"))
  throwIf (op ∉ operators) (invalid (place ++ " has unsupported operator"))
  throwIf (Bytes.lower severity ∉ severities) (invalid (place ++ " has unsupported severity"))
  return id

/-- The loop over an array of the document: each id is emplaced once. -/
def emplaceAll (key noun : Bytes) (check : Bytes → Json → Result Bytes) :
    List (Bytes × Json) → List Json → Result (List (Bytes × Json))
  | map, [] => .ok map
  | map, document :: rest => do
    let id ← check ("model." ++ key ++ "[" ++ Bytes.decimal map.length ++ "]") document
    throwIf (declares map id) (invalid ("duplicate " ++ noun ++ " id '" ++ id ++ "'"))
    emplaceAll key noun check (map ++ [(id, document)]) rest

variable [Platform]

/-- `index_model`. -/
def indexModel (model : Json) : Result Documents := do
  allowOnly model ["model_id", "revision", "name", "assets", "relationships", "tags", "alarms",
    "scenario_name", "description", "metadata"] "model"
  let _ ← identityField model "model_id" "model"
  let _ ← revisionField model
  let _ ← stringField model "name" "model" kMaxString
  optionalField model "scenario_name" "model" kMaxString
  optionalField model "description" "model" 2048
  checkMetadata model (16 * 1024) "model.metadata must be an object of at most 16 KiB"
  let assetItems ← boundedArray model "assets" "model" kMaxAssets
  let relationshipItems ← boundedArray model "relationships" "model" kMaxRelationships
  let tagItems ← boundedArray model "tags" "model" kMaxTags
  let alarmItems ← boundedArray model "alarms" "model" kMaxAlarms
  let assets ← emplaceAll "assets" "asset" checkAsset [] assetItems
  let relationships ←
    emplaceAll "relationships" "relationship" (checkRelationship assets) [] relationshipItems
  let tags ← emplaceAll "tags" "tag" (checkTag assets) [] tagItems
  let alarms ← emplaceAll "alarms" "alarm" (checkAlarm assets tags) [] alarmItems
  return ⟨model, assets, relationships, tags, alarms⟩

/-- `validate_model`. -/
def validateModel (model : Json) : Result Json := do
  let docs ← indexModel model
  let modelId ← model.atKey "model_id"
  let revision ← model.atKey "revision"
  return .object [
    ("valid", .bool true),
    ("model_id", modelId),
    ("revision", revision),
    ("asset_count", .uint (UInt64.ofNat docs.assets.length)),
    ("relationship_count", .uint (UInt64.ofNat docs.relationships.length)),
    ("tag_count", .uint (UInt64.ofNat docs.tags.length)),
    ("alarm_count", .uint (UInt64.ofNat docs.alarms.length))]

/-! ### `resolve_task` -/

def assetName (docs : Documents) (id : Bytes) : Result Bytes := do
  stringAt (← lookup docs.assets id) "name"

def tagBindingSnapshot (tag : Json) : Result Json := do
  let owner ← tag.atKey "asset_id"
  let role ← tag.atKey "role"
  let dataType ← tag.atKey "data_type"
  let unit ← tag.atKey "unit"
  let source ← tag.atKey "source"
  return .object [("owner", owner), ("role", role), ("data_type", dataType), ("unit", unit),
    ("source", source)]

def tagFingerprint (tag : Json) : Result Bytes := do
  let snapshot ← tagBindingSnapshot tag
  fnvHex <$> snapshot.dump

def dependencyFor (tag : Json) : Result Json := do
  let id ← tag.atKey "id"
  let owner ← tag.atKey "asset_id"
  let role ← tag.atKey "role"
  let dataType ← tag.atKey "data_type"
  let unit ← tag.atKey "unit"
  let source ← tag.atKey "source"
  let binding ← tagBindingSnapshot tag
  let fingerprint ← tagFingerprint tag
  return (Json.object [("tag_id", id), ("owner", owner), ("owner_asset_id", owner), ("role", role),
    ("data_type", dataType), ("unit", unit), ("source", source), ("binding", binding)]).setField
    "fingerprint" (.str fingerprint)

def alarmDefinitionSnapshot (alarm : Json) : Result Json := do
  let owner ← alarm.atKey "asset_id"
  let name ← alarm.atKey "name"
  let tagId ← alarm.atKey "tag_id"
  let op ← alarm.atKey "operator"
  let threshold ← alarm.atKey "threshold"
  let severity ← alarm.atKey "severity"
  return .object [("owner", owner), ("name", name), ("tag_id", tagId), ("operator", op),
    ("threshold", threshold), ("severity", severity)]

def alarmDefinitionFingerprint (alarm : Json) : Result Bytes := do
  let snapshot ← alarmDefinitionSnapshot alarm
  fnvHex <$> snapshot.dump

def dependencyForAlarm (alarm tag : Json) : Result Json := do
  let result ← dependencyFor tag
  let id ← alarm.atKey "id"
  let owner ← alarm.atKey "asset_id"
  let name ← alarm.atKey "name"
  let op ← alarm.atKey "operator"
  let threshold ← alarm.atKey "threshold"
  let severity ← alarm.atKey "severity"
  let definition ← alarmDefinitionSnapshot alarm
  let fingerprint ← alarmDefinitionFingerprint alarm
  return result.setFields [("alarm_id", id), ("alarm_owner", owner), ("alarm_name", name),
    ("operator", op), ("threshold", threshold), ("severity", severity),
    ("alarm_definition", definition), ("alarm_fingerprint", .str fingerprint)]

def componentFor (tag : Json) (kind label reason : Bytes) : Result Json := do
  let id ← tag.atKey "id"
  let owner ← tag.atKey "asset_id"
  let role ← tag.atKey "role"
  let unit ← tag.atKey "unit"
  let fingerprint ← tagFingerprint tag
  return (Json.object [("id", id), ("kind", .str kind), ("label", .str label), ("asset_id", owner),
    ("tag_id", id), ("role", role), ("unit", unit), ("reason", .str reason)]).setField
    "dependency_fingerprints" (Json.strings [fingerprint])

def alarmComponentFor (alarm tag : Json) : Result Json := do
  let id ← alarm.atKey "id"
  let name ← alarm.atKey "name"
  let owner ← alarm.atKey "asset_id"
  let tagId ← alarm.atKey "tag_id"
  let role ← tag.atKey "role"
  let unit ← tag.atKey "unit"
  let binding ← tagFingerprint tag
  let definition ← alarmDefinitionFingerprint alarm
  return .object [("id", id), ("kind", .str "alarm"), ("label", name), ("asset_id", owner),
    ("alarm_id", id), ("tag_id", tagId), ("role", role), ("unit", unit),
    ("reason", .str "Declared alarm threshold"),
    ("dependency_fingerprints", Json.strings [binding, definition])]

/-- `std::sort` by the ids of the documents. -/
def sortById (documents : List Json) : Result (List Json) := do
  let keyed ← documents.mapM fun document => (fun id => (id, document)) <$> stringAt document "id"
  return (Bytes.sortBy Prod.fst keyed).map Prod.snd

/-- `roles.empty() || roles.contains(tag->at("role").get<std::string>())`. -/
def wantsTag (roles : List Bytes) (tag : Json) : Result Bool :=
  if roles.isEmpty then .ok true else roles.contains <$> stringAt tag "role"

/-- The view `resolve_overview` and `resolve_alarms` fill. -/
def composeView (docs : Documents) (viewId title : Bytes) (task : Json)
    (bound : List (Json × Json)) (nothing : Json) : Result Json := do
  let modelId ← docs.model.atKey "model_id"
  let revision ← docs.model.atKey "revision"
  let empty := bound.isEmpty
  return .object [("view_id", .str viewId), ("model_id", modelId), ("model_revision", revision),
    ("status", .str (if empty then "needs-review" else "ready")), ("title", .str title),
    ("task", task), ("components", .arr (bound.map (·.1))),
    ("issues", .arr (if empty then [nothing] else [])),
    ("dependencies", .arr (bound.map (·.2)))]

def viewNames (docs : Documents) (anchor slug word : Bytes) : Result (Bytes × Bytes) :=
  if anchor.isEmpty then .ok ("view-" ++ slug, word)
  else do
    let name ← assetName docs anchor
    return ("view-" ++ anchor ++ "-" ++ slug, name ++ " - " ++ word)

/-- The tags of an asset that `resolve_overview` shows. -/
def overviewTags (docs : Documents) (roles : List Bytes) (asset : Bytes) : Result (List Json) := do
  let tags ← keepM (fun tag : Json => do
    let owner ← tag.atKey "asset_id"
    if owner.eqv (.str asset) then wantsTag roles tag else return false)
    ((bucketed docs.tags).map Prod.snd)
  sortById tags

def resolveOverview (docs : Documents) (task : Json) : Result Json := do
  let anchor ← taskAnchor task
  let (viewId, title) ← viewNames docs anchor "overview" "Overview"
  let roles ← requestedRoles task
  let assets := if anchor.isEmpty then (bucketed docs.assets).map Prod.fst else [anchor]
  let bound ← (Bytes.sortBy id assets).mapM fun asset => do
    let tags ← overviewTags docs roles asset
    tags.mapM fun tag => do
      let role ← stringAt tag "role"
      let owner ← assetName docs asset
      let name ← stringAt tag "name"
      let component ← componentFor tag (overviewKind role) (owner ++ " " ++ name)
        "Declared tag in machine overview"
      let dependency ← dependencyFor tag
      return (component, dependency)
  composeView docs viewId title task bound.flatten
    (issue "missing-overview-tags" "No declared tags are available for this overview" "error")

/-- `!anchor.empty() && alarm->at("asset_id").get<std::string>() != anchor`. -/
def isElsewhere (anchor : Bytes) (alarm : Json) : Result Bool :=
  if anchor.isEmpty then .ok false
  else (fun owner => decide (owner ≠ anchor)) <$> stringAt alarm "asset_id"

/-- The alarms `resolve_alarms` shows. -/
def shownAlarms (docs : Documents) (roles : List Bytes) (anchor : Bytes) : Result (List Json) := do
  let alarms ← keepM (fun alarm : Json => do
    if ← isElsewhere anchor alarm then return false
    else do
      let tagId ← stringAt alarm "tag_id"
      let tag ← lookup docs.tags tagId
      wantsTag roles tag)
    ((bucketed docs.alarms).map Prod.snd)
  sortById alarms

def resolveAlarms (docs : Documents) (task : Json) : Result Json := do
  let anchor ← taskAnchor task
  let (viewId, title) ← viewNames docs anchor "alarms" "Alarms"
  let roles ← requestedRoles task
  let alarms ← shownAlarms docs roles anchor
  let bound ← alarms.mapM fun alarm => do
    let tagId ← stringAt alarm "tag_id"
    let tag ← lookup docs.tags tagId
    let component ← alarmComponentFor alarm tag
    let dependency ← dependencyForAlarm alarm tag
    return (component, dependency)
  composeView docs viewId title task bound
    (issue "no-alarms" "No declared alarms are available for this scope" "info")

def checkTaskRevision (docs : Documents) (task : Json) : Result Unit :=
  match task.find? "model_revision" with
  | none => .error (invalidTask "task.model_revision must be a non-negative integer")
  | some revision => do
    throwIf (¬ isNonnegativeInteger revision)
      (invalidTask "task.model_revision must be a non-negative integer")
    let current ← docs.model.atKey "revision"
    throwIf (¬ revision.eqv current)
      (invalidTask "task.model_revision does not match the active model")

def checkTaskModelId (docs : Documents) (task : Json) : Result Unit :=
  match task.find? "model_id" with
  | none => .ok ()
  | some modelId => do
    throwIf (¬ modelId.isString) (invalidTask "task.model_id does not match the active model")
    let current ← docs.model.atKey "model_id"
    throwIf (¬ modelId.eqv current) (invalidTask "task.model_id does not match the active model")

def checkTaskAnchor (docs : Documents) (task : Json) : Result Unit :=
  match task.find? "anchor_asset_id" with
  | none => .ok ()
  | some (.str anchor) => do
    throwIf anchor.isEmpty (invalidTask "task.anchor_asset_id must be a non-empty string")
    throwIf (¬ declares docs.assets anchor)
      (invalidTask "task.anchor_asset_id references an unknown asset")
  | some _ => .error (invalidTask "task.anchor_asset_id must be a non-empty string")

/-- The checks of `resolve_task_impl`; returns the kind. -/
def checkTask (docs : Documents) (task : Json) : Result Bytes := do
  checkTaskFields task
  let kind ← taskString task "kind" "task" 32
  throwIf (kind ≠ "overview" ∧ kind ≠ "alarms")
    (invalidTask ("unsupported task kind '" ++ kind ++ "'"))
  checkTaskRevision docs task
  checkTaskModelId docs task
  let _ ← taskString task "original_request" "task" kMaxPrompt
  checkTaskAnchor docs task
  return kind

def effectiveTask (docs : Documents) (task : Json) : Result Json :=
  if task.contains "model_id" then .ok task
  else (fun modelId => task.setField "model_id" modelId) <$> docs.model.atKey "model_id"

def resolveKind (docs : Documents) (kind : Bytes) (task : Json) : Result Json :=
  if kind = "overview" then docs.resolveOverview task else docs.resolveAlarms task

def resolveTaskImpl (docs : Documents) (task : Json) : Result Json := do
  let kind ← checkTask docs task
  let effective ← effectiveTask docs task
  let view ← resolveKind docs kind effective
  let layout ← responsiveLayout effective
  return view.setField "layout" layout

/-- `resolve_task`. -/
def resolveTask (model task : Json) : Result Json := do
  let docs ← indexModel model
  resolveTaskImpl docs task

end Documents

end ContextHmi
