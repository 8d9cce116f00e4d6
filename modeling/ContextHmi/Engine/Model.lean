import ContextHmi.Json.Text
import ContextHmi.Library.Outcome

/-!
# The engineering model

`index_model`, the validator every engine call runs first: it checks a model document member by
member and indexes its records by their ids. The index here holds the records themselves, with the
members later code reads, in the order the document declares them.
-/

namespace ContextHmi

open Outcome

/-! ### Limits and exceptions -/

abbrev kMaxString : Nat := 256
abbrev kMaxPrompt : Nat := 8192
abbrev kMaxAssets : Nat := 256
abbrev kMaxRelationships : Nat := 512
abbrev kMaxTags : Nat := 2048
abbrev kMaxAlarms : Nat := 2048
abbrev kMaxAliases : Nat := 32
abbrev kMaxComponents : Nat := 4096

def invalid (details : Bytes) : Error := .domain "invalid_model" details

def invalidTask (details : Bytes) : Error := .domain "invalid_task" details

def invalidView (details : Bytes) : Error := .domain "invalid_view" details

/-! ### Records -/

/-- A tag's source object. -/
structure Source where
  server : Bytes
  namespaceUri : Bytes
  identifier : Bytes
  deriving DecidableEq

structure Asset where
  id : Bytes
  name : Bytes
  kind : Bytes
  aliases : Option (List Bytes)
  deriving DecidableEq

structure Relationship where
  id : Bytes
  fromId : Bytes
  toId : Bytes
  kind : Bytes
  deriving DecidableEq

structure Tag where
  id : Bytes
  assetId : Bytes
  name : Bytes
  role : Bytes
  dataType : Bytes
  unit : Bytes
  source : Source
  deriving DecidableEq

structure Alarm where
  id : Bytes
  assetId : Bytes
  name : Bytes
  tagId : Bytes
  operator : Bytes
  threshold : Json
  severity : Bytes

structure ModelIndex where
  modelId : Bytes
  revision : Json
  assets : List Asset
  relationships : List Relationship
  tags : List Tag
  alarms : List Alarm

namespace ModelIndex

def asset? (index : ModelIndex) (id : Bytes) : Option Asset := index.assets.find? (·.id = id)

def relationship? (index : ModelIndex) (id : Bytes) : Option Relationship :=
  index.relationships.find? (·.id = id)

def tag? (index : ModelIndex) (id : Bytes) : Option Tag := index.tags.find? (·.id = id)

def alarm? (index : ModelIndex) (id : Bytes) : Option Alarm := index.alarms.find? (·.id = id)

end ModelIndex

/-! ### Field checks -/

def required (object : Json) (key place : Bytes) : Result Json :=
  match object.find? key with
  | some value => .ok value
  | none => .error (invalid (place ++ " requires '" ++ key ++ "'"))

/-- A string a field check lets through: not empty, bounded, without control characters. -/
def isText (max : Nat) (s : Bytes) : Bool := !s.isEmpty && s.length ≤ max && !s.any Bytes.isCntrl

def stringField (object : Json) (key place : Bytes) (max : Nat) : Result Bytes := do
  match ← required object key place with
  | .str s =>
    throwIf (s.isEmpty ∨ max < s.length) (invalid (place ++ "." ++ key ++
      " must be a non-empty string of at most " ++ Bytes.decimal max ++ " characters"))
    throwIf (s.any Bytes.isCntrl)
      (invalid (place ++ "." ++ key ++ " must not contain control characters"))
    return s
  | _ => .error (invalid (place ++ "." ++ key ++
      " must be a non-empty string of at most " ++ Bytes.decimal max ++ " characters"))

def validIdentity (s : Bytes) : Bool :=
  match s with
  | [] => false
  | c :: _ =>
    s.length ≤ kMaxString && Bytes.isAlnum c &&
      s.all fun c => Bytes.isAlnum c || c == 0x5f || c == 0x2e || c == 0x2d

def identityField (object : Json) (key place : Bytes) : Result Bytes := do
  let value ← stringField object key place kMaxString
  throwIf (¬ validIdentity value) (invalid (place ++ "." ++ key ++ " must be an ASCII identifier"))
  return value

def allowOnly (object : Json) (names : List Bytes) (place : Bytes) : Result Unit := do
  throwIf (¬ object.isObject) (invalid (place ++ " must be an object"))
  match object.fields.find? fun item => item.1 ∉ names with
  | some item => .error (invalid (place ++ " contains unsupported field '" ++ item.1 ++ "'"))
  | none => .ok ()

def unitField (object : Json) (key place : Bytes) : Result Bytes := do
  match ← required object key place with
  | .str s =>
    throwIf (kMaxString < s.length) (invalid (place ++ "." ++ key ++
      " must be a string of at most " ++ Bytes.decimal kMaxString ++ " characters"))
    throwIf (s.any Bytes.isCntrl)
      (invalid (place ++ "." ++ key ++ " must not contain control characters"))
    return s
  | _ => .error (invalid (place ++ "." ++ key ++
      " must be a string of at most " ++ Bytes.decimal kMaxString ++ " characters"))

def boundedArray (object : Json) (key place : Bytes) (max : Nat) : Result (List Json) := do
  let value ← required object key place
  throwIf (¬ value.isArray ∨ max < value.size) (invalid (place ++ "." ++ key ++
    " must be an array with at most " ++ Bytes.decimal max ++ " items"))
  return value.items

/-- `is_nonnegative_integer`. -/
def isNonnegativeInteger : Json → Bool
  | .uint _ => true
  | .int i => 0 ≤ i
  | _ => false

def checkMetadata [Platform] (object : Json) (max : Nat) (details : Bytes) : Result Unit :=
  match object.find? "metadata" with
  | none => .ok ()
  | some metadata => do
    throwIf (¬ metadata.isObject) (invalid details)
    let text ← metadata.dump
    throwIf (max < text.length) (invalid details)

/-- An optional member that must be a string when it is there. -/
def optionalField (object : Json) (key place : Bytes) (max : Nat) : Result Unit :=
  if object.contains key then (fun _ => ()) <$> stringField object key place max else .ok ()

def sourceField (tag : Json) (place : Bytes) : Result Source := do
  let source ← required tag "source" place
  allowOnly source ["server", "namespace_uri", "identifier"] (place ++ ".source")
  let server ← stringField source "server" (place ++ ".source") kMaxString
  let namespaceUri ← stringField source "namespace_uri" (place ++ ".source") kMaxString
  let identifier ← stringField source "identifier" (place ++ ".source") kMaxString
  return ⟨server, namespaceUri, identifier⟩

/-! ### Records of a document -/

/-- The aliases from position `j` on. -/
def aliasesFrom (place : Bytes) : Nat → List Json → Result (List Bytes)
  | _, [] => .ok []
  | j, item :: rest => do
    match item with
    | .str s =>
      throwIf (¬ isText kMaxString s)
        (invalid (place ++ ".aliases[" ++ Bytes.decimal j ++ "] must be a non-empty string"))
      return s :: (← aliasesFrom place (j + 1) rest)
    | _ => .error <|
        invalid (place ++ ".aliases[" ++ Bytes.decimal j ++ "] must be a non-empty string")

def aliasesField (asset : Json) (place : Bytes) : Result (Option (List Bytes)) :=
  match asset.find? "aliases" with
  | none => .ok none
  | some aliases => do
    throwIf (¬ aliases.isArray ∨ kMaxAliases < aliases.size)
      (invalid (place ++ ".aliases exceeds limit"))
    some <$> aliasesFrom place 0 aliases.items

/-- One asset of a document. -/
def readAsset [Platform] (place : Bytes) (asset : Json) : Result Asset := do
  allowOnly asset ["id", "name", "kind", "aliases", "metadata"] place
  let id ← identityField asset "id" place
  let name ← stringField asset "name" place kMaxString
  let kind ← stringField asset "kind" place kMaxString
  let aliases ← aliasesField asset place
  checkMetadata asset 4096 (place ++ ".metadata must be an object of at most 4 KiB")
  return ⟨id, name, kind, aliases⟩

/-- One relationship of a document, between assets already read. -/
def readRelationship (assets : List Asset) (place : Bytes) (rel : Json) : Result Relationship := do
  allowOnly rel ["id", "from", "to", "kind", "metadata"] place
  let id ← identityField rel "id" place
  let fromId ← identityField rel "from" place
  let toId ← identityField rel "to" place
  let kind ← stringField rel "kind" place kMaxString
  throwIf (fromId ∉ assets.map (·.id) ∨ toId ∉ assets.map (·.id))
    (invalid (place ++ " references an unknown asset"))
  throwIf (fromId = toId) (invalid (place ++ " cannot connect an asset to itself"))
  return ⟨id, fromId, toId, kind⟩

def dataTypes : List Bytes :=
  ["number", "float", "double", "integer", "boolean", "bool", "string"]

def numericTypes : List Bytes := ["number", "float", "double", "integer"]

/-- `level` and `flow`, which ask for a numeric type. -/
def isMeasured (role : Bytes) : Prop := Bytes.lower role = "level" ∨ Bytes.lower role = "flow"

instance (role : Bytes) : Decidable (isMeasured role) := inferInstanceAs (Decidable (_ ∨ _))

/-- One tag of a document. -/
def readTag (assets : List Asset) (place : Bytes) (tag : Json) : Result Tag := do
  allowOnly tag ["id", "asset_id", "name", "role", "data_type", "unit", "source", "metadata"] place
  let id ← identityField tag "id" place
  let owner ← identityField tag "asset_id" place
  let name ← stringField tag "name" place kMaxString
  let role ← stringField tag "role" place kMaxString
  let dataType ← stringField tag "data_type" place kMaxString
  throwIf (Bytes.lower dataType ∉ dataTypes) (invalid (place ++ " has unsupported data_type"))
  let unit ← unitField tag "unit" place
  throwIf (isMeasured role ∧ Bytes.lower dataType ∉ numericTypes)
    (invalid (place ++ " level and flow roles must use a numeric data_type"))
  let source ← sourceField tag place
  throwIf (owner ∉ assets.map (·.id)) (invalid (place ++ " references an unknown asset"))
  return ⟨id, owner, name, role, dataType, unit, source⟩

def operators : List Bytes := [">", ">=", "<", "<=", "==", "!="]

def severities : List Bytes := ["low", "medium", "high", "critical"]

/-- `is_number() && isfinite(get<double>())`. -/
def isFiniteNumber : Json → Bool
  | .int _ | .uint _ => true
  | .float x => x.isFinite
  | _ => false

/-- One alarm of a document, on a tag already read. -/
def readAlarm (assets : List Asset) (tags : List Tag) (place : Bytes) (alarm : Json) :
    Result Alarm := do
  allowOnly alarm
    ["id", "asset_id", "name", "tag_id", "operator", "threshold", "severity", "metadata"] place
  let id ← identityField alarm "id" place
  let owner ← identityField alarm "asset_id" place
  let tagId ← identityField alarm "tag_id" place
  let op ← stringField alarm "operator" place 8
  let severity ← stringField alarm "severity" place 16
  let name ← stringField alarm "name" place kMaxString
  let threshold ← required alarm "threshold" place
  throwIf (¬ isFiniteNumber threshold)
    (invalid (place ++ ".threshold must be a finite numeric value"))
  throwIf (owner ∉ assets.map (·.id)) (invalid (place ++ " references an unknown asset"))
  match tags.find? (·.id = tagId) with
  | none => .error (invalid (place ++ " references an unknown tag"))
  | some tag =>
    throwIf (tag.assetId ≠ owner) (invalid (place ++ " asset_id does not own tag_id"))
    throwIf (Bytes.lower tag.dataType ∉ numericTypes)
      (invalid (place ++ " tag_id must reference a numeric tag"))
    throwIf (op ∉ operators) (invalid (place ++ " has unsupported operator"))
    throwIf (Bytes.lower severity ∉ severities) (invalid (place ++ " has unsupported severity"))
    return ⟨id, owner, name, tagId, op, threshold, severity⟩

/-- The records of an array of the document after those in `acc`, each id once. -/
def indexAll {α : Type} (key noun : Bytes) (read : Bytes → Json → Result α) (id : α → Bytes) :
    List α → List Json → Result (List α)
  | acc, [] => .ok acc
  | acc, j :: js => do
    let a ← read ("model." ++ key ++ "[" ++ Bytes.decimal acc.length ++ "]") j
    throwIf (id a ∈ acc.map id) (invalid ("duplicate " ++ noun ++ " id '" ++ id a ++ "'"))
    indexAll key noun read id (acc ++ [a]) js

def revisionField (model : Json) : Result Json := do
  let revision ← required model "revision" "model"
  throwIf (¬ isNonnegativeInteger revision)
    (invalid "model.revision must be a non-negative 32-bit integer")
  let n ← revision.getUInt64
  throwIf (2 ^ 32 - 1 < n.toNat) (invalid "model.revision must be a non-negative 32-bit integer")
  return revision

/-- `index_model`. -/
def indexModel [Platform] (model : Json) : Result ModelIndex := do
  allowOnly model ["model_id", "revision", "name", "assets", "relationships", "tags", "alarms",
    "scenario_name", "description", "metadata"] "model"
  let modelId ← identityField model "model_id" "model"
  let revision ← revisionField model
  let _ ← stringField model "name" "model" kMaxString
  optionalField model "scenario_name" "model" kMaxString
  optionalField model "description" "model" 2048
  checkMetadata model (16 * 1024) "model.metadata must be an object of at most 16 KiB"
  let assetItems ← boundedArray model "assets" "model" kMaxAssets
  let relationshipItems ← boundedArray model "relationships" "model" kMaxRelationships
  let tagItems ← boundedArray model "tags" "model" kMaxTags
  let alarmItems ← boundedArray model "alarms" "model" kMaxAlarms
  let assets ← indexAll "assets" "asset" readAsset Asset.id [] assetItems
  let relationships ←
    indexAll "relationships" "relationship" (readRelationship assets) Relationship.id [] relationshipItems
  let tags ← indexAll "tags" "tag" (readTag assets) Tag.id [] tagItems
  let alarms ← indexAll "alarms" "alarm" (readAlarm assets tags) Alarm.id [] alarmItems
  return ⟨modelId, revision, assets, relationships, tags, alarms⟩

/-- `validate_model`. -/
def validateModel [Platform] (model : Json) : Result Json := do
  let index ← indexModel model
  return .object [
    ("valid", .bool true),
    ("model_id", .str index.modelId),
    ("revision", index.revision),
    ("asset_count", .uint (UInt64.ofNat index.assets.length)),
    ("relationship_count", .uint (UInt64.ofNat index.relationships.length)),
    ("tag_count", .uint (UInt64.ofNat index.tags.length)),
    ("alarm_count", .uint (UInt64.ofNat index.alarms.length))]

/-! ### A sample model -/

/-- A platform that prints every number of the samples as the C++ implementation does. -/
@[reducible] def samplePlatform : Platform where
  toChars _ := "1.8446744073709552e+19"
  bucketOrder keys := keys
  bucketOrder_perm keys := .refl keys

/-- A tank with a level and a high alarm. -/
def sampleModel (revision : UInt64) (threshold : Json) : Json := .object [
  ("model_id", .str "plant"), ("revision", .uint revision), ("name", .str "Plant"),
  ("assets", .arr [.object [("id", .str "tank"), ("name", .str "Tank"), ("kind", .str "vessel")]]),
  ("relationships", .arr []),
  ("tags", .arr [.object [("id", .str "level"), ("asset_id", .str "tank"), ("name", .str "Level"),
    ("role", .str "level"), ("data_type", .str "number"), ("unit", .str "m"),
    ("source", .object [("server", .str "plc"), ("namespace_uri", .str "urn:plant"),
      ("identifier", .str "level")])]]),
  ("alarms", .arr [.object [("id", .str "high"), ("asset_id", .str "tank"), ("name", .str "High"),
    ("tag_id", .str "level"), ("operator", .str ">"), ("threshold", threshold),
    ("severity", .str "high")]])]

/-- A tag of the tank, read in a unit. -/
def sampleTag (id unit : Bytes) : Json := .object [("id", .str id), ("asset_id", .str "tank"),
  ("name", .str id), ("role", .str "value"), ("data_type", .str "number"), ("unit", .str unit),
  ("source", .object [("server", .str "plc"), ("namespace_uri", .str "urn:plant"),
    ("identifier", .str id)])]

/-- An alarm of the tank on a tag. -/
def sampleAlarm (id tagId : Bytes) : Json := .object [("id", .str id), ("asset_id", .str "tank"),
  ("name", .str id), ("tag_id", .str tagId), ("operator", .str ">"), ("threshold", .int 80),
  ("severity", .str "high")]

/-- A tank with any tags and alarms. -/
def samplePlant (revision : UInt64) (tags alarms : List Json) : Json := .object [
  ("model_id", .str "plant"), ("revision", .uint revision), ("name", .str "Plant"),
  ("assets", .arr [.object [("id", .str "tank"), ("name", .str "Tank"), ("kind", .str "vessel")]]),
  ("relationships", .arr []), ("tags", .arr tags), ("alarms", .arr alarms)]

section
variable [Platform]

/-- The index of a model, computed. -/
def indexOf (model : Json) : ModelIndex :=
  (indexModel model).toOption.getD ⟨[], .null, [], [], [], []⟩

theorem indexModel_eq {model : Json} (h : (indexModel model).toOption.isSome = true) :
    indexModel model = .ok (indexOf model) := eq_ok_of_isSome h _

end

end ContextHmi
