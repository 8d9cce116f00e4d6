import ContextHmi.Import.Csv
import ContextHmi.Json.Parsing

/-!
# Records of a bundle

The parsers of the artifacts: each reads its records one after another, refuses an id it has seen, and
emits the record into the model or reports it as unresolved. A row is read with the ids seen before it
(`relationshipRow`, `tagRow`, `alarmRow`, `assetRow`); the loop around it is the same for all of them.
-/

namespace ContextHmi.Import

open Outcome

abbrev kIdentityLimit : Nat := 256

/-! ### Fields -/

def isControl (character : UInt8) : Bool := character < 0x20 || character == 0x7f

def invalidField (path message : Bytes) : Error := .importing "invalid_field" path message

def requireString (limits : Limits) (object : Json) (key path : Bytes) (allowEmpty : Bool) :
    Result Bytes :=
  match object.find? key with
  | some (.str value) => do
    throwIf ((¬ allowEmpty ∧ value.isEmpty) ∨ min limits.maxStringBytes kIdentityLimit < value.length ∨
      value.any isControl) (invalidField path "string field is empty or exceeds its bound")
    return value
  | _ => .error (invalidField path "required string field is missing")

/-- `string_field`, for a field that may not be empty. -/
def stringField (limits : Limits) (object : Json) (key path : Bytes) : Result Bytes :=
  requireString limits object key path false

def allowedKeys (object : Json) (allowed : List Bytes) (path : Bytes) : Result Unit :=
  match object.fields.find? fun item => item.1 ∉ allowed with
  | some item => .error (.importing "unknown_field" path ("field is not accepted: " ++ item.1))
  | none => .ok ()

def isTrimmed (character : UInt8) : Bool :=
  character == 0x20 || character == 0x09 || character == 0x0d || character == 0x0a

def trim (value : Bytes) : Bytes :=
  ((value.dropWhile isTrimmed).reverse.dropWhile isTrimmed).reverse

def validIdentity (value : Bytes) : Bool :=
  match value with
  | [] => false
  | front :: _ =>
    value.length ≤ kIdentityLimit && Bytes.isAlnum front &&
      value.all fun c => c == 0x5f || c == 0x2d || c == 0x2e || Bytes.isAlnum c

def invalidIdentity (path message : Bytes) : Error :=
  .importing "invalid_identity" (path ++ ".id") message

/-! ### Artifacts -/

/-- The filename of the path is the one the reports name. -/
structure Artifact where
  id : Bytes
  kind : Bytes
  format : Bytes
  path : Bytes
  filename : Bytes
  contents : Bytes

/-- `parse_json`. The message of a parse error is the JSON library's own and is left out; a number out of
range is another exception. -/
def parseJson (limits : Limits) (contents path : Bytes) : Result Json :=
  match Json.parse none contents with
  | .error (.json .parse) => .error (.importing "invalid_json" path [])
  | .error e => .error e
  | .ok value => do
    validateJsonLimits limits path value
    return value

def recordsArray (limits : Limits) (value : Json) (path : Bytes) : Result (List Json) :=
  let bounded (records : List Json) : Result (List Json) := do
    throwIf (limits.maxRecordsPerArtifact < records.length)
      (.importing "too_many_records" path "JSON artifact exceeds the configured record limit")
    return records
  match value with
  | .arr records => bounded records
  | value => match value.find? "records" with
    | some (.arr records) => bounded records
    | _ => .error (.importing "invalid_json_shape" path
        "artifact must be an array or an object with records")

/-- The column of each header. -/
abbrev Headers := List (Bytes × Nat)

/-- `header_map`, from the column `index` on. -/
def headersFrom (limits : Limits) (path : Bytes) : Nat → Headers → List Bytes → Result Headers
  | _, headers, [] => .ok headers
  | index, headers, first :: rest => do
    let header := trim first
    throwIf (header.isEmpty ∨ limits.maxStringBytes < header.length ∨
        (Assoc.find? header headers).isSome)
      (invalidCsv path "CSV header is empty, oversized or duplicated")
    headersFrom limits path (index + 1) ((header, index) :: headers) rest

def requireColumns (headers : Headers) (required : List Bytes) (path : Bytes) : Result Unit :=
  match required.find? fun name => (Assoc.find? name headers).isNone with
  | some name => .error (invalidCsv path ("required column is missing: " ++ name))
  | none => .ok ()

def checkRowWidth (limits : Limits) (header : List Bytes) (rows : Rows) (path : Bytes) :
    Result Unit := do
  throwIf (∃ row ∈ rows, row.length ≠ header.length)
    (invalidCsv path "row has a different number of cells than its header")
  throwIf (limits.maxRecordsPerArtifact < rows.length) (tooManyRecords path)

/-- What the parsers of tables start with: the columns and the rows under the header. -/
def readTable (limits : Limits) (artifact : Artifact) (required : List Bytes) :
    Result (Headers × Rows) := do
  let rows ← parseCsv limits artifact.path artifact.contents
  let headers ← headersFrom limits artifact.path 0 [] rows.head!
  requireColumns headers required artifact.path
  checkRowWidth limits rows.head! rows.tail artifact.path
  return (headers, rows.tail)

/-- `cell`. -/
def cell (limits : Limits) (headers : Headers) (row : List Bytes) (path key : Bytes)
    (required : Bool := true) : Result Bytes :=
  match Assoc.find? key headers with
  | none =>
    if required then .error (invalidCsv path ("required column is missing: " ++ key)) else .ok []
  | some column => match row[column]? with
    | none =>
      if required then .error (invalidCsv path "row has fewer cells than its header") else .ok []
    | some value => do
      throwIf (min limits.maxFieldBytes 256 < value.length) (fieldTooLarge path)
      throwIf (required = true ∧ value.isEmpty) (invalidField path "required CSV field is empty")
      throwIf (value.any isControl) (invalidField path "CSV field contains a control character")
      return value

/-! ### The loop of a parser -/

/-- What becomes of a record: it is emitted, it is reported, or only counted. -/
inductive Fate where
  | emitted (record : Json)
  | unresolved (code message : Bytes)
  | counted

/-- What a parser works on: the ids it has seen, those it emitted, an array of the model, and the
unresolved records of the report. -/
structure Progress where
  ids : List Bytes
  emitted : List Bytes
  records : List Json
  unresolved : List Json

/-- `add_unresolved`. -/
def unresolvedEntry (code path message : Bytes) : Json :=
  .object [("code", .str code), ("path", .str path), ("message", .str message),
    ("severity", .str "warning")]

def Progress.place (p : Progress) (path id : Bytes) : Fate → Progress
  | .emitted record => ⟨id :: p.ids, id :: p.emitted, p.records ++ [record], p.unresolved⟩
  | .unresolved code message =>
    ⟨id :: p.ids, p.emitted, p.records, p.unresolved ++ [unresolvedEntry code path message]⟩
  | .counted => ⟨id :: p.ids, p.emitted, p.records, p.unresolved⟩

def recordPath (filename : Bytes) (index : Nat) : Bytes :=
  filename ++ "[" ++ Bytes.decimal index ++ "]"

/-- How one record is read: with the ids seen before it and its path. -/
abbrev ReadRow (ρ : Type) := List Bytes → Bytes → ρ → Result (Bytes × Fate)

/-- One turn of a parser's loop. -/
def placeRow {ρ : Type} (read : ReadRow ρ) (filename : Bytes) (p : Progress) (r : ρ × Nat) :
    Result Progress := do
  let path := recordPath filename r.2
  let (id, fate) ← read p.ids path r.1
  return p.place path id fate

/-- The loop, over records numbered from `first`. -/
def placeRows {ρ : Type} (read : ReadRow ρ) (filename : Bytes) (first : Nat) (rows : List ρ)
    (p : Progress) : Result Progress :=
  (rows.zipIdx first).foldlM (placeRow read filename) p

/-! ### One record of each kind -/

section
variable (limits : Limits)

/-- The aliases of an asset. -/
def checkAliases (item : Json) (path : Bytes) : Result (Option (List Json)) :=
  match item.find? "aliases" with
  | none => .ok none
  | some aliases => do
    throwIf (¬ aliases.isArray ∨ 32 < aliases.size)
      (invalidField (path ++ ".aliases") "aliases must be a bounded array")
    throwIf (∃ name ∈ aliases.items, ¬ name.isStringWith fun s => !s.isEmpty &&
        s.length ≤ min limits.maxStringBytes 256 && !s.any isControl)
      (invalidField (path ++ ".aliases") "alias is invalid or oversized")
    return some aliases.items

/-- The description of an asset. -/
def checkDescription (item : Json) (path : Bytes) : Result (Option Json) :=
  if item.contains "description" then do
    let description ← requireString limits item "description" path true
    return some (.object [("description", .str description)])
  else .ok none

/-- One asset. -/
def assetRow : ReadRow Json := fun seen path item => do
  throwIf (¬ item.isObject) (.importing "invalid_record" path "asset record must be an object")
  allowedKeys item ["id", "name", "kind", "aliases", "description"] path
  let id ← stringField limits item "id" path
  throwIf (¬ validIdentity id ∨ id ∈ seen) (invalidIdentity path "asset id is invalid or duplicated")
  let name ← stringField limits item "name" path
  let kind ← stringField limits item "kind" path
  let aliases ← checkAliases limits item path
  let metadata ← checkDescription limits item path
  let asset := Json.object [("id", .str id), ("name", .str name), ("kind", .str kind)]
  let asset := asset.setOptional "aliases" (aliases.map .arr)
  return (id, .emitted (asset.setOptional "metadata" metadata))

variable (headers : Headers)

/-- One relationship, between the assets of the hierarchy. -/
def relationshipRow (assets : List Bytes) : ReadRow (List Bytes) := fun seen path row => do
  let id ← cell limits headers row path "id"
  let fromId ← cell limits headers row path "from"
  let toId ← cell limits headers row path "to"
  let kind ← cell limits headers row path "kind"
  throwIf (¬ validIdentity id ∨ id ∈ seen)
    (invalidIdentity path "relationship id is invalid or duplicated")
  if fromId = toId ∨ fromId ∉ assets ∨ toId ∉ assets then
    return (id, .unresolved "unknown_relationship_endpoint"
      "relationship is not emitted because its endpoints are undeclared or identical")
  return (id, .emitted (.object
    [("id", .str id), ("from", .str fromId), ("to", .str toId), ("kind", .str kind)]))

def supportedDataTypes : List Bytes :=
  ["number", "float", "double", "integer", "boolean", "bool", "string"]

/-- One tag, of an asset of the hierarchy. -/
def tagRow (assets : List Bytes) : ReadRow (List Bytes) := fun seen path row => do
  let id ← cell limits headers row path "id"
  let owner ← cell limits headers row path "asset_id"
  throwIf (¬ validIdentity id ∨ id ∈ seen) (invalidIdentity path "tag id is invalid or duplicated")
  let name ← cell limits headers row path "name"
  let role ← cell limits headers row path "role"
  let dataType ← cell limits headers row path "data_type"
  let unit ← cell limits headers row path "unit" false
  let server ← cell limits headers row path "server"
  let namespaceUri ← cell limits headers row path "namespace_uri"
  let identifier ← cell limits headers row path "identifier"
  let dataType := Bytes.lower dataType
  if dataType ∉ supportedDataTypes then
    return (id, .unresolved "unsupported_tag_type"
      "tag is not emitted because its data_type is not supported by the native model")
  if owner ∉ assets then
    return (id, .unresolved "unknown_tag_owner"
      "tag is not emitted because its asset_id is not declared in the asset hierarchy")
  return (id, .emitted (.object [("id", .str id), ("asset_id", .str owner), ("name", .str name),
    ("role", .str role), ("data_type", .str dataType), ("unit", .str unit),
    ("source", .object [("server", .str server), ("namespace_uri", .str namespaceUri),
      ("identifier", .str identifier)])]))

/-- `at(key).get<std::string>()` of a record that has the string. -/
def stringAt (record : Json) (key : Bytes) : Bytes :=
  match record.find? key with
  | some (.str s) => s
  | _ => []

/-- `std::from_chars` of a whole text, where it returns a finite number. -/
def fromChars (text : Bytes) : Option Float :=
  let (negative, s) := match text with
    | 0x2d :: rest => (true, rest)
    | _ => (false, text)
  let (whole, s) := Json.spanDigits s
  let (fraction, s) := match s with
    | 0x2e :: rest => Json.spanDigits rest
    | _ => ([], s)
  if whole.isEmpty && fraction.isEmpty then none
  else match Json.scanExponent s with
    | some (exponent, []) =>
      let x := Json.strtod negative (Json.natOf (whole ++ fraction))
        (exponent.getD 0 - (fraction.length : Int))
      -- A number too small to be told from zero is out of range, as one too large is.
      if x.isFinite && (x != 0 || Json.natOf (whole ++ fraction) == 0) then some x else none
    | _ => none

def alarmOperators : List Bytes := [">", ">=", "<", "<=", "==", "!="]

def alarmSeverities : List Bytes := ["low", "medium", "high", "critical"]

/-- The threshold of an alarm. -/
def readThreshold (path text : Bytes) : Result Float :=
  match fromChars text with
  | some x => .ok x
  | none => .error (.importing "invalid_number" (path ++ ".threshold") "alarm threshold is invalid")

/-- One alarm, on an emitted tag of its owner. -/
def alarmRow (assets : List Bytes) (tags : List Json) : ReadRow (List Bytes) :=
  fun seen path row => do
    let id ← cell limits headers row path "id"
    let owner ← cell limits headers row path "asset_id"
    let tagId ← cell limits headers row path "tag_id"
    throwIf (¬ validIdentity id ∨ id ∈ seen)
      (invalidIdentity path "alarm id is invalid or duplicated")
    let tag := tags.find? fun candidate => stringAt candidate "id" = tagId
    if owner ∉ assets ∨ tag.all (fun tag => stringAt tag "asset_id" ≠ owner) then
      return (id, .unresolved "unknown_alarm_reference"
        "alarm is not emitted because its owner or tag is undeclared")
    let text ← cell limits headers row path "threshold"
    let threshold ← readThreshold path text
    let operator ← cell limits headers row path "operator"
    let severity ← cell limits headers row path "severity"
    let severity := Bytes.lower severity
    if operator ∉ alarmOperators ∨ severity ∉ alarmSeverities then
      return (id, .unresolved "unsupported_alarm_definition"
        "alarm is not emitted because its operator or severity is unsupported")
    let name ← cell limits headers row path "name"
    return (id, .emitted (.object [("id", .str id), ("asset_id", .str owner), ("name", .str name),
      ("tag_id", .str tagId), ("operator", .str operator), ("threshold", .float threshold),
      ("severity", .str severity)]))

/-- One record of metadata, whose fields are the required ones and no others. -/
def metadataRow (required assets : List Bytes) : ReadRow Json := fun seen path record => do
  throwIf (¬ record.isObject) (.importing "invalid_record" path "metadata record must be an object")
  allowedKeys record required path
  required.forM fun field =>
    (fun _ => ()) <$> requireString limits record field path (field = "description")
  let id ← record.atKey "id" >>= Json.getString
  throwIf (¬ validIdentity id ∨ id ∈ seen)
    (invalidIdentity path "metadata record id is invalid or duplicated")
  match record.find? "asset_id" with
  | none => return (id, .counted)
  | some value => do
    let asset ← value.getString
    if asset ∉ assets then
      return (id, .unresolved "unknown_metadata_asset"
        "metadata references an asset absent from the explicit hierarchy")
    return (id, .counted)

end

end ContextHmi.Import
