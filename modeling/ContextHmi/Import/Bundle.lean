import ContextHmi.Import.Records

/-!
# Engineering bundles

`import_manifest`: the manifest and the artifacts it lists are read, then the artifacts are parsed in a
fixed order, each against what the ones before it emitted, and the model and the report are put
together. The file system is a parameter: what stands at the path of the manifest, and where the paths
of its entries lead.
-/

namespace ContextHmi.Import

open Outcome

/-! ### Files -/

/-- Where a relative path of the manifest leads. -/
inductive Located where
  /-- Outside the bundle, or nowhere. -/
  | refused (error : Bytes → Error)
  /-- To a path inside it, with the contents of the regular file there. -/
  | file (path filename : Bytes) (contents : Option Bytes)

/-- A bundle on disk. -/
structure Bundle where
  manifestPath : Bytes
  manifestName : Bytes
  manifest : Option Bytes
  locate : Bytes → Located

/-- `read_bounded`. -/
def readBounded (limits : Limits) (path : Bytes) (contents : Option Bytes) : Result Bytes :=
  match contents with
  | none => .error (.importing "artifact_unavailable" path "artifact is not a regular file")
  | some contents => do
    throwIf (limits.maxFileBytes < contents.length)
      (.importing "artifact_too_large" path "artifact exceeds the configured byte limit")
    return contents

/-! ### The manifest -/

def invalidManifest (path message : Bytes) : Error := .importing "invalid_manifest" path message

/-- What the manifest says of the machine. -/
structure Machine where
  id : Bytes
  name : Bytes
  revision : UInt64
  description : Bytes

def readRevision (machine : Json) : Result UInt64 :=
  match machine.find? "revision" with
  | some (.uint n) => do
    throwIf (n = 0 ∨ 2 ^ 32 - 1 < n.toNat) (.importing "invalid_revision"
      "manifest.machine.revision" "revision must be a positive unsigned integer")
    return n
  | _ => .error (.importing "invalid_revision" "manifest.machine.revision"
      "revision must be a positive unsigned integer")

def readMachine (limits : Limits) (path : Bytes) (manifest : Json) : Result Machine := do
  let machine ← manifest.atKey "machine"
  throwIf (¬ machine.isObject) (invalidManifest path "machine must be an object")
  allowedKeys machine ["id", "name", "description", "revision"] path
  let id ← stringField limits machine "id" "manifest.machine"
  let name ← stringField limits machine "name" "manifest.machine"
  let description ← if machine.contains "description" then
      requireString limits machine "description" "manifest.machine" true
    else .ok []
  throwIf (¬ validIdentity id) (.importing "invalid_identity" "manifest.machine.id"
    "machine id contains unsupported characters")
  let revision ← readRevision machine
  return ⟨id, name, revision, description⟩

/-- The format of a kind of artifact, if the kind is supported. -/
def expectedFormat (kind : Bytes) : Option Bytes :=
  if kind = "asset_hierarchy" ∨ kind = "communications" ∨ kind = "machine_documents" then
    some (bytes "json")
  else if kind = "relationships" ∨ kind = "controller_tags" ∨ kind = "io_configuration" ∨
      kind = "alarm_definitions" then some (bytes "csv-rfc4180")
  else none

def entryPath (index : Nat) : Bytes := "manifest.artifacts[" ++ Bytes.decimal index ++ "]"

/-- One entry of the manifest, after those in `seen`. -/
def readArtifact (limits : Limits) (bundle : Bundle) (seen : List Artifact) (entry : Json)
    (path : Bytes) : Result Artifact := do
  throwIf (¬ entry.isObject) (invalidManifest path "artifact entry must be an object")
  allowedKeys entry ["id", "kind", "format", "path"] path
  let id ← stringField limits entry "id" path
  let kind ← stringField limits entry "kind" path
  let format ← stringField limits entry "format" path
  throwIf (¬ validIdentity id ∨ id ∈ seen.map (·.id) ∨ kind ∈ seen.map (·.kind))
    (invalidIdentity path "artifact id is invalid or duplicated")
  match expectedFormat kind with
  | none => .error (.importing "unsupported_artifact" (path ++ ".kind") "artifact kind is not supported")
  | some expected => do
    throwIf (format ≠ expected) (.importing "unsupported_format" (path ++ ".format")
      "artifact format does not match its kind")
    let relative ← stringField limits entry "path" path
    match bundle.locate relative with
    | .refused error => .error (error (path ++ ".path"))
    | .file located filename contents => do
      let contents ← readBounded limits located contents
      return ⟨id, kind, format, located, filename, contents⟩

/-- The loop over the entries. -/
def readArtifacts (limits : Limits) (bundle : Bundle) (entries : List Json) :
    Result (List Artifact) :=
  (entries.zipIdx).foldlM (fun (seen : List Artifact) (entry : Json × Nat) => do
    let artifact ← readArtifact limits bundle seen entry.1 (entryPath entry.2)
    return seen ++ [artifact]) []

/-- The part of `import_impl` that reads the manifest and the artifacts. -/
def readManifest (limits : Limits) (bundle : Bundle) : Result (Machine × List Artifact) := do
  let path := bundle.manifestPath
  let contents ← readBounded limits path bundle.manifest
  let manifest ← parseJson limits contents path
  throwIf (¬ manifest.isObject) (invalidManifest path "manifest must be an object")
  allowedKeys manifest ["schema_version", "machine", "artifacts"] path
  let schema ← manifest.valueString "schema_version" []
  throwIf (schema ≠ "engineering-bundle/1") (.importing "unsupported_manifest" path
    "manifest schema_version is unsupported")
  let machine ← readMachine limits path manifest
  match manifest.find? "artifacts" with
  | some (.arr entries) => do
    throwIf (entries.isEmpty ∨ limits.maxArtifacts < entries.length)
      (invalidManifest path "artifacts must be a bounded non-empty array")
    let artifacts ← readArtifacts limits bundle entries
    return (machine, artifacts)
  | _ => .error (invalidManifest path "artifacts must be a bounded non-empty array")

/-! ### The state of an import -/

/-- `ImportState`: the arrays of the model and of the report, and the ids that were seen. -/
structure ImportState where
  assets : List Json := []
  relationships : List Json := []
  tags : List Json := []
  alarms : List Json := []
  assetIds : List Bytes := []
  relationshipIds : List Bytes := []
  tagIds : List Bytes := []
  emittedTags : List Bytes := []
  alarmIds : List Bytes := []
  artifacts : List Json := []
  unresolved : List Json := []
  io : Json := .int 0
  communications : Json := .int 0
  documents : Json := .int 0
  totalRecords : Nat := 0

def count (n : Nat) : Json := .uint (UInt64.ofNat n)

/-- The sixteen hexadecimal digits of a number. -/
def hex16 (n : UInt64) : Bytes :=
  (List.range 16).map fun i => Json.hexDigit (n.toNat / 16 ^ (15 - i) % 16)

def fingerprint (contents : Bytes) : Bytes :=
  "fnv1a64:" ++ hex16 (contents.foldl (fun hash character =>
    (hash ^^^ character.toUInt64) * 1099511628211) 14695981039346656037)

def sourceRecord (artifact : Artifact) (records : Nat) : Json :=
  .object [("id", .str artifact.id), ("kind", .str artifact.kind), ("format", .str artifact.format),
    ("path", .str artifact.filename), ("bytes", count artifact.contents.length),
    ("records", count records), ("fingerprint", .str (fingerprint artifact.contents))]

section
variable (limits : Limits)

def recordSource (s : ImportState) (artifact : Artifact) (records : Nat) : Result ImportState := do
  throwIf (limits.maxTotalRecords < s.totalRecords + records)
    (.importing "too_many_records" "manifest.artifacts" "bundle exceeds total record limit")
  return { s with
    totalRecords := s.totalRecords + records
    artifacts := s.artifacts ++ [sourceRecord artifact records] }

def parseAssets (artifact : Artifact) (s : ImportState) : Result ImportState := do
  let value ← parseJson limits artifact.contents artifact.path
  let records ← recordsArray limits value artifact.path
  let p ← placeRows (assetRow limits) artifact.filename 0 records ⟨s.assetIds, [], s.assets, s.unresolved⟩
  recordSource limits
    { s with assetIds := p.ids, assets := p.records, unresolved := p.unresolved } artifact records.length

def parseRelationships (artifact : Artifact) (s : ImportState) : Result ImportState := do
  let (headers, rows) ← readTable limits artifact ["id", "from", "to", "kind"]
  let p ← placeRows (relationshipRow limits headers s.assetIds) artifact.filename 1 rows
    ⟨s.relationshipIds, [], s.relationships, s.unresolved⟩
  recordSource limits
    { s with relationshipIds := p.ids, relationships := p.records, unresolved := p.unresolved }
    artifact rows.length

def parseTags (artifact : Artifact) (s : ImportState) : Result ImportState := do
  let (headers, rows) ← readTable limits artifact
    ["id", "asset_id", "name", "role", "data_type", "unit", "server", "namespace_uri", "identifier"]
  let p ← placeRows (tagRow limits headers s.assetIds) artifact.filename 1 rows
    ⟨s.tagIds, s.emittedTags, s.tags, s.unresolved⟩
  recordSource limits
    { s with tagIds := p.ids, emittedTags := p.emitted, tags := p.records, unresolved := p.unresolved }
    artifact rows.length

/-- One row of the I/O configuration: nothing is emitted, a row without its tag is reported. -/
def ioRow (headers : Headers) (emittedTags : List Bytes) (path : Bytes) (row : List Bytes) :
    Result (List Json) := do
  let id ← cell limits headers row path "id"
  let tagId ← cell limits headers row path "tag_id"
  throwIf (¬ validIdentity id) (invalidIdentity path "I/O record id is invalid")
  if tagId ∉ emittedTags then
    return [unresolvedEntry "unknown_io_tag" path
      "I/O metadata references a tag not declared in controller_tags"]
  return []

def parseIo (artifact : Artifact) (s : ImportState) : Result ImportState := do
  let (headers, rows) ← readTable limits artifact ["id", "tag_id", "signal_type", "address", "channel"]
  let entries ← (rows.zipIdx 1).mapM fun r =>
    ioRow limits headers s.emittedTags (recordPath artifact.filename r.2) r.1
  recordSource limits { s with unresolved := s.unresolved ++ entries.flatten, io := count rows.length }
    artifact rows.length

def parseAlarms (artifact : Artifact) (s : ImportState) : Result ImportState := do
  let (headers, rows) ← readTable limits artifact
    ["id", "asset_id", "name", "tag_id", "operator", "threshold", "severity"]
  let p ← placeRows (alarmRow limits headers s.assetIds s.tags) artifact.filename 1 rows
    ⟨s.alarmIds, [], s.alarms, s.unresolved⟩
  recordSource limits
    { s with alarmIds := p.ids, alarms := p.records, unresolved := p.unresolved } artifact rows.length

/-- The records of a metadata artifact: their number, and what is reported of them. -/
def parseMetadata (artifact : Artifact) (required : List Bytes) (s : ImportState) :
    Result (List Json × Nat) := do
  let value ← parseJson limits artifact.contents artifact.path
  let records ← recordsArray limits value artifact.path
  let p ← placeRows (metadataRow limits required s.assetIds) artifact.filename 0 records
    ⟨[], [], [], s.unresolved⟩
  return (p.unresolved, records.length)

def parseCommunications (artifact : Artifact) (s : ImportState) : Result ImportState := do
  let (unresolved, records) ← parseMetadata limits artifact
    ["id", "protocol", "endpoint", "security_mode"] s
  recordSource limits
    { s with unresolved := unresolved, communications := count records } artifact records

def parseDocuments (artifact : Artifact) (s : ImportState) : Result ImportState := do
  let (unresolved, records) ← parseMetadata limits artifact ["id", "title", "path", "media_type"] s
  recordSource limits
    { s with unresolved := unresolved, documents := count records } artifact records

/-! ### The import -/

def findArtifact (artifacts : List Artifact) (kind : Bytes) : Result Artifact :=
  match artifacts.find? (·.kind = kind) with
  | some artifact => .ok artifact
  | none => .error (.importing "missing_artifact" "manifest.artifacts"
      ("required artifact kind is missing: " ++ kind))

/-- A required artifact. -/
def withArtifact (artifacts : List Artifact) (kind : Bytes)
    (parse : Artifact → ImportState → Result ImportState) (s : ImportState) : Result ImportState := do
  parse (← findArtifact artifacts kind) s

/-- An optional artifact. -/
def withOptional (artifacts : List Artifact) (kind : Bytes)
    (parse : Artifact → ImportState → Result ImportState) (s : ImportState) : Result ImportState :=
  match artifacts.find? (·.kind = kind) with
  | some artifact => parse artifact s
  | none => .ok s

/-- The parsers, in their order. -/
def parseArtifacts (artifacts : List Artifact) : Result ImportState := do
  let s ← withArtifact artifacts "asset_hierarchy" (parseAssets limits) {}
  let s ← withArtifact artifacts "relationships" (parseRelationships limits) s
  let s ← withArtifact artifacts "controller_tags" (parseTags limits) s
  let s ← withOptional artifacts "io_configuration" (parseIo limits) s
  let s ← withArtifact artifacts "alarm_definitions" (parseAlarms limits) s
  let s ← withOptional artifacts "communications" (parseCommunications limits) s
  withOptional artifacts "machine_documents" (parseDocuments limits) s

end

/-- `sort_by_id`. -/
def sortById (records : List Json) : List Json := Bytes.sortBy (stringAt · "id") records

/-- The model of an import, without its metadata. -/
def modelOf (machine : Machine) (s : ImportState) : Json :=
  let model := Json.object [("model_id", .str machine.id), ("revision", .uint machine.revision),
    ("name", .str machine.name), ("assets", .arr (sortById s.assets)),
    ("relationships", .arr (sortById s.relationships)), ("tags", .arr (sortById s.tags)),
    ("alarms", .arr (sortById s.alarms))]
  if machine.description.isEmpty then model else model.setField "description" (.str machine.description)

def metadataOf (bundle : Bundle) (s : ImportState) : Json :=
  .object [("provenance", .object [("schema", .str "engineering-bundle/1"),
    ("manifest", .str bundle.manifestName), ("artifacts", .arr (sortById s.artifacts))])]

/-- The report; it never has errors, which are thrown. -/
def reportOf (bundle : Bundle) (machine : Machine) (s : ImportState) : Json :=
  .object [("schema_version", .str "engineering-import-report/1"),
    ("status", .str (if s.unresolved.isEmpty then "ok" else bytes "unresolved")),
    ("machine", .object [("id", .str machine.id), ("name", .str machine.name),
      ("revision", .uint machine.revision)]),
    ("source", .object [("manifest", .str bundle.manifestName),
      ("bundle_format", .str "engineering-bundle/1"), ("read_only", .bool true)]),
    ("artifacts", .arr (sortById s.artifacts)),
    ("counts", .object [("assets", count s.assets.length),
      ("relationships", count s.relationships.length), ("tags", count s.tags.length),
      ("io", s.io), ("alarms", count s.alarms.length), ("communications", s.communications),
      ("documents", s.documents)]),
    ("unresolved", .arr s.unresolved),
    ("errors", .arr [])]

/-- `Result`. -/
structure Imported where
  model : Json
  report : Json

/-- `import_manifest`. -/
def importManifest (limits : Limits) (bundle : Bundle) : Result Imported := do
  let (machine, artifacts) ← readManifest limits bundle
  let s ← parseArtifacts limits artifacts
  return ⟨(modelOf machine s).setField "metadata" (metadataOf bundle s), reportOf bundle machine s⟩

end ContextHmi.Import
