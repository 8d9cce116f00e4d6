import ContextHmi.Import.Rows

/-!
# The contents of a bundle

What the artifacts of a bundle hold: the records of the assets and of the metadata, and the tables
under their headers. Once these are read an import is a function of them, and it returns exactly where
they are in order: every record is readable, the ids of an artifact are distinct, and the records are
not too many.

* `parseArtifacts_eq_ok` : the parsers, one after another, in closed form.
-/

namespace ContextHmi.Import

open Outcome

/-- An artifact of rows under a header. -/
structure Table where
  artifact : Artifact
  headers : Headers
  rows : Rows

/-- An artifact of JSON records. -/
structure Listing where
  artifact : Artifact
  records : List Json

structure Contents where
  assets : Listing
  relationships : Table
  tags : Table
  io : Option Table
  alarms : Table
  communications : Option Listing
  documents : Option Listing

/-! ### What the parsers leave -/

/-- The records of the rows that were emitted. -/
def emittedBy {ρ : Type} (fate : ρ → Fate) (rows : List ρ) : List Json :=
  rows.filterMap fun r => (fate r).record?

/-- The entries of the rows that were not, with the places of the rows. -/
def reportedBy {ρ : Type} (fate : ρ → Fate) (filename : Bytes) (first : Nat) (rows : List ρ) :
    List Json :=
  (rows.zipIdx first).filterMap fun r => (fate r.1).report? (recordPath filename r.2)

/-- A row of the I/O configuration is reported if its tag was not emitted. -/
def ioFate (headers : Headers) (emittedTags : List Bytes) (row : List Bytes) : Fate :=
  if column headers row "tag_id" ∈ emittedTags then .counted
  else .unresolved "unknown_io_tag" "I/O metadata references a tag not declared in controller_tags"

namespace Contents
variable (c : Contents)

def assetIds : List Bytes := (c.assets.records.map (stringAt · "id")).reverse

def relationshipFate : List Bytes → Fate :=
  Import.relationshipFate c.relationships.headers c.assetIds

def tagFate : List Bytes → Fate := Import.tagFate c.tags.headers c.assetIds

/-- The tags of the model, as their rows declare them. -/
def tagRecords : List Json := emittedBy c.tagFate c.tags.rows

def emittedTags : List Bytes :=
  ((c.tags.rows.filter fun r => (c.tagFate r).record?.isSome).map (rowId c.tags.headers)).reverse

def alarmFate : List Bytes → Fate :=
  Import.alarmFate c.alarms.headers c.assetIds c.tagRecords

def ioEntries (t : Table) : List Json :=
  reportedBy (ioFate t.headers c.emittedTags) t.artifact.filename 1 t.rows

/-- The unresolved records of the report, in the order of the parsers. -/
def unresolved : List Json :=
  reportedBy c.relationshipFate c.relationships.artifact.filename 1 c.relationships.rows ++
    reportedBy c.tagFate c.tags.artifact.filename 1 c.tags.rows ++
    (c.io.map c.ioEntries).getD [] ++
    reportedBy c.alarmFate c.alarms.artifact.filename 1 c.alarms.rows

end Contents

def Table.source (t : Table) : Json := sourceRecord t.artifact t.rows.length

def Listing.source (l : Listing) : Json := sourceRecord l.artifact l.records.length

namespace Contents
variable (c : Contents)

def sources : List Json :=
  [c.assets.source, c.relationships.source, c.tags.source] ++ (c.io.map Table.source).toList ++
    [c.alarms.source] ++ (c.communications.map Listing.source).toList ++
    (c.documents.map Listing.source).toList

/-- The number of records of the bundle. -/
def total : Nat :=
  c.assets.records.length + c.relationships.rows.length + c.tags.rows.length +
    (c.io.map (·.rows.length)).getD 0 + c.alarms.rows.length +
    (c.communications.map (·.records.length)).getD 0 +
    (c.documents.map (·.records.length)).getD 0

/-- The number of an optional artifact's records, as the report has it. -/
def countOf (n : Option Nat) : Json := (n.map count).getD (.int 0)

/-- What the parsers make of the contents. -/
def state : ImportState where
  assets := c.assets.records.map assetRecord
  relationships := emittedBy c.relationshipFate c.relationships.rows
  tags := c.tagRecords
  alarms := emittedBy c.alarmFate c.alarms.rows
  assetIds := c.assetIds
  relationshipIds := (c.relationships.rows.map (rowId c.relationships.headers)).reverse
  tagIds := (c.tags.rows.map (rowId c.tags.headers)).reverse
  emittedTags := c.emittedTags
  alarmIds := (c.alarms.rows.map (rowId c.alarms.headers)).reverse
  artifacts := c.sources
  unresolved := c.unresolved
  io := countOf (c.io.map (·.rows.length))
  communications := countOf (c.communications.map (·.records.length))
  documents := countOf (c.documents.map (·.records.length))
  totalRecords := c.total

end Contents

/-! ### What is asked of the contents -/

/-- Records that a parser takes: all readable, under distinct ids. -/
structure InOrder {ρ : Type} (readable : ρ → Prop) (id : ρ → Bytes) (rows : List ρ) : Prop where
  readable : ∀ r ∈ rows, readable r
  nodup : (rows.map id).Nodup

/-- A row of the I/O configuration that is read. -/
structure ReadableIo (limits : Limits) (headers : Headers) (row : List Bytes) : Prop where
  cells : HasCells limits headers ["id", "tag_id"] row
  identity : validIdentity (rowId headers row) = true

def communicationFields : List Bytes := ["id", "protocol", "endpoint", "security_mode"]

def documentFields : List Bytes := ["id", "title", "path", "media_type"]

structure Importable (limits : Limits) (c : Contents) : Prop where
  assets : InOrder (ReadableAsset limits) (stringAt · "id") c.assets.records
  relationships : InOrder (ReadableRelationship limits c.relationships.headers)
    (rowId c.relationships.headers) c.relationships.rows
  tags : InOrder (ReadableTag limits c.tags.headers) (rowId c.tags.headers) c.tags.rows
  io : ∀ t, c.io = some t → ∀ row ∈ t.rows, ReadableIo limits t.headers row
  alarms : InOrder (ReadableAlarm limits c.alarms.headers c.assetIds c.tagRecords)
    (rowId c.alarms.headers) c.alarms.rows
  communications : ∀ l, c.communications = some l →
    InOrder (ReadableMetadata limits communicationFields) (stringAt · "id") l.records
  documents : ∀ l, c.documents = some l →
    InOrder (ReadableMetadata limits documentFields) (stringAt · "id") l.records
  total : c.total ≤ limits.maxTotalRecords

/-! ### Where the contents stand -/

/-- The artifact of the kind is a table. -/
def Table.FoundIn (limits : Limits) (artifacts : List Artifact) (kind : Bytes) (required : List Bytes)
    (t : Table) : Prop :=
  artifacts.find? (·.kind = kind) = some t.artifact ∧
    readTable limits t.artifact required = .ok (t.headers, t.rows)

/-- The artifact of the kind is a listing. -/
def Listing.FoundIn (limits : Limits) (artifacts : List Artifact) (kind : Bytes) (l : Listing) :
    Prop :=
  artifacts.find? (·.kind = kind) = some l.artifact ∧
    (parseJson limits l.artifact.contents l.artifact.path >>= fun value =>
      recordsArray limits value l.artifact.path) = .ok l.records

/-- An optional artifact is there and found, or is not. -/
def OptionallyFound {α : Type} (artifacts : List Artifact) (kind : Bytes) (found : α → Prop) :
    Option α → Prop
  | some a => found a
  | none => artifacts.find? (·.kind = kind) = none

def relationshipColumns : List Bytes := ["id", "from", "to", "kind"]

def tagColumns : List Bytes :=
  ["id", "asset_id", "name", "role", "data_type", "unit", "server", "namespace_uri", "identifier"]

def ioColumns : List Bytes := ["id", "tag_id", "signal_type", "address", "channel"]

def alarmColumns : List Bytes :=
  ["id", "asset_id", "name", "tag_id", "operator", "threshold", "severity"]

/-- The artifacts hold the contents. -/
structure Holds (limits : Limits) (artifacts : List Artifact) (c : Contents) : Prop where
  assets : c.assets.FoundIn limits artifacts "asset_hierarchy"
  relationships : c.relationships.FoundIn limits artifacts "relationships" relationshipColumns
  tags : c.tags.FoundIn limits artifacts "controller_tags" tagColumns
  io : OptionallyFound artifacts "io_configuration"
    (Table.FoundIn limits artifacts "io_configuration" ioColumns) c.io
  alarms : c.alarms.FoundIn limits artifacts "alarm_definitions" alarmColumns
  communications : OptionallyFound artifacts "communications"
    (Listing.FoundIn limits artifacts "communications") c.communications
  documents : OptionallyFound artifacts "machine_documents"
    (Listing.FoundIn limits artifacts "machine_documents") c.documents

/-! ### The parsers, one by one -/

section
variable {limits : Limits} {artifacts : List Artifact} {artifact : Artifact} {s s' : ImportState}

theorem recordSource_eq_ok {records : Nat} : recordSource limits s artifact records = .ok s' ↔
    s.totalRecords + records ≤ limits.maxTotalRecords ∧
      s' = { s with
        totalRecords := s.totalRecords + records
        artifacts := s.artifacts ++ [sourceRecord artifact records] } := by
  unfold recordSource
  rw [throwIf_bind_eq_ok, pure_eq_ok, not_lt]
  exact and_congr_right fun _ => eq_comm

theorem placeRows_fresh {ρ : Type} {read : ReadRow ρ} {readable : ρ → Prop} {id : ρ → Bytes}
    {fate : ρ → Fate} (h : Reads read readable id fate) {filename : Bytes} {first : Nat}
    {rows : List ρ} {emitted : List Bytes} {records unresolved : List Json} {q : Progress} :
    placeRows read filename first rows ⟨[], emitted, records, unresolved⟩ = .ok q ↔
      InOrder readable id rows ∧
        q = ⟨(rows.map id).reverse,
          ((rows.filter fun r => (fate r).record?.isSome).map id).reverse ++ emitted,
          records ++ emittedBy fate rows, unresolved ++ reportedBy fate filename first rows⟩ := by
  rw [placeRows_eq_ok h, Progress.placeAll, List.append_nil]
  constructor
  · rintro ⟨⟨hreadable, hnodup, -⟩, hq⟩
    exact ⟨⟨hreadable, hnodup⟩, hq⟩
  · rintro ⟨horder, hq⟩
    exact ⟨⟨horder.readable, horder.nodup, fun r _ => List.not_mem_nil⟩, hq⟩

theorem emittedBy_emitted {ρ : Type} (record : ρ → Json) (rows : List ρ) :
    emittedBy (fun r => .emitted (record r)) rows = rows.map record := by
  simp [emittedBy, Fate.record?]

theorem reportedBy_emitted {ρ : Type} (record : ρ → Json) (filename : Bytes) (first : Nat)
    (rows : List ρ) : reportedBy (fun r => .emitted (record r)) filename first rows = [] := by
  simp [reportedBy, Fate.report?]

theorem reportedBy_counted {ρ : Type} (filename : Bytes) (first : Nat) (rows : List ρ) :
    reportedBy (fun _ => .counted) filename first rows = [] := by
  simp [reportedBy, Fate.report?]

theorem parseAssets_eq_ok (hids : s.assetIds = []) (hassets : s.assets = []) :
    parseAssets limits artifact s = .ok s' ↔ ∃ records,
      (parseJson limits artifact.contents artifact.path >>= fun value =>
        recordsArray limits value artifact.path) = .ok records ∧
      InOrder (ReadableAsset limits) (stringAt · "id") records ∧
      s.totalRecords + records.length ≤ limits.maxTotalRecords ∧
      s' = { s with
        assetIds := (records.map (stringAt · "id")).reverse
        assets := records.map assetRecord
        totalRecords := s.totalRecords + records.length
        artifacts := s.artifacts ++ [sourceRecord artifact records.length] } := by
  unfold parseAssets
  simp only [bind_eq_ok, hids, hassets, placeRows_fresh reads_assets, recordSource_eq_ok,
    emittedBy_emitted, reportedBy_emitted, List.append_nil, List.nil_append]
  constructor
  · rintro ⟨value, hvalue, records, hrecords, p, ⟨horder, rfl⟩, htotal, h⟩
    exact ⟨records, ⟨value, hvalue, hrecords⟩, horder, htotal, h⟩
  · rintro ⟨records, ⟨value, hvalue, hrecords⟩, horder, htotal, h⟩
    exact ⟨value, hvalue, records, hrecords, _, ⟨horder, rfl⟩, htotal, h⟩

theorem parseRelationships_eq_ok (hids : s.relationshipIds = []) (hrecords : s.relationships = []) :
    parseRelationships limits artifact s = .ok s' ↔ ∃ headers rows,
      readTable limits artifact relationshipColumns = .ok (headers, rows) ∧
      InOrder (ReadableRelationship limits headers) (rowId headers) rows ∧
      s.totalRecords + rows.length ≤ limits.maxTotalRecords ∧
      s' = { s with
        relationshipIds := (rows.map (rowId headers)).reverse
        relationships := emittedBy (relationshipFate headers s.assetIds) rows
        unresolved := s.unresolved ++
          reportedBy (relationshipFate headers s.assetIds) artifact.filename 1 rows
        totalRecords := s.totalRecords + rows.length
        artifacts := s.artifacts ++ [sourceRecord artifact rows.length] } := by
  unfold parseRelationships
  simp only [bind_eq_ok, hids, hrecords, placeRows_fresh reads_relationships, recordSource_eq_ok,
    List.nil_append]
  constructor
  · rintro ⟨⟨headers, rows⟩, htable, p, ⟨horder, rfl⟩, htotal, h⟩
    exact ⟨headers, rows, htable, horder, htotal, h⟩
  · rintro ⟨headers, rows, htable, horder, htotal, h⟩
    exact ⟨(headers, rows), htable, _, ⟨horder, rfl⟩, htotal, h⟩

theorem parseTags_eq_ok (hids : s.tagIds = []) (hemitted : s.emittedTags = [])
    (hrecords : s.tags = []) :
    parseTags limits artifact s = .ok s' ↔ ∃ headers rows,
      readTable limits artifact tagColumns = .ok (headers, rows) ∧
      InOrder (ReadableTag limits headers) (rowId headers) rows ∧
      s.totalRecords + rows.length ≤ limits.maxTotalRecords ∧
      s' = { s with
        tagIds := (rows.map (rowId headers)).reverse
        emittedTags := ((rows.filter fun r => (tagFate headers s.assetIds r).record?.isSome).map
          (rowId headers)).reverse
        tags := emittedBy (tagFate headers s.assetIds) rows
        unresolved := s.unresolved ++
          reportedBy (tagFate headers s.assetIds) artifact.filename 1 rows
        totalRecords := s.totalRecords + rows.length
        artifacts := s.artifacts ++ [sourceRecord artifact rows.length] } := by
  unfold parseTags
  simp only [bind_eq_ok, hids, hemitted, hrecords, placeRows_fresh reads_tags, recordSource_eq_ok,
    List.append_nil, List.nil_append]
  constructor
  · rintro ⟨⟨headers, rows⟩, htable, p, ⟨horder, rfl⟩, htotal, h⟩
    exact ⟨headers, rows, htable, horder, htotal, h⟩
  · rintro ⟨headers, rows, htable, horder, htotal, h⟩
    exact ⟨(headers, rows), htable, _, ⟨horder, rfl⟩, htotal, h⟩

theorem parseAlarms_eq_ok (hids : s.alarmIds = []) (hrecords : s.alarms = []) :
    parseAlarms limits artifact s = .ok s' ↔ ∃ headers rows,
      readTable limits artifact alarmColumns = .ok (headers, rows) ∧
      InOrder (ReadableAlarm limits headers s.assetIds s.tags) (rowId headers) rows ∧
      s.totalRecords + rows.length ≤ limits.maxTotalRecords ∧
      s' = { s with
        alarmIds := (rows.map (rowId headers)).reverse
        alarms := emittedBy (alarmFate headers s.assetIds s.tags) rows
        unresolved := s.unresolved ++
          reportedBy (alarmFate headers s.assetIds s.tags) artifact.filename 1 rows
        totalRecords := s.totalRecords + rows.length
        artifacts := s.artifacts ++ [sourceRecord artifact rows.length] } := by
  unfold parseAlarms
  simp only [bind_eq_ok, hids, hrecords, placeRows_fresh reads_alarms, recordSource_eq_ok,
    List.nil_append]
  constructor
  · rintro ⟨⟨headers, rows⟩, htable, p, ⟨horder, rfl⟩, htotal, h⟩
    exact ⟨headers, rows, htable, horder, htotal, h⟩
  · rintro ⟨headers, rows, htable, horder, htotal, h⟩
    exact ⟨(headers, rows), htable, _, ⟨horder, rfl⟩, htotal, h⟩

theorem ioRow_eq_ok {headers : Headers} {emittedTags : List Bytes} {path : Bytes}
    {row : List Bytes} {entries : List Json} :
    ioRow limits headers emittedTags path row = .ok entries ↔ ReadableIo limits headers row ∧
      entries = ((ioFate headers emittedTags row).report? path).toList := by
  unfold ioRow ioFate
  simp only [cell_bind_eq_ok, throwIf_bind_eq_ok, not_not]
  have htail : (if column headers row "tag_id" ∉ emittedTags then
      pure [unresolvedEntry "unknown_io_tag" path
        "I/O metadata references a tag not declared in controller_tags"]
      else pure [] : Result (List Json)) = .ok
        (((if column headers row "tag_id" ∈ emittedTags then .counted
          else .unresolved "unknown_io_tag"
            "I/O metadata references a tag not declared in controller_tags" : Fate).report?
              path).toList) := by
    by_cases h : column headers row "tag_id" ∈ emittedTags
    · rw [if_neg (not_not_intro h), if_pos h]
      rfl
    · rw [if_pos h, if_neg h]
      rfl
  constructor
  · rintro ⟨hid, htag, hidentity, h⟩
    exact ⟨⟨by simp [HasCells, *], hidentity⟩, (Except.ok.inj (htail.symm.trans h)).symm⟩
  · rintro ⟨hread, h⟩
    have hcells := hread.cells
    simp only [HasCells, List.forall_mem_cons] at hcells
    exact ⟨hcells.1, hcells.2.1, hread.identity, h ▸ htail⟩

theorem parseIo_eq_ok : parseIo limits artifact s = .ok s' ↔ ∃ headers rows,
      readTable limits artifact ioColumns = .ok (headers, rows) ∧
      (∀ row ∈ rows, ReadableIo limits headers row) ∧
      s.totalRecords + rows.length ≤ limits.maxTotalRecords ∧
      s' = { s with
        unresolved := s.unresolved ++
          reportedBy (ioFate headers s.emittedTags) artifact.filename 1 rows
        io := count rows.length
        totalRecords := s.totalRecords + rows.length
        artifacts := s.artifacts ++ [sourceRecord artifact rows.length] } := by
  unfold parseIo
  have hentries : ∀ {headers : Headers} {rows : Rows} {entries : List (List Json)}, (rows.zipIdx 1).mapM (fun r =>
      ioRow limits headers s.emittedTags (recordPath artifact.filename r.2) r.1) = .ok entries ↔
        (∀ row ∈ rows, ReadableIo limits headers row) ∧ entries = (rows.zipIdx 1).map fun r =>
          ((ioFate headers s.emittedTags r.1).report? (recordPath artifact.filename r.2)).toList := by
    intro headers rows entries
    rw [mapM_eq_ok_iff fun _ _ => ioRow_eq_ok]
    have hrows : (rows.zipIdx 1).map Prod.fst = rows := List.zipIdx_map_fst ..
    refine and_congr_left fun _ => ?_
    conv_rhs => rw [← hrows, List.forall_mem_map]
  have hflatten : ∀ {headers : Headers} {rows : Rows}, ((rows.zipIdx 1).map fun r =>
      ((ioFate headers s.emittedTags r.1).report? (recordPath artifact.filename r.2)).toList).flatten =
        reportedBy (ioFate headers s.emittedTags) artifact.filename 1 rows := by
    intro headers rows
    rw [reportedBy, List.filterMap_eq_flatMap_toList, List.flatMap]
  simp only [bind_eq_ok, hentries, recordSource_eq_ok]
  constructor
  · rintro ⟨⟨headers, rows⟩, htable, entries, ⟨hread, rfl⟩, htotal, h⟩
    exact ⟨headers, rows, htable, hread, htotal, by rw [h, hflatten]⟩
  · rintro ⟨headers, rows, htable, hread, htotal, h⟩
    exact ⟨(headers, rows), htable, _, ⟨hread, rfl⟩, htotal, by rw [h, hflatten]⟩

theorem parseMetadata_eq_ok {required : List Bytes} (hid : bytes "id" ∈ required)
    (hasset : bytes "asset_id" ∉ required) {out : List Json × Nat} :
    parseMetadata limits artifact required s = .ok out ↔ ∃ records,
      (parseJson limits artifact.contents artifact.path >>= fun value =>
        recordsArray limits value artifact.path) = .ok records ∧
      InOrder (ReadableMetadata limits required) (stringAt · "id") records ∧
      out = (s.unresolved, records.length) := by
  unfold parseMetadata
  simp only [bind_eq_ok, pure_eq_ok, placeRows_fresh (reads_metadata hid hasset),
    reportedBy_counted, List.append_nil]
  constructor
  · rintro ⟨value, hvalue, records, hrecords, p, ⟨horder, rfl⟩, rfl⟩
    exact ⟨records, ⟨value, hvalue, hrecords⟩, horder, rfl⟩
  · rintro ⟨records, ⟨value, hvalue, hrecords⟩, horder, rfl⟩
    exact ⟨value, hvalue, records, hrecords, _, ⟨horder, rfl⟩, rfl⟩

theorem parseCommunications_eq_ok : parseCommunications limits artifact s = .ok s' ↔ ∃ records,
      (parseJson limits artifact.contents artifact.path >>= fun value =>
        recordsArray limits value artifact.path) = .ok records ∧
      InOrder (ReadableMetadata limits communicationFields) (stringAt · "id") records ∧
      s.totalRecords + records.length ≤ limits.maxTotalRecords ∧
      s' = { s with
        communications := count records.length
        totalRecords := s.totalRecords + records.length
        artifacts := s.artifacts ++ [sourceRecord artifact records.length] } := by
  unfold parseCommunications
  rw [show ([bytes "id", bytes "protocol", bytes "endpoint", bytes "security_mode"] : List Bytes) =
    communicationFields from rfl]
  simp only [bind_eq_ok, recordSource_eq_ok,
    parseMetadata_eq_ok (show bytes "id" ∈ communicationFields by decide)
      (show bytes "asset_id" ∉ communicationFields by decide)]
  constructor
  · rintro ⟨out, ⟨records, hrecords, horder, rfl⟩, htotal, h⟩
    exact ⟨records, hrecords, horder, htotal, h⟩
  · rintro ⟨records, hrecords, horder, htotal, h⟩
    exact ⟨_, ⟨records, hrecords, horder, rfl⟩, htotal, h⟩

theorem parseDocuments_eq_ok : parseDocuments limits artifact s = .ok s' ↔ ∃ records,
      (parseJson limits artifact.contents artifact.path >>= fun value =>
        recordsArray limits value artifact.path) = .ok records ∧
      InOrder (ReadableMetadata limits documentFields) (stringAt · "id") records ∧
      s.totalRecords + records.length ≤ limits.maxTotalRecords ∧
      s' = { s with
        documents := count records.length
        totalRecords := s.totalRecords + records.length
        artifacts := s.artifacts ++ [sourceRecord artifact records.length] } := by
  unfold parseDocuments
  rw [show ([bytes "id", bytes "title", bytes "path", bytes "media_type"] : List Bytes) =
    documentFields from rfl]
  simp only [bind_eq_ok, recordSource_eq_ok,
    parseMetadata_eq_ok (show bytes "id" ∈ documentFields by decide)
      (show bytes "asset_id" ∉ documentFields by decide)]
  constructor
  · rintro ⟨out, ⟨records, hrecords, horder, rfl⟩, htotal, h⟩
    exact ⟨records, hrecords, horder, htotal, h⟩
  · rintro ⟨records, hrecords, horder, htotal, h⟩
    exact ⟨_, ⟨records, hrecords, horder, rfl⟩, htotal, h⟩

/-! ### The optional artifacts -/

theorem findArtifact_eq_ok {kind : Bytes} : findArtifact artifacts kind = .ok artifact ↔
    artifacts.find? (·.kind = kind) = some artifact := by
  unfold findArtifact
  cases artifacts.find? (·.kind = kind) with
  | none => exact ⟨fun h => (by cases h), fun h => (by cases h)⟩
  | some a => rw [Except.ok.injEq, Option.some.injEq]

theorem withArtifact_eq_ok {kind : Bytes} {parse : Artifact → ImportState → Result ImportState} :
    withArtifact artifacts kind parse s = .ok s' ↔
      ∃ a, artifacts.find? (·.kind = kind) = some a ∧ parse a s = .ok s' := by
  unfold withArtifact
  simp only [bind_eq_ok, findArtifact_eq_ok]

theorem withOptional_eq_ok {kind : Bytes} {parse : Artifact → ImportState → Result ImportState} :
    withOptional artifacts kind parse s = .ok s' ↔
      (artifacts.find? (·.kind = kind) = none ∧ s' = s) ∨
        ∃ a, artifacts.find? (·.kind = kind) = some a ∧ parse a s = .ok s' := by
  unfold withOptional
  cases artifacts.find? (·.kind = kind) with
  | none => simp [eq_comm]
  | some a => simp

theorem optionalIo_eq_ok (hio : s.io = .int 0) (htotal : s.totalRecords ≤ limits.maxTotalRecords) :
    withOptional artifacts "io_configuration" (parseIo limits) s = .ok s' ↔ ∃ io,
      OptionallyFound artifacts "io_configuration"
        (Table.FoundIn limits artifacts "io_configuration" ioColumns) io ∧
      (∀ t, io = some t → ∀ row ∈ t.rows, ReadableIo limits t.headers row) ∧
      s.totalRecords + (io.map (·.rows.length)).getD 0 ≤ limits.maxTotalRecords ∧
      s' = { s with
        unresolved := s.unresolved ++ (io.map fun t =>
          reportedBy (ioFate t.headers s.emittedTags) t.artifact.filename 1 t.rows).getD []
        io := Contents.countOf (io.map (·.rows.length))
        totalRecords := s.totalRecords + (io.map (·.rows.length)).getD 0
        artifacts := s.artifacts ++ (io.map Table.source).toList } := by
  rw [withOptional_eq_ok]
  simp only [parseIo_eq_ok]
  constructor
  · rintro (⟨hnone, h⟩ | ⟨a, ha, headers, rows, htable, hread, hmax, h⟩)
    · refine ⟨none, hnone, fun t ht => (by cases ht), htotal, ?_⟩
      rw [h]
      simp [Contents.countOf, ← hio]
    · refine ⟨some ⟨a, headers, rows⟩, ⟨ha, htable⟩, ?_, hmax, h⟩
      intro t ht
      cases ht
      exact hread
  · rintro ⟨io, hfound, hread, hmax, h⟩
    cases io with
    | none =>
      refine .inl ⟨hfound, ?_⟩
      rw [h]
      simp [Contents.countOf, ← hio]
    | some t => exact .inr ⟨t.artifact, hfound.1, t.headers, t.rows, hfound.2, hread t rfl, hmax, h⟩

theorem optionalCommunications_eq_ok (hcount : s.communications = .int 0)
    (htotal : s.totalRecords ≤ limits.maxTotalRecords) :
    withOptional artifacts "communications" (parseCommunications limits) s = .ok s' ↔ ∃ listing,
      OptionallyFound artifacts "communications"
        (Listing.FoundIn limits artifacts "communications") listing ∧
      (∀ l, listing = some l →
        InOrder (ReadableMetadata limits communicationFields) (stringAt · "id") l.records) ∧
      s.totalRecords + (listing.map (·.records.length)).getD 0 ≤ limits.maxTotalRecords ∧
      s' = { s with
        communications := Contents.countOf (listing.map (·.records.length))
        totalRecords := s.totalRecords + (listing.map (·.records.length)).getD 0
        artifacts := s.artifacts ++ (listing.map Listing.source).toList } := by
  rw [withOptional_eq_ok]
  simp only [parseCommunications_eq_ok]
  constructor
  · rintro (⟨hnone, h⟩ | ⟨a, ha, records, hrecords, horder, hmax, h⟩)
    · refine ⟨none, hnone, fun l hl => (by cases hl), htotal, ?_⟩
      rw [h]
      simp [Contents.countOf, ← hcount]
    · refine ⟨some ⟨a, records⟩, ⟨ha, hrecords⟩, ?_, hmax, h⟩
      intro l hl
      cases hl
      exact horder
  · rintro ⟨listing, hfound, horder, hmax, h⟩
    cases listing with
    | none =>
      refine .inl ⟨hfound, ?_⟩
      rw [h]
      simp [Contents.countOf, ← hcount]
    | some l => exact .inr ⟨l.artifact, hfound.1, l.records, hfound.2, horder l rfl, hmax, h⟩

theorem optionalDocuments_eq_ok (hcount : s.documents = .int 0)
    (htotal : s.totalRecords ≤ limits.maxTotalRecords) :
    withOptional artifacts "machine_documents" (parseDocuments limits) s = .ok s' ↔ ∃ listing,
      OptionallyFound artifacts "machine_documents"
        (Listing.FoundIn limits artifacts "machine_documents") listing ∧
      (∀ l, listing = some l →
        InOrder (ReadableMetadata limits documentFields) (stringAt · "id") l.records) ∧
      s.totalRecords + (listing.map (·.records.length)).getD 0 ≤ limits.maxTotalRecords ∧
      s' = { s with
        documents := Contents.countOf (listing.map (·.records.length))
        totalRecords := s.totalRecords + (listing.map (·.records.length)).getD 0
        artifacts := s.artifacts ++ (listing.map Listing.source).toList } := by
  rw [withOptional_eq_ok]
  simp only [parseDocuments_eq_ok]
  constructor
  · rintro (⟨hnone, h⟩ | ⟨a, ha, records, hrecords, horder, hmax, h⟩)
    · refine ⟨none, hnone, fun l hl => (by cases hl), htotal, ?_⟩
      rw [h]
      simp [Contents.countOf, ← hcount]
    · refine ⟨some ⟨a, records⟩, ⟨ha, hrecords⟩, ?_, hmax, h⟩
      intro l hl
      cases hl
      exact horder
  · rintro ⟨listing, hfound, horder, hmax, h⟩
    cases listing with
    | none =>
      refine .inl ⟨hfound, ?_⟩
      rw [h]
      simp [Contents.countOf, ← hcount]
    | some l => exact .inr ⟨l.artifact, hfound.1, l.records, hfound.2, horder l rfl, hmax, h⟩

/-! ### All of them -/

/-- **The parsers return exactly where the artifacts hold contents that are in order**, and what they
leave is a function of the contents. -/
theorem parseArtifacts_eq_ok : parseArtifacts limits artifacts = .ok s ↔
    ∃ c, Holds limits artifacts c ∧ Importable limits c ∧ s = c.state := by
  unfold parseArtifacts
  constructor
  · intro h
    obtain ⟨s1, h1, h⟩ := bind_eq_ok.mp h
    obtain ⟨a1, ha1, h1⟩ := withArtifact_eq_ok.mp h1
    obtain ⟨assets, hassets, hassetOrder, htotal1, rfl⟩ := (parseAssets_eq_ok rfl rfl).mp h1
    obtain ⟨s2, h2, h⟩ := bind_eq_ok.mp h
    obtain ⟨a2, ha2, h2⟩ := withArtifact_eq_ok.mp h2
    obtain ⟨headers2, rows2, htable2, horder2, htotal2, rfl⟩ :=
      (parseRelationships_eq_ok rfl rfl).mp h2
    obtain ⟨s3, h3, h⟩ := bind_eq_ok.mp h
    obtain ⟨a3, ha3, h3⟩ := withArtifact_eq_ok.mp h3
    obtain ⟨headers3, rows3, htable3, horder3, htotal3, rfl⟩ :=
      (parseTags_eq_ok rfl rfl rfl).mp h3
    obtain ⟨s4, h4, h⟩ := bind_eq_ok.mp h
    obtain ⟨io, hio, hioRead, htotal4, rfl⟩ := (optionalIo_eq_ok rfl htotal3).mp h4
    obtain ⟨s5, h5, h⟩ := bind_eq_ok.mp h
    obtain ⟨a5, ha5, h5⟩ := withArtifact_eq_ok.mp h5
    obtain ⟨headers5, rows5, htable5, horder5, htotal5, rfl⟩ := (parseAlarms_eq_ok rfl rfl).mp h5
    obtain ⟨s6, h6, h⟩ := bind_eq_ok.mp h
    obtain ⟨communications, hcommunications, hcommunicationOrder, htotal6, rfl⟩ :=
      (optionalCommunications_eq_ok rfl htotal5).mp h6
    obtain ⟨documents, hdocuments, hdocumentOrder, htotal7, rfl⟩ :=
      (optionalDocuments_eq_ok rfl htotal6).mp h
    refine ⟨⟨⟨a1, assets⟩, ⟨a2, headers2, rows2⟩, ⟨a3, headers3, rows3⟩, io, ⟨a5, headers5, rows5⟩,
      communications, documents⟩, ⟨⟨ha1, hassets⟩, ⟨ha2, htable2⟩, ⟨ha3, htable3⟩, hio,
        ⟨ha5, htable5⟩, hcommunications, hdocuments⟩,
      ⟨hassetOrder, horder2, horder3, hioRead, horder5, hcommunicationOrder, hdocumentOrder, ?_⟩, ?_⟩
    · simpa only [Contents.total, Nat.zero_add] using htotal7
    · simp [Contents.state, Contents.sources, Contents.total, Contents.unresolved,
        Contents.assetIds, Contents.relationshipFate, Contents.tagFate, Contents.tagRecords,
        Contents.emittedTags, Contents.alarmFate, Table.source, Listing.source]
      rfl
  · rintro ⟨c, hholds, himportable, rfl⟩
    have htotal := himportable.total
    unfold Contents.total at htotal
    refine bind_eq_ok.mpr ⟨_, withArtifact_eq_ok.mpr ⟨_, hholds.assets.1,
      (parseAssets_eq_ok rfl rfl).mpr ⟨_, hholds.assets.2, himportable.assets, ?_, rfl⟩⟩, ?_⟩
    · dsimp only
      omega
    refine bind_eq_ok.mpr ⟨_, withArtifact_eq_ok.mpr ⟨_, hholds.relationships.1,
      (parseRelationships_eq_ok rfl rfl).mpr ⟨_, _, hholds.relationships.2,
        himportable.relationships, ?_, rfl⟩⟩, ?_⟩
    · dsimp only
      omega
    refine bind_eq_ok.mpr ⟨_, withArtifact_eq_ok.mpr ⟨_, hholds.tags.1,
      (parseTags_eq_ok rfl rfl rfl).mpr ⟨_, _, hholds.tags.2, himportable.tags, ?_, rfl⟩⟩, ?_⟩
    · dsimp only
      omega
    refine bind_eq_ok.mpr ⟨_, (optionalIo_eq_ok rfl ?_).mpr
      ⟨c.io, hholds.io, himportable.io, ?_, rfl⟩, ?_⟩
    · dsimp only
      omega
    · dsimp only
      omega
    refine bind_eq_ok.mpr ⟨_, withArtifact_eq_ok.mpr ⟨_, hholds.alarms.1,
      (parseAlarms_eq_ok rfl rfl).mpr ⟨_, _, hholds.alarms.2, himportable.alarms, ?_, rfl⟩⟩, ?_⟩
    · dsimp only
      omega
    refine bind_eq_ok.mpr ⟨_, (optionalCommunications_eq_ok rfl ?_).mpr
      ⟨c.communications, hholds.communications, himportable.communications, ?_, rfl⟩, ?_⟩
    · dsimp only
      omega
    · dsimp only
      omega
    refine (optionalDocuments_eq_ok rfl ?_).mpr
      ⟨c.documents, hholds.documents, himportable.documents, ?_, ?_⟩
    · dsimp only
      omega
    · dsimp only
      omega
    simp [Contents.state, Contents.sources, Contents.total, Contents.unresolved,
      Contents.assetIds, Contents.relationshipFate, Contents.tagFate, Contents.tagRecords,
      Contents.emittedTags, Contents.alarmFate, Table.source, Listing.source]
    rfl

end

end ContextHmi.Import
