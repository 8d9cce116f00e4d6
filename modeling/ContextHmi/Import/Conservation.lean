import ContextHmi.Import.Contents

/-!
# No record vanishes

Every row of a table is either one record of the model or one entry of the report, and the report says
so with its status. A row is emitted exactly where what it refers to was.

* `rows_accounted` : the rows of the relationships, the tags, the alarms and the I/O configuration.
-/

namespace ContextHmi.Import

open Outcome

/-! ### The result of an import -/

/-- The result, as a function of the contents. -/
def imported (bundle : Bundle) (machine : Machine) (c : Contents) : Imported :=
  ⟨(modelOf machine c.state).setField "metadata" (metadataOf bundle c.state),
    reportOf bundle machine c.state⟩

theorem importManifest_eq_ok {limits : Limits} {bundle : Bundle} {r : Imported} :
    importManifest limits bundle = .ok r ↔ ∃ machine artifacts c,
      readManifest limits bundle = .ok (machine, artifacts) ∧ Holds limits artifacts c ∧
        Importable limits c ∧ r = imported bundle machine c := by
  unfold importManifest
  simp only [bind_eq_ok, pure_eq_ok, parseArtifacts_eq_ok]
  constructor
  · rintro ⟨⟨machine, artifacts⟩, hread, s, ⟨c, hholds, himportable, rfl⟩, h⟩
    exact ⟨machine, artifacts, c, hread, hholds, himportable, h.symm⟩
  · rintro ⟨machine, artifacts, c, hread, hholds, himportable, h⟩
    exact ⟨(machine, artifacts), hread, _, ⟨c, hholds, himportable, rfl⟩, h.symm⟩

/-- The records of an array of a document. -/
def recordsOf (document : Json) (key : Bytes) : List Json :=
  ((document.find? key).map Json.items).getD []

def idsOf (document : Json) (key : Bytes) : List Bytes :=
  (recordsOf document key).map (stringAt · "id")

/-- The entries of a report with one of the codes. -/
def entriesOf (report : Json) (codes : List Bytes) : List Json :=
  (recordsOf report "unresolved").filter fun entry => stringAt entry "code" ∈ codes

/-- The number the report gives for an array. -/
def countIn (report : Json) (key : Bytes) : Option Json :=
  (report.find? "counts").bind (·.find? key)

section
variable (bundle : Bundle) (machine : Machine) (c : Contents)

theorem find?_model {key : Bytes} (hmetadata : key ≠ "metadata") (hdescription : key ≠ "description") :
    (imported bundle machine c).model.find? key = Assoc.find? key
      [(bytes "model_id", Json.str machine.id), (bytes "revision", .uint machine.revision),
        (bytes "name", .str machine.name), (bytes "assets", .arr (sortById c.state.assets)),
        (bytes "relationships", .arr (sortById c.state.relationships)),
        (bytes "tags", .arr (sortById c.state.tags)),
        (bytes "alarms", .arr (sortById c.state.alarms))] := by
  rw [imported, Json.find?_setField_ne _ hmetadata.symm, modelOf]
  by_cases h : machine.description.isEmpty = true
  · rw [if_pos h, Json.find?_object]
  · rw [if_neg h, Json.find?_setField_ne _ hdescription.symm, Json.find?_object]

theorem recordsOf_assets : recordsOf (imported bundle machine c).model "assets" =
    sortById (c.assets.records.map assetRecord) := by
  rw [recordsOf, find?_model bundle machine c (by decide) (by decide)]
  rfl

theorem recordsOf_relationships : recordsOf (imported bundle machine c).model "relationships" =
    sortById (emittedBy c.relationshipFate c.relationships.rows) := by
  rw [recordsOf, find?_model bundle machine c (by decide) (by decide)]
  rfl

theorem recordsOf_tags : recordsOf (imported bundle machine c).model "tags" =
    sortById c.tagRecords := by
  rw [recordsOf, find?_model bundle machine c (by decide) (by decide)]
  rfl

theorem recordsOf_alarms : recordsOf (imported bundle machine c).model "alarms" =
    sortById (emittedBy c.alarmFate c.alarms.rows) := by
  rw [recordsOf, find?_model bundle machine c (by decide) (by decide)]
  rfl

theorem recordsOf_unresolved : recordsOf (imported bundle machine c).report "unresolved" =
    c.unresolved := by
  rw [recordsOf, imported, reportOf, Json.find?_object]
  rfl

theorem recordsOf_artifacts : recordsOf (imported bundle machine c).report "artifacts" =
    sortById c.sources := by
  rw [recordsOf, imported, reportOf, Json.find?_object]
  rfl

theorem status_eq : stringAt (imported bundle machine c).report "status" =
    if c.unresolved.isEmpty then bytes "ok" else "unresolved" := by
  rw [stringAt, imported, reportOf, Json.find?_object]
  rfl

theorem countIn_eq {key : Bytes} : countIn (imported bundle machine c).report key = Assoc.find? key
    [(bytes "assets", count c.state.assets.length),
      (bytes "relationships", count c.state.relationships.length),
      (bytes "tags", count c.state.tags.length), (bytes "io", c.state.io),
      (bytes "alarms", count c.state.alarms.length),
      (bytes "communications", c.state.communications), (bytes "documents", c.state.documents)] := by
  rw [countIn, imported, reportOf, Json.find?_object]
  exact Json.find?_object _ _

end

/-! ### Rows and what becomes of them -/

section
variable {ρ : Type} {fate : ρ → Fate} {id : ρ → Bytes} {rows : List ρ}

theorem emittedBy_cons (r : ρ) :
    emittedBy fate (r :: rows) = (fate r).record?.toList ++ emittedBy fate rows := by
  unfold emittedBy
  rw [List.filterMap_cons]
  cases (fate r).record? <;> rfl

theorem reportedBy_cons (filename : Bytes) (first : Nat) (r : ρ) :
    reportedBy fate filename first (r :: rows) =
      ((fate r).report? (recordPath filename first)).toList ++
        reportedBy fate filename (first + 1) rows := by
  unfold reportedBy
  rw [List.zipIdx_cons, List.filterMap_cons]
  cases (fate r).report? (recordPath filename first) <;> rfl

theorem length_emitted_reported (h : ∀ r ∈ rows, fate r ≠ .counted) (filename : Bytes) (first : Nat) :
    (emittedBy fate rows).length + (reportedBy fate filename first rows).length = rows.length := by
  induction rows generalizing first with
  | nil => rfl
  | cons r rows ih =>
    obtain ⟨hr, hrows⟩ := List.forall_mem_cons.mp h
    have hrest := ih hrows (first + 1)
    rw [emittedBy_cons, reportedBy_cons, List.length_append, List.length_append, List.length_cons]
    cases hfate : fate r with
    | emitted record =>
      simp only [Fate.record?, Fate.report?, Option.toList_some, Option.toList_none,
        List.length_singleton, List.length_nil]
      omega
    | unresolved code message =>
      simp only [Fate.record?, Fate.report?, Option.toList_some, Option.toList_none,
        List.length_singleton, List.length_nil]
      omega
    | counted => exact absurd hfate hr

theorem filter_emittedBy (hrecord : ∀ r record, fate r = .emitted record → stringAt record "id" = id r)
    (hnodup : (rows.map id).Nodup) {r : ρ} (hr : r ∈ rows) :
    (emittedBy fate rows).filter (fun record => stringAt record "id" = id r) =
      (fate r).record?.toList := by
  have hother : ∀ {l : List ρ} {k : Bytes}, k ∉ l.map id →
      (emittedBy fate l).filter (fun record => stringAt record "id" = k) = [] := by
    intro l k hk
    rw [List.filter_eq_nil_iff]
    intro record hmem hid
    obtain ⟨r', hr', hemitted⟩ := List.mem_filterMap.mp hmem
    have hfate : fate r' = .emitted record := by
      cases hfate : fate r' with
      | emitted record' => rw [hfate] at hemitted; exact congrArg _ (Option.some.inj hemitted)
      | _ => rw [hfate] at hemitted; cases hemitted
    rw [decide_eq_true_eq, hrecord r' record hfate] at hid
    exact hk (hid ▸ List.mem_map_of_mem hr')
  induction rows with
  | nil => cases hr
  | cons a rows ih =>
    rw [List.map_cons, List.nodup_cons] at hnodup
    have hhead : (fate a).record?.toList.filter (fun record => stringAt record "id" = id r) =
        if id a = id r then (fate a).record?.toList else [] := by
      cases h : fate a with
      | emitted record =>
        have hid := hrecord a record h
        by_cases heq : id a = id r
        · simp [Fate.record?, hid, heq]
        · simp [Fate.record?, hid, heq]
      | unresolved code message => simp [Fate.record?]
      | counted => simp [Fate.record?]
    rw [emittedBy_cons, List.filter_append, hhead]
    rcases List.mem_cons.mp hr with rfl | hr
    · rw [if_pos rfl, hother hnodup.1, List.append_nil]
    · have hne : id a ≠ id r := fun h => hnodup.1 (h ▸ List.mem_map_of_mem hr)
      rw [if_neg hne, List.nil_append, ih hnodup.2 hr]

theorem recordPath_injective (filename : Bytes) : Function.Injective (recordPath filename) := by
  intro i j h
  unfold recordPath at h
  exact Bytes.decimal_injective (List.append_cancel_left (List.append_cancel_right h))

theorem stringAt_unresolvedEntry (code path message : Bytes) :
    stringAt (unresolvedEntry code path message) "code" = code ∧
      stringAt (unresolvedEntry code path message) "path" = path := by
  unfold unresolvedEntry stringAt
  simp only [Json.find?_object]
  exact ⟨rfl, rfl⟩

theorem report?_eq_some {f : Fate} {path : Bytes} {entry : Json} :
    f.report? path = some entry ↔
      ∃ code message, f = .unresolved code message ∧ entry = unresolvedEntry code path message := by
  cases f with
  | unresolved code message =>
    constructor
    · intro h
      exact ⟨code, message, rfl, (Option.some.inj h).symm⟩
    · rintro ⟨_, _, h, rfl⟩
      cases h
      rfl
  | emitted record => exact ⟨fun h => (by cases h), fun ⟨_, _, h, _⟩ => (by cases h)⟩
  | counted => exact ⟨fun h => (by cases h), fun ⟨_, _, h, _⟩ => (by cases h)⟩

theorem mem_reportedBy {filename : Bytes} {first : Nat} {entry : Json} :
    entry ∈ reportedBy fate filename first rows ↔ ∃ i r code message, rows[i]? = some r ∧
      fate r = .unresolved code message ∧
      entry = unresolvedEntry code (recordPath filename (first + i)) message := by
  unfold reportedBy
  simp only [List.mem_filterMap, report?_eq_some, Prod.exists, List.mem_zipIdx_iff_le_and_getElem?_sub]
  constructor
  · rintro ⟨r, i, ⟨hle, hget⟩, code, message, hfate, rfl⟩
    exact ⟨i - first, r, code, message, hget, hfate, by rw [Nat.add_sub_cancel' hle]⟩
  · rintro ⟨i, r, code, message, hget, hfate, rfl⟩
    refine ⟨r, first + i, ⟨Nat.le_add_right _ _, ?_⟩, code, message, hfate, rfl⟩
    rwa [Nat.add_sub_cancel_left]

theorem filter_reportedBy {filename : Bytes} {first i : Nat} {r : ρ} (hget : rows[i]? = some r) :
    (reportedBy fate filename first rows).filter
        (fun entry => stringAt entry "path" = recordPath filename (first + i)) =
      ((fate r).report? (recordPath filename (first + i))).toList := by
  have hother : ∀ {l : List ρ} {n m : Nat}, m < n → (reportedBy fate filename n l).filter
      (fun entry => stringAt entry "path" = recordPath filename m) = [] := by
    intro l n m hlt
    rw [List.filter_eq_nil_iff]
    intro entry hmem hpath
    obtain ⟨j, r', code, message, -, -, rfl⟩ := mem_reportedBy.mp hmem
    rw [decide_eq_true_eq, (stringAt_unresolvedEntry _ _ _).2] at hpath
    have heq := recordPath_injective filename hpath
    omega
  have hhead : ∀ a n m, ((fate a).report? (recordPath filename n)).toList.filter
      (fun entry => stringAt entry "path" = recordPath filename m) =
        if n = m then ((fate a).report? (recordPath filename n)).toList else [] := by
    intro a n m
    cases h : fate a with
    | unresolved code message =>
      have hpath := (stringAt_unresolvedEntry code (recordPath filename n) message).2
      by_cases heq : n = m
      · subst heq
        simp [Fate.report?, hpath]
      · have hne : recordPath filename n ≠ recordPath filename m :=
          fun h => heq (recordPath_injective filename h)
        simp [Fate.report?, hpath, heq, hne]
    | emitted record => simp [Fate.report?]
    | counted => simp [Fate.report?]
  induction rows generalizing first i with
  | nil => cases hget
  | cons a rows ih =>
    rw [reportedBy_cons, List.filter_append, hhead]
    cases i with
    | zero =>
      cases hget
      rw [Nat.add_zero, if_pos rfl, hother (Nat.lt_succ_self _), List.append_nil]
    | succ i =>
      rw [if_neg (by omega), List.nil_append]
      have hrest := @ih (first + 1) i (by simpa using hget)
      rwa [show first + 1 + i = first + (i + 1) by omega] at hrest

/-- The codes of the entries that rows leave. -/
def Codes (fate : ρ → Fate) (codes : List Bytes) : Prop :=
  ∀ r code message, fate r = .unresolved code message → code ∈ codes

theorem filter_codes_own {codes : List Bytes} (h : Codes fate codes) (filename : Bytes)
    (first : Nat) : (reportedBy fate filename first rows).filter
      (fun entry => stringAt entry "code" ∈ codes) = reportedBy fate filename first rows := by
  rw [List.filter_eq_self]
  intro entry hmem
  obtain ⟨i, r, code, message, -, hfate, rfl⟩ := mem_reportedBy.mp hmem
  rw [decide_eq_true_eq, (stringAt_unresolvedEntry _ _ _).1]
  exact h r code message hfate

theorem filter_codes_other {codes codes' : List Bytes} (h : Codes fate codes')
    (hdisjoint : ∀ code ∈ codes', code ∉ codes) (filename : Bytes) (first : Nat) :
    (reportedBy fate filename first rows).filter (fun entry => stringAt entry "code" ∈ codes) = [] := by
  rw [List.filter_eq_nil_iff]
  intro entry hmem hcode
  obtain ⟨i, r, code, message, -, hfate, rfl⟩ := mem_reportedBy.mp hmem
  rw [decide_eq_true_eq, (stringAt_unresolvedEntry _ _ _).1] at hcode
  exact hdisjoint code (h r code message hfate) hcode

end

/-! ### The kinds of rows -/

def relationshipCodes : List Bytes := ["unknown_relationship_endpoint"]

def tagCodes : List Bytes := ["unsupported_tag_type", "unknown_tag_owner"]

def ioCodes : List Bytes := ["unknown_io_tag"]

def alarmCodes : List Bytes := ["unknown_alarm_reference", "unsupported_alarm_definition"]

/-- The rows that resolve are emitted; the others are reported with one of the codes. -/
structure Decides {ρ : Type} (fate : ρ → Fate) (codes : List Bytes) (resolves : ρ → Prop)
    (record : ρ → Json) (id : ρ → Bytes) : Prop where
  emitted : ∀ r, resolves r → fate r = .emitted (record r)
  unresolved : ∀ r, ¬ resolves r → ∃ code ∈ codes, ∃ message, fate r = .unresolved code message
  id : ∀ r, stringAt (record r) "id" = id r

section
variable {ρ : Type} {fate : ρ → Fate} {codes : List Bytes} {resolves : ρ → Prop} {record : ρ → Json}
  {id : ρ → Bytes}

theorem Decides.hasCodes (h : Decides fate codes resolves record id) : Codes fate codes := by
  intro r code message hfate
  by_cases hr : resolves r
  · rw [h.emitted r hr] at hfate
    cases hfate
  · obtain ⟨code', hcode', message', hfate'⟩ := h.unresolved r hr
    rw [hfate'] at hfate
    cases hfate
    exact hcode'

theorem Decides.ne_counted (h : Decides fate codes resolves record id) (r : ρ) :
    fate r ≠ .counted := by
  intro hfate
  by_cases hr : resolves r
  · rw [h.emitted r hr] at hfate
    cases hfate
  · obtain ⟨code, -, message, hfate'⟩ := h.unresolved r hr
    rw [hfate'] at hfate
    cases hfate

theorem Decides.record_id (h : Decides fate codes resolves record id) (r : ρ) (record' : Json)
    (hfate : fate r = .emitted record') : stringAt record' "id" = id r := by
  by_cases hr : resolves r
  · rw [h.emitted r hr] at hfate
    cases hfate
    exact h.id r
  · obtain ⟨code, -, message, hfate'⟩ := h.unresolved r hr
    rw [hfate'] at hfate
    cases hfate

theorem Decides.reportedBy_eq_nil (h : Decides fate codes resolves record id) (rows : List ρ)
    (filename : Bytes) (first : Nat) :
    reportedBy fate filename first rows = [] ↔ ∀ r ∈ rows, resolves r := by
  rw [List.eq_nil_iff_forall_not_mem]
  constructor
  · intro hnone r hr
    by_contra hnot
    obtain ⟨code, -, message, hfate⟩ := h.unresolved r hnot
    obtain ⟨i, hget⟩ := List.mem_iff_getElem?.mp hr
    exact hnone _ (mem_reportedBy.mpr ⟨i, r, code, message, hget, hfate, rfl⟩)
  · intro hall entry hmem
    obtain ⟨i, r, code, message, hget, hfate, -⟩ := mem_reportedBy.mp hmem
    rw [h.emitted r (hall r (List.mem_of_getElem? hget))] at hfate
    cases hfate

end

section
variable (headers : Headers) (assets : List Bytes) (tags : List Json)

theorem decides_relationships : Decides (relationshipFate headers assets) relationshipCodes
    (Connects headers assets) (relationshipRecord headers) (rowId headers) := by
  refine ⟨fun row h => if_pos h, fun row h => ⟨_, List.mem_singleton_self _, _, if_neg h⟩, ?_⟩
  intro row
  rw [stringAt, relationshipRecord, Json.find?_object]
  rfl

theorem decides_tags : Decides (tagFate headers assets) tagCodes (Belongs headers assets)
    (tagRecord headers) (rowId headers) := by
  unfold tagFate Belongs
  refine ⟨fun row h => ?_, fun row h => ?_, fun row => ?_⟩
  · rw [if_neg (not_not_intro h.1), if_neg (not_not_intro h.2)]
  · by_cases htype : dataTypeOf headers row ∈ supportedDataTypes
    · rw [if_neg (not_not_intro htype), if_pos fun howner => h ⟨htype, howner⟩]
      exact ⟨_, List.mem_cons_of_mem _ (List.mem_singleton_self _), _, rfl⟩
    · rw [if_pos htype]
      exact ⟨_, List.mem_cons_self, _, rfl⟩
  · rw [stringAt, tagRecord, Json.find?_object]
    rfl

theorem decides_alarms : Decides (alarmFate headers assets tags) alarmCodes
    (fun row => Refers headers assets tags row ∧ Supported headers row) (alarmRecord headers)
    (rowId headers) := by
  unfold alarmFate
  refine ⟨fun row h => ?_, fun row h => ?_, fun row => ?_⟩
  · rw [if_neg (not_not_intro h.1), if_neg (not_not_intro h.2)]
  · by_cases hrefers : Refers headers assets tags row
    · rw [if_neg (not_not_intro hrefers), if_pos fun hsupported => h ⟨hrefers, hsupported⟩]
      exact ⟨_, List.mem_cons_of_mem _ (List.mem_singleton_self _), _, rfl⟩
    · rw [if_pos hrefers]
      exact ⟨_, List.mem_cons_self, _, rfl⟩
  · rw [stringAt, alarmRecord, Json.find?_object]
    rfl

theorem codes_io (emittedTags : List Bytes) : Codes (ioFate headers emittedTags) ioCodes := by
  intro row code message hfate
  unfold ioFate at hfate
  by_cases h : column headers row "tag_id" ∈ emittedTags
  · rw [if_pos h] at hfate
    cases hfate
  · rw [if_neg h] at hfate
    cases hfate
    exact List.mem_singleton_self _

end

/-! ### The result, row by row -/

section
variable (bundle : Bundle) (machine : Machine) (c : Contents)

theorem Contents.decides_tagFate : Decides c.tagFate tagCodes (Belongs c.tags.headers c.assetIds)
    (tagRecord c.tags.headers) (rowId c.tags.headers) := decides_tags _ _

theorem Contents.codes_relationships : Codes c.relationshipFate relationshipCodes :=
  (decides_relationships _ _).hasCodes

theorem Contents.codes_tags : Codes c.tagFate tagCodes := c.decides_tagFate.hasCodes

theorem Contents.codes_alarms : Codes c.alarmFate alarmCodes := (decides_alarms _ _ _).hasCodes

theorem entriesOf_eq (codes : List Bytes) :
    entriesOf (imported bundle machine c).report codes =
      (reportedBy c.relationshipFate c.relationships.artifact.filename 1 c.relationships.rows).filter
        (fun entry => stringAt entry "code" ∈ codes) ++
      (reportedBy c.tagFate c.tags.artifact.filename 1 c.tags.rows).filter
        (fun entry => stringAt entry "code" ∈ codes) ++
      ((c.io.map c.ioEntries).getD []).filter (fun entry => stringAt entry "code" ∈ codes) ++
      (reportedBy c.alarmFate c.alarms.artifact.filename 1 c.alarms.rows).filter
        (fun entry => stringAt entry "code" ∈ codes) := by
  rw [entriesOf, recordsOf_unresolved, Contents.unresolved, List.filter_append, List.filter_append,
    List.filter_append]

theorem io_filter_other {codes : List Bytes} (hdisjoint : ∀ code ∈ ioCodes, code ∉ codes) :
    ((c.io.map c.ioEntries).getD []).filter (fun entry => stringAt entry "code" ∈ codes) = [] := by
  cases c.io with
  | none => rfl
  | some t => exact filter_codes_other (codes_io _ _) hdisjoint _ _

theorem entriesOf_relationships :
    entriesOf (imported bundle machine c).report relationshipCodes =
      reportedBy c.relationshipFate c.relationships.artifact.filename 1 c.relationships.rows := by
  rw [entriesOf_eq, filter_codes_own c.codes_relationships,
    filter_codes_other c.codes_tags (by decide), io_filter_other c (by decide),
    filter_codes_other c.codes_alarms (by decide)]
  simp

theorem entriesOf_tags : entriesOf (imported bundle machine c).report tagCodes =
    reportedBy c.tagFate c.tags.artifact.filename 1 c.tags.rows := by
  rw [entriesOf_eq, filter_codes_other c.codes_relationships (by decide),
    filter_codes_own c.codes_tags, io_filter_other c (by decide),
    filter_codes_other c.codes_alarms (by decide)]
  simp

theorem entriesOf_alarms : entriesOf (imported bundle machine c).report alarmCodes =
    reportedBy c.alarmFate c.alarms.artifact.filename 1 c.alarms.rows := by
  rw [entriesOf_eq, filter_codes_other c.codes_relationships (by decide),
    filter_codes_other c.codes_tags (by decide), io_filter_other c (by decide),
    filter_codes_own c.codes_alarms]
  simp

theorem entriesOf_io : entriesOf (imported bundle machine c).report ioCodes =
    (c.io.map c.ioEntries).getD [] := by
  have hown : ((c.io.map c.ioEntries).getD []).filter (fun entry => stringAt entry "code" ∈ ioCodes) =
      (c.io.map c.ioEntries).getD [] := by
    cases c.io with
    | none => rfl
    | some t => exact filter_codes_own (codes_io _ _) _ _
  rw [entriesOf_eq, filter_codes_other c.codes_relationships (by decide),
    filter_codes_other c.codes_tags (by decide), hown,
    filter_codes_other c.codes_alarms (by decide)]
  simp

end

/-- Every row of a table is one record of the array or one entry with one of the codes. -/
structure Accounted (r : Imported) (t : Table) (array : Bytes) (codes : List Bytes)
    (resolves : List Bytes → Prop) (record : List Bytes → Json) : Prop where
  emitted : ∀ i row, t.rows[i]? = some row → resolves row →
    (recordsOf r.model array).filter (stringAt · "id" = rowId t.headers row) = [record row] ∧
      (entriesOf r.report codes).filter
        (stringAt · "path" = recordPath t.artifact.filename (i + 1)) = []
  unresolved : ∀ i row, t.rows[i]? = some row → ¬ resolves row →
    (recordsOf r.model array).filter (stringAt · "id" = rowId t.headers row) = [] ∧
      ∃ code ∈ codes, ∃ message, (entriesOf r.report codes).filter
          (stringAt · "path" = recordPath t.artifact.filename (i + 1)) =
        [unresolvedEntry code (recordPath t.artifact.filename (i + 1)) message]
  /-- There is nothing else. -/
  total : (recordsOf r.model array).length + (entriesOf r.report codes).length = t.rows.length
  count : countIn r.report array = some (count (recordsOf r.model array).length)
  /-- The artifact's number of records is that of its rows. -/
  source : sourceRecord t.artifact t.rows.length ∈ recordsOf r.report "artifacts"

theorem accounted_of {r : Imported} {t : Table} {array : Bytes} {codes : List Bytes}
    {fate : List Bytes → Fate} {resolves : List Bytes → Prop} {record : List Bytes → Json}
    (hdecides : Decides fate codes resolves record (rowId t.headers))
    (hnodup : (t.rows.map (rowId t.headers)).Nodup)
    (hmodel : recordsOf r.model array = sortById (emittedBy fate t.rows))
    (hreport : entriesOf r.report codes = reportedBy fate t.artifact.filename 1 t.rows)
    (hcount : countIn r.report array = some (count (emittedBy fate t.rows).length))
    (hsource : t.source ∈ recordsOf r.report "artifacts") :
    Accounted r t array codes resolves record := by
  have hperm : (recordsOf r.model array).Perm (emittedBy fate t.rows) :=
    hmodel ▸ Bytes.sortBy_perm _ _
  have hrecords : ∀ row ∈ t.rows,
      ((recordsOf r.model array).filter (stringAt · "id" = rowId t.headers row)).Perm
        (fate row).record?.toList := by
    intro row hrow
    rw [← filter_emittedBy hdecides.record_id hnodup hrow]
    exact hperm.filter _
  have hentries : ∀ i row, t.rows[i]? = some row → (entriesOf r.report codes).filter
      (stringAt · "path" = recordPath t.artifact.filename (i + 1)) =
        ((fate row).report? (recordPath t.artifact.filename (i + 1))).toList := by
    intro i row hget
    rw [hreport, Nat.add_comm i 1]
    exact filter_reportedBy hget
  refine ⟨?_, ?_, ?_, ?_, hsource⟩
  · intro i row hget hresolves
    have hfate := hdecides.emitted row hresolves
    have hrecord := hrecords row (List.mem_of_getElem? hget)
    rw [hentries i row hget]
    rw [hfate] at hrecord ⊢
    exact ⟨List.perm_singleton.mp hrecord, rfl⟩
  · intro i row hget hnot
    obtain ⟨code, hcode, message, hfate⟩ := hdecides.unresolved row hnot
    have hrecord := hrecords row (List.mem_of_getElem? hget)
    rw [hentries i row hget]
    rw [hfate] at hrecord ⊢
    exact ⟨List.perm_nil.mp hrecord, code, hcode, message, rfl⟩
  · rw [hperm.length_eq, hreport]
    exact length_emitted_reported (fun row _ => hdecides.ne_counted row) _ _
  · rw [hcount, hperm.length_eq]

/-- A row of the I/O configuration is not emitted; it leaves an entry if its tag was not. -/
structure IoAccounted (r : Imported) (t : Table) : Prop where
  resolved : ∀ i row, t.rows[i]? = some row → column t.headers row "tag_id" ∈ idsOf r.model "tags" →
    (entriesOf r.report ioCodes).filter
      (stringAt · "path" = recordPath t.artifact.filename (i + 1)) = []
  unresolved : ∀ i row, t.rows[i]? = some row → column t.headers row "tag_id" ∉ idsOf r.model "tags" →
    ∃ code ∈ ioCodes, ∃ message, (entriesOf r.report ioCodes).filter
        (stringAt · "path" = recordPath t.artifact.filename (i + 1)) =
      [unresolvedEntry code (recordPath t.artifact.filename (i + 1)) message]
  count : countIn r.report "io" = some (count t.rows.length)
  source : sourceRecord t.artifact t.rows.length ∈ recordsOf r.report "artifacts"

/-! ### References into the model -/

theorem stringAt_assetRecord (item : Json) :
    stringAt (assetRecord item) "id" = stringAt item "id" := by
  have hid : (assetRecord item).find? "id" = some (.str (stringAt item "id")) := by
    have hobject : (Json.object [("id", .str (stringAt item "id")), ("name", .str (stringAt item "name")),
      ("kind", .str (stringAt item "kind"))]).isObject = true := Json.isObject_object _
    rw [assetRecord, Json.find?_setOptional (Json.isObject_setOptional hobject _ _),
      Json.find?_setOptional hobject, Json.find?_object]
    rfl
  exact stringAt_of_find? hid

theorem map_id_emittedBy {ρ : Type} {fate : ρ → Fate} {id : ρ → Bytes} {rows : List ρ}
    (hrecord : ∀ r record, fate r = .emitted record → stringAt record "id" = id r) :
    (emittedBy fate rows).map (stringAt · "id") =
      (rows.filter fun r => (fate r).record?.isSome).map id := by
  induction rows with
  | nil => rfl
  | cons r rows ih =>
    rw [emittedBy_cons, List.map_append, ih]
    cases hfate : fate r with
    | emitted record => simp [hfate, Fate.record?, hrecord r record hfate]
    | unresolved code message => simp [hfate, Fate.record?]
    | counted => simp [hfate, Fate.record?]

section
variable {c : Contents}

theorem Contents.map_id_tagRecords : c.tagRecords.map (stringAt · "id") = c.emittedTags.reverse := by
  rw [Contents.tagRecords, map_id_emittedBy c.decides_tagFate.record_id, Contents.emittedTags,
    List.reverse_reverse]

theorem Importable.nodup_tags {limits : Limits} (h : Importable limits c) :
    (c.tagRecords.map (stringAt · "id")).Nodup := by
  rw [Contents.tagRecords, map_id_emittedBy c.decides_tagFate.record_id]
  exact h.tags.nodup.sublist (List.filter_sublist.map _)

variable (bundle : Bundle) (machine : Machine)

theorem mem_idsOf_assets {id : Bytes} :
    id ∈ idsOf (imported bundle machine c).model "assets" ↔ id ∈ c.assetIds := by
  have hperm : (sortById (c.assets.records.map assetRecord)).Perm (c.assets.records.map assetRecord) :=
    Bytes.sortBy_perm _ _
  rw [idsOf, recordsOf_assets, (hperm.map _).mem_iff, List.map_map, Contents.assetIds,
    List.mem_reverse]
  rw [show (stringAt · "id") ∘ assetRecord = (stringAt · "id") from funext stringAt_assetRecord]

theorem mem_idsOf_tags {id : Bytes} :
    id ∈ idsOf (imported bundle machine c).model "tags" ↔ id ∈ c.emittedTags := by
  have hperm : (sortById c.tagRecords).Perm c.tagRecords := Bytes.sortBy_perm _ _
  rw [idsOf, recordsOf_tags, (hperm.map _).mem_iff, Contents.map_id_tagRecords, List.mem_reverse]

theorem connects_iff (headers : Headers) (row : List Bytes) :
    Connects headers (idsOf (imported bundle machine c).model "assets") row ↔
      Connects headers c.assetIds row := by
  unfold Connects
  rw [mem_idsOf_assets, mem_idsOf_assets]

theorem belongs_iff (headers : Headers) (row : List Bytes) :
    Belongs headers (idsOf (imported bundle machine c).model "assets") row ↔
      Belongs headers c.assetIds row := by
  unfold Belongs
  rw [mem_idsOf_assets]

theorem refers_model_iff {limits : Limits} (h : Importable limits c) (headers : Headers)
    (row : List Bytes) :
    Refers headers (idsOf (imported bundle machine c).model "assets")
        (recordsOf (imported bundle machine c).model "tags") row ↔
      Refers headers c.assetIds c.tagRecords row := by
  unfold Refers tagOf
  rw [mem_idsOf_assets, recordsOf_tags, sortById,
    Assoc.findKey_perm (stringAt · "id") (Bytes.sortBy_perm _ _).symm h.nodup_tags]

end

/-! ### The claim of the module -/

theorem Decides.congr {ρ : Type} {fate : ρ → Fate} {codes : List Bytes} {resolves resolves' : ρ → Prop}
    {record : ρ → Json} {id : ρ → Bytes} (h : Decides fate codes resolves record id)
    (hiff : ∀ r, resolves' r ↔ resolves r) : Decides fate codes resolves' record id :=
  ⟨fun r hr => h.emitted r ((hiff r).mp hr), fun r hr => h.unresolved r (mt (hiff r).mpr hr), h.id⟩

/-- **No record vanishes.** Of every import that returns: each row of the relationships, of the tags
and of the alarms is one record of the model, as the row has it, or one entry of the report; it is
emitted exactly where its endpoints are distinct assets of the model, its type is supported and its
owner an asset of the model, or its tag is a tag of the model that its owner owns and its operator and
severity are supported; and the status is `ok` exactly where there are no entries, which is where every
row resolves, those of the I/O configuration included. -/
theorem rows_accounted {limits : Limits} {bundle : Bundle} {r : Imported}
    (h : importManifest limits bundle = .ok r) : ∃ machine artifacts c,
      readManifest limits bundle = .ok (machine, artifacts) ∧ Holds limits artifacts c ∧
      Accounted r c.relationships "relationships" relationshipCodes
        (Connects c.relationships.headers (idsOf r.model "assets"))
        (relationshipRecord c.relationships.headers) ∧
      Accounted r c.tags "tags" tagCodes (Belongs c.tags.headers (idsOf r.model "assets"))
        (tagRecord c.tags.headers) ∧
      Accounted r c.alarms "alarms" alarmCodes
        (fun row => Refers c.alarms.headers (idsOf r.model "assets") (recordsOf r.model "tags") row ∧
          Supported c.alarms.headers row)
        (alarmRecord c.alarms.headers) ∧
      (∀ t, c.io = some t → IoAccounted r t) ∧
      (stringAt r.report "status" = "ok" ↔ recordsOf r.report "unresolved" = []) ∧
      (recordsOf r.report "unresolved" = [] ↔
        (∀ row ∈ c.relationships.rows,
          Connects c.relationships.headers (idsOf r.model "assets") row) ∧
        (∀ row ∈ c.tags.rows, Belongs c.tags.headers (idsOf r.model "assets") row) ∧
        (∀ t, c.io = some t → ∀ row ∈ t.rows, column t.headers row "tag_id" ∈ idsOf r.model "tags") ∧
        ∀ row ∈ c.alarms.rows, Refers c.alarms.headers (idsOf r.model "assets")
          (recordsOf r.model "tags") row ∧ Supported c.alarms.headers row) := by
  obtain ⟨machine, artifacts, c, hread, hholds, himportable, rfl⟩ := importManifest_eq_ok.mp h
  have hrelationships := (decides_relationships c.relationships.headers c.assetIds).congr
    (connects_iff (c := c) bundle machine c.relationships.headers)
  have htags := (decides_tags c.tags.headers c.assetIds).congr
    (belongs_iff (c := c) bundle machine c.tags.headers)
  have halarms := (decides_alarms c.alarms.headers c.assetIds c.tagRecords).congr fun row =>
    and_congr_left' (refers_model_iff bundle machine himportable c.alarms.headers row)
  have hsource : ∀ {source : Json}, source ∈ c.sources →
      source ∈ recordsOf (imported bundle machine c).report "artifacts" := by
    intro source hmem
    rw [recordsOf_artifacts]
    exact Bytes.mem_sortBy.mpr hmem
  have hio : ∀ t, c.io = some t → entriesOf (imported bundle machine c).report ioCodes =
      reportedBy (ioFate t.headers c.emittedTags) t.artifact.filename 1 t.rows := by
    intro t ht
    rw [entriesOf_io, ht]
    rfl
  refine ⟨machine, artifacts, c, hread, hholds,
    accounted_of hrelationships himportable.relationships.nodup (recordsOf_relationships _ _ _)
      (entriesOf_relationships _ _ _) (countIn_eq _ _ _) (hsource (by simp [Contents.sources])),
    accounted_of htags himportable.tags.nodup (recordsOf_tags _ _ _)
      (entriesOf_tags _ _ _) (countIn_eq _ _ _) (hsource (by simp [Contents.sources])),
    accounted_of halarms himportable.alarms.nodup (recordsOf_alarms _ _ _)
      (entriesOf_alarms _ _ _) (countIn_eq _ _ _) (hsource (by simp [Contents.sources])), ?_, ?_, ?_⟩
  · intro t ht
    have hentries : ∀ i row, t.rows[i]? = some row →
        (entriesOf (imported bundle machine c).report ioCodes).filter
          (stringAt · "path" = recordPath t.artifact.filename (i + 1)) =
        ((ioFate t.headers c.emittedTags row).report?
          (recordPath t.artifact.filename (i + 1))).toList := by
      intro i row hget
      rw [hio t ht, Nat.add_comm i 1]
      exact filter_reportedBy hget
    refine ⟨fun i row hget htag => ?_, fun i row hget htag => ?_, ?_,
      hsource (by simp [Contents.sources, ht, Table.source])⟩
    · rw [hentries i row hget, ioFate, if_pos ((mem_idsOf_tags _ _).mp htag)]
      rfl
    · rw [hentries i row hget, ioFate, if_neg (mt (mem_idsOf_tags _ _).mpr htag)]
      exact ⟨_, List.mem_singleton_self _, _, rfl⟩
    · rw [countIn_eq]
      simp [Contents.state, Contents.countOf, ht]
  · rw [status_eq, recordsOf_unresolved]
    by_cases hempty : c.unresolved.isEmpty = true
    · rw [if_pos hempty]
      exact ⟨fun _ => List.isEmpty_iff.mp hempty, fun _ => rfl⟩
    · rw [if_neg hempty]
      exact ⟨fun h => absurd h (by decide), fun h => absurd (List.isEmpty_iff.mpr h) hempty⟩
  · have hioNil : (c.io.map c.ioEntries).getD [] = [] ↔ ∀ t, c.io = some t → ∀ row ∈ t.rows,
        column t.headers row "tag_id" ∈ idsOf (imported bundle machine c).model "tags" := by
      cases hc : c.io with
      | none => simp
      | some t =>
        simp only [Option.map_some, Option.getD_some, Option.some.injEq, forall_eq',
          Contents.ioEntries, mem_idsOf_tags]
        rw [List.eq_nil_iff_forall_not_mem]
        constructor
        · intro hnone row hrow
          by_contra hnot
          obtain ⟨i, hget⟩ := List.mem_iff_getElem?.mp hrow
          exact hnone _ (mem_reportedBy.mpr ⟨i, row, _, _, hget, if_neg hnot, rfl⟩)
        · intro hall entry hmem
          obtain ⟨i, row, code, message, hget, hfate, -⟩ := mem_reportedBy.mp hmem
          rw [ioFate, if_pos (hall row (List.mem_of_getElem? hget))] at hfate
          cases hfate
    rw [recordsOf_unresolved, Contents.unresolved, List.append_eq_nil_iff, List.append_eq_nil_iff,
      List.append_eq_nil_iff, hioNil]
    have hrelationshipNil := hrelationships.reportedBy_eq_nil c.relationships.rows
      c.relationships.artifact.filename 1
    have htagNil := htags.reportedBy_eq_nil c.tags.rows c.tags.artifact.filename 1
    have halarmNil := halarms.reportedBy_eq_nil c.alarms.rows c.alarms.artifact.filename 1
    constructor
    · rintro ⟨⟨⟨h1, h2⟩, h3⟩, h4⟩
      exact ⟨hrelationshipNil.mp h1, htagNil.mp h2, h3, halarmNil.mp h4⟩
    · rintro ⟨h1, h2, h3, h4⟩
      exact ⟨⟨⟨hrelationshipNil.mpr h1, htagNil.mpr h2⟩, h3⟩, halarmNil.mpr h4⟩

/-! A bundle with an asset that is related to itself and an alarm on another asset's tag. -/

def looseRelationships : Bytes := "id,from,to,kind\nloop,a,a,feeds\n"

def looseAlarms : Bytes :=
  "id,asset_id,name,tag_id,operator,threshold,severity\nhigh,b,High,level,>,1,low\n"

def looseBundle : Bundle where
  manifestPath := "manifest.json"
  manifestName := "manifest.json"
  manifest := some ("\x7b\"schema_version\":\"engineering-bundle/1\"," ++
    bytes "\"machine\":\x7b\"id\":\"m\",\"name\":\"M\",\"revision\":1\x7d,\"artifacts\":[" ++
    bytes "\x7b\"id\":\"a\",\"kind\":\"asset_hierarchy\",\"format\":\"json\",\"path\":\"a\"\x7d," ++
    bytes "\x7b\"id\":\"r\",\"kind\":\"relationships\",\"format\":\"csv-rfc4180\"," ++
    bytes "\"path\":\"r\"\x7d," ++
    bytes "\x7b\"id\":\"t\",\"kind\":\"controller_tags\",\"format\":\"csv-rfc4180\"," ++
    bytes "\"path\":\"t\"\x7d," ++
    bytes "\x7b\"id\":\"l\",\"kind\":\"alarm_definitions\",\"format\":\"csv-rfc4180\"," ++
    bytes "\"path\":\"l\"\x7d]\x7d")
  locate relative :=
    if relative = "a" then .file "a" "a" (some ("[\x7b\"id\":\"a\",\"name\":\"A\",\"kind\":\"k\"\x7d," ++
      bytes "\x7b\"id\":\"b\",\"name\":\"B\",\"kind\":\"k\"\x7d]"))
    else if relative = "r" then .file "r" "r" (some looseRelationships)
    else if relative = "t" then .file "t" "t" (some
      ("id,asset_id,name,role,data_type,unit,server,namespace_uri,identifier\n" ++
        bytes "level,a,Level,value,number,,s,u,i\n"))
    else if relative = "l" then .file "l" "l" (some looseAlarms)
    else .refused fun path => .importing "artifact_unavailable" path "artifact cannot be resolved"

/-- Whether a document has the number. -/
def isCount (number : Option Json) (n : Nat) : Bool :=
  match number with
  | some (.uint m) => m == UInt64.ofNat n
  | _ => false

/-- The relationship is not emitted though its endpoints are, nor the alarm though its owner, its tag,
its operator and its severity are all there; and the report counts what was emitted, not the rows. -/
theorem rows_accounted_loose :
    (parseCsv {} "r" looseRelationships).toOption =
        some ([["id", "from", "to", "kind"], ["loop", "a", "a", "feeds"]] : Rows) ∧
      (parseCsv {} "l" looseAlarms).toOption =
        some ([["id", "asset_id", "name", "tag_id", "operator", "threshold", "severity"],
          ["high", "b", "High", "level", ">", "1", "low"]] : Rows) ∧
      ∃ r, importManifest {} looseBundle = .ok r ∧
        bytes "a" ∈ idsOf r.model "assets" ∧ bytes "loop" ∉ idsOf r.model "relationships" ∧
        bytes "b" ∈ idsOf r.model "assets" ∧ bytes "level" ∈ idsOf r.model "tags" ∧
        bytes "high" ∉ idsOf r.model "alarms" ∧
        countIn r.report "relationships" ≠ some (count ((recordsOf r.model "relationships").length +
          (entriesOf r.report relationshipCodes).length)) := by
  refine ⟨by decide +kernel, by decide +kernel, ?_⟩
  obtain ⟨r, hr, hcheck⟩ := exists_ok_of_any (x := importManifest {} looseBundle) (fun r =>
    bytes "a" ∈ idsOf r.model "assets" ∧ bytes "loop" ∉ idsOf r.model "relationships" ∧
      bytes "b" ∈ idsOf r.model "assets" ∧ bytes "level" ∈ idsOf r.model "tags" ∧
      bytes "high" ∉ idsOf r.model "alarms" ∧
      isCount (countIn r.report "relationships") ((recordsOf r.model "relationships").length +
        (entriesOf r.report relationshipCodes).length) = false) (by decide +kernel)
  obtain ⟨h1, h2, h3, h4, h5, h6⟩ := of_decide_eq_true hcheck
  refine ⟨r, hr, h1, h2, h3, h4, h5, fun h => ?_⟩
  rw [h] at h6
  exact absurd h6 (by simp [isCount, count])

/-- The rows of the bundle. -/
theorem rows_accounted_sample : ∃ r, importManifest {} looseBundle = .ok r ∧
    (stringAt r.report "status" = "ok" ↔ recordsOf r.report "unresolved" = []) := by
  obtain ⟨r, hr, -⟩ := exists_ok_of_any (x := importManifest {} looseBundle) (fun _ => true)
    (by decide +kernel)
  obtain ⟨_, _, _, -, -, -, -, -, -, hstatus, -⟩ := rows_accounted hr
  exact ⟨r, hr, hstatus⟩

end ContextHmi.Import
