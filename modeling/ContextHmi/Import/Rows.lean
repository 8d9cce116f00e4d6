import ContextHmi.Import.Bundle

/-!
# Records, one by one

What a parser makes of a record depends on the record, on what the artifacts before it declared, and on
the ids before it only in that its own may not be among them. So a parser returns exactly where each
of its records is readable and their ids are distinct, and what it leaves is given record by record.

* `placeRows_eq_ok`         : the loop of a parser, in closed form.
* `reads_relationships`, …  : how the records of each kind are read.
-/

namespace ContextHmi.Import

open Outcome

/-! ### Cells and fields -/

section
variable {limits : Limits} {headers : Headers}

/-- What is asked of a cell. -/
structure IsCell (limits : Limits) (required : Bool) (value : Bytes) : Prop where
  present : required = true → value ≠ []
  length : value.length ≤ min limits.maxFieldBytes 256
  plain : value.any isControl = false

/-- What a row has under a header. -/
def column (headers : Headers) (row : List Bytes) (key : Bytes) : Bytes :=
  ((Assoc.find? key headers).bind (row[·]?)).getD []

theorem isCell_nil : IsCell limits false [] :=
  ⟨fun h => absurd h Bool.false_ne_true, Nat.zero_le _, rfl⟩

theorem cell_eq_ok {row : List Bytes} {path key v : Bytes} {required : Bool} :
    cell limits headers row path key required = .ok v ↔
      v = column headers row key ∧ IsCell limits required v := by
  have hmissing : column headers row key = [] → ∀ {e : Error},
      (if required = true then .error e else .ok [] : Result Bytes) = .ok v ↔
        v = column headers row key ∧ IsCell limits required v := by
    intro hcolumn e
    rw [hcolumn]
    cases required with
    | true =>
      rw [if_pos rfl]
      constructor
      · intro h
        cases h
      · intro h
        exact absurd h.1 (h.2.present rfl)
    | false =>
      rw [if_neg Bool.false_ne_true]
      constructor
      · intro h
        cases h
        exact ⟨rfl, isCell_nil⟩
      · intro h
        rw [h.1]
  unfold cell
  cases hfind : Assoc.find? key headers with
  | none => exact hmissing (by rw [column, hfind]; rfl)
  | some i =>
    cases hget : row[i]? with
    | none =>
      simp only [hget]
      exact hmissing (by rw [column, hfind, Option.bind_some, hget]; rfl)
    | some value =>
      have hcolumn : column headers row key = value := by
        rw [column, hfind, Option.bind_some, hget]
        rfl
      simp only [hget, bind_eq_ok, throwIf_eq_ok, pure_eq_ok, hcolumn]
      constructor
      · rintro ⟨_, hlength, _, hpresent, _, hplain, h⟩
        subst h
        refine ⟨rfl, ?_, by omega, by simpa using hplain⟩
        intro hrequired hnil
        exact hpresent ⟨hrequired, by rw [hnil]; rfl⟩
      · rintro ⟨h, hcell⟩
        subst h
        refine ⟨(), not_lt.mpr hcell.length, (), ?_, (), by simp [hcell.plain], rfl⟩
        rintro ⟨hrequired, hempty⟩
        exact hcell.present hrequired (List.isEmpty_iff.mp hempty)

theorem cell_bind_eq_ok {α : Type} {row : List Bytes} {path key : Bytes} {required : Bool}
    {f : Bytes → Result α} {a : α} : (cell limits headers row path key required >>= f) = .ok a ↔
      IsCell limits required (column headers row key) ∧ f (column headers row key) = .ok a := by
  simp only [bind_eq_ok, cell_eq_ok]
  constructor
  · rintro ⟨v, ⟨hv, hcell⟩, hf⟩
    subst hv
    exact ⟨hcell, hf⟩
  · rintro ⟨hcell, hf⟩
    exact ⟨_, ⟨rfl, hcell⟩, hf⟩

/-- What is asked of a string of an object. -/
structure IsField (limits : Limits) (allowEmpty : Bool) (value : Bytes) : Prop where
  present : allowEmpty = false → value ≠ []
  length : value.length ≤ min limits.maxStringBytes kIdentityLimit
  plain : value.any isControl = false

/-- An object has a string that is one. -/
def HasField (limits : Limits) (object : Json) (key : Bytes) (allowEmpty : Bool) : Prop :=
  object.find? key = some (.str (stringAt object key)) ∧
    IsField limits allowEmpty (stringAt object key)

theorem stringAt_of_find? {object : Json} {key s : Bytes} (h : object.find? key = some (.str s)) :
    stringAt object key = s := by
  rw [stringAt, h]

theorem requireString_eq_ok {object : Json} {key path v : Bytes} {allowEmpty : Bool} :
    requireString limits object key path allowEmpty = .ok v ↔
      v = stringAt object key ∧ HasField limits object key allowEmpty := by
  unfold requireString HasField stringAt
  cases hfind : object.find? key with
  | none => exact ⟨fun h => (by cases h), fun h => absurd h.2.1 (by simp)⟩
  | some field =>
    cases field with
    | str s =>
      simp only [bind_eq_ok, throwIf_eq_ok, pure_eq_ok, true_and]
      constructor
      · rintro ⟨_, hnot, h⟩
        subst h
        rw [not_or, not_or] at hnot
        refine ⟨rfl, ?_, not_lt.mp hnot.2.1, by simpa using hnot.2.2⟩
        intro hempty hnil
        exact hnot.1 ⟨by rw [hempty]; exact Bool.false_ne_true, by rw [hnil]; rfl⟩
      · rintro ⟨h, hfield⟩
        subst h
        refine ⟨(), ?_, rfl⟩
        rw [not_or, not_or, not_lt, hfield.plain]
        refine ⟨fun h => ?_, hfield.length, Bool.false_ne_true⟩
        exact hfield.present (by simpa using h.1) (List.isEmpty_iff.mp h.2)
    | _ => exact ⟨fun h => (by cases h), fun h => absurd h.2.1 (by simp)⟩

theorem stringField_eq_ok {object : Json} {key path v : Bytes} :
    stringField limits object key path = .ok v ↔
      v = stringAt object key ∧ HasField limits object key false :=
  requireString_eq_ok

theorem allowedKeys_eq_ok {object : Json} {allowed : List Bytes} {path : Bytes} {u : Unit} :
    allowedKeys object allowed path = .ok u ↔ ∀ field ∈ object.fields, field.1 ∈ allowed := by
  unfold allowedKeys
  cases hfind : object.fields.find? fun item => item.1 ∉ allowed with
  | none =>
    rw [List.find?_eq_none] at hfind
    refine ⟨fun _ field hfield => ?_, fun _ => rfl⟩
    simpa using hfind field hfield
  | some item =>
    refine ⟨fun h => (by cases h), fun h => ?_⟩
    have hbad := List.find?_some hfind
    simp only [decide_eq_true_eq] at hbad
    exact absurd (h item (List.mem_of_find?_eq_some hfind)) hbad

end

/-! ### The loop -/

section
variable {ρ : Type} {read : ReadRow ρ} {readable : ρ → Prop} {id : ρ → Bytes} {fate : ρ → Fate}

/-- How the records of a parser are read: where they may stand, with which id, and what becomes of
them. -/
def Reads (read : ReadRow ρ) (readable : ρ → Prop) (id : ρ → Bytes) (fate : ρ → Fate) : Prop :=
  ∀ seen path r out, read seen path r = .ok out ↔ id r ∉ seen ∧ readable r ∧ out = (id r, fate r)

/-- The record, if it was emitted. -/
def Fate.record? : Fate → Option Json
  | .emitted record => some record
  | .unresolved _ _ | .counted => none

/-- The entry of the report, if it was not. -/
def Fate.report? (path : Bytes) : Fate → Option Json
  | .emitted _ | .counted => none
  | .unresolved code message => some (unresolvedEntry code path message)

/-- What is left by records that were read one after another. -/
def Progress.placeAll (id : ρ → Bytes) (fate : ρ → Fate) (filename : Bytes) (first : Nat)
    (rows : List ρ) (p : Progress) : Progress where
  ids := (rows.map id).reverse ++ p.ids
  emitted := ((rows.filter fun r => (fate r).record?.isSome).map id).reverse ++ p.emitted
  records := p.records ++ rows.filterMap fun r => (fate r).record?
  unresolved := p.unresolved ++
    (rows.zipIdx first).filterMap fun r => (fate r.1).report? (recordPath filename r.2)

theorem placeAll_nil (filename : Bytes) (first : Nat) (p : Progress) :
    p.placeAll id fate filename first [] = p := by
  simp [Progress.placeAll]

theorem placeAll_cons (filename : Bytes) (first : Nat) (r : ρ) (rows : List ρ) (p : Progress) :
    p.placeAll id fate filename first (r :: rows) =
      (p.place (recordPath filename first) (id r) (fate r)).placeAll id fate filename (first + 1)
        rows := by
  unfold Progress.placeAll Progress.place
  cases hfate : fate r with
  | emitted record => simp [hfate, Fate.record?, Fate.report?]
  | unresolved code message => simp [hfate, Fate.record?, Fate.report?]
  | counted => simp [hfate, Fate.record?, Fate.report?]

theorem place_ids (p : Progress) (path id : Bytes) (fate : Fate) :
    (p.place path id fate).ids = id :: p.ids := by
  cases fate with
  | emitted record => rfl
  | unresolved code message => rfl
  | counted => rfl

/-- **The loop of a parser returns exactly where every record is readable and the ids are distinct**,
and what it leaves is given record by record. -/
theorem placeRows_eq_ok (h : Reads read readable id fate) {filename : Bytes} {first : Nat}
    {rows : List ρ} {p q : Progress} : placeRows read filename first rows p = .ok q ↔
      ((∀ r ∈ rows, readable r) ∧ (rows.map id).Nodup ∧ (∀ r ∈ rows, id r ∉ p.ids)) ∧
        q = p.placeAll id fate filename first rows := by
  unfold placeRows
  induction rows generalizing first p with
  | nil =>
    rw [placeAll_nil]
    simp only [List.zipIdx_nil, List.foldlM_nil, pure_eq_ok, List.not_mem_nil, false_implies,
      implies_true, List.map_nil, List.nodup_nil, and_self, true_and]
    exact eq_comm
  | cons r rows ih =>
    rw [List.zipIdx_cons, List.foldlM_cons, bind_eq_ok, placeAll_cons]
    have hstep : ∀ p', placeRow read filename p (r, first) = .ok p' ↔
        (id r ∉ p.ids ∧ readable r) ∧ p' = p.place (recordPath filename first) (id r) (fate r) := by
      intro p'
      unfold placeRow
      simp only [bind_eq_ok, pure_eq_ok, h p.ids]
      constructor
      · rintro ⟨out, ⟨hnew, hread, hout⟩, h⟩
        subst hout
        exact ⟨⟨hnew, hread⟩, h.symm⟩
      · rintro ⟨⟨hnew, hread⟩, h⟩
        exact ⟨_, ⟨hnew, hread, rfl⟩, h.symm⟩
    have hfresh : ∀ path, (∀ r' ∈ rows, id r' ∉ (p.place path (id r) (fate r)).ids) ↔
        (∀ r' ∈ rows, id r' ∉ p.ids) ∧ id r ∉ rows.map id := by
      intro path
      simp only [place_ids, List.mem_cons, not_or, List.mem_map, not_exists, not_and]
      exact ⟨fun h => ⟨fun r' hr' => (h r' hr').2, fun r' hr' => (h r' hr').1⟩,
        fun h r' hr' => ⟨h.2 r' hr', h.1 r' hr'⟩⟩
    have hplaced := hfresh (recordPath filename first)
    simp only [hstep, ih, List.forall_mem_cons, List.map_cons, List.nodup_cons]
    constructor
    · rintro ⟨p', ⟨⟨hnew, hread⟩, hp'⟩, hrest⟩
      subst hp'
      obtain ⟨⟨hreads, hnodup, hids⟩, hq⟩ := hrest
      obtain ⟨hids, hnot⟩ := hplaced.mp hids
      exact ⟨⟨⟨hread, hreads⟩, ⟨hnot, hnodup⟩, hnew, hids⟩, hq⟩
    · rintro ⟨⟨⟨hread, hreads⟩, ⟨hnot, hnodup⟩, hnew, hrest⟩, hq⟩
      exact ⟨_, ⟨⟨hnew, hread⟩, rfl⟩, ⟨hreads, hnodup, hplaced.mpr ⟨hrest, hnot⟩⟩, hq⟩

end

/-! ### Assets -/

section
variable {limits : Limits}

def aliasesOf (item : Json) : Option (List Json) := (item.find? "aliases").map Json.items

def descriptionOf (item : Json) : Option Json :=
  (item.find? "description").map fun _ =>
    .object [("description", .str (stringAt item "description"))]

/-- What is emitted for an asset. -/
def assetRecord (item : Json) : Json :=
  ((Json.object [("id", .str (stringAt item "id")), ("name", .str (stringAt item "name")),
    ("kind", .str (stringAt item "kind"))]).setOptional "aliases" ((aliasesOf item).map .arr)).setOptional
      "metadata" (descriptionOf item)

def isAlias (limits : Limits) (text : Bytes) : Bool :=
  !text.isEmpty && text.length ≤ min limits.maxStringBytes 256 && !text.any isControl

/-- What is asked of the aliases. -/
def AliasesReadable (limits : Limits) (item : Json) : Prop :=
  ∀ aliases, item.find? "aliases" = some aliases → aliases.isArray = true ∧ aliases.size ≤ 32 ∧
    ∀ name ∈ aliases.items, name.isStringWith (isAlias limits) = true

theorem checkAliases_eq_ok {item : Json} {path : Bytes} {out : Option (List Json)} :
    checkAliases limits item path = .ok out ↔ AliasesReadable limits item ∧ out = aliasesOf item := by
  unfold checkAliases AliasesReadable aliasesOf
  cases item.find? "aliases" with
  | none =>
    simp only [Option.map_none, reduceCtorEq, false_implies, implies_true, true_and,
      Except.ok.injEq]
    exact eq_comm
  | some aliases =>
    simp only [bind_eq_ok, throwIf_eq_ok, pure_eq_ok, Option.map_some, Option.some.injEq,
      forall_eq', not_or, not_not, not_lt, not_exists, not_and]
    constructor
    · rintro ⟨_, ⟨harray, hsize⟩, _, hnames, h⟩
      exact ⟨⟨harray, hsize, hnames⟩, h.symm⟩
    · rintro ⟨⟨harray, hsize, hnames⟩, h⟩
      exact ⟨(), ⟨harray, hsize⟩, (), hnames, h.symm⟩

theorem checkDescription_eq_ok {item : Json} {path : Bytes} {out : Option Json} :
    checkDescription limits item path = .ok out ↔
      (item.contains "description" = true → HasField limits item "description" true) ∧
        out = descriptionOf item := by
  unfold checkDescription
  by_cases hcontains : item.contains "description" = true
  · obtain ⟨v, hv⟩ := Json.contains_eq_true.mp hcontains
    rw [if_pos hcontains, descriptionOf, hv]
    simp only [bind_eq_ok, pure_eq_ok, requireString_eq_ok, hcontains, true_implies,
      Option.map_some]
    constructor
    · rintro ⟨text, ⟨htext, hfield⟩, h⟩
      exact ⟨hfield, by rw [← h, htext]⟩
    · rintro ⟨hfield, h⟩
      exact ⟨_, ⟨rfl, hfield⟩, h.symm⟩
  · have hnone : item.find? "description" = none :=
      Json.contains_eq_false.mp (Bool.eq_false_iff.mpr hcontains)
    rw [if_neg hcontains, descriptionOf, hnone, Option.map_none]
    constructor
    · intro h
      exact ⟨fun h' => absurd h' hcontains, (Except.ok.inj h).symm⟩
    · intro h
      rw [h.2]

/-- An asset that is read. -/
structure ReadableAsset (limits : Limits) (item : Json) : Prop where
  object : item.isObject = true
  keys : ∀ field ∈ item.fields, field.1 ∈
    ([bytes "id", bytes "name", bytes "kind", bytes "aliases", bytes "description"] : List Bytes)
  id : HasField limits item "id" false
  identity : validIdentity (stringAt item "id") = true
  name : HasField limits item "name" false
  kind : HasField limits item "kind" false
  aliases : AliasesReadable limits item
  description : item.contains "description" = true → HasField limits item "description" true

theorem reads_assets : Reads (assetRow limits) (ReadableAsset limits) (stringAt · "id")
    fun item => .emitted (assetRecord item) := by
  intro seen path item out
  unfold assetRow
  simp only [bind_eq_ok, pure_eq_ok, throwIf_eq_ok, stringField_eq_ok, allowedKeys_eq_ok,
    checkAliases_eq_ok, checkDescription_eq_ok, not_or, not_not]
  constructor
  · rintro ⟨_, hobject, _, hkeys, id, ⟨hid, hidField⟩, _, ⟨hidentity, hnew⟩, name, ⟨hname, hnameField⟩,
      kind, ⟨hkind, hkindField⟩, aliases, ⟨haliases, halias⟩, metadata, ⟨hdescription, hmetadata⟩, h⟩
    subst hid hname hkind halias hmetadata
    exact ⟨hnew, ⟨hobject, hkeys, hidField, hidentity, hnameField, hkindField, haliases,
      hdescription⟩, h.symm⟩
  · rintro ⟨hnew, hread, h⟩
    exact ⟨(), hread.object, (), hread.keys, _, ⟨rfl, hread.id⟩, (), ⟨hread.identity, hnew⟩, _,
      ⟨rfl, hread.name⟩, _, ⟨rfl, hread.kind⟩, _, ⟨hread.aliases, rfl⟩, _, ⟨hread.description, rfl⟩,
      h.symm⟩

end

/-! ### Metadata -/

section
variable {limits : Limits} {required assets : List Bytes}

/-- A record of metadata that is read: all the required fields, and no others. -/
structure ReadableMetadata (limits : Limits) (required : List Bytes) (record : Json) : Prop where
  object : record.isObject = true
  keys : ∀ field ∈ record.fields, field.1 ∈ required
  fields : ∀ field ∈ required, HasField limits record field (field = "description")
  identity : validIdentity (stringAt record "id") = true

theorem find?_of_keys {record : Json} {allowed : List Bytes} {key : Bytes}
    (h : ∀ field ∈ record.fields, field.1 ∈ allowed) (hkey : key ∉ allowed) :
    record.find? key = none := by
  cases record with
  | obj fields =>
    rw [Json.find?_obj, Assoc.find?_eq_none_iff]
    intro hmem
    obtain ⟨field, hfield, hname⟩ := List.mem_map.mp hmem
    exact hkey (hname ▸ h field hfield)
  | _ => rfl

/-- As the asset of a record is not one of its fields, a record of metadata is only counted. -/
theorem reads_metadata (hid : bytes "id" ∈ required) (hasset : bytes "asset_id" ∉ required) :
    Reads (metadataRow limits required assets) (ReadableMetadata limits required) (stringAt · "id")
      fun _ => .counted := by
  intro seen path record out
  unfold metadataRow
  have hfields : ∀ u : Unit, (required.forM fun field => (fun _ => ()) <$>
      requireString limits record field path (field = "description")) = .ok u ↔
        ∀ field ∈ required, HasField limits record field (field = "description") := by
    intro u
    rw [show required.forM _ = forM required _ from rfl, forM_eq_ok]
    refine forall₂_congr fun field _ => ?_
    simp only [map_eq_ok, requireString_eq_ok]
    exact ⟨fun ⟨_, h, _⟩ => h.2, fun h => ⟨_, ⟨rfl, h⟩, trivial⟩⟩
  have hread : ∀ {id}, HasField limits record "id" (bytes "id" = "description") →
      ((record.atKey "id" >>= Json.getString) = .ok id ↔ id = stringAt record "id") := by
    intro id hfield
    rw [Json.atKey_eq_ok.mpr hfield.1]
    exact ⟨fun h => (Except.ok.inj h).symm, fun h => h ▸ rfl⟩
  constructor
  · intro h
    obtain ⟨hobject, h⟩ := throwIf_bind_eq_ok.mp h
    obtain ⟨_, hkeys, h⟩ := bind_eq_ok.mp h
    obtain ⟨_, hrequired, h⟩ := bind_eq_ok.mp h
    obtain ⟨id, hidOk, h⟩ := bind_eq_ok.mp h
    obtain ⟨hidentity, h⟩ := throwIf_bind_eq_ok.mp h
    have hkeys := allowedKeys_eq_ok.mp hkeys
    have hrequired := (hfields _).mp hrequired
    have hidEq := (hread (hrequired _ hid)).mp hidOk
    subst hidEq
    rw [not_or, not_not] at hidentity
    rw [find?_of_keys hkeys hasset] at h
    exact ⟨hidentity.2, ⟨not_not.mp hobject, hkeys, hrequired, hidentity.1⟩, (Except.ok.inj h).symm⟩
  · rintro ⟨hnew, hreadable, h⟩
    apply throwIf_bind_eq_ok.mpr
    refine ⟨not_not.mpr hreadable.object, ?_⟩
    rw [allowedKeys_eq_ok (u := ()) |>.mpr hreadable.keys, ok_bind, (hfields ()).mpr hreadable.fields, ok_bind,
      (hread (hreadable.fields _ hid)).mpr rfl, ok_bind]
    apply throwIf_bind_eq_ok.mpr
    refine ⟨?_, ?_⟩
    · rw [not_or, not_not]
      exact ⟨hreadable.identity, hnew⟩
    · rw [find?_of_keys hreadable.keys hasset, h]
      rfl

end

/-! ### Rows -/

section
variable {limits : Limits} {headers : Headers} {assets : List Bytes} {tags : List Json}

/-- The cells of the columns are as they should be. -/
def HasCells (limits : Limits) (headers : Headers) (keys : List Bytes) (row : List Bytes) : Prop :=
  ∀ key ∈ keys, IsCell limits true (column headers row key)

/-- The id of a row. -/
def rowId (headers : Headers) (row : List Bytes) : Bytes := column headers row "id"

/-! #### Relationships -/

def relationshipRecord (headers : Headers) (row : List Bytes) : Json :=
  .object [("id", .str (rowId headers row)), ("from", .str (column headers row "from")),
    ("to", .str (column headers row "to")), ("kind", .str (column headers row "kind"))]

/-- The endpoints of a relationship are distinct and declared. -/
def Connects (headers : Headers) (assets : List Bytes) (row : List Bytes) : Prop :=
  column headers row "from" ≠ column headers row "to" ∧ column headers row "from" ∈ assets ∧
    column headers row "to" ∈ assets

instance (row : List Bytes) : Decidable (Connects headers assets row) :=
  inferInstanceAs (Decidable (_ ∧ _ ∧ _))

def relationshipFate (headers : Headers) (assets : List Bytes) (row : List Bytes) : Fate :=
  if Connects headers assets row then .emitted (relationshipRecord headers row)
  else .unresolved "unknown_relationship_endpoint"
    "relationship is not emitted because its endpoints are undeclared or identical"

structure ReadableRelationship (limits : Limits) (headers : Headers) (row : List Bytes) : Prop where
  cells : HasCells limits headers ["id", "from", "to", "kind"] row
  identity : validIdentity (rowId headers row) = true

theorem reads_relationships : Reads (relationshipRow limits headers assets)
    (ReadableRelationship limits headers) (rowId headers) (relationshipFate headers assets) := by
  intro seen path row out
  unfold relationshipRow
  simp only [cell_bind_eq_ok, throwIf_bind_eq_ok, not_or, not_not]
  have htail : (if column headers row "from" = column headers row "to" ∨
        column headers row "from" ∉ assets ∨ column headers row "to" ∉ assets then
      pure (rowId headers row, .unresolved "unknown_relationship_endpoint"
        "relationship is not emitted because its endpoints are undeclared or identical")
      else pure (rowId headers row, .emitted (relationshipRecord headers row)) :
        Result (Bytes × Fate)) = .ok (rowId headers row, relationshipFate headers assets row) := by
    unfold relationshipFate
    by_cases h : Connects headers assets row
    · rw [if_pos h, if_neg (by unfold Connects at h; tauto)]
      rfl
    · rw [if_neg h, if_pos (by unfold Connects at h; tauto)]
      rfl
  constructor
  · rintro ⟨hid, hfrom, hto, hkind, ⟨hidentity, hnew⟩, h⟩
    refine ⟨hnew, ⟨by simp [HasCells, *], hidentity⟩, ?_⟩
    exact (Except.ok.inj (htail.symm.trans h)).symm
  · rintro ⟨hnew, hread, h⟩
    have hcells := hread.cells
    simp only [HasCells, List.forall_mem_cons] at hcells
    obtain ⟨hid, hfrom, hto, hkind, -⟩ := hcells
    exact ⟨hid, hfrom, hto, hkind, ⟨hread.identity, hnew⟩, h ▸ htail⟩

/-! #### Tags -/

/-- The type of a tag, in lower case. -/
def dataTypeOf (headers : Headers) (row : List Bytes) : Bytes :=
  Bytes.lower (column headers row "data_type")

def tagRecord (headers : Headers) (row : List Bytes) : Json :=
  .object [("id", .str (rowId headers row)), ("asset_id", .str (column headers row "asset_id")),
    ("name", .str (column headers row "name")), ("role", .str (column headers row "role")),
    ("data_type", .str (dataTypeOf headers row)), ("unit", .str (column headers row "unit")),
    ("source", .object [("server", .str (column headers row "server")),
      ("namespace_uri", .str (column headers row "namespace_uri")),
      ("identifier", .str (column headers row "identifier"))])]

/-- The type of a tag is supported and its owner declared. -/
def Belongs (headers : Headers) (assets : List Bytes) (row : List Bytes) : Prop :=
  dataTypeOf headers row ∈ supportedDataTypes ∧ column headers row "asset_id" ∈ assets

instance (row : List Bytes) : Decidable (Belongs headers assets row) :=
  inferInstanceAs (Decidable (_ ∧ _))

def tagFate (headers : Headers) (assets : List Bytes) (row : List Bytes) : Fate :=
  if dataTypeOf headers row ∉ supportedDataTypes then .unresolved "unsupported_tag_type"
    "tag is not emitted because its data_type is not supported by the native model"
  else if column headers row "asset_id" ∉ assets then .unresolved "unknown_tag_owner"
    "tag is not emitted because its asset_id is not declared in the asset hierarchy"
  else .emitted (tagRecord headers row)

structure ReadableTag (limits : Limits) (headers : Headers) (row : List Bytes) : Prop where
  cells : HasCells limits headers
    ["id", "asset_id", "name", "role", "data_type", "server", "namespace_uri", "identifier"] row
  unit : IsCell limits false (column headers row "unit")
  identity : validIdentity (rowId headers row) = true

theorem reads_tags : Reads (tagRow limits headers assets) (ReadableTag limits headers)
    (rowId headers) (tagFate headers assets) := by
  intro seen path row out
  unfold tagRow
  simp only [cell_bind_eq_ok, throwIf_bind_eq_ok, not_or, not_not]
  have htail : (if dataTypeOf headers row ∉ supportedDataTypes then
      pure (rowId headers row, .unresolved "unsupported_tag_type"
        "tag is not emitted because its data_type is not supported by the native model")
      else if column headers row "asset_id" ∉ assets then
        pure (rowId headers row, .unresolved "unknown_tag_owner"
          "tag is not emitted because its asset_id is not declared in the asset hierarchy")
      else pure (rowId headers row, .emitted (tagRecord headers row)) : Result (Bytes × Fate)) =
        .ok (rowId headers row, tagFate headers assets row) := by
    unfold tagFate
    split_ifs <;> rfl
  constructor
  · rintro ⟨hid, howner, ⟨hidentity, hnew⟩, hname, hrole, htype, hunit, hserver, hnamespace,
      hidentifier, h⟩
    refine ⟨hnew, ⟨by simp [HasCells, *], hunit, hidentity⟩, ?_⟩
    exact (Except.ok.inj (htail.symm.trans h)).symm
  · rintro ⟨hnew, hread, h⟩
    have hcells := hread.cells
    simp only [HasCells, List.forall_mem_cons] at hcells
    obtain ⟨hid, howner, hname, hrole, htype, hserver, hnamespace, hidentifier, -⟩ := hcells
    exact ⟨hid, howner, ⟨hread.identity, hnew⟩, hname, hrole, htype, hread.unit, hserver,
      hnamespace, hidentifier, h ▸ htail⟩

/-! #### Alarms -/

/-- The emitted tag an alarm names. -/
def tagOf (headers : Headers) (tags : List Json) (row : List Bytes) : Option Json :=
  tags.find? fun candidate => stringAt candidate "id" = column headers row "tag_id"

/-- The owner of an alarm is declared, and owns the tag. -/
def Refers (headers : Headers) (assets : List Bytes) (tags : List Json) (row : List Bytes) : Prop :=
  column headers row "asset_id" ∈ assets ∧
    (tagOf headers tags row).map (stringAt · "asset_id") = some (column headers row "asset_id")

instance (row : List Bytes) : Decidable (Refers headers assets tags row) :=
  inferInstanceAs (Decidable (_ ∧ _))

/-- The severity of an alarm, in lower case. -/
def severityOf (headers : Headers) (row : List Bytes) : Bytes :=
  Bytes.lower (column headers row "severity")

/-- The operator and the severity are supported. -/
def Supported (headers : Headers) (row : List Bytes) : Prop :=
  column headers row "operator" ∈ alarmOperators ∧ severityOf headers row ∈ alarmSeverities

instance (row : List Bytes) : Decidable (Supported headers row) :=
  inferInstanceAs (Decidable (_ ∧ _))

def alarmRecord (headers : Headers) (row : List Bytes) : Json :=
  .object [("id", .str (rowId headers row)), ("asset_id", .str (column headers row "asset_id")),
    ("name", .str (column headers row "name")), ("tag_id", .str (column headers row "tag_id")),
    ("operator", .str (column headers row "operator")),
    ("threshold", .float ((fromChars (column headers row "threshold")).getD 0)),
    ("severity", .str (severityOf headers row))]

def alarmFate (headers : Headers) (assets : List Bytes) (tags : List Json) (row : List Bytes) :
    Fate :=
  if ¬ Refers headers assets tags row then .unresolved "unknown_alarm_reference"
    "alarm is not emitted because its owner or tag is undeclared"
  else if ¬ Supported headers row then .unresolved "unsupported_alarm_definition"
    "alarm is not emitted because its operator or severity is unsupported"
  else .emitted (alarmRecord headers row)

/-- What defines an alarm is read only once its references hold, its name only where it is emitted. -/
structure ReadableAlarm (limits : Limits) (headers : Headers) (assets : List Bytes)
    (tags : List Json) (row : List Bytes) : Prop where
  cells : HasCells limits headers ["id", "asset_id", "tag_id"] row
  identity : validIdentity (rowId headers row) = true
  definition : Refers headers assets tags row →
    HasCells limits headers ["threshold", "operator", "severity"] row
  threshold : Refers headers assets tags row →
    (fromChars (column headers row "threshold")).isSome = true
  name : Refers headers assets tags row → Supported headers row →
    IsCell limits true (column headers row "name")

theorem refers_iff (row : List Bytes) : (column headers row "asset_id" ∉ assets ∨
    (tags.find? fun candidate => stringAt candidate "id" = column headers row "tag_id").all
      (fun tag => stringAt tag "asset_id" ≠ column headers row "asset_id") = true) ↔
      ¬ Refers headers assets tags row := by
  unfold Refers tagOf
  cases tags.find? fun candidate => stringAt candidate "id" = column headers row "tag_id" with
  | none => simp
  | some tag =>
    simp only [Option.all_some, decide_eq_true_eq, Option.map_some, Option.some.injEq]
    tauto

theorem supported_iff (row : List Bytes) : (column headers row "operator" ∉ alarmOperators ∨
    Bytes.lower (column headers row "severity") ∉ alarmSeverities) ↔ ¬ Supported headers row := by
  unfold Supported severityOf
  tauto

theorem readThreshold_bind_eq_ok {α : Type} {path text : Bytes} {f : Float → Result α} {a : α} :
    (readThreshold path text >>= f) = .ok a ↔
      (fromChars text).isSome = true ∧ f ((fromChars text).getD 0) = .ok a := by
  unfold readThreshold
  cases fromChars text with
  | some x => simp only [ok_bind, Option.isSome_some, Option.getD_some, true_and]
  | none => simp only [error_bind, Option.isSome_none, Bool.false_eq_true, reduceCtorEq, false_and]

theorem reads_alarms : Reads (alarmRow limits headers assets tags)
    (ReadableAlarm limits headers assets tags) (rowId headers) (alarmFate headers assets tags) := by
  intro seen path row out
  unfold alarmRow alarmFate
  simp only [cell_bind_eq_ok, throwIf_bind_eq_ok, not_or, not_not, refers_iff]
  by_cases hrefers : Refers headers assets tags row
  · rw [if_neg (not_not_intro hrefers), if_neg (not_not_intro hrefers)]
    simp only [cell_bind_eq_ok, readThreshold_bind_eq_ok, supported_iff]
    by_cases hsupported : Supported headers row
    · rw [if_neg (not_not_intro hsupported), if_neg (not_not_intro hsupported), cell_bind_eq_ok]
      constructor
      · rintro ⟨hid, howner, htag, ⟨hidentity, hnew⟩, htext, hsome, hoperator, hseverity, hname, h⟩
        refine ⟨hnew, ⟨by simp [HasCells, *], hidentity, fun _ => by simp [HasCells, *],
          fun _ => hsome, fun _ _ => hname⟩, ?_⟩
        exact (Except.ok.inj h).symm
      · rintro ⟨hnew, hread, h⟩
        have hcells := hread.cells
        have hdefinition := hread.definition hrefers
        simp only [HasCells, List.forall_mem_cons] at hcells hdefinition
        obtain ⟨hid, howner, htag, -⟩ := hcells
        obtain ⟨htext, hoperator, hseverity, -⟩ := hdefinition
        exact ⟨hid, howner, htag, ⟨hread.identity, hnew⟩, htext, hread.threshold hrefers, hoperator,
          hseverity, hread.name hrefers hsupported, h ▸ rfl⟩
    · rw [if_pos hsupported, if_pos hsupported]
      constructor
      · rintro ⟨hid, howner, htag, ⟨hidentity, hnew⟩, htext, hsome, hoperator, hseverity, h⟩
        refine ⟨hnew, ⟨by simp [HasCells, *], hidentity, fun _ => by simp [HasCells, *],
          fun _ => hsome, fun _ h => absurd h hsupported⟩, ?_⟩
        exact (Except.ok.inj h).symm
      · rintro ⟨hnew, hread, h⟩
        have hcells := hread.cells
        have hdefinition := hread.definition hrefers
        simp only [HasCells, List.forall_mem_cons] at hcells hdefinition
        obtain ⟨hid, howner, htag, -⟩ := hcells
        obtain ⟨htext, hoperator, hseverity, -⟩ := hdefinition
        exact ⟨hid, howner, htag, ⟨hread.identity, hnew⟩, htext, hread.threshold hrefers, hoperator,
          hseverity, h ▸ rfl⟩
  · rw [if_pos hrefers, if_pos hrefers]
    constructor
    · rintro ⟨hid, howner, htag, ⟨hidentity, hnew⟩, h⟩
      refine ⟨hnew, ⟨by simp [HasCells, *], hidentity, fun h => absurd h hrefers,
        fun h => absurd h hrefers, fun h => absurd h hrefers⟩, ?_⟩
      exact (Except.ok.inj h).symm
    · rintro ⟨hnew, hread, h⟩
      have hcells := hread.cells
      simp only [HasCells, List.forall_mem_cons] at hcells
      obtain ⟨hid, howner, htag, -⟩ := hcells
      exact ⟨hid, howner, htag, ⟨hread.identity, hnew⟩, h ▸ rfl⟩

end

end ContextHmi.Import
