import ContextHmi.Engine.Rearrangement
import ContextHmi.Engine.Refinement
import ContextHmi.Engine.Saved
import ContextHmi.Runtime.Loading

/-!
# What a task resolves to

The view of an accepted task has one component and one dependency for every tag or alarm the task
asks for, in order, and nothing else; the order of the arrays of the model does not matter. A model
or a task that is not accepted is reported as such.

* `resolveTask_throws` : every exception is `invalid_model` or `invalid_task`;
* `indexModel_permuted` : a model stays accepted in any order;
* `resolveTask_exact`  : what the view shows.
-/

namespace ContextHmi

open Outcome

/-! ### Models are only refused -/

/-- The exception is `invalid_model`. -/
def Error.IsInvalidModel (e : Error) : Prop := ∃ details, e = invalid details

/-- The call returns or throws `invalid_model`. -/
abbrev RefusesModel {α : Type} (x : Result α) : Prop := Throws Error.IsInvalidModel x

theorem required_refuses (j : Json) (k p : Bytes) : RefusesModel (required j k p) := by
  unfold required
  split
  · exact throws_ok _
  · exact throws_error ⟨_, rfl⟩

theorem stringField_refuses (j : Json) (k p : Bytes) (max : Nat) :
    RefusesModel (stringField j k p max) := by
  refine throws_bind (required_refuses j k p) fun v _ => ?_
  split
  · refine throws_bind (throws_throwIf ⟨_, rfl⟩) fun _ _ => ?_
    exact throws_bind (throws_throwIf ⟨_, rfl⟩) fun _ _ => throws_pure _
  · exact throws_error ⟨_, rfl⟩

theorem identityField_refuses (j : Json) (k p : Bytes) : RefusesModel (identityField j k p) :=
  throws_bind (stringField_refuses j k p _) fun _ _ =>
    throws_bind (throws_throwIf ⟨_, rfl⟩) fun _ _ => throws_pure _

theorem allowOnly_refuses (j : Json) (names : List Bytes) (p : Bytes) :
    RefusesModel (allowOnly j names p) := by
  refine throws_bind (throws_throwIf ⟨_, rfl⟩) fun _ _ => ?_
  split
  · exact throws_error ⟨_, rfl⟩
  · exact throws_ok _

theorem unitField_refuses (j : Json) (k p : Bytes) : RefusesModel (unitField j k p) := by
  refine throws_bind (required_refuses j k p) fun v _ => ?_
  split
  · refine throws_bind (throws_throwIf ⟨_, rfl⟩) fun _ _ => ?_
    exact throws_bind (throws_throwIf ⟨_, rfl⟩) fun _ _ => throws_pure _
  · exact throws_error ⟨_, rfl⟩

theorem boundedArray_refuses (j : Json) (k p : Bytes) (max : Nat) :
    RefusesModel (boundedArray j k p max) :=
  throws_bind (required_refuses j k p) fun _ _ =>
    throws_bind (throws_throwIf ⟨_, rfl⟩) fun _ _ => throws_pure _

theorem optionalField_refuses (j : Json) (k p : Bytes) (max : Nat) :
    RefusesModel (optionalField j k p max) := by
  unfold optionalField
  split
  · exact throws_map (stringField_refuses j k p max)
  · exact throws_ok ()

theorem sourceField_refuses (j : Json) (p : Bytes) : RefusesModel (sourceField j p) := by
  refine throws_bind (required_refuses j _ p) fun _ _ => ?_
  refine throws_bind (allowOnly_refuses _ _ _) fun _ _ => ?_
  refine throws_bind (stringField_refuses _ _ _ _) fun _ _ => ?_
  refine throws_bind (stringField_refuses _ _ _ _) fun _ _ => ?_
  exact throws_bind (stringField_refuses _ _ _ _) fun _ _ => throws_pure _

theorem aliasesFrom_refuses (p : Bytes) (i : Nat) (items : List Json) :
    RefusesModel (aliasesFrom p i items) := by
  induction items generalizing i with
  | nil => exact throws_ok []
  | cons item rest ih =>
    unfold aliasesFrom
    split
    · refine throws_bind (throws_throwIf ⟨_, rfl⟩) fun _ _ => ?_
      exact throws_bind (ih (i + 1)) fun _ _ => throws_pure _
    · exact throws_error ⟨_, rfl⟩

theorem aliasesField_refuses (j : Json) (p : Bytes) : RefusesModel (aliasesField j p) := by
  unfold aliasesField
  split
  · exact throws_ok none
  · refine throws_bind (throws_throwIf ⟨_, rfl⟩) fun _ _ => ?_
    exact throws_map (aliasesFrom_refuses _ _ _)

theorem readRelationship_refuses (assets : List Asset) (p : Bytes) (j : Json) :
    RefusesModel (readRelationship assets p j) := by
  refine throws_bind (allowOnly_refuses _ _ _) fun _ _ => ?_
  refine throws_bind (identityField_refuses _ _ _) fun _ _ => ?_
  refine throws_bind (identityField_refuses _ _ _) fun _ _ => ?_
  refine throws_bind (identityField_refuses _ _ _) fun _ _ => ?_
  refine throws_bind (stringField_refuses _ _ _ _) fun _ _ => ?_
  refine throws_bind (throws_throwIf ⟨_, rfl⟩) fun _ _ => ?_
  exact throws_bind (throws_throwIf ⟨_, rfl⟩) fun _ _ => throws_pure _

theorem readTag_refuses (assets : List Asset) (p : Bytes) (j : Json) :
    RefusesModel (readTag assets p j) := by
  refine throws_bind (allowOnly_refuses _ _ _) fun _ _ => ?_
  refine throws_bind (identityField_refuses _ _ _) fun _ _ => ?_
  refine throws_bind (identityField_refuses _ _ _) fun _ _ => ?_
  refine throws_bind (stringField_refuses _ _ _ _) fun _ _ => ?_
  refine throws_bind (stringField_refuses _ _ _ _) fun _ _ => ?_
  refine throws_bind (stringField_refuses _ _ _ _) fun _ _ => ?_
  refine throws_bind (throws_throwIf ⟨_, rfl⟩) fun _ _ => ?_
  refine throws_bind (unitField_refuses _ _ _) fun _ _ => ?_
  refine throws_bind (throws_throwIf ⟨_, rfl⟩) fun _ _ => ?_
  refine throws_bind (sourceField_refuses _ _) fun _ _ => ?_
  exact throws_bind (throws_throwIf ⟨_, rfl⟩) fun _ _ => throws_pure _

theorem readAlarm_refuses (assets : List Asset) (tags : List Tag) (p : Bytes) (j : Json) :
    RefusesModel (readAlarm assets tags p j) := by
  refine throws_bind (allowOnly_refuses _ _ _) fun _ _ => ?_
  refine throws_bind (identityField_refuses _ _ _) fun _ _ => ?_
  refine throws_bind (identityField_refuses _ _ _) fun _ _ => ?_
  refine throws_bind (identityField_refuses _ _ _) fun _ _ => ?_
  refine throws_bind (stringField_refuses _ _ _ _) fun _ _ => ?_
  refine throws_bind (stringField_refuses _ _ _ _) fun _ _ => ?_
  refine throws_bind (stringField_refuses _ _ _ _) fun _ _ => ?_
  refine throws_bind (required_refuses _ _ _) fun _ _ => ?_
  refine throws_bind (throws_throwIf ⟨_, rfl⟩) fun _ _ => ?_
  refine throws_bind (throws_throwIf ⟨_, rfl⟩) fun _ _ => ?_
  split
  · exact throws_error ⟨_, rfl⟩
  · refine throws_bind (throws_throwIf ⟨_, rfl⟩) fun _ _ => ?_
    refine throws_bind (throws_throwIf ⟨_, rfl⟩) fun _ _ => ?_
    refine throws_bind (throws_throwIf ⟨_, rfl⟩) fun _ _ => ?_
    exact throws_bind (throws_throwIf ⟨_, rfl⟩) fun _ _ => throws_pure _

theorem indexAll_refuses {α : Type} {key noun : Bytes} {read : Bytes → Json → Result α}
    {id : α → Bytes} {js : List Json} (hread : ∀ j ∈ js, ∀ p, RefusesModel (read p j))
    (acc : List α) : RefusesModel (indexAll key noun read id acc js) := by
  induction js generalizing acc with
  | nil => exact throws_ok acc
  | cons j js ih =>
    obtain ⟨hj, hjs⟩ := List.forall_mem_cons.mp hread
    refine throws_bind (hj _) fun _ _ => ?_
    exact throws_bind (throws_throwIf ⟨_, rfl⟩) fun _ _ => ih hjs _

theorem revisionField_refuses (j : Json) : RefusesModel (revisionField j) := by
  refine throws_bind (required_refuses _ _ _) fun v _ => ?_
  refine throws_bind (throws_throwIf ⟨_, rfl⟩) fun _ hinteger => ?_
  have hread : ∃ n, v.getUInt64 = .ok n := by
    rw [throwIf_eq_ok, not_not] at hinteger
    cases v with
    | int i => exact ⟨_, rfl⟩
    | uint n => exact ⟨_, rfl⟩
    | _ => simp [isNonnegativeInteger] at hinteger
  refine throws_bind (throws_of_ok hread) fun _ _ => ?_
  exact throws_bind (throws_throwIf ⟨_, rfl⟩) fun _ _ => throws_pure _

section
variable [Platform]

theorem checkMetadata_refuses {j : Json} (hj : j.IsText) (max : Nat) (details : Bytes) :
    RefusesModel (checkMetadata j max details) := by
  unfold checkMetadata
  split
  · exact throws_ok ()
  · rename_i metadata hmetadata
    have hdump : ∃ text, metadata.dump = .ok text :=
      Json.dump_isOk_iff.mpr (Runtime.isText_of_find? hj hmetadata)
    refine throws_bind (throws_throwIf ⟨_, rfl⟩) fun _ _ => ?_
    exact throws_bind (throws_of_ok hdump) fun _ _ => throws_throwIf ⟨_, rfl⟩

theorem readAsset_refuses {j : Json} (hj : j.IsText) (p : Bytes) : RefusesModel (readAsset p j) := by
  refine throws_bind (allowOnly_refuses _ _ _) fun _ _ => ?_
  refine throws_bind (identityField_refuses _ _ _) fun _ _ => ?_
  refine throws_bind (stringField_refuses _ _ _ _) fun _ _ => ?_
  refine throws_bind (stringField_refuses _ _ _ _) fun _ _ => ?_
  refine throws_bind (aliasesField_refuses _ _) fun _ _ => ?_
  exact throws_bind (checkMetadata_refuses hj _ _) fun _ _ => throws_pure _

theorem indexModel_refuses {model : Json} (h : model.IsText) : RefusesModel (indexModel model) := by
  refine throws_bind (allowOnly_refuses _ _ _) fun _ _ => ?_
  refine throws_bind (identityField_refuses _ _ _) fun _ _ => ?_
  refine throws_bind (revisionField_refuses _) fun _ _ => ?_
  refine throws_bind (stringField_refuses _ _ _ _) fun _ _ => ?_
  refine throws_bind (optionalField_refuses _ _ _ _) fun _ _ => ?_
  refine throws_bind (optionalField_refuses _ _ _ _) fun _ _ => ?_
  refine throws_bind (checkMetadata_refuses h _ _) fun _ _ => ?_
  refine throws_bind (boundedArray_refuses _ _ _ _) fun assetItems hassets => ?_
  refine throws_bind (boundedArray_refuses _ _ _ _) fun _ _ => ?_
  refine throws_bind (boundedArray_refuses _ _ _ _) fun _ _ => ?_
  refine throws_bind (boundedArray_refuses _ _ _ _) fun _ _ => ?_
  have htext : ∀ j ∈ assetItems, j.IsText := by
    cases Runtime.isText_of_find? h (boundedArray_eq_ok.mp hassets).1
    assumption
  refine throws_bind (indexAll_refuses (fun j hj p => readAsset_refuses (htext j hj) p) _)
    fun _ _ => ?_
  refine throws_bind (indexAll_refuses (fun j _ p => readRelationship_refuses _ p j) _)
    fun _ _ => ?_
  refine throws_bind (indexAll_refuses (fun j _ p => readTag_refuses _ p j) _) fun _ _ => ?_
  refine throws_bind (indexAll_refuses (fun j _ p => readAlarm_refuses _ _ p j) _) fun _ _ => ?_
  exact throws_pure _

/-- **Every bad input is reported**: reading the documents of a model of text throws `invalid_model`
or `invalid_task`, and nothing else. -/
theorem resolveTask_throws {model : Json} (hmap : model.Canonical) (htext : model.IsText)
    (task : Json) : RefusesModel (Documents.validateModel model) ∧
      Throws (fun e => e.IsInvalidModel ∨ e.IsInvalidTask) (Documents.resolveTask model task) := by
  rw [Documents.validateModel_eq hmap, Documents.resolveTask_eq hmap]
  refine ⟨throws_bind (indexModel_refuses htext) fun _ _ => throws_pure _, ?_⟩
  refine throws_bind (fun e he => .inl (indexModel_refuses htext e he)) fun index hindex e he => ?_
  let accepted : Runtime.AcceptedModel := ⟨model, index, hindex, htext⟩
  have hindexText : index.IsText :=
    ⟨fun _ h => accepted.tag_isText h, fun _ h => accepted.alarm_isText h⟩
  exact .inr (resolveTaskImpl_refusesTask accepted.wellFormed hindexText task e he)

end

section
local instance exactnessPlatform : Platform := samplePlatform

theorem sampleModel_canonical (revision : UInt64) (threshold : Json) (h : threshold.Canonical) :
    (sampleModel revision threshold).Canonical := by
  have hsource : (Json.object [("server", .str "plc"), ("namespace_uri", .str "urn:plant"),
      ("identifier", .str "level")]).Canonical :=
    Json.canonical_object (by simp [Json.Canonical.str])
  have hone : ∀ l, (∀ f ∈ l, f.2.Canonical) → (Json.arr [Json.object l]).Canonical :=
    fun l hl => .arr (by simpa using Json.canonical_object hl)
  refine Json.canonical_object ?_
  simp only [List.forall_mem_cons, List.not_mem_nil, false_implies, implies_true, and_true]
  refine ⟨.str _, .uint _, .str _, hone _ ?_, .arr (by simp), hone _ ?_, hone _ ?_⟩
  · simp [Json.Canonical.str]
  · simp [Json.Canonical.str, hsource]
  · simp [Json.Canonical.str, h]

/-- A task that is no object is reported. -/
theorem resolveTask_throws_sample :
    RefusesModel (Documents.validateModel (sampleModel 1 (.int 80))) ∧
      Throws (fun e => e.IsInvalidModel ∨ e.IsInvalidTask)
        (Documents.resolveTask (sampleModel 1 (.int 80)) .null) :=
  resolveTask_throws (sampleModel_canonical 1 _ (.int 80))
    (Json.dump_isOk_iff.mp ⟨_, eq_ok_of_isSome (by decide +kernel) []⟩) .null

end

/-! ### Views of rearranged models -/

section
variable {index index' : ModelIndex} (h : Rearranged index index') (wf : index.WellFormed)
include h wf

theorem isSome_asset?_congr (id : Bytes) :
    (index.asset? id).isSome = (index'.asset? id).isSome := by
  have wf' := h.wellFormed wf
  obtain ⟨moved, hmoved, hsame⟩ := h.assets
  have hmap : moved.map (·.id) = index'.assets.map (·.id) :=
    forall₂_map_eq (fun _ _ hab => hab.id) hsame
  rw [Bool.eq_iff_iff, ModelIndex.asset?, ModelIndex.asset?, Assoc.findKey_isSome_iff Asset.id,
    Assoc.findKey_isSome_iff Asset.id, ← hmap]
  exact (hmoved.map _).mem_iff

theorem assetName_congr (id : Bytes) : assetName index id = assetName index' id := by
  unfold assetName
  have hsome := isSome_asset?_congr h wf id
  cases hasset : index.asset? id with
  | none =>
    rw [hasset, Option.isSome_none, eq_comm, Option.isSome_eq_false_iff,
      Option.isNone_iff_eq_none] at hsome
    rw [hsome]
  | some asset =>
    obtain ⟨asset', hasset', hsame⟩ := asset?_congr h wf (h.wellFormed wf) hasset
    rw [hasset']
    exact congrArg Except.ok hsame.name

theorem tag?_congr (id : Bytes) : index.tag? id = index'.tag? id := by
  refine Option.ext fun tag => ?_
  rw [wf.tag?_eq_some, (h.wellFormed wf).tag?_eq_some, h.tags.mem_iff]

theorem overviewTags_congr (roles : List Bytes) (anchor : Bytes) :
    overviewTags index roles anchor = overviewTags index' roles anchor := by
  have hassets : Bytes.sortBy id (index.assets.map (·.id)) =
      Bytes.sortBy id (index'.assets.map (·.id)) := by
    obtain ⟨moved, hmoved, hsame⟩ := h.assets
    have hmap : moved.map (·.id) = index'.assets.map (·.id) :=
      forall₂_map_eq (fun _ _ hab => hab.id) hsame
    rw [← hmap]
    refine Bytes.sortBy_eq_of_perm (hmoved.map _) ?_
    rw [List.map_id]
    exact wf.assets_nodup
  have htags : ∀ asset : Bytes, Bytes.sortBy Tag.id
      (index.tags.filter fun tag => tag.assetId = asset && wants roles tag.role) =
        Bytes.sortBy Tag.id
          (index'.tags.filter fun tag => tag.assetId = asset && wants roles tag.role) :=
    fun asset => Bytes.sortBy_eq_of_perm (h.tags.filter _)
      (wf.tags_nodup.sublist (List.filter_sublist.map _))
  unfold overviewTags
  simp only [htags]
  split
  · rw [hassets]
  · rfl

theorem alarmRows_congr (roles : List Bytes) (anchor : Bytes) :
    alarmRows index roles anchor = alarmRows index' roles anchor := by
  have wf' := h.wellFormed wf
  obtain ⟨tagOf, htagOf, hrows⟩ := Documents.alarmRows_eq wf roles anchor
  obtain ⟨tagOf', htagOf', hrows'⟩ := Documents.alarmRows_eq wf' roles anchor
  have hshows : Documents.showsAlarm index roles anchor =
      Documents.showsAlarm index' roles anchor := by
    funext alarm
    rw [Documents.showsAlarm, Documents.showsAlarm, tag?_congr h wf]
  have hsorted : Bytes.sortBy Alarm.id
      (index.alarms.filter (Documents.showsAlarm index roles anchor)) =
        Bytes.sortBy Alarm.id
          (index'.alarms.filter (Documents.showsAlarm index' roles anchor)) := by
    rw [hshows]
    exact Bytes.sortBy_eq_of_perm (h.alarms.filter _)
      (wf.alarms_nodup.sublist (List.filter_sublist.map _))
  rw [hrows, hrows', hsorted]
  refine congrArg Except.ok (List.map_congr_left fun alarm halarm => ?_)
  have hmem := (List.mem_filter.mp (Bytes.mem_sortBy.mp halarm)).1
  have hsame := htagOf alarm (h.alarms.mem_iff.mpr hmem)
  rw [tag?_congr h wf, htagOf' alarm hmem, Option.some.injEq] at hsame
  rw [hsame]

/-- **The order of the records does not matter** to a task. -/
theorem resolveTaskImpl_rearranged [Platform] (task : Json) :
    resolveTaskImpl index task = resolveTaskImpl index' task := by
  have hcheck : checkTask index task = checkTask index' task := by
    have hanchor : checkTaskAnchor index task = checkTaskAnchor index' task := by
      unfold checkTaskAnchor
      cases task.find? "anchor_asset_id" with
      | none => rfl
      | some v =>
        cases v with
        | str anchor =>
          have hnone : (index.asset? anchor).isNone = (index'.asset? anchor).isNone := by
            rw [← Option.not_isSome, ← Option.not_isSome, isSome_asset?_congr h wf]
          show (do
            throwIf anchor.isEmpty (invalidTask "task.anchor_asset_id must be a non-empty string")
            throwIf (index.asset? anchor).isNone
              (invalidTask "task.anchor_asset_id references an unknown asset")) = _
          rw [hnone]
        | _ => rfl
    rw [checkTask, checkTask, checkTaskRevision, checkTaskModelId, h.revision, h.modelId, hanchor]
    rfl
  have heffective : effectiveTask index task = effectiveTask index' task := by
    rw [effectiveTask, effectiveTask, h.modelId]
  have hselection : ∀ kind anchor roles,
      selection index kind anchor roles = selection index' kind anchor roles := by
    intro kind anchor roles
    rw [selection, selection, overviewTags_congr h wf, alarmRows_congr h wf]
  have hbind : Subject.bind index = Subject.bind index' := by
    funext s
    rw [Subject.bind, Subject.bind, Subject.component, Subject.component, assetName_congr h wf]
  have hview : ∀ viewId title task bound nothing,
      composeView index viewId title task bound nothing =
        composeView index' viewId title task bound nothing := by
    intro viewId title task bound nothing
    rw [composeView, composeView, h.modelId, h.revision]
  have hnames : ∀ anchor slug word,
      viewNames index anchor slug word = viewNames index' anchor slug word := by
    intro anchor slug word
    rw [viewNames, viewNames, assetName_congr h wf]
  rw [resolveTaskImpl, resolveTaskImpl, hcheck, heffective]
  refine bind_congr_ok fun kind hkind => ?_
  rw [resolveKind_eq index (checkTask_kind hkind), resolveKind_eq index' (checkTask_kind hkind)]
  simp only [hnames, hselection, hbind, hview]

end

/-! ### What a view shows -/

/-- The model declares the subject. -/
structure Subject.Declared (index : ModelIndex) (s : Subject) : Prop where
  tag : s.tag ∈ index.tags
  alarm : ∀ alarm, s.alarm = some alarm → alarm ∈ index.alarms ∧ alarm.tagId = s.tag.id

/-- The task asks for the subject: it is of its kind, under its anchor and of its roles, where it
names them. -/
structure Asks (task : Json) (s : Subject) : Prop where
  kind : task.find? "kind" = some (.str "overview") ↔ s.alarm = none
  anchor : ∀ id, task.find? "anchor_asset_id" = some (.str id) → s.assetId = id
  roles : ∀ roles, task.find? "measurement_roles" = some (.arr roles) → .str s.tag.role ∈ roles

/-- Tags stand in the order of their assets and then of their ids, alarms in that of their ids. -/
def Subject.Before (s s' : Subject) : Prop :=
  if s.alarm = none then Bytes.ble s.assetId s'.assetId = true ∧
    (s.assetId = s'.assetId → Bytes.ble s.id s'.id = true)
  else Bytes.ble s.id s'.id = true

section
variable [Platform]

/-- A component and a dependency that describe the subject as the model declares it. -/
structure Subject.DescribedBy (s : Subject) (c d : Json) : Prop where
  component : ∀ f ∈ [(bytes "id", Json.str s.id), ("asset_id", .str s.assetId),
    ("tag_id", .str s.tag.id), ("role", .str s.tag.role), ("unit", .str s.tag.unit)],
      c.find? f.1 = some f.2
  dependency : ∀ f ∈ [(bytes "tag_id", Json.str s.tag.id), ("owner", .str s.tag.assetId),
    ("role", .str s.tag.role), ("data_type", .str s.tag.dataType), ("unit", .str s.tag.unit),
    ("source", s.tag.source.toJson), ("binding", tagBindingSnapshot s.tag)],
      d.find? f.1 = some f.2
  alarmId : c.find? "alarm_id" = (s.alarm.map fun alarm => .str alarm.id) ∧
    d.find? "alarm_id" = s.alarm.map fun alarm => .str alarm.id
  definition : d.find? "alarm_definition" = s.alarm.map alarmDefinitionSnapshot
  fingerprint : ∃ fingerprint rest, tagFingerprint s.tag = .ok fingerprint ∧
    d.find? "fingerprint" = some (.str fingerprint) ∧
    c.find? "dependency_fingerprints" = some (Json.strings (fingerprint :: rest))

/-- The view of the subjects, in order. -/
structure Shows (view : Json) (subjects : List Subject) (cs ds : List Json) : Prop where
  components : view.find? "components" = some (.arr cs)
  dependencies : view.find? "dependencies" = some (.arr ds)
  lengths : cs.length = subjects.length ∧ ds.length = subjects.length
  described : ∀ (i : Nat) (s : Subject) (c d : Json), subjects[i]? = some s → cs[i]? = some c →
    ds[i]? = some d → s.DescribedBy c d
  status : view.find? "status" = some (.str (if cs.isEmpty then "needs-review" else "ready"))

theorem Subject.describedBy_of_bind {index : ModelIndex} {s : Subject} {b : Json × Json}
    (halarm : ∀ alarm, s.alarm = some alarm → alarm.tagId = s.tag.id)
    (h : s.bind index = .ok b) : s.DescribedBy b.1 b.2 := by
  obtain ⟨hcomponent, hdependency⟩ := Subject.bind_eq_ok.mp h
  obtain ⟨tag, alarm⟩ := s
  cases alarm with
  | some alarm =>
    have htag := halarm alarm rfl
    simp only [Subject.component, alarmComponentFor, Outcome.bind_eq_ok, pure_eq_ok] at hcomponent
    simp only [Subject.dependency, dependencyForAlarm, dependencyFor, Outcome.bind_eq_ok,
      pure_eq_ok] at hdependency
    obtain ⟨fingerprint, hfingerprint, definition, -, hcomponent⟩ := hcomponent
    obtain ⟨_, ⟨fingerprint', hfingerprint', rfl⟩, _, -, hdependency⟩ := hdependency
    obtain rfl := Except.ok.inj (hfingerprint.symm.trans hfingerprint')
    rw [← hcomponent, ← hdependency]
    constructor
    case fingerprint =>
      refine ⟨fingerprint, [definition], hfingerprint, ?_, ?_⟩ <;>
        simp [Json.find?_setField, Json.find?_setFields]
    all_goals simp [Subject.id, Subject.assetId, Json.find?_setField, Json.find?_setFields, htag]
  | none =>
    simp only [Subject.component, componentFor, Outcome.bind_eq_ok, pure_eq_ok] at hcomponent
    simp only [Subject.dependency, dependencyFor, Outcome.bind_eq_ok, pure_eq_ok] at hdependency
    obtain ⟨_, -, fingerprint, hfingerprint, hcomponent⟩ := hcomponent
    obtain ⟨fingerprint', hfingerprint', hdependency⟩ := hdependency
    obtain rfl := Except.ok.inj (hfingerprint.symm.trans hfingerprint')
    rw [← hcomponent, ← hdependency]
    constructor
    case fingerprint =>
      refine ⟨fingerprint, [], hfingerprint, ?_, ?_⟩ <;> simp [Json.find?_setField]
    all_goals simp [Subject.id, Subject.assetId, Json.find?_setField]

omit [Platform] in
theorem pairwise_selection {index : ModelIndex} (wf : index.WellFormed) {kind anchor : Bytes}
    {roles : List Bytes} {subjects : List Subject}
    (h : selection index kind anchor roles = .ok subjects) : subjects.Pairwise Subject.Before := by
  unfold selection at h
  by_cases hkind : kind = "overview"
  · rw [if_pos hkind] at h
    obtain rfl := Except.ok.inj h
    rw [List.pairwise_map]
    have hassets : (if anchor.isEmpty then index.assets.map (·.id) else [anchor]).Nodup := by
      split
      · exact wf.assets_nodup
      · exact List.nodup_singleton _
    have horder := (Bytes.pairwise_sortBy id _).and
      ((Bytes.sortBy_perm id (if anchor.isEmpty then index.assets.map (·.id)
        else [anchor])).nodup_iff.mpr hassets)
    have howner : ∀ asset, ∀ tag ∈ Bytes.sortBy Tag.id (index.tags.filter fun tag =>
        tag.assetId = asset && wants roles tag.role), tag.assetId = asset := by
      intro asset tag htag
      have hboth := (List.mem_filter.mp (Bytes.mem_sortBy.mp htag)).2
      rw [Bool.and_eq_true, decide_eq_true_eq] at hboth
      exact hboth.1
    rw [overviewTags, List.pairwise_flatMap]
    refine ⟨fun asset _ => ?_, horder.imp fun {a b} hab x hx y hy => ?_⟩
    · refine (Bytes.pairwise_sortBy Tag.id _).imp_of_mem fun {x y} hx hy hxy => ?_
      rw [Subject.Before, if_pos rfl]
      refine ⟨?_, fun _ => hxy⟩
      show Bytes.ble x.assetId y.assetId = true
      rw [howner asset x hx, howner asset y hy]
      exact Bytes.ble_refl asset
    · -- tags of different assets stand in the order of the assets
      rw [Subject.Before, if_pos rfl]
      have hx := howner a x hx
      have hy := howner b y hy
      refine ⟨?_, fun hsame => absurd ?_ hab.2⟩
      · show Bytes.ble x.assetId y.assetId = true
        rw [hx, hy]
        exact hab.1
      · have hsame : x.assetId = y.assetId := hsame
        rw [← hx, ← hy, hsame]
  · rw [if_neg hkind, map_eq_ok] at h
    obtain ⟨rows, hrows, rfl⟩ := h
    rw [List.pairwise_map]
    simp only [alarmRows, bind_eq_ok, pure_eq_ok] at hrows
    obtain ⟨_, -, rfl⟩ := hrows
    refine (Bytes.pairwise_sortBy _ _).imp fun {x y} hxy => ?_
    rw [Subject.Before, if_neg (by simp)]
    exact hxy

omit [Platform] in
theorem requestedRoles_eq_ok {task : Json} {roles : List Bytes}
    (h : requestedRoles task = .ok roles) :
    task.find? "measurement_roles" = none ∧ roles = [] ∨
      task.find? "measurement_roles" = some (Json.strings roles) ∧ roles ≠ [] := by
  unfold requestedRoles at h
  cases hfind : task.find? "measurement_roles" with
  | none =>
    rw [hfind] at h
    exact .inl ⟨rfl, (Except.ok.inj h).symm⟩
  | some requested =>
    rw [hfind] at h
    simp only [bind_eq_ok, throwIf_eq_ok, pure_eq_ok, exists_const] at h
    obtain ⟨hshape, read, hread, -, rfl⟩ := h
    rw [not_or, not_or, not_not] at hshape
    obtain ⟨harray, hnonempty, -⟩ := hshape
    cases requested with
    | arr items =>
      have hitems : List.Forall₂ (fun j s => j = Json.str s) items read := by
        refine (mapM_eq_ok.mp hread).imp fun j s hj => ?_
        unfold requestedRole at hj
        split at hj
        · split_ifs at hj
          rw [Except.ok.inj hj]
        · cases hj
      have hmap : items = read.map Json.str := by
        have hmapped : items.map id = read.map Json.str := forall₂_map_eq (fun _ _ h => h) hitems
        rwa [List.map_id] at hmapped
      refine .inr ⟨by rw [hmap, Json.strings], ?_⟩
      intro hnil
      rw [hmap, hnil] at hnonempty
      exact hnonempty rfl
    | _ => simp [Json.isArray] at harray

theorem Composed.Of.selected_iff {index : ModelIndex} {task : Json} {c : Composed}
    (h : c.Of index task) (s : Subject) :
    s.Selected index c.kind c.anchor c.roles ↔ s.Declared index ∧ Asks task s := by
  have hkindFind := (checkTask_eq_ok h.kind).2
  have hkind : task.find? "kind" = some (.str "overview") ↔ c.kind = "overview" := by
    rw [hkindFind, Option.some.injEq, Json.str.injEq]
  have hanchor : (c.anchor = [] ∨ s.assetId = c.anchor) ↔
      ∀ id, task.find? "anchor_asset_id" = some (.str id) → s.assetId = id := by
    obtain ⟨anchor, hanchor, hdeclared⟩ := taskAnchor_of_checkTask h.kind
    have hcheck := h.kind
    simp only [checkTask, bind_eq_ok, pure_eq_ok] at hcheck
    obtain ⟨_, -, _, -, _, -, _, -, _, -, _, -, _, hcheck, -⟩ := hcheck
    have hread := h.anchor
    rw [taskAnchor, effectiveTask_find? h.isObject (by simp)] at hread
    unfold checkTaskAnchor at hcheck
    cases hfind : task.find? "anchor_asset_id" with
    | none =>
      rw [hfind] at hread
      exact iff_of_true (.inl (Except.ok.inj hread).symm) fun _ hid => by cases hid
    | some v =>
      rw [hfind] at hread hcheck
      cases v with
      | str id =>
        obtain rfl : id = c.anchor := Except.ok.inj hread
        simp only [bind_eq_ok, throwIf_eq_ok] at hcheck
        obtain ⟨_, hne, -⟩ := hcheck
        have hne : c.anchor ≠ [] := by simpa using hne
        simp [hne]
      | _ => cases hcheck
  have hroles : wants c.roles s.tag.role = true ↔ ∀ roles,
      task.find? "measurement_roles" = some (.arr roles) → .str s.tag.role ∈ roles := by
    have hread := requestedRoles_eq_ok h.roles
    rw [effectiveTask_find? h.isObject (by simp)] at hread
    rcases hread with ⟨hnone, hnil⟩ | ⟨hsome, hne⟩
    · rw [hnone, hnil]
      exact iff_of_true rfl fun _ hfind => by cases hfind
    · rw [hsome]
      simp [wants, Json.strings, hne]
  constructor
  · intro hs
    refine ⟨⟨hs.tag, hs.alarm⟩, ⟨?_, hanchor.mp hs.anchor, hroles.mp hs.wanted⟩⟩
    rw [hkind]
    have hk := hs.kind
    split_ifs at hk with hoverview
    · exact iff_of_true hoverview hk
    · exact iff_of_false hoverview (Option.isSome_iff_ne_none.mp hk)
  · intro hs
    obtain ⟨⟨htag, halarm⟩, hasks⟩ := hs
    refine ⟨htag, halarm, ?_, hanchor.mpr hasks.anchor, hroles.mpr hasks.roles⟩
    have hk := hasks.kind
    rw [hkind] at hk
    split_ifs with hoverview
    · exact hk.mp hoverview
    · exact Option.isSome_iff_ne_none.mpr fun hnone => hoverview (hk.mpr hnone)

theorem Composed.Of.shows {index : ModelIndex} (wf : index.WellFormed) {task : Json} {c : Composed}
    (h : c.Of index task) : Shows (c.view index task) c.subjects c.components c.dependencies := by
  have hlength := h.bound.length_eq
  refine ⟨?_, ?_, ?_, ?_, ?_⟩
  · rw [Composed.view_find? c task (by simp)]
    simp [composeView, Composed.components]
  · rw [Composed.view_find? c task (by simp)]
    simp [composeView, Composed.dependencies]
  · rw [Composed.components, Composed.dependencies, List.length_map, List.length_map]
    exact ⟨hlength.symm, hlength.symm⟩
  · intro i s comp dep hs hcomp hdep
    rw [Composed.components, List.getElem?_map, Option.map_eq_some_iff] at hcomp
    rw [Composed.dependencies, List.getElem?_map, Option.map_eq_some_iff] at hdep
    obtain ⟨b, hb, rfl⟩ := hcomp
    obtain ⟨b', hb', rfl⟩ := hdep
    obtain rfl := Option.some.inj (hb.symm.trans hb')
    obtain ⟨hi, rfl⟩ := List.getElem?_eq_some_iff.mp hs
    obtain ⟨hi', rfl⟩ := List.getElem?_eq_some_iff.mp hb
    have hselected := (mem_selection wf h.subjects).mp (List.getElem_mem hi)
    exact Subject.describedBy_of_bind (fun alarm halarm => (hselected.alarm alarm halarm).2)
      (h.bound.get hi hi')
  · rw [Composed.view_find? c task (by simp)]
    simp [composeView, Composed.components]

/-- **Task resolution is complete, exact and order-free.** -/
theorem resolveTask_exact {model task view : Json} (hmap : model.Canonical)
    (hview : Documents.resolveTask model task = .ok view) :
    ∃ (index : ModelIndex) (subjects : List Subject) (cs ds : List Json), index.EncodedBy model ∧
      (∀ s : Subject, s ∈ subjects ↔ s.Declared index ∧ Asks task s) ∧
      (subjects.map Subject.id).Nodup ∧
      subjects.Pairwise Subject.Before ∧
      Shows view subjects cs ds ∧
      ∀ model', model.Permuted model' → Documents.resolveTask model' task = .ok view := by
  rw [Documents.resolveTask_eq hmap, resolveTask, bind_eq_ok] at hview
  obtain ⟨index, hindex, hview⟩ := hview
  have wf := indexModel_wellFormed hindex
  obtain ⟨c, hc, rfl⟩ := resolveTaskImpl_eq_ok.mp hview
  refine ⟨index, c.subjects, c.components, c.dependencies, (indexModel_eq_ok.mp hindex).1,
    fun s => ?_, nodup_selection wf hc.subjects, pairwise_selection wf hc.subjects, hc.shows wf,
    fun model' hperm => ?_⟩
  · rw [mem_selection wf hc.subjects]
    exact hc.selected_iff s
  · obtain ⟨index', hindex', hrearranged⟩ := indexModel_permuted hperm hindex
    rw [Documents.resolveTask_eq (hperm.canonical hmap), resolveTask, hindex', ok_bind,
      ← resolveTaskImpl_rearranged hrearranged wf]
    exact hview

end

section
local instance exactViewPlatform : Platform := samplePlatform

/-- The overview of the tank. -/
def tankOverview : Json := .object [("kind", .str "overview"), ("model_revision", .uint 1),
  ("original_request", .str "Show the tank"), ("anchor_asset_id", .str "tank")]

/-- The view of the tank stays the same in any order of the model's arrays. -/
theorem resolveTask_exact_sample :
    ∃ view, Documents.resolveTask (sampleModel 1 (.int 80)) tankOverview = .ok view ∧
      ∀ model', (sampleModel 1 (.int 80)).Permuted model' →
        Documents.resolveTask model' tankOverview = .ok view := by
  have hview : Documents.resolveTask (sampleModel 1 (.int 80)) tankOverview =
      .ok ((Documents.resolveTask (sampleModel 1 (.int 80)) tankOverview).toOption.getD .null) :=
    eq_ok_of_isSome (by decide +kernel) .null
  obtain ⟨_, _, _, _, -, -, -, -, -, hpermuted⟩ :=
    resolveTask_exact (sampleModel_canonical 1 _ (.int 80)) hview
  exact ⟨_, hview, hpermuted⟩

end

end ContextHmi
