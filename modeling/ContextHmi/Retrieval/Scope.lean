import ContextHmi.Retrieval.Retrieve

/-!
# The scope of an interpretation

`validate_interpretation_scope`: a ready answer must stay within the context it was given. Its kind
is the hinted one, its anchor one of the eligible assets, its measurements among those retrieved and
all of those asked for.

* `scope_eq_ok` : a ready answer is accepted exactly when it keeps to its context.
-/

namespace ContextHmi.Retrieval

open Outcome

def mismatch (details : Bytes) : Error := .domain "interpretation_mismatch" details

/-- A single hint decides the kind. -/
def checkKindHint (retrieval task : Json) : Result Unit := do
  let hints ← retrieval.value "task_hints" (.arr [])
  match hints with
  | .arr [hint] =>
    let kind ← task.atKey "kind"
    throwIf (¬ kind.eqv hint)
      (mismatch "provider task kind conflicts with retrieved request evidence")
  | _ => .ok ()

def checkClarified (retrieval : Json) : Result Unit := do
  let required ← retrieval.valueBool "requires_clarification" false
  throwIf (required = true)
    (mismatch "provider answered ready when retrieved context requires clarification")

/-- `std::find(eligible.begin(), eligible.end(), Json(id)) != eligible.end()`, on an array. -/
def isListed (id : Bytes) (eligible : Json) : Bool :=
  eligible.isArray && eligible.items.any fun item => item.eqv (.str id)

def checkAnchor (index : ModelIndex) (retrieval task : Json) : Result Unit :=
  match task.find? "anchor_asset_id" with
  | none => do
    let specific ← retrieval.valueBool "specific_asset_reference" false
    throwIf (specific = true)
      (mismatch "provider omitted the asset identified by the operator request")
  | some anchor => do
    let id ← anchor.getString
    let eligible ← retrieval.value "eligible_asset_ids" (.arr [])
    throwIf ((index.asset? id).isSome ∧ ¬ isListed id eligible)
      (mismatch "provider selected an asset outside the retrieved operator scope")

/-- A selected role must be one of a retrieved tag. -/
def checkSelected (available : List Bytes) (role : Json) : Result Bytes := do
  let value ← role.getString
  throwIf (value ∉ available)
    (mismatch "provider selected a measurement outside the retrieved operator scope")
  return value

def checkRequested (selected : List Bytes) (role : Json) : Result Unit := do
  let value ← role.getString
  throwIf (value ∉ selected) (mismatch "provider omitted a requested measurement role")

def roleOf (tag : Json) : Result Bytes := tag.atKey "role" >>= Json.getString

def checkMeasurements (retrieval task : Json) : Result Unit :=
  match task.find? "measurement_roles" with
  | none => do
    let hints ← retrieval.value "measurement_role_hints" (.arr [])
    throwIf (¬ hints.isEmpty)
      (mismatch "provider omitted measurements identified by the operator request")
  | some roles => do
    let tags ← retrieval.atKey "scope" >>= (Json.atKey · "tags")
    let available ← tags.elements.mapM roleOf
    let selected ← roles.elements.mapM (checkSelected available)
    let hints ← retrieval.value "measurement_role_hints" (.arr [])
    forM hints.elements (checkRequested selected)

def checkReadyScope (index : ModelIndex) (retrieval interpretation : Json) : Result Unit := do
  let task ← interpretation.atKey "task"
  checkKindHint retrieval task
  checkClarified retrieval
  checkAnchor index retrieval task
  checkMeasurements retrieval task

/-- `validate_interpretation_scope`. -/
def validateInterpretationScope (index : ModelIndex) (retrieval interpretation : Json) :
    Result Unit := do
  let status ← interpretation.valueString "status" ""
  if status ≠ "ready" then return () else checkReadyScope index retrieval interpretation

/-! ### Against a context -/

section
variable {index : ModelIndex} {limits : RetrievalLimits} {d : Draft} {task : Json}

@[simp] theorem isObject_render : (d.render index limits).isObject = true := Json.isObject_object _

theorem find?_render_hints :
    (d.render index limits).find? "task_hints" = some (Json.strings d.taskHints) := by
  simp [Draft.render]

theorem find?_render_roles :
    (d.render index limits).find? "measurement_role_hints" = some (Json.strings d.roleHints) := by
  simp [Draft.render]

theorem find?_render_specific :
    (d.render index limits).find? "specific_asset_reference" = some (.bool d.specific) := by
  simp [Draft.render]

theorem find?_render_clarification :
    (d.render index limits).find? "requires_clarification" =
      some (.bool d.requiresClarification) := by
  simp [Draft.render]

theorem find?_render_eligible :
    (d.render index limits).find? "eligible_asset_ids" = some (Json.strings d.eligible) := by
  simp [Draft.render]

theorem find?_render_count :
    (d.render index limits).find? "eligible_asset_count" = some (count d.eligibleCount) := by
  simp [Draft.render]

theorem find?_render_candidates :
    (d.render index limits).find? "candidates" =
      some (.arr (d.candidates.map Listed.toJson)) := by
  simp [Draft.render]

theorem render_tags :
    (d.render index limits).atKey "scope" >>= (Json.atKey · "tags") = .ok (.arr d.tags) := by
  have hscope : (d.render index limits).find? "scope" = some (.object
      [("assets", .arr (d.assets.map compactAsset)), ("relationships", .arr d.relationships),
        ("tags", .arr d.tags), ("alarms", .arr d.alarms)]) := by
    simp [Draft.render]
  rw [Json.atKey_eq_ok.mpr hscope, ok_bind, Json.atKey_eq_ok]
  simp

theorem isListed_strings {id : Bytes} {ids : List Bytes} :
    isListed id (Json.strings ids) = true ↔ id ∈ ids := by
  have heqv : ∀ a : Bytes, (Json.str a).eqv (.str id) = true ↔ a = id := by simp [Json.eqv]
  simp [isListed, Json.strings, Json.isArray, Json.items, heqv]

theorem checkKindHint_eq_ok {kind : Bytes} (hkind : task.find? "kind" = some (.str kind)) {u : Unit} :
    checkKindHint (d.render index limits) task = .ok u ↔
      ∀ hint, d.taskHints = [hint] → kind = hint := by
  rw [checkKindHint, Json.value_of_find? find?_render_hints, ok_bind, Json.strings]
  cases d.taskHints with
  | nil => simp
  | cons hint rest =>
    cases rest with
    | nil =>
      simp only [List.map_cons, List.map_nil, Json.atKey_eq_ok.mpr hkind, ok_bind, throwIf_eq_ok]
      simp [Json.eqv]
    | cons hint' rest => simp

theorem checkClarified_eq_ok {u : Unit} :
    checkClarified (d.render index limits) = .ok u ↔ d.requiresClarification = false := by
  rw [checkClarified, Json.valueBool_of_find? find?_render_clarification, ok_bind, throwIf_eq_ok,
    Bool.not_eq_true]

/-- What the anchor of a task must be. -/
def AnchorWithin (index : ModelIndex) (d : Draft) (task : Json) : Prop :=
  match task.find? "anchor_asset_id" with
  | none => d.specific = false
  | some anchor => ∃ id, anchor = .str id ∧ ((index.asset? id).isSome → id ∈ d.eligible)

theorem checkAnchor_eq_ok {u : Unit} :
    checkAnchor index (d.render index limits) task = .ok u ↔ AnchorWithin index d task := by
  unfold checkAnchor AnchorWithin
  cases task.find? "anchor_asset_id" with
  | none =>
    simp only [Json.valueBool_of_find? find?_render_specific, ok_bind, throwIf_eq_ok,
      Bool.not_eq_true]
  | some anchor =>
    simp only [Json.value_of_find? find?_render_eligible, ok_bind, bind_eq_ok, throwIf_eq_ok,
      isListed_strings, not_and, not_not]
    cases anchor <;> simp [Json.getString]

theorem roleOf_compactTag (tag : Tag) : roleOf (compactTag tag) = .ok tag.role := by
  have hrole : (compactTag tag).find? "role" = some (.str tag.role) := by simp [compactTag]
  rw [roleOf, Json.atKey_eq_ok.mpr hrole, ok_bind, Json.getString]

theorem checkSelected_strings {available roles selected : List Bytes} :
    (roles.map Json.str).mapM (checkSelected available) = .ok selected ↔
      selected = roles ∧ ∀ role ∈ roles, role ∈ available := by
  have hone : ∀ role : Bytes, ∀ s, checkSelected available (.str role) = .ok s ↔
      s = role ∧ role ∈ available := by
    intro role s
    simp only [checkSelected, Json.getString, ok_bind, bind_eq_ok, throwIf_eq_ok, not_not,
      exists_const, pure_eq_ok]
    exact and_comm.trans (and_congr_left' eq_comm)
  rw [mapM_eq_ok, List.forall₂_map_left_iff]
  simp only [hone]
  induction roles generalizing selected with
  | nil => simp
  | cons role roles ih =>
    simp only [List.forall₂_cons_left_iff, ih, List.forall_mem_cons]
    constructor
    · rintro ⟨_, _, ⟨rfl, hin⟩, ⟨rfl, hall⟩, rfl⟩
      exact ⟨rfl, hin, hall⟩
    · rintro ⟨rfl, hin, hall⟩
      exact ⟨_, _, ⟨rfl, hin⟩, ⟨rfl, hall⟩, rfl⟩

/-- What the measurements of a task must be, for a context whose tags are `tags`. -/
def MeasurementsWithin (d : Draft) (tags : List Tag) (requested : Option (List Bytes)) : Prop :=
  match requested with
  | none => d.roleHints = []
  | some roles => (∀ role ∈ roles, role ∈ tags.map (·.role)) ∧ ∀ role ∈ d.roleHints, role ∈ roles

theorem checkMeasurements_eq_ok {tags : List Tag} (htags : d.tags = tags.map compactTag)
    {requested : Option (List Bytes)}
    (hroles : task.find? "measurement_roles" = requested.map Json.strings) {u : Unit} :
    checkMeasurements (d.render index limits) task = .ok u ↔ MeasurementsWithin d tags requested := by
  rw [checkMeasurements, hroles]
  cases requested with
  | none =>
    simp only [Option.map_none, Json.value_of_find? find?_render_roles, ok_bind, throwIf_eq_ok,
      not_not, MeasurementsWithin]
    simp [Json.strings, Json.isEmpty, Json.size]
  | some roles =>
    have havailable : d.tags.mapM roleOf = .ok (tags.map (·.role)) := by
      rw [htags, List.mapM_map]
      exact mapM_eq_map fun tag _ => roleOf_compactTag tag
    simp only [Option.map_some, render_tags, ok_bind, havailable,
      Json.value_of_find? find?_render_roles, Json.strings, Json.elements, bind_eq_ok,
      checkSelected_strings, forM_eq_ok, List.forall_mem_map, MeasurementsWithin]
    constructor
    · rintro ⟨_, ⟨rfl, havail⟩, hhints⟩
      exact ⟨havail, fun role hrole => by
        simpa [checkRequested, Json.getString] using hhints role hrole⟩
    · rintro ⟨havail, hhints⟩
      exact ⟨roles, ⟨rfl, havail⟩, fun role hrole => by
        simpa [checkRequested, Json.getString] using hhints role hrole⟩

/-- What an accepted ready answer keeps to. -/
structure Within (index : ModelIndex) (d : Draft) (tags : List Tag) (task : Json) (kind : Bytes)
    (requested : Option (List Bytes)) : Prop where
  kind : ∀ hint, d.taskHints = [hint] → kind = hint
  clarified : d.requiresClarification = false
  anchor : AnchorWithin index d task
  measurements : MeasurementsWithin d tags requested

/-- **A ready answer is accepted exactly when it keeps to its context.** -/
theorem scope_eq_ok {interpretation : Json} {tags : List Tag} {kind : Bytes}
    {requested : Option (List Bytes)} (htags : d.tags = tags.map compactTag)
    (hready : interpretation.find? "status" = some (.str "ready"))
    (htask : interpretation.find? "task" = some task)
    (hkind : task.find? "kind" = some (.str kind))
    (hroles : task.find? "measurement_roles" = requested.map Json.strings) {u : Unit} :
    validateInterpretationScope index (d.render index limits) interpretation = .ok u ↔
      Within index d tags task kind requested := by
  rw [validateInterpretationScope, Json.valueString_of_find? hready, ok_bind, if_neg (by simp),
    checkReadyScope, Json.atKey_eq_ok.mpr htask, ok_bind]
  simp only [bind_eq_ok, exists_const, checkKindHint_eq_ok hkind, checkClarified_eq_ok,
    checkAnchor_eq_ok, checkMeasurements_eq_ok htags hroles]
  constructor
  · rintro ⟨hk, hc, ha, hm⟩
    exact ⟨hk, hc, ha, hm⟩
  · rintro ⟨hk, hc, ha, hm⟩
    exact ⟨hk, hc, ha, hm⟩

end

end ContextHmi.Retrieval
