import ContextHmi.Engine.Composition
import ContextHmi.Inference.Validation
import ContextHmi.Retrieval.Scope
import ContextHmi.Retrieval.Scoring

/-!
# What an accepted answer is about

A provider is not trusted: its answer passes the schema, and then the scope of the context it was
given. The two checks together bind a ready answer to the assets the request is about, however much
of the context the budget loop has taken away.

* `ready_within_scope` : the asset, the measurements and the view of an accepted ready answer.
-/

namespace ContextHmi.Inference

open Outcome Retrieval

theorem ReadyTask.requested {task : Json} (h : ReadyTask task) :
    ∃ requested : Option (List Bytes),
      task.find? "measurement_roles" = requested.map Json.strings := by
  cases hroles : task.find? "measurement_roles" with
  | none => exact ⟨none, rfl⟩
  | some v =>
    obtain ⟨harray, hitems⟩ := h.roles v hroles
    obtain ⟨items, rfl⟩ : ∃ items, v = .arr items := by
      cases v <;> simp_all [isRoleArray, Json.isArray]
    have hstrings : ∀ item ∈ items, ∃ s, Json.str s = item := by
      intro item hitem
      obtain ⟨s, rfl, -⟩ := Json.isStringWith_eq_true.mp (List.all_eq_true.mp hitems item hitem)
      exact ⟨s, rfl⟩
    obtain ⟨roles, rfl⟩ : ∃ roles : List Bytes, items = roles.map Json.str := by
      clear hitems harray hroles
      induction items with
      | nil => exact ⟨[], rfl⟩
      | cons item items ih =>
        obtain ⟨⟨s, rfl⟩, hrest⟩ := List.forall_mem_cons.mp hstrings
        obtain ⟨roles, rfl⟩ := ih hrest
        exact ⟨s :: roles, rfl⟩
    exact ⟨some roles, rfl⟩

theorem exists_draft_tags {index : ModelIndex} {prompt : Bytes} {limits : RetrievalLimits}
    {d : Draft} (h : d.Below (requestDraft index prompt limits)) :
    ∃ tags : List Tag, d.tags = tags.map compactTag :=
  ⟨_, (List.prefix_iff_eq_take.mp h.tags).trans List.map_take.symm⟩

/-- An accepted ready answer, as a whole. -/
structure Bound [Platform] (model : Json) (index : ModelIndex) (prompt : Bytes)
    (retrieved task : Json) : Prop where
  /-- A tie is never accepted. -/
  unique : ∀ a b, TopScoring index (termsFor prompt) a → TopScoring index (termsFor prompt) b →
    a = b
  anchor : ∀ v, task.find? "anchor_asset_id" = some v →
    ∃ asset, TopScoring index (termsFor prompt) asset ∧ v = .str asset.id
  anchored : retrieved.find? "specific_asset_reference" = some (.bool true) →
    task.contains "anchor_asset_id" = true
  measurements : ∀ hints, retrieved.find? "measurement_role_hints" = some hints →
    ∀ role ∈ hints.elements, ∃ roles, task.find? "measurement_roles" = some roles ∧
      role ∈ roles.elements
  view : ∀ v view, task.find? "anchor_asset_id" = some v → resolveTask model task = .ok view →
    ∃ components, view.find? "components" = some (.arr components) ∧
      ∀ c ∈ components, c.find? "asset_id" = some v

/-- **An accepted ready answer is about the asset the request is about.** The budget loop may have
cut the context: it can only have asked for clarification by it. -/
theorem ready_within_scope [Platform] {model retrieved interpretation accepted task : Json}
    {index : ModelIndex} {prompt : Bytes} {limits : RetrievalLimits}
    (hindex : indexModel model = .ok index)
    (hretrieve : retrieve model prompt limits = .ok retrieved)
    (hvalid : validateInterpretation interpretation = .ok accepted)
    (hscope : validateInterpretationScope index retrieved interpretation = .ok ())
    (hready : interpretation.find? "status" = some (.str "ready"))
    (htask : interpretation.find? "task" = some task)
    (hknown : ∀ id, task.find? "anchor_asset_id" = some (.str id) → (index.asset? id).isSome) :
    Bound model index prompt retrieved task := by
  obtain ⟨index', d, hindex', -, -, hbelow, rfl⟩ := retrieve_eq_ok hretrieve
  obtain rfl : index = index' := Except.ok.inj (hindex.symm.trans hindex')
  have wf := indexModel_wellFormed hindex
  obtain ⟨task', htask', hchecked⟩ := ready_task hvalid hready
  obtain rfl : task = task' := Option.some.inj (htask.symm.trans htask')
  obtain ⟨kind, hkind, -⟩ := hchecked.kind
  obtain ⟨requested, hrequested⟩ := hchecked.requested
  obtain ⟨tags, htags⟩ := exists_draft_tags hbelow
  have hwithin := (scope_eq_ok htags hready htask hkind hrequested).mp hscope
  -- Without clarification the loop has not added any, so the first draft asked for none.
  have hfirst : (requestDraft index prompt limits).requiresClarification = false := by
    by_contra h
    have hraised := hbelow.clarification_kept (Bool.not_eq_false _ ▸ h)
    rw [hwithin.clarified] at hraised
    cases hraised
  have hanchor : ∀ v, task.find? "anchor_asset_id" = some v →
      ∃ asset, TopScoring index (termsFor prompt) asset ∧ v = .str asset.id := by
    intro v hv
    have hin := hwithin.anchor
    rw [AnchorWithin, hv] at hin
    obtain ⟨id, rfl, hlisted⟩ := hin
    obtain ⟨asset, htop, rfl⟩ := draftOf_eligible (hbelow.eligible.subset (hlisted (hknown id hv)))
    exact ⟨asset, htop, rfl⟩
  constructor
  case unique =>
    intro a b ha hb
    exact topScoring_unique wf.assets_nodup hfirst ha hb
  case anchor => exact hanchor
  case anchored =>
    intro hspecific
    rw [find?_render_specific] at hspecific
    by_contra hnone
    have hin := hwithin.anchor
    rw [AnchorWithin, Json.contains_eq_false.mp (Bool.not_eq_true _ ▸ hnone)] at hin
    simp [hin] at hspecific
  case measurements =>
    intro hints hhints role hrole
    rw [find?_render_roles] at hhints
    obtain rfl := Option.some.inj hhints
    obtain ⟨s, hs, rfl⟩ := List.mem_map.mp hrole
    have hin := hwithin.measurements
    cases requested with
    | none =>
      rw [MeasurementsWithin] at hin
      rw [hin] at hs
      cases hs
    | some roles =>
      exact ⟨Json.strings roles, hrequested, List.mem_map_of_mem (hin.2 s hs)⟩
  case view =>
    intro v view hv hview
    obtain ⟨s, rfl, hne⟩ := hchecked.anchor v hv
    simp only [resolveTask, hindex, ok_bind] at hview
    exact resolveTaskImpl_anchored wf hne hv hview

/-! ### A request for the level of a tank -/

section samples

local instance : Platform := samplePlatform

def tankModel : Json := sampleModel 1 (.int 80)

def tankIndex : ModelIndex := (indexModel tankModel).toOption.getD ⟨[], .null, [], [], [], []⟩

def levelTask : Json := .object [("kind", .str "overview"), ("anchor_asset_id", .str "tank"),
  ("measurement_roles", Json.strings ["level"]), ("model_revision", .uint 1),
  ("original_request", .str "show the tank level")]

def levelAnswer : Json :=
  .object [("interpreter", .str "rules"), ("status", .str "ready"), ("task", levelTask)]

def tankContext : Json := (retrieve tankModel "show the tank level" {}).toOption.getD .null

theorem ready_within_scope_level :
    Bound tankModel tankIndex "show the tank level" tankContext levelTask := by
  have hindex : indexModel tankModel = .ok tankIndex := eq_ok_of_isSome (by decide +kernel) _
  have hretrieve : retrieve tankModel "show the tank level" {} = .ok tankContext :=
    eq_ok_of_isSome (by decide +kernel) _
  have hvalid := eq_ok_of_isSome
    (show (validateInterpretation levelAnswer).toOption.isSome = true by decide +kernel) .null
  have hscope : validateInterpretationScope tankIndex tankContext levelAnswer = .ok () :=
    eq_ok_unit (by decide +kernel)
  refine ready_within_scope hindex hretrieve hvalid hscope (by simp [levelAnswer])
    (by simp [levelAnswer]) fun id hid => ?_
  have hanchor : levelTask.find? "anchor_asset_id" = some (.str "tank") := by simp [levelTask]
  rw [hanchor, Option.some.injEq, Json.str.injEq] at hid
  subst hid
  decide +kernel

end samples

end ContextHmi.Inference
