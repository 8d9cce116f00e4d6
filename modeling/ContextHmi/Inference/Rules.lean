import ContextHmi.Inference.Resolution
import ContextHmi.Retrieval.Hints
import ContextHmi.Retrieval.Noninterference

/-!
# The rules interpreter

`RuleInferenceProvider`: it answers from the retrieved context alone, with a task where the context
hints at one kind of view and needs no clarification. What it emits meets its own schema, the scope
and the resolver except where a context hints at more measurements, or longer ones, than the schema
of a task lets through.

* `ruleInterpretation_eq` : the answer of a context;
* `rules_usable_iff`      : when the answer is accepted and resolves.
-/

namespace ContextHmi.Inference

open Outcome Retrieval

/-! ### Rules -/

def ruleCandidate (candidate : Json) : Result Json := do
  let id ← candidate.atKey "asset_id"
  let name ← candidate.atKey "name"
  return .object [("asset_id", id), ("name", name)]

/-- The clarification every answer starts as. -/
def openAnswer (prompt : Bytes) (candidates : List Json) : Json :=
  .object [("interpreter", .str "rules"), ("prompt", .str prompt), ("status", .str "clarification"),
    ("message", .str "Specify whether to show measurements or alarms"),
    ("candidates", .arr candidates), ("supported_tasks", Json.strings ["overview", "alarms"])]

def clarifyReference (retrieval result : Json) : Result Json := do
  let eligible ← retrieval.atKey "eligible_asset_ids"
  return result.setField "message" (.str (if 1 < eligible.size
    then "The equipment reference is ambiguous; choose one asset"
    else "The equipment reference does not match declared context"))

/-- `at(0)` where `size() == 1`. -/
def soleElement (j : Json) : Result (Option Json) :=
  if j.size = 1 then some <$> j.atIndex 0 else .ok none

def ruleTask (index : ModelIndex) (prompt : Bytes) (retrieval hint : Json) : Result Json := do
  let task := Json.object [("kind", hint), ("model_id", .str index.modelId),
    ("model_revision", index.revision), ("original_request", .str prompt)]
  let eligible ← retrieval.atKey "eligible_asset_ids"
  let anchor ← soleElement eligible
  let roles ← retrieval.atKey "measurement_role_hints"
  return (task.setOptional "anchor_asset_id" anchor).setOptional "measurement_roles"
    (if roles.isEmpty then none else some roles)

def readyAnswer (result task : Json) : Json :=
  ((result.setField "status" (.str "ready")).eraseField "message").setField "task" task

def ruleReady (index : ModelIndex) (prompt : Bytes) (retrieval result : Json) : Result Json := do
  let hints ← retrieval.atKey "task_hints"
  let hint ← soleElement hints
  match hint with
  | none => return result
  | some hint => readyAnswer result <$> ruleTask index prompt retrieval hint

/-- `rule_interpretation`. -/
def ruleInterpretation (index : ModelIndex) (prompt : Bytes) (retrieval : Json) : Result Json := do
  let listed ← retrieval.atKey "candidates"
  let candidates ← listed.elements.mapM ruleCandidate
  let required ← retrieval.valueBool "requires_clarification" false
  if required then clarifyReference retrieval (openAnswer prompt candidates)
  else ruleReady index prompt retrieval (openAnswer prompt candidates)

/-- An exception that is not an `InferenceError` becomes one; the rules throw no others than the
library's. -/
def asInterpreterError : Error → Error
  | .json fault => .rethrown "interpreter_error" fault
  | e => e

/-- `RuleInferenceProvider::interpret`. -/
def RuleInferenceProvider.interpret (index : ModelIndex) (prompt : Bytes) (retrieval : Json) :
    Result Json := do
  throwIf (8192 < prompt.length) (.inference "prompt_too_large" "prompt exceeds maximum size")
  (ruleInterpretation index prompt retrieval >>= validateInterpretation).mapError asInterpreterError

/-! ### The answer of a context -/

/-- The one asset a task is for. -/
def anchorOf (d : Draft) : Option Bytes :=
  match d.eligible with
  | [id] => some id
  | _ => none

/-- The measurements a task asks for. -/
def rolesOf (d : Draft) : Option (List Bytes) := if d.roleHints.isEmpty then none else some d.roleHints

def taskOf (index : ModelIndex) (prompt : Bytes) (d : Draft) (hint : Bytes) : Json :=
  ((Json.object [("kind", .str hint), ("model_id", .str index.modelId),
    ("model_revision", index.revision), ("original_request", .str prompt)]).setOptional
    "anchor_asset_id" ((anchorOf d).map .str)).setOptional "measurement_roles"
    ((rolesOf d).map Json.strings)

def candidatesOf (d : Draft) : List Json :=
  d.candidates.map fun item => .object [("asset_id", .str item.candidate.id),
    ("name", .str item.candidate.asset.name)]

def messageOf (d : Draft) : Bytes :=
  if 1 < d.eligible.length then "The equipment reference is ambiguous; choose one asset"
  else "The equipment reference does not match declared context"

def answerOf (index : ModelIndex) (prompt : Bytes) (d : Draft) : Json :=
  if d.requiresClarification then
    (openAnswer prompt (candidatesOf d)).setField "message" (.str (messageOf d))
  else match d.taskHints with
    | [hint] => readyAnswer (openAnswer prompt (candidatesOf d)) (taskOf index prompt d hint)
    | _ => openAnswer prompt (candidatesOf d)

section
variable {index : ModelIndex} {limits : RetrievalLimits} {d : Draft} {prompt : Bytes}

theorem soleElement_strings (l : List Bytes) :
    soleElement (Json.strings l) = .ok ((match l with | [s] => some s | _ => none).map .str) := by
  cases l with
  | nil => rfl
  | cons s l =>
    cases l with
    | nil => rfl
    | cons s' l => simp [soleElement, Json.strings, Json.size]

theorem ruleTask_eq (hint : Bytes) :
    ruleTask index prompt (d.render index limits) (.str hint) = .ok (taskOf index prompt d hint) := by
  have hroles : (if (Json.strings d.roleHints).isEmpty then none
      else some (Json.strings d.roleHints)) = (rolesOf d).map Json.strings := by
    unfold rolesOf
    cases d.roleHints <;> simp [Json.strings, Json.isEmpty, Json.size]
  simp only [ruleTask, Json.atKey_eq_ok.mpr find?_render_eligible, ok_bind, soleElement_strings,
    Json.atKey_eq_ok.mpr find?_render_roles, hroles]
  rfl

/-- **The answer of a context.** -/
theorem ruleInterpretation_eq :
    ruleInterpretation index prompt (d.render index limits) = .ok (answerOf index prompt d) := by
  have hcandidates : (Json.arr (d.candidates.map Listed.toJson)).elements.mapM ruleCandidate =
      .ok (candidatesOf d) := by
    rw [Json.elements, List.mapM_map]
    refine mapM_eq_map fun item _ => ?_
    simp only [Function.comp_apply, ruleCandidate, Listed.toJson, bind_eq_ok, Json.atKey_eq_ok,
      Json.find?_object, pure_eq_ok]
    exact ⟨.str item.candidate.id, by simp, .str item.candidate.asset.name, by simp, rfl⟩
  simp only [ruleInterpretation, Json.atKey_eq_ok.mpr find?_render_candidates, ok_bind, hcandidates,
    Json.valueBool_of_find? find?_render_clarification]
  unfold answerOf
  cases d.requiresClarification with
  | true =>
    simp only [if_true, clarifyReference, Json.atKey_eq_ok.mpr find?_render_eligible, ok_bind]
    simp [messageOf, Json.strings, Json.size, pure, Except.pure]
  | false =>
    simp only [Bool.false_eq_true, if_false, ruleReady, Json.atKey_eq_ok.mpr find?_render_hints,
      ok_bind, soleElement_strings]
    cases d.taskHints with
    | nil => rfl
    | cons hint rest =>
      cases rest with
      | nil => simp only [Option.map_some, ruleTask_eq, ok_map]
      | cons hint' rest => rfl

/-! ### Its schema -/

theorem isRevisionNumber_of_isRevision {v : Json} (h : isRevision v) : isRevisionNumber v = true := by
  obtain ⟨hnonneg, n, hn, hle⟩ := h
  cases v with
  | int i =>
    simp only [isNonnegativeInteger, decide_eq_true_eq] at hnonneg
    obtain rfl := Except.ok.inj hn
    rw [Int64.toNat_toUInt64_of_le hnonneg, Int64.toNatClampNeg] at hle
    have hmax : i ≤ 4294967295 := by
      rw [Int64.le_iff_toInt_le]
      simp
      omega
    simp [isRevisionNumber, hnonneg, hmax]
  | uint m =>
    obtain rfl := Except.ok.inj hn
    have hsigned : (0 : Int64) ≤ m.toInt64 := by
      have hbits : m.toInt64.toInt = m.toBitVec.toInt := rfl
      rw [Int64.le_iff_toInt_le, hbits, BitVec.toInt_eq_toNat_of_lt (by simp; omega)]
      simp
    have hmax : m ≤ 4294967295 := by
      rw [UInt64.le_iff_toNat_le]
      simpa using hle
    simp [isRevisionNumber, hsigned, hmax]
  | _ => simp [isNonnegativeInteger] at hnonneg

/-- The members of a rules task. -/
structure TaskMembers (index : ModelIndex) (prompt : Bytes) (d : Draft) (hint : Bytes) (task : Json) :
    Prop where
  isObject : task.isObject = true
  only : ∀ k ∈ task.keys, k ∈ readyTaskFields
  kind : task.find? "kind" = some (.str hint)
  modelId : task.find? "model_id" = some (.str index.modelId)
  revision : task.find? "model_revision" = some index.revision
  request : task.find? "original_request" = some (.str prompt)
  anchor : task.find? "anchor_asset_id" = (anchorOf d).map .str
  roles : task.find? "measurement_roles" = (rolesOf d).map Json.strings

theorem taskOf_members (hint : Bytes) :
    TaskMembers index prompt d hint (taskOf index prompt d hint) := by
  constructor
  case isObject => simp [taskOf]
  case only =>
    intro k hk
    rcases Json.mem_keys_setOptional (by simp) hk with rfl | hk
    · simp [readyTaskFields]
    rcases Json.mem_keys_setOptional (by simp) hk with rfl | hk
    · simp [readyTaskFields]
    have hin := Json.mem_keys_object hk
    simp only [List.map_cons, List.map_nil, List.mem_cons, List.not_mem_nil, or_false] at hin
    rcases hin with rfl | rfl | rfl | rfl <;> simp [readyTaskFields]
  all_goals
    unfold taskOf
    simp [Json.find?_setOptional]

/-- The measurements the schema of a task lets through. -/
def RolesFit (roles : List Bytes) : Prop := roles.length ≤ 16 ∧ ∀ role ∈ roles, role.length ≤ 128

theorem TaskMembers.ready_iff (wf : index.WellFormed) {hint : Bytes} {task : Json}
    (h : TaskMembers index prompt d hint task) (hd : d.Answerable index limits)
    (hhint : hint ∈ d.taskHints) (hprompt : prompt.length ≤ 8192) :
    ReadyTask task ↔ RolesFit d.roleHints := by
  have hroles : (∀ v, task.find? "measurement_roles" = some v → isRoleArray v = true ∧
      v.items.all isRole = true) ↔ RolesFit d.roleHints := by
    rw [h.roles, rolesOf]
    cases hcase : d.roleHints with
    | nil => simp [RolesFit]
    | cons role rest =>
      have hne : ∀ r ∈ role :: rest, r ≠ [] := fun r hr => (hd.role r (hcase ▸ hr)).1
      simp only [List.isEmpty_cons, Bool.false_eq_true, if_false, Option.map_some,
        Option.some.injEq, forall_eq']
      rw [RolesFit]
      refine and_congr ?_ ?_
      · simp [isRoleArray, Json.strings, Json.isArray, Json.isEmpty, Json.size]
      · rw [Json.strings, Json.items, List.all_eq_true, List.forall_mem_map]
        refine forall₂_congr fun r hr => ?_
        simp [isRole, Json.isStringWith, hne r hr]
  constructor
  · exact fun hready => hroles.mp hready.roles
  · intro hfit
    exact {
      isObject := h.isObject
      only := fun item hitem => h.only item.1 (List.mem_map_of_mem hitem)
      kind := ⟨hint, h.kind, by rcases hd.kind hint hhint with rfl | rfl <;> simp [isTaskKind]⟩
      anchor := by
        intro v hv
        rw [h.anchor] at hv
        obtain ⟨id, hid, rfl⟩ := Option.map_eq_some_iff.mp hv
        have hmem : id ∈ d.eligible := by
          unfold anchorOf at hid
          split at hid
          · rename_i heq
            obtain rfl := Option.some.inj hid
            rw [heq]
            exact List.mem_singleton_self _
          · cases hid
        obtain ⟨asset, hasset⟩ := Option.isSome_iff_exists.mp (hd.declared id hmem)
        obtain ⟨hdeclared, rfl⟩ := wf.asset?_eq_some.mp hasset
        have hidentity := (wf.assets asset hdeclared).id
        simp only [isIdentity, Bool.and_eq_true] at hidentity
        exact ⟨_, rfl, (isText_iff.mp hidentity.1).1⟩
      modelId := by
        intro v hv
        rw [h.modelId, Option.some.injEq] at hv
        have hidentity := wf.modelId
        simp only [isIdentity, Bool.and_eq_true] at hidentity
        exact ⟨_, hv.symm, (isText_iff.mp hidentity.1).1⟩
      roles := hroles.mpr hfit
      revision := ⟨_, h.revision, isRevisionNumber_of_isRevision wf.revision⟩
      request := ⟨_, h.request, hprompt⟩ }

theorem clarification_eq (candidates : List Json) (message : Bytes) :
    (openAnswer prompt candidates).setField "message" (.str message) =
      .obj [("candidates", .arr candidates), ("interpreter", .str "rules"),
        ("message", .str message), ("prompt", .str prompt), ("status", .str "clarification"),
        ("supported_tasks", Json.strings ["overview", "alarms"])] := rfl

theorem openAnswer_eq (candidates : List Json) : openAnswer prompt candidates =
    (openAnswer prompt candidates).setField "message"
      (.str "Specify whether to show measurements or alarms") := rfl

theorem readyAnswer_eq (candidates : List Json) (task : Json) :
    readyAnswer (openAnswer prompt candidates) task =
      .obj [("candidates", .arr candidates), ("interpreter", .str "rules"),
        ("prompt", .str prompt), ("status", .str "ready"),
        ("supported_tasks", Json.strings ["overview", "alarms"]), ("task", task)] := rfl

theorem checkCandidates_of {value : Json} {candidates : List Json}
    (hfind : value.find? "candidates" = some (.arr candidates)) (hlen : candidates.length ≤ 32)
    (hcandidates : ∀ c ∈ candidates, checkCandidate c = .ok ()) : checkCandidates value = .ok () := by
  have hbound : ¬ (¬ (Json.arr candidates).isArray = true ∨ 32 < (Json.arr candidates).size) := by
    simpa [Json.isArray, Json.size] using hlen
  have hloop : forM (Json.arr candidates).items checkCandidate = .ok () :=
    forM_eq_ok.mpr hcandidates
  simp only [checkCandidates, hfind, throwIf_of_not _ hbound, ok_bind, hloop]

theorem validate_clarification {candidates : List Json} {message : Bytes}
    (hprompt : prompt.length ≤ 8192) (hmessage : message ≠ [] ∧ message.length ≤ 2048)
    (hlen : candidates.length ≤ 32) (hcandidates : ∀ c ∈ candidates, checkCandidate c = .ok ()) :
    validateInterpretation ((openAnswer prompt candidates).setField "message" (.str message)) =
      .ok ((openAnswer prompt candidates).setField "message" (.str message)) := by
  rw [validateInterpretation_eq_ok, clarification_eq]
  refine ⟨rfl, ?_, bytes "clarification", by simp, ?_⟩
  · constructor
    case isObject => rfl
    case only => simp [Json.fields, interpretationFields]
    case interpreter => simp [Json.isString]
    case prompt => simpa using hprompt
    case supported => simp [Json.strings, Json.isArray, Json.size, Json.items, Json.isString]
  · rw [← clarification_eq]
    have hlisted : checkCandidates ((openAnswer prompt candidates).setField "message"
        (.str message)) = .ok () :=
      checkCandidates_of (by rw [clarification_eq]; simp) hlen hcandidates
    rw [checkStatus, if_neg (by simp), if_pos rfl, checkClarification, hlisted, clarification_eq]
    simp [Json.has, Json.contains, Json.isStringWith, hmessage, throwIf]

theorem validate_ready {candidates : List Json} {task out : Json} (hprompt : prompt.length ≤ 8192) :
    validateInterpretation (readyAnswer (openAnswer prompt candidates) task) = .ok out ↔
      out = readyAnswer (openAnswer prompt candidates) task ∧ ReadyTask task := by
  rw [validateInterpretation_eq_ok]
  refine and_congr_right fun _ => ?_
  rw [readyAnswer_eq]
  have hanswer : Answer (.obj [("candidates", .arr candidates), ("interpreter", .str "rules"),
      ("prompt", .str prompt), ("status", .str "ready"),
      ("supported_tasks", Json.strings ["overview", "alarms"]), ("task", task)]) := by
    constructor
    case isObject => rfl
    case only => simp [Json.fields, interpretationFields]
    case interpreter => simp [Json.isString]
    case prompt => simpa using hprompt
    case supported => simp [Json.strings, Json.isArray, Json.size, Json.items, Json.isString]
  rw [and_iff_right hanswer]
  constructor
  · rintro ⟨status, hstatus, hcheck⟩
    obtain rfl : bytes "ready" = status := by simpa using hstatus
    obtain ⟨t, ht, hready, -⟩ := checkStatus_ready.mp hcheck
    obtain rfl : task = t := by simpa using ht
    exact hready
  · intro hready
    exact ⟨bytes "ready", by simp, checkStatus_ready.mpr ⟨task, by simp, hready, by simp⟩⟩

/-! ### Its scope and its view -/

theorem anchorOf_getD (h : d.eligible.length ≤ 1) : (anchorOf d).getD [] = d.eligible.headD [] := by
  unfold anchorOf
  cases hcase : d.eligible with
  | nil => rfl
  | cons id rest =>
    cases rest with
    | nil => rfl
    | cons id' rest => simp [hcase] at h

theorem rolesOf_getD : (rolesOf d).getD [] = d.roleHints := by
  unfold rolesOf
  cases d.roleHints <;> rfl

theorem mem_eligible_of_anchorOf {id : Bytes} (h : anchorOf d = some id) : id ∈ d.eligible := by
  unfold anchorOf at h
  split at h
  · rename_i heq
    obtain rfl := Option.some.inj h
    rw [heq]
    exact List.mem_singleton_self _
  · cases h

theorem TaskMembers.within {hint : Bytes} {task : Json} (h : TaskMembers index prompt d hint task)
    (hd : d.Answerable index limits) (hhints : d.taskHints = [hint])
    (hclear : d.requiresClarification = false) {tags : List Tag}
    (hroles : ∀ role ∈ d.roleHints, role ∈ tags.map (·.role)) :
    Within index d tags task hint (rolesOf d) where
  kind := by
    intro hint' heq
    simpa [hhints] using heq
  clarified := hclear
  anchor := by
    unfold AnchorWithin
    rw [h.anchor]
    cases hanchor : anchorOf d with
    | none =>
      refine hd.unspecific ?_
      unfold anchorOf at hanchor
      cases hcase : d.eligible with
      | nil => rfl
      | cons id rest =>
        have hlen := hd.eligible
        cases rest with
        | nil => simp [hcase] at hanchor
        | cons id' rest => simp [hcase] at hlen
    | some id => exact ⟨id, rfl, fun _ => mem_eligible_of_anchorOf hanchor⟩
  measurements := by
    unfold rolesOf MeasurementsWithin
    cases hcase : d.roleHints with
    | nil => rfl
    | cons role rest => exact ⟨hcase ▸ hroles, fun _ hrole => hrole⟩

theorem TaskMembers.resolve_iff [Platform] (wf : index.WellFormed) {hint : Bytes} {task : Json}
    (h : TaskMembers index prompt d hint task) (hd : d.Answerable index limits)
    (hready : ReadyTask task) (hprompt : prompt ≠ []) :
    (∃ view, resolveTaskImpl index task = .ok view) ↔
      ∀ s : Subject, s.Selected index hint (d.eligible.headD []) d.roleHints → s.IsText := by
  rw [hready.resolve_isOk_iff wf h.kind h.anchor h.roles, anchorOf_getD hd.eligible, rolesOf_getD]
  have hcurrent : Current index task := {
    revision := ⟨_, h.revision, eqv_revision wf⟩
    modelId := by
      intro v hv
      rw [h.modelId, Option.some.injEq] at hv
      subst hv
      simp [Json.eqv]
    request := ⟨_, h.request, hprompt⟩ }
  have hdeclared : ∀ id, anchorOf d = some id → (index.asset? id).isSome :=
    fun id hid => hd.declared id (mem_eligible_of_anchorOf hid)
  exact ⟨fun hall => hall.2.2.2, fun htext => ⟨hcurrent, hdeclared, hd.roles, htext⟩⟩

end

/-! ### Every context -/

section
variable [Platform]

/-- The rules answer a context, the answer keeps to its scope, and a ready one resolves. -/
def Usable (index : ModelIndex) (prompt : Bytes) (retrieved : Json) : Prop :=
  ∃ value, RuleInferenceProvider.interpret index prompt retrieved = .ok value ∧
    validateInterpretationScope index retrieved value = .ok () ∧
    (value.find? "status" = some (.str "ready") →
      ∃ task, value.find? "task" = some task ∧ ∃ view, resolveTaskImpl index task = .ok view)

omit [Platform] in
/-- Where the context can be answered, its measurements fit a task and what they select is text. -/
def WithinBounds (index : ModelIndex) (retrieved : Json) : Prop :=
  ∀ kind ids roles, retrieved.find? "requires_clarification" = some (.bool false) →
    retrieved.find? "task_hints" = some (Json.strings [kind]) →
    retrieved.find? "eligible_asset_ids" = some (Json.strings ids) →
    retrieved.find? "measurement_role_hints" = some (Json.strings roles) →
    RolesFit roles ∧ ∀ s : Subject, s.Selected index kind (ids.headD []) roles → s.IsText

omit [Platform] in
theorem interpret_eq_ok {index : ModelIndex} {limits : RetrievalLimits} {d : Draft}
    {prompt : Bytes} {value : Json} (hprompt : prompt.length ≤ 8192) :
    RuleInferenceProvider.interpret index prompt (d.render index limits) = .ok value ↔
      validateInterpretation (answerOf index prompt d) = .ok value := by
  rw [RuleInferenceProvider.interpret, throwIf_of_not _ (by omega), ok_bind, ruleInterpretation_eq,
    ok_bind, mapError_eq_ok]

omit [Platform] in
theorem checkCandidate_candidatesOf {d : Draft} :
    ∀ c ∈ candidatesOf d, checkCandidate c = .ok () := by
  intro c hc
  obtain ⟨item, -, rfl⟩ := List.mem_map.mp hc
  have hobj : Json.object [("asset_id", .str item.candidate.id),
      ("name", .str item.candidate.asset.name)] = .obj [("asset_id", .str item.candidate.id),
      ("name", .str item.candidate.asset.name)] := rfl
  rw [hobj]
  simp [checkCandidate, Json.isObject, Json.size, Json.has, Json.isString, throwIf]

theorem usable_clarification {index : ModelIndex} {limits : RetrievalLimits} {d : Draft}
    {prompt message : Bytes} (hprompt : prompt.length ≤ 8192) (hlen : d.candidates.length ≤ 32)
    (hmessage : message ≠ [] ∧ message.length ≤ 2048)
    (hanswer : answerOf index prompt d =
      (openAnswer prompt (candidatesOf d)).setField "message" (.str message)) :
    Usable index prompt (d.render index limits) := by
  have hlisted : (candidatesOf d).length ≤ 32 := by rwa [candidatesOf, List.length_map]
  have hvalid := validate_clarification hprompt hmessage hlisted checkCandidate_candidatesOf
  have hstatus : ((openAnswer prompt (candidatesOf d)).setField "message" (.str message)).find?
      "status" = some (.str "clarification") := by
    rw [clarification_eq]
    simp
  rw [← hanswer] at hvalid hstatus
  refine ⟨_, (interpret_eq_ok hprompt).mpr hvalid, ?_, ?_⟩
  · rw [validateInterpretationScope, Json.valueString_of_find? hstatus, ok_bind, if_pos (by simp)]
    rfl
  · intro hready
    rw [hstatus] at hready
    simp at hready

theorem usable_ready_iff {index : ModelIndex} (wf : index.WellFormed) {limits : RetrievalLimits}
    {d : Draft} {prompt hint : Bytes} (hprompt : prompt ≠ [] ∧ prompt.length ≤ 8192)
    (hd : d.Answerable index limits) (htags : 16 ≤ limits.tags.toNat)
    (hhints : d.taskHints = [hint]) (hclear : d.requiresClarification = false) :
    Usable index prompt (d.render index limits) ↔ RolesFit d.roleHints ∧
      ∀ s : Subject, s.Selected index hint (d.eligible.headD []) d.roleHints → s.IsText := by
  have hmembers : TaskMembers index prompt d hint (taskOf index prompt d hint) :=
    taskOf_members hint
  have hanswer : answerOf index prompt d =
      readyAnswer (openAnswer prompt (candidatesOf d)) (taskOf index prompt d hint) := by
    unfold answerOf
    simp [hclear, hhints]
  have hfit := hmembers.ready_iff wf hd (hhints ▸ List.mem_singleton_self hint) hprompt.2
  have hstatus : (readyAnswer (openAnswer prompt (candidatesOf d))
      (taskOf index prompt d hint)).find? "status" = some (.str "ready") := by
    rw [readyAnswer_eq]
    simp
  have htask : (readyAnswer (openAnswer prompt (candidatesOf d))
      (taskOf index prompt d hint)).find? "task" = some (taskOf index prompt d hint) := by
    rw [readyAnswer_eq]
    simp
  constructor
  · rintro ⟨value, hvalue, -, hresolve⟩
    rw [interpret_eq_ok hprompt.2, hanswer, validate_ready hprompt.2] at hvalue
    obtain ⟨rfl, hready⟩ := hvalue
    obtain ⟨task, hfound, hview⟩ := hresolve hstatus
    rw [htask, Option.some.injEq] at hfound
    subst hfound
    exact ⟨hfit.mp hready, (hmembers.resolve_iff wf hd hready hprompt.1).mp hview⟩
  · rintro ⟨hroles, htext⟩
    have hready := hfit.mpr hroles
    obtain ⟨tags, hdtags, havailable⟩ := hd.available (hroles.1.trans htags)
    refine ⟨_, (interpret_eq_ok hprompt.2).mpr (hanswer ▸ (validate_ready hprompt.2).mpr
      ⟨rfl, hready⟩), ?_, fun _ => ⟨_, htask, ?_⟩⟩
    · exact (scope_eq_ok hdtags hstatus htask hmembers.kind hmembers.roles).mpr
        (hmembers.within hd hhints hclear havailable)
    · exact (hmembers.resolve_iff wf hd hready hprompt.1).mpr htext

/-- **The rules interpreter answers every retrieved context** whose measurements fit the schema of a
task and whose view is text, and no other. -/
theorem rules_usable_iff {model retrieved : Json} {index : ModelIndex} {prompt : Bytes}
    (hindex : indexModel model = .ok index) (hretrieve : retrieve model prompt {} = .ok retrieved) :
    Usable index prompt retrieved ↔ WithinBounds index retrieved := by
  obtain ⟨index', d, hindex', hprompt, -, hbelow, rfl⟩ := retrieve_eq_ok hretrieve
  obtain rfl : index = index' := Except.ok.inj (hindex.symm.trans hindex')
  have wf := indexModel_wellFormed hindex
  rw [checkPrompt, throwIf_eq_ok, not_or, not_lt, List.isEmpty_iff] at hprompt
  have hlen : d.candidates.length ≤ 32 := by
    refine hbelow.candidates.length_le.trans ?_
    simp only [requestDraft, draftOf, listCandidates, List.length_map, List.length_take]
    exact (min_le_left _ _).trans (by decide)
  unfold WithinBounds
  simp only [find?_render_clarification, find?_render_hints, find?_render_eligible,
    find?_render_roles, Option.some.injEq, Json.bool.injEq, Json.strings_inj]
  cases hclear : d.requiresClarification with
  | true =>
    simp only [Bool.true_eq_false, false_implies, implies_true, iff_true]
    have hmessage : messageOf d ≠ [] ∧ (messageOf d).length ≤ 2048 := by
      unfold messageOf
      split <;> simp <;> decide
    exact usable_clarification hprompt.2 hlen hmessage (by rw [answerOf, hclear, if_pos rfl])
  | false =>
    have hd := answerable wf hbelow hclear
    cases hhints : d.taskHints with
    | nil =>
      simp only [reduceCtorEq, false_implies, implies_true, iff_true]
      have hmessage : bytes "Specify whether to show measurements or alarms" ≠ [] ∧
          (bytes "Specify whether to show measurements or alarms").length ≤ 2048 := by
        simp
        decide
      refine usable_clarification hprompt.2 hlen hmessage ?_
      unfold answerOf
      rw [← openAnswer_eq]
      simp [hclear, hhints]
    | cons hint rest =>
      obtain rfl : rest = [] := by
        have hone := hd.hints
        rw [hhints, List.length_cons] at hone
        exact List.length_eq_zero_iff.mp (by omega)
      rw [usable_ready_iff wf hprompt hd (by decide) hhints hclear]
      constructor
      · rintro h kind ids roles - hkind rfl rfl
        obtain rfl : hint = kind := by simpa using hkind
        exact h
      · intro h
        exact h hint d.eligible d.roleHints rfl rfl rfl rfl

end

section samples

local instance : Platform := samplePlatform

theorem rules_usable_iff_level :
    Usable tankIndex "show the tank level" tankContext ↔ WithinBounds tankIndex tankContext := by
  have hindex : indexModel tankModel = .ok tankIndex := eq_ok_of_isSome (by decide +kernel) _
  have hretrieve : retrieve tankModel "show the tank level" {} = .ok tankContext :=
    eq_ok_of_isSome (by decide +kernel) _
  exact rules_usable_iff hindex hretrieve

/-- A role that a model may declare, one byte longer than a task may ask for. -/
def longRole : Bytes := List.replicate 129 0x61

def longRoleModel : Json := mapElements "tags" (·.setField "role" (.str longRole)) tankModel

def longRolePrompt : Bytes := "show " ++ longRole

theorem rules_reject_long_role : ∃ index retrieved,
    indexModel longRoleModel = .ok index ∧ 1 ≤ longRolePrompt.length ∧
      longRolePrompt.length ≤ 8192 ∧ retrieve longRoleModel longRolePrompt {} = .ok retrieved ∧
      ¬ Usable index longRolePrompt retrieved := by
  let index := (indexModel longRoleModel).toOption.getD ⟨[], .null, [], [], [], []⟩
  let retrieved := (retrieve longRoleModel longRolePrompt {}).toOption.getD .null
  have hrejected : (RuleInferenceProvider.interpret index longRolePrompt retrieved).toOption.isNone
      = true := by decide +kernel
  refine ⟨index, retrieved, eq_ok_of_isSome (by decide +kernel) _, by decide +kernel,
    by decide +kernel, eq_ok_of_isSome (by decide +kernel) _, ?_⟩
  rintro ⟨value, hvalue, -⟩
  rw [hvalue, toOption_ok] at hrejected
  cases hrejected

end samples

end ContextHmi.Inference
