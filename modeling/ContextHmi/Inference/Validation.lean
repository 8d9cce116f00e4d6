import ContextHmi.Engine.Model

/-!
# The schema of an interpretation

`validate_interpretation`: what a provider may answer. A `ready` answer carries a task, a
`clarification` a message and possibly candidates to choose from; nothing else is accepted.

* `validateInterpretation_eq_ok` : the accepted answers, member by member.
-/

namespace ContextHmi.Inference

open Outcome

def schemaError (message : Bytes) : Error := .inference "provider_schema" message

/-- `is_allowed`. -/
def isAllowed (object : Json) (names : List Bytes) : Bool :=
  object.isObject && object.fields.all fun item => names.contains item.1

/-- `is_task_kind`. -/
def isTaskKind (kind : Bytes) : Bool := kind == "overview" || kind == "alarms"

/-- The array of one to sixteen roles. -/
def isRoleArray (roles : Json) : Bool := roles.isArray && !roles.isEmpty && roles.size ≤ 16

def isRole (role : Json) : Bool := role.isStringWith fun s => !s.isEmpty && s.length ≤ 128

/-- A signed or unsigned number up to `2 ^ 32 - 1`, compared as the library compares. -/
def isRevisionNumber : Json → Bool
  | .int i => 0 ≤ i && i ≤ 4294967295
  | .uint n => 0 ≤ n.toInt64 && n ≤ 4294967295
  | _ => false

def interpretationFields : List Bytes :=
  ["status", "message", "candidates", "task", "interpreter", "prompt", "supported_tasks"]

def readyTaskFields : List Bytes := ["kind", "anchor_asset_id", "measurement_roles",
  "model_revision", "original_request", "model_id"]

def checkTaskRoles (task : Json) : Result Unit :=
  match task.find? "measurement_roles" with
  | none => .ok ()
  | some roles => do
    throwIf (¬ isRoleArray roles)
      (schemaError "task measurement_roles must be a bounded nonempty array")
    throwIf (¬ roles.items.all isRole) (schemaError "task measurement role is invalid")

/-- The task of a ready interpretation. -/
def checkReadyTask (task : Json) : Result Unit := do
  throwIf (¬ isAllowed task readyTaskFields) (schemaError "task contains unexpected properties")
  throwIf (¬ task.has "kind" (Json.isStringWith isTaskKind))
    (schemaError "task kind is unsupported")
  throwIf (¬ task.hasOptional "anchor_asset_id" (Json.isStringWith fun s => !s.isEmpty))
    (schemaError "task anchor_asset_id must be a nonempty string when present")
  throwIf (¬ task.hasOptional "model_id" (Json.isStringWith fun s => !s.isEmpty))
    (schemaError "task model_id must be a nonempty string when present")
  checkTaskRoles task
  throwIf (¬ task.has "model_revision" isRevisionNumber)
    (schemaError "task model_revision must be a nonnegative 32-bit integer")
  throwIf (¬ task.has "original_request" (Json.isStringWith fun s => s.length ≤ 8192))
    (schemaError "task original_request must be a string")

def checkReady (value : Json) : Result Unit := do
  throwIf (¬ value.has "task" Json.isObject) (schemaError "ready interpretation requires task")
  let task ← value.atKey "task"
  checkReadyTask task
  throwIf (value.contains "message")
    (schemaError "ready interpretation cannot contain clarification fields")

def checkCandidate (candidate : Json) : Result Unit :=
  match candidate with
  | .str s => throwIf (256 < s.length) (schemaError "clarification candidate is too long")
  | candidate => throwIf
      (¬ (candidate.isObject && candidate.size ≤ 2 && candidate.has "asset_id" Json.isString &&
        candidate.has "name" Json.isString))
      (schemaError "clarification candidate has invalid shape")

def checkCandidates (value : Json) : Result Unit :=
  match value.find? "candidates" with
  | none => .ok ()
  | some candidates => do
    throwIf (¬ candidates.isArray ∨ 32 < candidates.size)
      (schemaError "clarification candidates must be a bounded array")
    forM candidates.items checkCandidate

def checkClarification (value : Json) : Result Unit := do
  throwIf (¬ value.has "message" (Json.isStringWith fun s => !s.isEmpty && s.length ≤ 2048))
    (schemaError "clarification requires message")
  throwIf (value.contains "task") (schemaError "clarification cannot contain task")
  checkCandidates value

def checkSupportedTasks (value : Json) : Result Unit :=
  match value.find? "supported_tasks" with
  | none => .ok ()
  | some tasks => do
    throwIf (¬ tasks.isArray ∨ 16 < tasks.size)
      (schemaError "supported_tasks must be a bounded array")
    throwIf (¬ tasks.items.all Json.isString)
      (schemaError "supported_tasks entries must be strings")

def checkStatus (status : Bytes) (value : Json) : Result Unit :=
  if status = "ready" then checkReady value
  else if status = "clarification" then checkClarification value
  else .error (schemaError "interpretation status must be ready or clarification")

/-- `validate_interpretation`; it returns what it accepts. -/
def validateInterpretation (value : Json) : Result Json := do
  throwIf (¬ value.isObject) (schemaError "interpretation must be an object")
  throwIf (¬ isAllowed value interpretationFields)
    (schemaError "interpretation contains unexpected properties")
  throwIf (¬ value.has "status" Json.isString)
    (schemaError "interpretation status must be a string")
  let status ← value.atKey "status" >>= Json.getString
  checkStatus status value
  throwIf (¬ value.hasOptional "interpreter" Json.isString)
    (schemaError "interpreter must be a string")
  throwIf (¬ value.hasOptional "prompt" (Json.isStringWith fun s => s.length ≤ 8192))
    (schemaError "prompt must be a bounded string")
  checkSupportedTasks value
  return value

/-! ### Accepted answers -/

theorem isAllowed_eq_true {j : Json} {names : List Bytes} :
    isAllowed j names = true ↔ j.isObject = true ∧ ∀ item ∈ j.fields, item.1 ∈ names := by
  simp [isAllowed]

/-- The task of an accepted ready answer. -/
structure ReadyTask (task : Json) : Prop where
  isObject : task.isObject = true
  only : ∀ item ∈ task.fields, item.1 ∈ readyTaskFields
  kind : ∃ kind, task.find? "kind" = some (.str kind) ∧ isTaskKind kind = true
  anchor : ∀ v, task.find? "anchor_asset_id" = some v → ∃ s, v = .str s ∧ s ≠ []
  modelId : ∀ v, task.find? "model_id" = some v → ∃ s, v = .str s ∧ s ≠ []
  roles : ∀ v, task.find? "measurement_roles" = some v → isRoleArray v = true ∧
    v.items.all isRole = true
  revision : ∃ v, task.find? "model_revision" = some v ∧ isRevisionNumber v = true
  request : ∃ s, task.find? "original_request" = some (.str s) ∧ s.length ≤ 8192

theorem checkTaskRoles_eq_ok {task : Json} {u : Unit} :
    checkTaskRoles task = .ok u ↔ ∀ v, task.find? "measurement_roles" = some v →
      isRoleArray v = true ∧ v.items.all isRole = true := by
  unfold checkTaskRoles
  cases task.find? "measurement_roles" with
  | none => simp
  | some roles => simp [bind_eq_ok]

theorem checkReadyTask_eq_ok {task : Json} {u : Unit} :
    checkReadyTask task = .ok u ↔ ReadyTask task := by
  simp only [checkReadyTask, bind_eq_ok, throwIf_eq_ok, not_not, exists_const, checkTaskRoles_eq_ok,
    isAllowed_eq_true, Json.has_eq_true, Json.hasOptional_eq_true, Json.isStringWith_eq_true,
    decide_eq_true_eq, Bool.not_eq_true', List.isEmpty_eq_false_iff]
  constructor
  · rintro ⟨⟨hobj, honly⟩, ⟨_, hkind, kind, rfl, htask⟩, hanchor, hid, hroles, hrev, _, hreq, s, rfl,
      hlen⟩
    exact ⟨hobj, honly, ⟨kind, hkind, htask⟩, hanchor, hid, hroles, hrev, ⟨s, hreq, hlen⟩⟩
  · rintro ⟨hobj, honly, ⟨kind, hkind, htask⟩, hanchor, hid, hroles, hrev, ⟨s, hreq, hlen⟩⟩
    exact ⟨⟨hobj, honly⟩, ⟨_, hkind, kind, rfl, htask⟩, hanchor, hid, hroles, hrev, _, hreq, s, rfl,
      hlen⟩

/-- What is checked of every answer. -/
structure Answer (value : Json) : Prop where
  isObject : value.isObject = true
  only : ∀ item ∈ value.fields, item.1 ∈ interpretationFields
  interpreter : ∀ v, value.find? "interpreter" = some v → v.isString = true
  prompt : ∀ v, value.find? "prompt" = some v → ∃ s, v = .str s ∧ s.length ≤ 8192
  supported : ∀ v, value.find? "supported_tasks" = some v → v.isArray = true ∧ v.size ≤ 16 ∧
    v.items.all Json.isString = true

theorem checkSupportedTasks_eq_ok {value : Json} {u : Unit} :
    checkSupportedTasks value = .ok u ↔ ∀ v, value.find? "supported_tasks" = some v →
      v.isArray = true ∧ v.size ≤ 16 ∧ v.items.all Json.isString = true := by
  unfold checkSupportedTasks
  cases value.find? "supported_tasks" with
  | none => simp
  | some tasks => simp [bind_eq_ok, and_assoc]

/-- **The accepted answers**: ready or clarification, each with its own members. -/
theorem validateInterpretation_eq_ok {value out : Json} :
    validateInterpretation value = .ok out ↔ out = value ∧ Answer value ∧
      ∃ status, value.find? "status" = some (.str status) ∧ checkStatus status value = .ok () := by
  have hstring : ∀ v : Json, v.isString = true ↔ ∃ s, v = .str s := by
    intro v
    cases v <;> simp [Json.isString]
  simp only [validateInterpretation, bind_eq_ok, throwIf_eq_ok, not_not, exists_const, pure_eq_ok,
    checkSupportedTasks_eq_ok, isAllowed_eq_true, Json.has_eq_true, Json.hasOptional_eq_true,
    Json.atKey_eq_ok, Json.isStringWith_eq_true, decide_eq_true_eq]
  constructor
  · rintro ⟨hobj, ⟨-, honly⟩, ⟨_, hstatus, hs⟩, status, ⟨_, hstatus', hget⟩, _, hcheck, hint, hprompt,
      hsup, rfl⟩
    obtain ⟨s, rfl⟩ := (hstring _).mp hs
    rw [hstatus] at hstatus'
    cases hstatus'
    cases hget
    exact ⟨rfl, ⟨hobj, honly, hint, hprompt, hsup⟩, status, hstatus, hcheck⟩
  · rintro ⟨rfl, ⟨hobj, honly, hint, hprompt, hsup⟩, s, hstatus, hcheck⟩
    exact ⟨hobj, ⟨hobj, honly⟩, ⟨_, hstatus, rfl⟩, s, ⟨_, hstatus, rfl⟩, (), hcheck, hint, hprompt,
      hsup, rfl⟩

theorem checkStatus_ready {value : Json} {u : Unit} :
    checkStatus "ready" value = .ok u ↔ ∃ task, value.find? "task" = some task ∧ ReadyTask task ∧
      value.find? "message" = none := by
  simp only [checkStatus, if_true, checkReady, bind_eq_ok, throwIf_eq_ok, not_not, exists_const,
    Json.has_eq_true, Json.atKey_eq_ok, Bool.not_eq_true, Json.contains_eq_false]
  constructor
  · rintro ⟨-, task, htask, _, hready, hmessage⟩
    exact ⟨task, htask, checkReadyTask_eq_ok.mp hready, hmessage⟩
  · rintro ⟨task, htask, hready, hmessage⟩
    exact ⟨⟨task, htask, hready.isObject⟩, task, htask, (), checkReadyTask_eq_ok.mpr hready, hmessage⟩

theorem ready_task {value out : Json} (h : validateInterpretation value = .ok out)
    (hready : value.find? "status" = some (.str "ready")) :
    ∃ task, value.find? "task" = some task ∧ ReadyTask task := by
  obtain ⟨-, -, status, hstatus, hcheck⟩ := validateInterpretation_eq_ok.mp h
  rw [hready] at hstatus
  cases hstatus
  obtain ⟨task, htask, htaskReady, -⟩ := checkStatus_ready.mp hcheck
  exact ⟨task, htask, htaskReady⟩

end ContextHmi.Inference
