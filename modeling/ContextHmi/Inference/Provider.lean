import ContextHmi.Inference.Rules

/-!
# Providers

`Inference::interpret`: the rules, or a language model reached over HTTP. Building a request and
sending it is outside: the body that comes back, or the exception of the attempt, is an argument. What
a provider proposes must meet the schema of an interpretation and keep to the retrieved scope.

* `interpret_ready` : an accepted interpretation that is ready carries a checked task, which is the
  rules' own or one a reply proposed.
-/

namespace ContextHmi.Inference

open Outcome Retrieval

/-! ### A language model -/

/-- The members of `LlamaInferenceProvider` its answers depend on. -/
structure Llama where
  maxPromptBytes : Nat := 8192
  maxResponseBytes : Nat := 65536
  maxContextBytes : Nat := 12288
  loopback : Bool := true
  groqStructuredProfile : Bool := false

def Llama.name (llama : Llama) : Bytes := if llama.loopback then "llama.cpp" else "openai-compatible"

def responseError (message : Bytes) : Error := .inference "provider_response" message

/-- An exception of the library becomes an `InferenceError`; those that are one pass. -/
def asProviderError : Error → Error
  | .json fault => .rethrown "provider_response" fault
  | e => e

/-- `provider_usage`. -/
def providerUsage (response : Json) : Json :=
  match response.find? "usage" with
  | some usage =>
    if usage.isObject then
      let counted := [bytes "prompt_tokens", "completion_tokens", "total_tokens"].foldl
        (fun (result : Json) field =>
          result.setOptional field ((usage.find? field).filter Json.isNumberUnsigned))
        (Json.object [("reported", .bool true)])
      let details := (usage.find? "prompt_tokens_details").filter Json.isObject
      counted.setOptional "cached_prompt_tokens"
        ((details.bind (Json.find? · "cached_tokens")).filter Json.isNumberUnsigned)
    else .object [("reported", .bool false)]
  | none => .object [("reported", .bool false)]

/-- `j.erase(key)` where the member meets a test. -/
def eraseWhere (j : Json) (key : Bytes) (p : Json → Bool) : Json :=
  if j.has key p then j.eraseField key else j

def isNull : Json → Bool
  | .null => true
  | _ => false

/-- `remove_null_placeholders`. -/
def removeNullPlaceholders (proposed : Json) : Json :=
  if proposed.isObject then
    let proposed := eraseWhere (eraseWhere proposed "message" isNull) "task" isNull
    match proposed.find? "task" with
    | some task =>
      if task.isObject then
        proposed.setField "task" (eraseWhere (eraseWhere task "anchor_asset_id" isNull)
          "measurement_roles" fun roles => roles.isArray && roles.isEmpty)
      else proposed
    | none => proposed
  else proposed

/-- The first choice of a response. -/
def firstChoice (response : Json) : Option Json :=
  ((response.find? "choices").filter Json.isArray).bind (·.items.head?) |>.filter Json.isObject

/-- The text of a choice. -/
def choiceText (choice : Json) : Option Bytes :=
  match ((choice.find? "message").filter Json.isObject).bind (Json.find? · "content") with
  | some (.str content) => some content
  | _ => none

/-- `parse_content`. -/
def parseContent (response : Json) : Result Json :=
  match firstChoice response with
  | none => .error (responseError "llama response has no choices")
  | some choice => match choiceText choice with
    | none => .error (responseError "llama choice has no text content")
    | some content =>
      (Json.parse (some ⟨32, responseError "llama content exceeds JSON depth limit"⟩) content).mapError
        fun _ => responseError "llama content is not JSON"

/-- The request is the operator's, whatever the answer says. -/
def withRequest (prompt : Bytes) (proposed : Json) : Result Json := do
  let status ← proposed.valueString "status" []
  match proposed.find? "task" with
  | some task =>
    if status = "ready" ∧ task.isObject then
      return proposed.setField "task" (task.setField "original_request" (.str prompt))
    else return proposed
  | none => return proposed

/-- What a decoded response proposes, with the operator's request. -/
def Llama.proposed (llama : Llama) (prompt : Bytes) (decoded : Json) : Result Json := do
  let content ← parseContent decoded
  withRequest prompt (if llama.groqStructuredProfile then removeNullPlaceholders content else content)

def decodeResponse (received : Bytes) : Result Json :=
  Json.parse (some ⟨32, responseError "llama response exceeds JSON depth limit"⟩) received

/-- The interpretation in a response that was received. -/
def readResponse (llama : Llama) (prompt received : Bytes) : Result Json := do
  let decoded ← decodeResponse received
  let proposed ← llama.proposed prompt decoded
  let interpreted ← validateInterpretation proposed
  return interpreted.setField "provider_usage" (providerUsage decoded)

section
variable [Platform]

/-- `LlamaInferenceProvider::interpret`, with what the transport gives. -/
def Llama.interpret (llama : Llama) (prompt : Bytes) (retrieval : Json) (reply : Result Bytes) :
    Result Json := do
  throwIf prompt.isEmpty (.inference "invalid_prompt" "prompt must not be empty")
  throwIf (llama.maxPromptBytes < prompt.length)
    (.inference "prompt_too_large" "prompt exceeds maximum size")
  let context ← retrieval.dump
  throwIf (llama.maxContextBytes < context.length)
    (.inference "context_too_large" "retrieved context exceeds inference budget")
  let received ← reply
  throwIf (llama.maxResponseBytes < received.length)
    (.inference "provider_response_too_large" "llama response exceeds maximum size")
  (readResponse llama prompt received).mapError asProviderError

/-! ### Selecting a provider -/

def requestMode (llama : Option Llama) (requestedMode : Bytes) : Bytes :=
  if requestedMode.isEmpty then (if llama.isSome then "llama" else "rules") else requestedMode

def proposeRules (index : ModelIndex) (prompt : Bytes) (retrieval : Json) : Result Json := do
  let result ← RuleInferenceProvider.interpret index prompt retrieval
  return (result.setField "interpreter" (.str "rules")).setField "provider_usage"
    (.object [("reported", .bool false), ("provider_call", .bool false)])

def proposeLlama (llama : Option Llama) (prompt : Bytes) (retrieval : Json) (reply : Result Bytes) :
    Result Json :=
  match llama with
  | none => .error (.inference "provider_unconfigured" "AI interpreter was not configured")
  | some llama => do
    let result ← llama.interpret prompt retrieval reply
    return result.setField "interpreter" (.str llama.name)

/-- What the provider of a mode proposes. -/
def propose (llama : Option Llama) (index : ModelIndex) (prompt : Bytes) (retrieval : Json)
    (requestedMode : Bytes) (reply : Result Bytes) : Result Json :=
  let mode := requestMode llama requestedMode
  if mode = "rules" then proposeRules index prompt retrieval
  else if mode = "llama" ∨ mode = "llama.cpp" then proposeLlama llama prompt retrieval reply
  else .error (.inference "invalid_interpreter" "interpreter must be rules or llama")

/-- A `DomainError` becomes an `InferenceError`. -/
def asInferenceError : Error → Error
  | .domain code details => .inference code details
  | e => e

/-- `Inference::interpret`. -/
def interpret (llama : Option Llama) (index : ModelIndex) (prompt : Bytes) (retrieval : Json)
    (requestedMode : Bytes) (reply : Result Bytes) : Result Json := do
  let result ← propose llama index prompt retrieval requestedMode reply
  (validateInterpretationScope index retrieval result).mapError asInferenceError
  return result.setField "retrieval" retrieval

/-- `Inference::mode`. -/
def modeOf (llama : Option Llama) : Bytes := (llama.map Llama.name).getD "rules"

end

/-! ### What an accepted interpretation is -/

theorem valueString_congr {j j' : Json} (hj : j.isObject = true) (hj' : j'.isObject = true)
    {k : Bytes} (h : j.find? k = j'.find? k) (d : Bytes) : j.valueString k d = j'.valueString k d := by
  cases j with
  | obj fields =>
    cases j' with
    | obj fields' =>
      simp only [Json.find?_obj] at h
      simp only [Json.valueString, h]
    | _ => simp [Json.isObject] at hj'
  | _ => simp [Json.isObject] at hj

theorem atKey_congr {j j' : Json} (hj : j.isObject = true) (hj' : j'.isObject = true) {k : Bytes}
    (h : j.find? k = j'.find? k) : j.atKey k = j'.atKey k := by
  cases j with
  | obj fields =>
    cases j' with
    | obj fields' =>
      simp only [Json.find?_obj] at h
      simp only [Json.atKey, h]
    | _ => simp [Json.isObject] at hj'
  | _ => simp [Json.isObject] at hj

theorem validateInterpretationScope_congr {index : ModelIndex} {retrieval value value' : Json}
    (hobject : value.isObject = true) (hobject' : value'.isObject = true)
    (hstatus : value.find? "status" = value'.find? "status")
    (htask : value.find? "task" = value'.find? "task") :
    validateInterpretationScope index retrieval value =
      validateInterpretationScope index retrieval value' := by
  simp only [validateInterpretationScope, valueString_congr hobject hobject' hstatus, checkReadyScope,
    atKey_congr hobject hobject' htask]

theorem readResponse_eq_ok {llama : Llama} {prompt received : Bytes} {out : Json} :
    readResponse llama prompt received = .ok out ↔ ∃ decoded value,
      decodeResponse received = .ok decoded ∧ llama.proposed prompt decoded = .ok value ∧
      validateInterpretation value = .ok value ∧
      out = value.setField "provider_usage" (providerUsage decoded) := by
  simp only [readResponse, bind_eq_ok, pure_eq_ok]
  constructor
  · rintro ⟨decoded, hdecoded, value, hvalue, accepted, haccepted, rfl⟩
    obtain rfl := (validateInterpretation_eq_ok.mp haccepted).1
    exact ⟨decoded, accepted, hdecoded, hvalue, haccepted, rfl⟩
  · rintro ⟨decoded, value, hdecoded, hvalue, haccepted, rfl⟩
    exact ⟨decoded, hdecoded, value, hvalue, value, haccepted, rfl⟩

theorem find?_provided (j : Json) {v w : Json} {k a b : Bytes} (ha : a ≠ k) (hb : b ≠ k) :
    ((j.setField a v).setField b w).find? k = j.find? k := by
  rw [Json.find?_setField_ne _ hb, Json.find?_setField_ne _ ha]

/-- The reply to a request proposes a task that the schema and the scope let through. -/
def Proposes (llama : Llama) (index : ModelIndex) (prompt : Bytes) (retrieval : Json)
    (reply : Result Bytes) (task : Json) : Prop :=
  ∃ received decoded value, reply = .ok received ∧ decodeResponse received = .ok decoded ∧
    llama.proposed prompt decoded = .ok value ∧ validateInterpretation value = .ok value ∧
    validateInterpretationScope index retrieval value = .ok () ∧
    value.find? "status" = some (.str "ready") ∧ value.find? "task" = some task

/-- Where the task of a ready interpretation comes from. -/
inductive Origin (llama : Option Llama) (index : ModelIndex) (prompt : Bytes) (retrieval : Json)
    (requestedMode : Bytes) (reply : Result Bytes) (task : Json) : Prop where
  | rules {value : Json} (h : RuleInferenceProvider.interpret index prompt retrieval = .ok value)
      (hready : value.find? "status" = some (.str "ready")) (htask : value.find? "task" = some task)
  | reply {l : Llama} (hllama : llama = some l) (hmode : requestedMode ≠ "rules")
      (h : Proposes l index prompt retrieval reply task)

section
variable {llama : Option Llama} {index : ModelIndex} {prompt : Bytes} {retrieval result : Json}
  {requestedMode : Bytes} {reply : Result Bytes}

theorem proposeRules_ready (h : proposeRules index prompt retrieval = .ok result)
    (hready : result.find? "status" = some (.str "ready")) :
    ∃ task, result.find? "task" = some task ∧ ReadyTask task ∧
      Origin llama index prompt retrieval requestedMode reply task := by
  simp only [proposeRules, bind_eq_ok, pure_eq_ok] at h
  obtain ⟨value, hvalue, rfl⟩ := h
  have hvalid : ∃ answer, validateInterpretation answer = .ok value := by
    simp only [RuleInferenceProvider.interpret, bind_eq_ok, mapError_eq_ok] at hvalue
    obtain ⟨-, -, answer, -, hvalid⟩ := hvalue
    exact ⟨answer, hvalid⟩
  obtain ⟨answer, hvalid⟩ := hvalid
  obtain rfl := (validateInterpretation_eq_ok.mp hvalid).1
  rw [find?_provided _ (by simp) (by simp)] at hready
  obtain ⟨task, htask, hchecked⟩ := ready_task hvalid hready
  refine ⟨task, ?_, hchecked, .rules hvalue hready htask⟩
  rw [find?_provided _ (by simp) (by simp), htask]

variable [Platform]

theorem proposeLlama_ready (h : proposeLlama llama prompt retrieval reply = .ok result)
    (hmode : requestedMode ≠ "rules")
    (hscope : validateInterpretationScope index retrieval result = .ok ())
    (hready : result.find? "status" = some (.str "ready")) :
    ∃ task, result.find? "task" = some task ∧ ReadyTask task ∧
      Origin llama index prompt retrieval requestedMode reply task := by
  cases llama with
  | none => cases h
  | some llama =>
    simp only [proposeLlama, Llama.interpret, bind_eq_ok, mapError_eq_ok, pure_eq_ok,
      readResponse_eq_ok] at h
    obtain ⟨_, ⟨-, -, -, -, context, -, -, -, received, hreply, -, -, decoded, value, hdecoded, hvalue,
      hvalid, rfl⟩, rfl⟩ := h
    have hobject := (validateInterpretation_eq_ok.mp hvalid).2.1.isObject
    have hmember : ∀ k ∈ [bytes "status", "task"],
        ((value.setField "provider_usage" (providerUsage decoded)).setField "interpreter"
          (.str llama.name)).find? k = value.find? k := by
      intro k hk
      refine find?_provided value ?_ ?_
      · rintro rfl
        simp at hk
      · rintro rfl
        simp at hk
    have hstatus := hmember "status" (by simp)
    have htask := hmember "task" (by simp)
    have hready' := hstatus ▸ hready
    obtain ⟨task, hfound, hchecked⟩ := ready_task hvalid hready'
    have hresult := htask.trans hfound
    rw [validateInterpretationScope_congr (Json.isObject_of_find? hresult) hobject hstatus htask]
      at hscope
    exact ⟨task, hresult, hchecked, .reply rfl hmode
      ⟨received, decoded, value, hreply, hdecoded, hvalue, hvalid, hscope, hready', hfound⟩⟩

/-- **An accepted interpretation that is ready** carries a checked task, which is the rules' own or
one that the reply proposed. -/
theorem interpret_ready (h : interpret llama index prompt retrieval requestedMode reply = .ok result)
    (hready : result.find? "status" = some (.str "ready")) :
    ∃ task, result.find? "task" = some task ∧ ReadyTask task ∧
      Origin llama index prompt retrieval requestedMode reply task := by
  simp only [interpret, bind_eq_ok, mapError_eq_ok, pure_eq_ok] at h
  obtain ⟨proposed, hpropose, _, hscope, rfl⟩ := h
  rw [Json.find?_setField_ne _ (by simp)] at hready ⊢
  unfold propose at hpropose
  simp only at hpropose
  by_cases hrules : requestMode llama requestedMode = "rules"
  · rw [if_pos hrules] at hpropose
    exact proposeRules_ready hpropose hready
  · rw [if_neg hrules] at hpropose
    have hmode : requestedMode ≠ "rules" := by
      intro heq
      exact hrules (by simp [requestMode, heq])
    split at hpropose
    · exact proposeLlama_ready hpropose hmode hscope hready
    · cases hpropose

end

end ContextHmi.Inference
