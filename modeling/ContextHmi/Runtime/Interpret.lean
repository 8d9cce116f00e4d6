import ContextHmi.Inference.Provider
import ContextHmi.Runtime.Key

/-!
# Answering an interpretation

What `Runtime::retrieve` and `Runtime::interpret` compute between the sections that touch shared
state: the response around a retrieved context, the part of an interpretation that is cached, and what
is done to an interpretation, cached or not, before it is an answer.
-/

namespace ContextHmi.Runtime

open Outcome Retrieval Inference

/-! ### Requests -/

structure Request where
  prompt : Bytes
  mode : Bytes
  client : Json

/-- The parts of the service requests depend on. -/
structure Service where
  options : Options
  llama : Option Llama
  sessionId : Bytes

/-- `mode.empty() ? inference_.mode() : mode`. -/
def Service.selectedMode (service : Service) (mode : Bytes) : Bytes :=
  if mode.isEmpty then modeOf service.llama else mode

/-- A generation in a JSON document. -/
def generationJson (generation : Nat) : Json := .uint (UInt64.ofNat generation)

def size (j : Json) : Json := count j.size

section
variable [Platform]

/-- `context_summary`. -/
def contextSummary (retrieval : Json) : Result Json := do
  let text ← retrieval.dump
  let scope ← retrieval.atKey "scope"
  let truncated ← retrieval.atKey "truncated"
  let flags ← truncated.elements.mapM Json.getBool
  let candidates ← retrieval.atKey "candidates"
  let assets ← scope.atKey "assets"
  let relationships ← scope.atKey "relationships"
  let tags ← scope.atKey "tags"
  let alarms ← scope.atKey "alarms"
  return .object [("serialized_bytes", count text.length), ("bytes", count text.length),
    ("estimated_tokens", count (estimatedTokens text.length)),
    ("token_estimate", .str "utf8-bytes-divided-by-four"),
    ("candidate_count", size candidates), ("candidates", size candidates),
    ("asset_count", size assets), ("assets", size assets),
    ("relationship_count", size relationships), ("relationships", size relationships),
    ("tag_count", size tags), ("tags", size tags), ("alarm_count", size alarms),
    ("alarms", size alarms), ("truncation", truncated), ("truncated", .bool (flags.any id)),
    ("any_truncated", .bool (flags.any id))]

def hitOrMiss (hit : Bool) : Json := .object [("state", .str (if hit then "hit" else "miss"))]

/-- The members every `execution` ends with. -/
def executionFields (snapshot : Snapshot) (elapsed : Int64) : List (Bytes × Json) :=
  [("elapsed_us", .int elapsed), ("elapsed_ms", .float (Json.ofInt64 elapsed / 1000.0)),
    ("model_id", .str snapshot.model.index.modelId),
    ("model_revision", snapshot.model.index.revision),
    ("context_generation", generationJson snapshot.generation)]

/-- The response of `Runtime::retrieve`. -/
def retrieveResponse (service : Service) (snapshot : Snapshot) (hit : Bool) (elapsed : Int64)
    (retrieval : Json) : Result Json := do
  let result := (retrieval.setField "session_id" (.str service.sessionId)).setField
    "context_generation" (generationJson snapshot.generation)
  let summary ← contextSummary result
  return result.setField "execution" (.object
    ([(bytes "cache", .object [("retrieval", hitOrMiss hit)]), (bytes "context", summary)] ++
      executionFields snapshot elapsed))

/-! ### Interpretations -/

/-- What is cached of an interpretation, and what the provider reported. -/
structure Recorded where
  value : Json
  usage : Json

def defaultUsage : Json := .object [("reported", .bool false), ("provider_call", .bool false)]

/-- An interpretation that was not cached. -/
def record (selectedMode : Bytes) (result : Json) : Result Recorded := do
  let usage ← result.value "provider_usage" defaultUsage
  return ⟨(result.eraseField "provider_usage").eraseField "retrieval",
    usage.setField "provider_call" (.bool (selectedMode ≠ "rules"))⟩

/-- `inference_.interpret` on a miss. -/
def interpretMiss (service : Service) (snapshot : Snapshot) (request : Request) (retrieval : Json)
    (reply : Result Bytes) : Result Recorded := do
  let result ← Inference.interpret service.llama snapshot.model.index request.prompt retrieval
    request.mode reply
  record (service.selectedMode request.mode) result

/-- The task of a request: its prompt, and its client unless that is empty. -/
def requestTask (prompt : Bytes) (client task : Json) : Json :=
  (task.setField "original_request" (.str prompt)).setOptional "client"
    (if client.isEmpty then none else some client)

/-- The refreshed task of an interpretation, cached or not. -/
def refresh (prompt : Bytes) (client result : Json) : Result Json := do
  let status ← result.valueString "status" []
  match result.find? "task" with
  | some task =>
    if status = "ready" then return result.setField "task" (requestTask prompt client task)
    else return result
  | none => return result

/-- The checks of a ready interpretation against the active model. -/
def checkTaskIdentity (index : ModelIndex) (task : Json) : Result Unit := do
  throwIf (¬ task.hasOptional "model_id" (·.eqv (.str index.modelId)))
    (schemaError "provider task model_id does not match active model")
  throwIf (¬ task.hasOptional "model_revision" (·.eqv index.revision))
    (schemaError "provider task model_revision does not match active model")
  match task.find? "anchor_asset_id" with
  | none => return ()
  | some anchor => do
    let selected ← anchor.getString
    throwIf (index.asset? selected).isNone
      (schemaError "provider task anchor_asset_id is not in the active model")

/-- The task a ready interpretation is resolved with. -/
def postCheck (index : ModelIndex) (result : Json) : Result Json :=
  match result.find? "task" with
  | none => .error (schemaError "ready interpretation requires task")
  | some task => do
    throwIf (¬ task.isObject) (schemaError "ready interpretation requires task")
    checkTaskIdentity index task
    return task.setFields [("model_id", .str index.modelId), ("model_revision", index.revision)]

/-- The members of an interpretation that say how it was made. -/
def withExecution (service : Service) (snapshot : Snapshot) (request : Request) (summary usage : Json)
    (retrievalHit interpretationHit : Bool) (elapsed : Int64) (result : Json) : Json :=
  let execution := Json.object ([(bytes "cache", .object [("retrieval", hitOrMiss retrievalHit),
      ("interpretation", hitOrMiss interpretationHit)]), (bytes "context", summary),
    (bytes "provider_call",
      .bool (!interpretationHit && service.selectedMode request.mode ≠ "rules")),
    (bytes "provider_usage", usage), (bytes "validation", .str "native-scope-validated")] ++
    executionFields snapshot elapsed)
  (result.setField "execution" execution).setField "provider_usage" usage

/-- An answer, with the view that must be published first. -/
structure Completed where
  result : Json
  view : Option Json

/-- What `Runtime::interpret` makes of a refreshed interpretation. -/
def complete (service : Service) (snapshot : Snapshot) (request : Request) (retrieval usage : Json)
    (retrievalHit interpretationHit : Bool) (elapsed : Int64) (refreshed : Json) :
    Result Completed := do
  let summary ← contextSummary retrieval
  let result := withExecution service snapshot request summary usage retrievalHit interpretationHit
    elapsed refreshed
  let status ← result.valueString "status" []
  if status = "ready" then do
    let task ← postCheck snapshot.model.index result
    let view ← resolveTaskImpl snapshot.model.index task
    return ⟨result.setField "task" task, some view⟩
  else return ⟨result, none⟩

/-- The id of a view. -/
def viewId (service : Service) (sequence : Nat) : Bytes :=
  service.sessionId ++ "-view-" ++ Bytes.decimal sequence

/-- The members of a view that `publish_view` sets. -/
def publishedView (service : Service) (generation sequence : Nat) (view : Json) : Json :=
  view.setFields [("view_id", .str (viewId service sequence)),
    ("session_id", .str service.sessionId), ("context_generation", generationJson generation)]

end

end ContextHmi.Runtime
