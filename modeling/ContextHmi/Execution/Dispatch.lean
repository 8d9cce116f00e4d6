import ContextHmi.Execution.Pool
import ContextHmi.Engine.Model
import ContextHmi.Json.Serialize

/-!
# Answering a request from the pool

`dispatch_json` moves the response callback of a request into a job, which answers with what its
function returns or throws. A `std::function` that was moved from is empty, and calling it throws.

* `answeredOnce_iff` : which requests are answered exactly once.
-/

namespace ContextHmi.Execution

/-! ### Responses -/

structure Response where
  status : Nat
  body : Bytes

/-- What a call throws, as far as the handlers tell exceptions apart. -/
inductive Exception where
  | inference (code message : Bytes)
  | domain (code details : Bytes)
  /-- Any other `std::exception`, of the JSON library or of an empty `std::function` for instance. -/
  | standard

/-- What the function of a job does. -/
inductive Outcome where
  | returns (body : Json) (status : Nat)
  | throws (e : Exception)

/-- The response callback: held, or empty after it was moved from. -/
inductive Callback where
  | held
  | moved

/-- The responses the callback was given, and the exception the call ended with. -/
structure Effect where
  sent : List Response
  thrown : Option Exception

/-- `try { ... } catch`. -/
def Effect.catching (e : Effect) (handler : Exception → Effect) : Effect :=
  match e.thrown with
  | none => e
  | some x => ⟨e.sent ++ (handler x).sent, (handler x).thrown⟩

def errorJson (code message : Bytes) : Json :=
  .object [("error", .object [("code", .str code), ("message", .str message)])]

/-- `domain_status`. -/
def domainStatus (code : Bytes) : Nat :=
  if code = "scenario_not_found" then 404
  else if code = "command_denied" then 403
  else if code = "stale_context" ∨ code = "lost_update" ∨ code = "idempotency_conflict" ∨
    code = "confirmation_required" ∨ code = "stale_model_revision" then 409
  else if code = "audit_unavailable" then 503
  else if code = "unknown_view" ∨ code = "view_tampered" then 422
  else if code = "invalid_command" ∨ code = "invalid_scenario" then 400
  else if code = "invalid_request" then 400
  else 422

/-- `inference_status`. -/
def inferenceStatus (code : Bytes) : Nat :=
  if code = "stale_context" then 409
  else if code = "inference_busy" then 429
  else if code = "invalid_interpreter" ∨ code = "invalid_prompt" ∨ code = "prompt_too_large" then 400
  else if code = "provider_unconfigured" then 409
  else 502

section
variable [Platform]

/-- `callback(json_response(value, status))`. -/
def respond (callback : Callback) (value : Json) (status : Nat) : Effect :=
  match value.dump, callback with
  | .ok body, .held => ⟨[⟨status, body⟩], none⟩
  | .ok _, .moved => ⟨[], some .standard⟩
  | .error _, _ => ⟨[], some .standard⟩

/-! ### The job -/

/-- The lambda `dispatch_json` hands to the pool. -/
structure Job where
  callback : Callback
  function : Outcome

def Job.tryFunction (job : Job) : Effect :=
  match job.function with
  | .returns body status => respond job.callback body status
  | .throws e => ⟨[], some e⟩

/-- The three handlers of the job. -/
def Job.handle (job : Job) : Exception → Effect
  | .inference code message => respond job.callback (errorJson code message) (inferenceStatus code)
  | .domain code details => respond job.callback (errorJson code details) (domainStatus code)
  | .standard =>
    respond job.callback (errorJson "engine_error" "request could not be processed") 500

def Job.run (job : Job) : Effect := job.tryFunction.catching job.handle

/-- `dispatch_json`. The callback is in the job before the pool answers, so the handler of
`QueueFull` calls the one that was moved from. -/
def dispatchJson (pool : Pool Job) (callback : Callback) (function : Outcome) :
    Effect × Pool Job :=
  match pool.enqueue ⟨callback, function⟩ with
  | some pool => (⟨[], none⟩, pool)
  | none => (respond .moved (errorJson "execution_busy" "execution queue is full") 429,
      { pool with rejected := pool.rejected + 1 })

/-- The responses a request gets: those of the call itself, and those of the jobs it has queued, each
of which a worker runs once. -/
def answers (pool : Pool Job) (function : Outcome) : List Response :=
  (dispatchJson pool .held function).1.sent ++
    ((dispatchJson pool .held function).2.queue.drop pool.queue.length).flatMap (·.run.sent)

/-! ### One answer -/

/-- The response an accepted job owes. -/
inductive Owed : Outcome → Response → Prop where
  | result {body : Json} {status : Nat} {text : Bytes} (h : body.dump = .ok text) :
      Owed (.returns body status) ⟨status, text⟩
  | unserializable {body : Json} {status : Nat} {text : Bytes} (h : ¬ ∃ t, body.dump = .ok t)
      (htext : (errorJson "engine_error" "request could not be processed").dump = .ok text) :
      Owed (.returns body status) ⟨500, text⟩
  | inference {code message text : Bytes} (h : (errorJson code message).dump = .ok text) :
      Owed (.throws (.inference code message)) ⟨inferenceStatus code, text⟩
  | domain {code details text : Bytes} (h : (errorJson code details).dump = .ok text) :
      Owed (.throws (.domain code details)) ⟨domainStatus code, text⟩
  | standard {text : Bytes}
      (h : (errorJson "engine_error" "request could not be processed").dump = .ok text) :
      Owed (.throws .standard) ⟨500, text⟩

/-- The response of a request the pool refuses. -/
def Busy (response : Response) : Prop :=
  ∃ text, (errorJson "execution_busy" "execution queue is full").dump = .ok text ∧
    response = ⟨429, text⟩

/-- The request is answered once, by its job or by the refusal. -/
def AnsweredOnce (pool : Pool Job) (function : Outcome) : Prop :=
  ∃ response, answers pool function = [response] ∧
    if pool.hasRoom then Owed function response else Busy response

/-- The texts of an error a handler passes on are UTF-8. -/
def Outcome.HasText : Outcome → Prop
  | .throws (.inference code message) => Utf8.Text code ∧ Utf8.Text message
  | .throws (.domain code details) => Utf8.Text code ∧ Utf8.Text details
  | _ => True

theorem dump_errorJson_isOk_iff {code message : Bytes} :
    (∃ t, (errorJson code message).dump = .ok t) ↔ Utf8.Text code ∧ Utf8.Text message := by
  have herror : Utf8.Text "error" := Utf8.text_bytes (by decide)
  have hcodeKey : Utf8.Text "code" := Utf8.text_bytes (by decide)
  have hmessageKey : Utf8.Text "message" := Utf8.text_bytes (by decide)
  have hobject : errorJson code message =
      .obj [("error", .obj [("code", .str code), ("message", .str message)])] := rfl
  rw [Json.dump_isOk_iff, hobject]
  simp only [Json.isText_obj, Json.isText_str, List.forall_mem_cons, List.not_mem_nil, false_implies,
    implies_true, and_true, herror, hcodeKey, hmessageKey, true_and]

theorem respond_held {value : Json} {status : Nat} {text : Bytes} (h : value.dump = .ok text) :
    respond .held value status = ⟨[⟨status, text⟩], none⟩ := by
  unfold respond
  rw [h]

theorem respond_unserializable {value : Json} {status : Nat} (h : ¬ ∃ t, value.dump = .ok t)
    (callback : Callback) : respond callback value status = ⟨[], some .standard⟩ := by
  unfold respond
  cases hdump : value.dump with
  | ok t => exact absurd ⟨t, hdump⟩ h
  | error e => rfl

theorem respond_moved (value : Json) (status : Nat) :
    respond .moved value status = ⟨[], some .standard⟩ := by
  unfold respond
  cases value.dump <;> rfl

/-- What a job that holds its callback answers: the response it owes, or nothing where the texts of
its error cannot be serialized. -/
theorem run_sent (function : Outcome) :
    (function.HasText ∧ ∃ r, (Job.run ⟨.held, function⟩).sent = [r] ∧ Owed function r) ∨
      (¬ function.HasText ∧ (Job.run ⟨.held, function⟩).sent = []) := by
  obtain ⟨failure, hfailure⟩ :
      ∃ t, (errorJson "engine_error" "request could not be processed").dump = .ok t :=
    dump_errorJson_isOk_iff.mpr ⟨Utf8.text_bytes (by decide), Utf8.text_bytes (by decide)⟩
  cases function with
  | returns body status =>
    refine .inl ⟨trivial, ?_⟩
    by_cases hbody : ∃ t, body.dump = .ok t
    · obtain ⟨t, ht⟩ := hbody
      refine ⟨⟨status, t⟩, ?_, .result ht⟩
      simp [Job.run, Job.tryFunction, respond_held ht, Effect.catching]
    · refine ⟨⟨500, failure⟩, ?_, .unserializable hbody hfailure⟩
      simp [Job.run, Job.tryFunction, respond_unserializable hbody, Effect.catching, Job.handle,
        respond_held hfailure]
  | throws e =>
    cases e with
    | standard =>
      refine .inl ⟨trivial, ⟨500, failure⟩, ?_, .standard hfailure⟩
      simp [Job.run, Job.tryFunction, Effect.catching, Job.handle, respond_held hfailure]
    | inference code message =>
      by_cases htext : Utf8.Text code ∧ Utf8.Text message
      · obtain ⟨t, ht⟩ := dump_errorJson_isOk_iff.mpr htext
        refine .inl ⟨htext, ⟨inferenceStatus code, t⟩, ?_, .inference ht⟩
        simp [Job.run, Job.tryFunction, Effect.catching, Job.handle, respond_held ht]
      · refine .inr ⟨htext, ?_⟩
        have hdump := dump_errorJson_isOk_iff.not.mpr htext
        simp [Job.run, Job.tryFunction, Effect.catching, Job.handle, respond_unserializable hdump]
    | domain code details =>
      by_cases htext : Utf8.Text code ∧ Utf8.Text details
      · obtain ⟨t, ht⟩ := dump_errorJson_isOk_iff.mpr htext
        refine .inl ⟨htext, ⟨domainStatus code, t⟩, ?_, .domain ht⟩
        simp [Job.run, Job.tryFunction, Effect.catching, Job.handle, respond_held ht]
      · refine .inr ⟨htext, ?_⟩
        have hdump := dump_errorJson_isOk_iff.not.mpr htext
        simp [Job.run, Job.tryFunction, Effect.catching, Job.handle, respond_unserializable hdump]

theorem answers_of_room {pool : Pool Job} {function : Outcome} (h : pool.hasRoom = true) :
    answers pool function = (Job.run ⟨.held, function⟩).sent := by
  simp [answers, dispatchJson, Pool.enqueue, h]

theorem answers_of_full {pool : Pool Job} {function : Outcome} (h : pool.hasRoom = false) :
    answers pool function = [] := by
  simp [answers, dispatchJson, Pool.enqueue, h, respond_moved]

/-- **A request is answered exactly once when the pool takes its job** and the texts of an error the
job ends with are UTF-8, and otherwise not at all. -/
theorem answeredOnce_iff (pool : Pool Job) (function : Outcome) :
    AnsweredOnce pool function ↔ pool.hasRoom = true ∧ function.HasText := by
  unfold AnsweredOnce
  cases hroom : pool.hasRoom with
  | false => simp [answers_of_full hroom]
  | true =>
    rw [answers_of_room hroom]
    obtain ⟨htext, r, hr, howed⟩ | ⟨htext, hnone⟩ := run_sent function
    · simp only [if_true, hr, htext, and_self, iff_true]
      exact ⟨r, rfl, howed⟩
    · simp [hnone, htext]

end

section samples

local instance : Platform := samplePlatform

/-- A pool with room for one job, and one in its queue. -/
def fullPool : Pool Job := { queueCapacity := 1, queue := [⟨.held, .returns .null 200⟩] }

/-- A request the pool refuses is not answered at all. -/
theorem refused_request_unanswered : ¬ AnsweredOnce fullPool (.returns .null 200) := by
  rintro ⟨response, hresponse, -⟩
  rw [answers_of_full rfl] at hresponse
  cases hresponse

end samples

end ContextHmi.Execution
