import ContextHmi.Runtime.Proposals

/-!
# What a hit answers

In rules mode an interpretation is a function of the prompt's normal form, but for two members: the
task's request, which a hit replaces by the request at hand, and the prompt the answer echoes, which
it does not. So a hit answers like a miss exactly where the prompt is the one that was cached.

* `conclude_same`       : an interpretation is answered alike, whether it was cached or not;
* `hit_transparent_iff` : when a hit answers like a miss.
-/

namespace ContextHmi.Runtime

open Outcome Retrieval Inference Interleave

/-! ### Answers of the rules -/

section
variable {index : ModelIndex} {d : Draft}

theorem answerOf_cases (index : ModelIndex) (d : Draft) :
    (∃ message, ∀ prompt, answerOf index prompt d =
      (openAnswer prompt (candidatesOf d)).setField "message" (.str message)) ∨
    ∃ hint, d.requiresClarification = false ∧ d.taskHints = [hint] ∧ ∀ prompt,
      answerOf index prompt d =
        readyAnswer (openAnswer prompt (candidatesOf d)) (taskOf index prompt d hint) := by
  cases hclear : d.requiresClarification with
  | true => exact .inl ⟨messageOf d, fun prompt => by rw [answerOf, if_pos hclear]⟩
  | false =>
    have hclosed : ¬ d.requiresClarification = true := by simp [hclear]
    by_cases hone : ∃ hint, d.taskHints = [hint]
    · obtain ⟨hint, hhint⟩ := hone
      refine .inr ⟨hint, rfl, hhint, fun prompt => ?_⟩
      rw [answerOf, if_neg hclosed, hhint]
    · refine .inl ⟨"Specify whether to show measurements or alarms", fun prompt => ?_⟩
      rw [answerOf, if_neg hclosed, ← openAnswer_eq]
      split
      · exact (hone ⟨_, ‹_›⟩).elim
      · rfl

theorem answerOf_prompt (prompt : Bytes) :
    (answerOf index prompt d).find? "prompt" = some (.str prompt) := by
  rcases answerOf_cases index d with ⟨message, h⟩ | ⟨hint, -, -, h⟩
  · rw [h, clarification_eq]
    simp
  · rw [h, readyAnswer_eq]
    simp

theorem recorded_answer (prompt : Bytes) (usage retrieval : Json) :
    (((((answerOf index prompt d).setField "interpreter" (.str "rules")).setField "provider_usage"
      usage).setField "retrieval" retrieval).eraseField "provider_usage").eraseField "retrieval" =
        answerOf index prompt d := by
  rcases answerOf_cases index d with ⟨message, h⟩ | ⟨hint, -, -, h⟩
  · rw [h, clarification_eq]
    rfl
  · rw [h, readyAnswer_eq]
    rfl

end

/-! ### A miss in rules mode -/

section
variable [Platform] {service : Service} {σ : Snapshot} {request : Request} {retrieval : Json}
  {limits : RetrievalLimits} {reply : Result Bytes} {recorded : Recorded}

omit [Platform] in
theorem isObject_answerOf {index : ModelIndex} {d : Draft} {prompt : Bytes} :
    (answerOf index prompt d).isObject = true := Json.isObject_of_find? (answerOf_prompt prompt)

/-- The answer of the rules meets the schema and the scope. -/
def Accepted (index : ModelIndex) (limits : RetrievalLimits) (prompt : Bytes) (d : Draft) : Prop :=
  validateInterpretation (answerOf index prompt d) = .ok (answerOf index prompt d) ∧
    validateInterpretationScope index (d.render index limits) (answerOf index prompt d) = .ok ()

omit [Platform] in
theorem requestMode_of_selected {mode : Bytes} (h : service.selectedMode mode = "rules") :
    requestMode service.llama mode = "rules" := by
  unfold Service.selectedMode at h
  unfold requestMode
  split
  · rename_i hempty
    rw [if_pos hempty] at h
    cases hllama : service.llama with
    | none => rfl
    | some llama =>
      have hname : llama.name ≠ "rules" := by
        unfold Llama.name
        split <;> simp
      rw [modeOf, hllama] at h
      exact (hname h).elim
  · rename_i hempty
    rwa [if_neg hempty] at h

/-- **A miss in rules mode** records the answer of the rules where it is accepted. -/
theorem interpretMiss_rules {d : Draft} (hmode : service.selectedMode request.mode = "rules")
    (hprompt : request.prompt.length ≤ 8192) :
    interpretMiss service σ request (d.render σ.model.index limits) reply = .ok recorded ↔
      Accepted σ.model.index limits request.prompt d ∧
        recorded = ⟨answerOf σ.model.index request.prompt d, defaultUsage⟩ := by
  let usage := Json.object [("reported", .bool false), ("provider_call", .bool false)]
  have hscope : ∀ retrieval, validateInterpretationScope σ.model.index retrieval
      (((answerOf σ.model.index request.prompt d).setField "interpreter" (.str "rules")).setField
        "provider_usage" usage) =
      validateInterpretationScope σ.model.index retrieval
        (answerOf σ.model.index request.prompt d) := by
    intro retrieval
    refine validateInterpretationScope_congr ?_ isObject_answerOf ?_ ?_
    · exact Json.isObject_setField (Json.isObject_setField isObject_answerOf _ _) _ _
    · exact find?_provided _ (by simp) (by simp)
    · exact find?_provided _ (by simp) (by simp)
  have husage : (((answerOf σ.model.index request.prompt d).setField "interpreter"
      (.str "rules")).setField "provider_usage" usage).find? "provider_usage" = some usage := by
    rw [Json.find?_setField (Json.isObject_setField isObject_answerOf _ _), if_pos rfl]
  have hpropose : propose service.llama σ.model.index request.prompt
      (d.render σ.model.index limits) request.mode reply =
        proposeRules σ.model.index request.prompt (d.render σ.model.index limits) :=
    if_pos (requestMode_of_selected hmode)
  simp only [interpretMiss, interpret, hpropose, proposeRules, bind_eq_ok, pure_eq_ok, mapError_eq_ok,
    interpret_eq_ok hprompt, record, hmode]
  constructor
  · rintro ⟨_, ⟨_, ⟨value, hvalid, rfl⟩, _, hsc, rfl⟩, u, hu, rfl⟩
    obtain rfl := (validateInterpretation_eq_ok.mp hvalid).1
    rw [hscope] at hsc
    rw [Json.value_of_find? ((Json.find?_setField_ne _ (by simp) _).trans husage)] at hu
    obtain rfl := Except.ok.inj hu
    exact ⟨⟨hvalid, hsc⟩, by rw [recorded_answer]; rfl⟩
  · rintro ⟨⟨hvalid, hsc⟩, rfl⟩
    refine ⟨_, ⟨_, ⟨_, hvalid, rfl⟩, (), by rw [hscope]; exact hsc, rfl⟩, usage, ?_, ?_⟩
    · exact Json.value_of_find? ((Json.find?_setField_ne _ (by simp) _).trans husage) _
    · rw [recorded_answer]
      rfl

omit [Platform] in
theorem Accepted.congr {index : ModelIndex} (wf : index.WellFormed) {d : Draft} {p q first : Bytes}
    (hbelow : d.Below (requestDraft index first limits)) (hp : IsPrompt p) (hq : IsPrompt q)
    (h : Accepted index limits p d) : Accepted index limits q d := by
  obtain ⟨hvalid, hscope⟩ := h
  rcases answerOf_cases index d with ⟨message, hanswer⟩ | ⟨hint, hclear, hhint, hanswer⟩
  · have hstatus : ∀ e, (answerOf index e d).find? "status" = some (.str "clarification") := by
      intro e
      rw [hanswer, clarification_eq]
      simp
    constructor
    · rw [validateInterpretation_eq_ok] at hvalid ⊢
      obtain ⟨-, -, status, hfound, hcheck⟩ := hvalid
      obtain rfl : bytes "clarification" = status := by
        rw [hstatus, Option.some.injEq, Json.str.injEq] at hfound
        exact hfound
      rw [hanswer, clarification_eq] at hcheck ⊢
      refine ⟨rfl, ?_, bytes "clarification", by simp, ?_⟩
      · constructor
        case isObject => rfl
        case only => simp [Json.fields, interpretationFields]
        case interpreter => simp [Json.isString]
        case prompt => simpa using hq.2
        case supported => simp [Json.strings, Json.isArray, Json.size, Json.items, Json.isString]
      · simpa [checkStatus, checkClarification, checkCandidates, Json.has, Json.contains] using hcheck
    · rw [validateInterpretationScope, Json.valueString_of_find? (hstatus q), ok_bind,
        if_pos (by simp)]
      rfl
  · have hd := answerable wf hbelow hclear
    have hmem : hint ∈ d.taskHints := hhint ▸ List.mem_singleton_self hint
    have hstatus : ∀ e, (answerOf index e d).find? "status" = some (.str "ready") := by
      intro e
      rw [hanswer, readyAnswer_eq]
      simp
    have htask : ∀ e, (answerOf index e d).find? "task" = some (taskOf index e d hint) := by
      intro e
      rw [hanswer, readyAnswer_eq]
      simp
    have hmembers : ∀ e, TaskMembers index e d hint (taskOf index e d hint) :=
      fun e => taskOf_members hint
    have hready := fun e (he : IsPrompt e) => (hmembers e).ready_iff wf hd hmem he.2
    rw [hanswer, validate_ready hp.2] at hvalid
    obtain ⟨tags, htags⟩ := exists_draft_tags hbelow
    constructor
    · rw [hanswer, validate_ready hq.2]
      exact ⟨rfl, (hready q hq).mpr ((hready p hp).mp hvalid.2)⟩
    · have hwithin := (scope_eq_ok htags (hstatus p) (htask p) (hmembers p).kind
        (hmembers p).roles).mp hscope
      refine (scope_eq_ok htags (hstatus q) (htask q) (hmembers q).kind (hmembers q).roles).mpr
        ⟨hwithin.kind, hwithin.clarified, ?_, hwithin.measurements⟩
      have hanchor := hwithin.anchor
      unfold AnchorWithin at hanchor ⊢
      rw [(hmembers p).anchor] at hanchor
      rw [(hmembers q).anchor]
      exact hanchor

end

/-! ### From an interpretation to the answer -/

section
variable [Platform] {service : Service} {s : Shared} {input : Input} {request : Request} {held : Held}
  {recorded : Recorded} {hit : Bool} {summary : Json}

/-- The rest of a call that nothing disturbs. -/
def conclude (service : Service) (s : Shared) (input : Input) (request : Request) (held : Held)
    (hit : Bool) (recorded : Recorded) : Thread :=
  match finish service s input.elapsed request held hit recorded with
  | .publishing request held result view =>
    (publish service s input.journal request held result view).2
  | t => t

/-- What a call adds to an interpretation. -/
def executed (service : Service) (input : Input) (request : Request) (held : Held) (hit : Bool)
    (summary usage value : Json) : Json :=
  withExecution service held.snapshot request summary usage held.hit hit input.elapsed value

theorem find?_executed (value : Json) {usage : Json} {k : Bytes} (hexecution : k ≠ "execution")
    (husage : k ≠ "provider_usage") :
    (executed service input request held hit summary usage value).find? k = value.find? k :=
  find?_provided value hexecution.symm husage.symm

theorem conclude_clarification (hactive : held.snapshot.generation = s.generations.active.generation)
    (hsummary : contextSummary held.retrieval = .ok summary)
    (hstatus : recorded.value.find? "status" = some (.str "clarification"))
    (htask : recorded.value.find? "task" = none) :
    conclude service s input request held hit recorded = .answered request held
      (executed service input request held hit summary recorded.usage recorded.value) := by
  have hrefresh : refresh request.prompt request.client recorded.value = .ok recorded.value := by
    rw [refresh, Json.valueString_of_find? hstatus, ok_bind, htask]
    rfl
  have hstatus' : (executed service input request held hit summary recorded.usage
      recorded.value).find? "status" = some (.str "clarification") :=
    (find?_executed _ (by simp) (by simp)).trans hstatus
  have hcomplete : complete service held.snapshot request held.retrieval recorded.usage held.hit hit
      input.elapsed recorded.value = .ok ⟨executed service input request held hit summary
        recorded.usage recorded.value, none⟩ := by
    rw [complete, hsummary, ok_bind]
    show (Json.valueString (executed service input request held hit summary recorded.usage
      recorded.value) "status" [] >>= _) = _
    rw [Json.valueString_of_find? hstatus', ok_bind, if_neg (by simp)]
    rfl
  simp only [conclude, finish, hrefresh, hactive, ne_eq, not_true_eq_false, if_false, hcomplete]

omit [Platform] in
theorem postCheck_congr {index : ModelIndex} {value value' : Json}
    (h : value.find? "task" = value'.find? "task") : postCheck index value = postCheck index value' := by
  rw [postCheck, postCheck, h]

/-- The response of a call that published its view. -/
def viewResponse (service : Service) (s : Shared) (input : Input) (request : Request) (held : Held)
    (hit : Bool) (summary : Json) (recorded : Recorded) (task view : Json) : Json :=
  ((executed service input request held hit summary recorded.usage
    (recorded.value.setField "task" (requestTask request.prompt request.client task))).setField "task"
    (activeTask held.snapshot.model.index request.prompt request.client task)).setField "view"
    (publishedView service held.snapshot.generation (s.viewSequence + 1).toNat view)

theorem conclude_ready (hactive : held.snapshot.generation = s.generations.active.generation)
    (hsummary : contextSummary held.retrieval = .ok summary) {task : Json}
    (hstatus : recorded.value.find? "status" = some (.str "ready"))
    (htask : recorded.value.find? "task" = some task) (hready : ReadyTask task)
    (hf : FaithfulTask held.snapshot.model.index task) :
    conclude service s input request held hit recorded =
      match resolveTaskImpl held.snapshot.model.index
        (activeTask held.snapshot.model.index request.prompt request.client task) with
      | .error e => .failed e
      | .ok view => match input.journal with
        | .error e => .failed e
        | .ok () => .answered request held
          (viewResponse service s input request held hit summary recorded task view) := by
  let refreshed := recorded.value.setField "task" (requestTask request.prompt request.client task)
  let result := executed service input request held hit summary recorded.usage refreshed
  have hrefresh : refresh request.prompt request.client recorded.value = .ok refreshed := by
    rw [refresh, Json.valueString_of_find? hstatus, ok_bind, htask]
    simp only [if_true, pure_eq_ok]
    rfl
  have hstatus' : result.find? "status" = some (.str "ready") :=
    (find?_executed _ (by simp) (by simp)).trans
      ((Json.find?_setField_ne _ (by simp) _).trans hstatus)
  have hpost : postCheck held.snapshot.model.index result =
      .ok (activeTask held.snapshot.model.index request.prompt request.client task) := by
    rw [← postCheck_of_faithful (Json.isObject_of_find? htask) hready hf]
    exact postCheck_congr (find?_executed _ (by simp) (by simp))
  have hcomplete : complete service held.snapshot request held.retrieval recorded.usage held.hit hit
      input.elapsed refreshed = (do
        let view ← resolveTaskImpl held.snapshot.model.index
          (activeTask held.snapshot.model.index request.prompt request.client task)
        return ⟨result.setField "task"
          (activeTask held.snapshot.model.index request.prompt request.client task), some view⟩) := by
    rw [complete, hsummary, ok_bind]
    show (Json.valueString result "status" [] >>= _) = _
    rw [Json.valueString_of_find? hstatus', ok_bind, if_pos rfl]
    show (postCheck held.snapshot.model.index result >>= _) = _
    rw [hpost, ok_bind]
    rfl
  simp only [conclude, finish, hrefresh, hactive, ne_eq, not_true_eq_false, if_false, hcomplete]
  cases resolveTaskImpl held.snapshot.model.index
    (activeTask held.snapshot.model.index request.prompt request.client task) with
  | error e => rfl
  | ok view =>
    simp only [ok_bind, pure, Except.pure, publish, hactive, ne_eq, not_true_eq_false, if_false]
    cases input.journal with
    | error e => rfl
    | ok u => rw [viewResponse, hactive]

/-! ### A call on its own -/

/-- Sections of one call, with no other call in between. -/
def alone (service : Service) (input : Input) : Nat → Shared × Thread → Shared × Thread
  | 0, x => x
  | n + 1, x => match nextSection service x.1 x.2 input with
    | none => x
    | some y => alone service input n y

/-- What `Runtime::interpret` gives; it has at most seven sections. -/
def interpretAlone (service : Service) (s : Shared) (request : Request) (input : Input) : Thread :=
  (alone service input 7 (s, .asked (.interpret request))).2

theorem alone_of_none {t : Thread} (h : nextSection service s t input = none) (n : Nat) :
    alone service input n (s, t) = (s, t) := by
  cases n with
  | zero => rfl
  | succ n =>
    unfold alone
    rw [h]

theorem finish_cases (service : Service) (s : Shared) (elapsed : Int64) (request : Request)
    (held : Held) (hit : Bool) (recorded : Recorded) :
    (∃ response, finish service s elapsed request held hit recorded = .answered request held response) ∨
    (∃ e, finish service s elapsed request held hit recorded = .failed e) ∨
    ∃ result view, finish service s elapsed request held hit recorded =
      .publishing request held result view := by
  unfold finish
  split
  · exact .inr (.inl ⟨_, rfl⟩)
  · split
    · exact .inr (.inl ⟨_, rfl⟩)
    · split
      · exact .inr (.inl ⟨_, rfl⟩)
      · exact .inl ⟨_, rfl⟩
      · exact .inr (.inr ⟨_, _, rfl⟩)

theorem publish_ends (s s' : Shared) (journal : Result Unit) (result view : Json) :
    nextSection service s' (publish service s journal request held result view).2 input = none := by
  unfold publish
  simp only
  split
  · rfl
  · split <;> rfl

theorem alone_finishing (n : Nat) :
    (alone service input (n + 2) (s, .finishing request held hit recorded)).2 =
      conclude service s input request held hit recorded := by
  show (alone service input (n + 1)
    (s, finish service s input.elapsed request held hit recorded)).2 = _
  unfold conclude
  rcases finish_cases service s input.elapsed request held hit recorded with
    ⟨response, h⟩ | ⟨e, h⟩ | ⟨result, view, h⟩
  · rw [h, alone_of_none rfl]
  · rw [h, alone_of_none rfl]
  · rw [h]
    show (alone service input n (publish service s input.journal request held result view)).2 = _
    rw [alone_of_none (publish_ends s _ input.journal result view)]

/-- What a call keeps of the state while it looks for its retrieval. -/
structure SameBut (s s' : Shared) : Prop where
  generations : s'.generations = s.generations
  interpretations : s'.interpretationCache = s.interpretationCache

/-- **A call on its own holds the retrieval of the active model**, found or computed. -/
theorem alone_holding (hs : Sound service s) {ask : Ask} (hprompt : IsPrompt ask.prompt)
    {retrieval : Json} (hretrieve : retrieve s.generations.active.model.json ask.prompt
      (retrievalLimits service.options) = .ok retrieval) (n : Nat) :
    ∃ s' retrievalHit m, SameBut s s' ∧ alone service input (n + 3) (s, .asked ask) =
      alone service input (n + m) (s', .holding ask ⟨s.generations.active, retrieval, retrievalHit⟩) := by
  let key := retrievalKey service s.generations.active ask.prompt
  let looked : Shared := { s with retrievalCache := (s.retrievalCache.get input.now key).2 }
  show ∃ s' retrievalHit m, SameBut s s' ∧ alone service input (n + 1)
    (lookupRetrieval service s input.now ask s.generations.active) = _
  unfold lookupRetrieval
  simp only
  cases hget : (s.retrievalCache.get input.now
      (retrievalKey service s.generations.active ask.prompt)).1 with
  | some found =>
    have hfound := hs.found s.generations.known_active hprompt hget
    obtain rfl := Except.ok.inj (hfound.symm.trans hretrieve)
    exact ⟨looked, true, 1, ⟨rfl, rfl⟩, rfl⟩
  | none =>
    refine ⟨{ looked with retrievalCache := looked.retrievalCache.put input.now key retrieval },
      false, 0, ⟨rfl, rfl⟩, ?_⟩
    show alone service input n (missRetrieval service looked input.now ask s.generations.active) = _
    unfold missRetrieval
    rw [hretrieve]
    rfl

variable {σ : Snapshot} {retrieval value : Json}

theorem interpretAlone_hit (request : Request) (input : Input) (hs : Sound service s) (hactive : s.generations.active = σ)
    (hprompt : IsPrompt request.prompt)
    (hretrieve : retrieve σ.model.json request.prompt (retrievalLimits service.options) =
      .ok retrieval)
    (hget : (s.interpretationCache.get input.now (interpretationKey service σ request)).1 =
      some value) :
    ∃ s' retrievalHit, s'.generations = s.generations ∧ interpretAlone service s request input =
      conclude service s' input request ⟨σ, retrieval, retrievalHit⟩ true ⟨value, defaultUsage⟩ := by
  subst hactive
  have hprompt' : IsPrompt (Ask.interpret request).prompt := hprompt
  obtain ⟨s', retrievalHit, m, hsame, halone⟩ := alone_holding hs hprompt' hretrieve 4
  let key := interpretationKey service s.generations.active request
  refine ⟨{ s' with interpretationCache := (s'.interpretationCache.get input.now key).2 },
    retrievalHit, hsame.generations, ?_⟩
  rw [← alone_finishing (m + 1), interpretAlone, halone, show 4 + m = m + 1 + 2 + 1 by omega]
  show (alone service input (m + 1 + 2) (lookupInterpretation service s' input.now request _)).2 = _
  unfold lookupInterpretation
  simp only
  rw [hsame.interpretations, hget]

theorem interpretAlone_miss (request : Request) (input : Input) (hs : Sound service s) (hactive : s.generations.active = σ)
    (hprompt : IsPrompt request.prompt)
    (hretrieve : retrieve σ.model.json request.prompt (retrievalLimits service.options) =
      .ok retrieval)
    (hget : (s.interpretationCache.get input.now (interpretationKey service σ request)).1 = none)
    (hmiss : interpretMiss service σ request retrieval input.reply = .ok recorded) :
    ∃ s' retrievalHit, s'.generations = s.generations ∧ interpretAlone service s request input =
      conclude service s' input request ⟨σ, retrieval, retrievalHit⟩ false recorded := by
  subst hactive
  have hprompt' : IsPrompt (Ask.interpret request).prompt := hprompt
  obtain ⟨s', retrievalHit, m, hsame, halone⟩ := alone_holding hs hprompt' hretrieve 4
  rw [← hsame.interpretations] at hget
  let key := interpretationKey service s.generations.active request
  let looked : Shared :=
    { s' with interpretationCache := (s'.interpretationCache.get input.now key).2 }
  let put := looked.interpretationCache.put input.now key recorded.value
  refine ⟨{ looked with interpretationCache := put }, retrievalHit, hsame.generations, ?_⟩
  rw [← alone_finishing m, interpretAlone, halone, show 4 + m = m + 2 + 1 + 1 by omega]
  show (alone service input (m + 2 + 1)
    (lookupInterpretation service s' input.now request _)).2 = _
  unfold lookupInterpretation
  simp only
  rw [hget]
  show (alone service input (m + 2) (missInterpretation service looked input request _)).2 = _
  unfold missInterpretation
  rw [hmiss]

/-! ### The same answer -/

/-- Views that differ in their ids at most. -/
def SameView : Option Json → Option Json → Prop
  | none, none => True
  | some v, some v' => ∀ k : Bytes, k ≠ "view_id" → v.find? k = v'.find? k
  | _, _ => False

/-- Responses that differ in `execution`, `provider_usage` and the id of the view at most. -/
structure SameResponse (r r' : Json) : Prop where
  members : ∀ k : Bytes, k ≠ "execution" → k ≠ "provider_usage" → k ≠ "view" → r.find? k = r'.find? k
  view : SameView (r.find? "view") (r'.find? "view")

/-- Calls that end alike. -/
inductive SameAnswer : Thread → Thread → Prop
  | answered {request request' : Request} {held held' : Held} {r r' : Json} (h : SameResponse r r') :
    SameAnswer (.answered request held r) (.answered request' held' r')
  | failed (e : Error) : SameAnswer (.failed e) (.failed e)

/-- An interpretation that clarifies, or is ready with a task of the model. -/
inductive Answers (index : ModelIndex) (value : Json) : Prop
  | clarifies (hstatus : value.find? "status" = some (.str "clarification"))
    (htask : value.find? "task" = none)
  | ready {task : Json} (hstatus : value.find? "status" = some (.str "ready"))
    (htask : value.find? "task" = some task) (hready : ReadyTask task)
    (hf : FaithfulTask index task)

omit [Platform] in
theorem answers_of_accepted {index : ModelIndex} (wf : index.WellFormed) {limits : RetrievalLimits}
    {d : Draft} {p first : Bytes} (hbelow : d.Below (requestDraft index first limits))
    (hp : IsPrompt p) (h : Accepted index limits p d) : Answers index (answerOf index p d) := by
  rcases answerOf_cases index d with ⟨message, hanswer⟩ | ⟨hint, hclear, hhint, hanswer⟩
  · rw [hanswer, clarification_eq]
    exact .clarifies (by simp) (by simp)
  · have hvalid := h.1
    rw [hanswer, validate_ready hp.2] at hvalid
    rw [hanswer, readyAnswer_eq]
    exact .ready (by simp) (by simp) hvalid.2
      (taskMembers_faithful wf (taskOf_members hint) (answerable wf hbelow hclear))

omit [Platform] in
theorem publishedView_same (service : Service) (generation n n' : Nat) {view : Json}
    (hview : view.isObject = true) :
    SameView (some (publishedView service generation n view))
      (some (publishedView service generation n' view)) := by
  intro k hk
  rw [publishedView, publishedView, Json.find?_setFields hview, Json.find?_setFields hview]
  simp [Ne.symm hk]

theorem isObject_resolved {index : ModelIndex} {task view : Json}
    (h : resolveTaskImpl index task = .ok view) : view.isObject = true := by
  obtain ⟨c, -, rfl⟩ := resolveTaskImpl_eq_ok.mp h
  exact Json.isObject_setField (Json.isObject_object _) _ _

omit [Platform] in
theorem SameView.refl (v : Option Json) : SameView v v := by
  cases v with
  | none => trivial
  | some v => exact fun _ _ => rfl

theorem find?_viewResponse {s : Shared} {task view : Json} (hobject : recorded.value.isObject = true)
    {k : Bytes} (hexecution : k ≠ "execution") (husage : k ≠ "provider_usage") :
    (viewResponse service s input request held hit summary recorded task view).find? k =
      if k = "view" then
        some (publishedView service held.snapshot.generation (s.viewSequence + 1).toNat view)
      else if k = "task" then
        some (activeTask held.snapshot.model.index request.prompt request.client task)
      else recorded.value.find? k := by
  have hrefreshed := Json.isObject_setField hobject "task"
    (requestTask request.prompt request.client task)
  have hexecuted : (executed service input request held hit summary recorded.usage
      (recorded.value.setField "task" (requestTask request.prompt request.client task))).isObject =
        true := Json.isObject_setField (Json.isObject_setField hrefreshed _ _) _ _
  rw [viewResponse, Json.find?_setField (Json.isObject_setField hexecuted _ _)]
  by_cases hview : k = "view"
  · rw [if_pos hview.symm, if_pos hview]
  · rw [if_neg (Ne.symm hview), if_neg hview, Json.find?_setField hexecuted]
    by_cases htask : k = "task"
    · rw [if_pos htask.symm, if_pos htask]
    · rw [if_neg (Ne.symm htask), if_neg htask, find?_executed _ hexecution husage,
        Json.find?_setField_ne _ (Ne.symm htask)]

/-- **An interpretation is answered alike**, whether it was cached or not. -/
theorem conclude_same {s s' : Shared} {σ : Snapshot} {retrieval value u u' : Json} {rhit rhit' : Bool}
    {hit hit' : Bool} (hactive : σ.generation = s.generations.active.generation)
    (hactive' : σ.generation = s'.generations.active.generation)
    (hsummary : contextSummary retrieval = .ok summary) (h : Answers σ.model.index value) :
    SameAnswer (conclude service s input request ⟨σ, retrieval, rhit⟩ hit ⟨value, u⟩)
      (conclude service s' input request ⟨σ, retrieval, rhit'⟩ hit' ⟨value, u'⟩) := by
  cases h with
  | clarifies hstatus htask =>
    rw [conclude_clarification hactive hsummary hstatus htask,
      conclude_clarification hactive' hsummary hstatus htask]
    refine .answered ⟨fun k hexecution husage _ => ?_, ?_⟩
    · rw [find?_executed _ hexecution husage, find?_executed _ hexecution husage]
    · rw [find?_executed _ (by simp) (by simp), find?_executed _ (by simp) (by simp)]
      exact SameView.refl _
  | @ready task hstatus htask hready hf =>
    rw [conclude_ready hactive hsummary hstatus htask hready hf,
      conclude_ready hactive' hsummary hstatus htask hready hf]
    cases hview : resolveTaskImpl σ.model.index
        (activeTask σ.model.index request.prompt request.client task) with
    | error e => exact .failed e
    | ok view =>
      cases hjournal : input.journal with
      | error e => exact .failed e
      | ok u =>
        have hobject : value.isObject = true := Json.isObject_of_find? htask
        refine .answered ⟨fun k hexecution husage hk => ?_, ?_⟩
        · rw [find?_viewResponse hobject hexecution husage, if_neg hk,
            find?_viewResponse hobject hexecution husage, if_neg hk]
        · rw [find?_viewResponse hobject (by simp) (by simp), if_pos rfl,
            find?_viewResponse hobject (by simp) (by simp), if_pos rfl]
          exact publishedView_same service _ _ _ (isObject_resolved hview)

/-- The response of a call echoes a prompt. -/
def echoes (prompt : Bytes) : Thread → Bool
  | .answered _ _ response => response.has "prompt" (Json.isStringWith (· == prompt))
  | _ => false

theorem SameAnswer.echo {t t' : Thread} {p q : Bytes} (h : SameAnswer t t') (ht : echoes p t = true)
    (ht' : echoes q t' = true) : p = q := by
  cases h with
  | answered h =>
    have hprompt := h.members "prompt" (by simp) (by simp) (by simp)
    rw [Json.has_string.mp ht, Json.has_string.mp ht', Option.some.injEq, Json.str.injEq] at hprompt
    exact hprompt
  | failed e => cases ht

theorem conclude_echoes (request : Request) (input : Input) {s : Shared} {σ : Snapshot}
    {retrieval value u : Json} {retrievalHit : Bool}
    (hactive : σ.generation = s.generations.active.generation)
    (hsummary : contextSummary retrieval = .ok summary) (h : Answers σ.model.index value)
    (hprompt : IsPrompt request.prompt) (hclient : ClientFits request.client)
    (hjournal : input.journal = .ok ()) {p : Bytes} (hecho : value.find? "prompt" = some (.str p)) :
    echoes p (conclude service s input request ⟨σ, retrieval, retrievalHit⟩ hit ⟨value, u⟩) = true := by
  cases h with
  | clarifies hstatus htask =>
    rw [conclude_clarification hactive hsummary hstatus htask]
    exact Json.has_string.mpr ((find?_executed _ (by simp) (by simp)).trans hecho)
  | @ready task hstatus htask hready hf =>
    obtain ⟨view, hview⟩ := activeTask_resolves σ.model hready hf hprompt hclient
    have hobject : value.isObject = true := Json.isObject_of_find? htask
    rw [conclude_ready hactive hsummary hstatus htask hready hf, hview, hjournal]
    refine Json.has_string.mpr ?_
    rw [find?_viewResponse hobject (by simp) (by simp), if_neg (by simp), if_neg (by simp)]
    exact hecho

/-! ### Summaries -/

theorem contextSummary_isOk {model retrieval : Json} {prompt : Bytes} {limits : RetrievalLimits}
    (h : retrieve model prompt limits = .ok retrieval) :
    ∃ summary, contextSummary retrieval = .ok summary := by
  obtain ⟨text, htext⟩ := retrieve_dump h
  obtain ⟨index, d, -, -, -, -, rfl⟩ := retrieve_eq_ok h
  have htruncated : (d.render index limits).find? "truncated" = some d.truncated.toJson := by
    simp [Draft.render]
  obtain ⟨flags, hflags⟩ : ∃ flags, d.truncated.toJson.elements.mapM Json.getBool = .ok flags :=
    ⟨_, rfl⟩
  have hscope : (d.render index limits).find? "scope" = some (.object
      [("assets", .arr (d.assets.map compactAsset)), ("relationships", .arr d.relationships),
        ("tags", .arr d.tags), ("alarms", .arr d.alarms)]) := by
    simp [Draft.render]
  simp only [contextSummary, htext, ok_bind, Json.atKey_eq_ok.mpr hscope,
    Json.atKey_eq_ok.mpr htruncated, hflags, Json.atKey_eq_ok.mpr find?_render_candidates,
    bind_eq_ok, pure_eq_ok, Json.atKey_eq_ok, Json.find?_object]
  simp

/-! ### Where entries come from -/

/-- The entry of a key is what a miss with that key recorded. -/
def RecordedEntry (service : Service) (g : Generations) (key : Bytes) (value : Json) : Prop :=
  ∃ σ request retrieval reply usage, g.Known σ ∧ IsPrompt request.prompt ∧
    key = interpretationKey service σ request ∧
    retrieve σ.model.json request.prompt (retrievalLimits service.options) = .ok retrieval ∧
    interpretMiss service σ request retrieval reply = .ok ⟨value, usage⟩

theorem reachable_recorded {model : AcceptedModel} {c : Config Shared Thread}
    (h : Reachable (requests service) always (started service model) c) :
    c.shared.interpretationCache.Every (RecordedEntry service c.shared.generations) := by
  refine reachable_rule
    (J := fun s => s.interpretationCache.Every (RecordedEntry service s.generations))
    (fun _ h => nomatch h) ?_ h
  intro s t input s' t' hs ht _ hstep hrecorded
  refine step_interpretations ?_ ?_ hrecorded hstep
  · rintro g g' key value hg ⟨σ, request, retrieval, reply, usage, hσ, hrest⟩
    exact ⟨σ, request, retrieval, reply, usage, hg σ hσ, hrest⟩
  · intro request held recorded hthread hmade
    subst hthread
    exact ⟨held.snapshot, request, held.retrieval, input.reply, recorded.usage, ht.known, ht.isPrompt,
      rfl, ht.retrieval, hmade⟩

theorem separator_notMem_selected
    (h : interpretMiss service σ request retrieval reply = .ok recorded) :
    separator ∉ service.selectedMode request.mode := by
  have hmode : requestMode service.llama request.mode = "rules" ∨
      requestMode service.llama request.mode = "llama" ∨
      requestMode service.llama request.mode = "llama.cpp" := by
    simp only [interpretMiss, interpret, bind_eq_ok] at h
    obtain ⟨-, ⟨proposed, hpropose, -⟩, -⟩ := h
    unfold propose at hpropose
    simp only at hpropose
    by_contra hnone
    rw [not_or] at hnone
    rw [if_neg hnone.1, if_neg hnone.2] at hpropose
    cases hpropose
  unfold Service.selectedMode
  split
  · unfold modeOf
    cases service.llama with
    | none => decide
    | some llama =>
      show separator ∉ llama.name
      unfold Llama.name
      split <;> decide
  · rename_i hempty
    rw [requestMode, if_neg hempty] at hmode
    rcases hmode with h | h | h <;> rw [h] <;> decide

/-- **The entry of a request in rules mode** is what a miss in rules mode recorded for a prompt with
its normal form, on the same snapshot. -/
theorem recorded_rules {model : AcceptedModel} {c : Config Shared Thread}
    (h : Reachable (requests service) always (started service model) c)
    (hσ : c.shared.generations.Known σ) {q : Bytes} {value : Json} {now : Nat}
    (hget : (c.shared.interpretationCache.get now (cacheKey service.options σ "rules" q)).1 =
      some value) :
    ∃ request retrieval reply usage, service.selectedMode request.mode = "rules" ∧
      IsPrompt request.prompt ∧ normalizedCachePrompt request.prompt = normalizedCachePrompt q ∧
      retrieve σ.model.json request.prompt (retrievalLimits service.options) = .ok retrieval ∧
      interpretMiss service σ request retrieval reply = .ok ⟨value, usage⟩ := by
  obtain ⟨τ, request, retrieval, reply, usage, hτ, hprompt, hkey, hretrieve, hmiss⟩ :=
    (reachable_recorded h).found hget
  obtain rfl := (reachable_sound h).1.numbered.eq_of_generation hσ hτ (cacheKey_generation hkey)
  obtain ⟨hmode, hnormal⟩ := cacheKey_inj_mode (by decide) (separator_notMem_selected hmiss) hkey
  exact ⟨request, retrieval, reply, usage, hmode.symm, hprompt, hnormal.symm, hretrieve, hmiss⟩

/-! ### Hits and misses -/

/-- **A hit answers like a miss exactly for the prompt that was cached.** Two calls of one request
meet the same snapshot; one finds an entry, which echoes the prompt `p` it was made for, the other
finds none. -/
theorem hit_transparent_iff {model model' : AcceptedModel} {c c' : Config Shared Thread}
    (hc : Reachable (requests service) always (started service model) c)
    (hc' : Reachable (requests service) always (started service model') c')
    (hσ : c.shared.generations.active = σ) (hσ' : c'.shared.generations.active = σ) {p q : Bytes}
    (hq : IsPrompt q) {now : Nat} {elapsed : Int64} {value : Json}
    (hhit : (c.shared.interpretationCache.get now (cacheKey service.options σ "rules" q)).1 =
      some value)
    (hcached : value.find? "prompt" = some (.str p))
    (hmiss : (c'.shared.interpretationCache.get now (cacheKey service.options σ "rules" q)).1 =
      none) :
    (∀ client journal, SameAnswer
      (interpretAlone service c.shared ⟨q, "rules", client⟩ ⟨now, elapsed, reply, journal⟩)
      (interpretAlone service c'.shared ⟨q, "rules", client⟩ ⟨now, elapsed, reply, journal⟩)) ↔
      p = q := by
  have hs := (reachable_sound hc).1
  have hs' := (reachable_sound hc').1
  obtain ⟨request, retrieval, cachedReply, usage, hmode, hp, hnormal, hretrieve, hmade⟩ :=
    recorded_rules hc (hσ ▸ c.shared.generations.known_active) hhit
  have hsame : retrieve σ.model.json q (retrievalLimits service.options) = .ok retrieval :=
    (retrieve_congr hq hp hnormal.symm _ _).trans hretrieve
  obtain ⟨summary, hsummary⟩ := contextSummary_isOk hretrieve
  obtain ⟨index, d, hindex, -, -, hbelow, rfl⟩ := retrieve_eq_ok hretrieve
  obtain rfl : σ.model.index = index := Except.ok.inj (σ.model.accepted.symm.trans hindex)
  obtain ⟨haccepted, hvalue⟩ := (interpretMiss_rules hmode hp.2).mp hmade
  obtain ⟨rfl, rfl⟩ := Recorded.mk.inj hvalue
  obtain rfl : request.prompt = p := by
    rw [answerOf_prompt, Option.some.injEq, Json.str.injEq] at hcached
    exact hcached
  have haccepted' := haccepted.congr σ.model.wellFormed hbelow hp hq
  have hanswers := answers_of_accepted σ.model.wellFormed hbelow hp haccepted
  have hanswers' := answers_of_accepted σ.model.wellFormed hbelow hq haccepted'
  have hend : ∀ client journal, ∃ s s' rhit rhit', s.generations = c.shared.generations ∧
      s'.generations = c'.shared.generations ∧
      interpretAlone service c.shared ⟨q, "rules", client⟩ ⟨now, elapsed, reply, journal⟩ =
        conclude service s ⟨now, elapsed, reply, journal⟩ ⟨q, "rules", client⟩
          ⟨σ, d.render σ.model.index (retrievalLimits service.options), rhit⟩ true
          ⟨answerOf σ.model.index request.prompt d, defaultUsage⟩ ∧
      interpretAlone service c'.shared ⟨q, "rules", client⟩ ⟨now, elapsed, reply, journal⟩ =
        conclude service s' ⟨now, elapsed, reply, journal⟩ ⟨q, "rules", client⟩
          ⟨σ, d.render σ.model.index (retrievalLimits service.options), rhit'⟩ false
          ⟨answerOf σ.model.index q d, defaultUsage⟩ := by
    intro client journal
    have hrecorded : interpretMiss service σ ⟨q, "rules", client⟩
        (d.render σ.model.index (retrievalLimits service.options)) reply =
          .ok ⟨answerOf σ.model.index q d, defaultUsage⟩ :=
      (interpretMiss_rules rfl hq.2).mpr ⟨haccepted', rfl⟩
    obtain ⟨s, rhit, hgenerations, hend⟩ := interpretAlone_hit ⟨q, "rules", client⟩
      ⟨now, elapsed, reply, journal⟩ hs hσ hq hsame hhit
    obtain ⟨s', rhit', hgenerations', hend'⟩ := interpretAlone_miss ⟨q, "rules", client⟩
      ⟨now, elapsed, reply, journal⟩ hs' hσ' hq hsame hmiss hrecorded
    exact ⟨s, s', rhit, rhit', hgenerations, hgenerations', hend, hend'⟩
  constructor
  · intro hall
    -- an empty client and a journal that works: both calls are answered, and each echoes its own
    obtain ⟨s, s', rhit, rhit', hs, hs', hend, hend'⟩ := hend (.obj []) (.ok ())
    have hboth := hall (.obj []) (.ok ())
    rw [hend, hend'] at hboth
    refine hboth.echo ?_ ?_
    · exact conclude_echoes ⟨q, "rules", .obj []⟩ ⟨now, elapsed, reply, .ok ()⟩ (by rw [hs, hσ])
        hsummary hanswers hq (.inl rfl) rfl (answerOf_prompt _)
    · exact conclude_echoes ⟨q, "rules", .obj []⟩ ⟨now, elapsed, reply, .ok ()⟩ (by rw [hs', hσ'])
        hsummary hanswers' hq (.inl rfl) rfl (answerOf_prompt _)
  · intro hpq client journal
    obtain ⟨s, s', rhit, rhit', hs, hs', hend, hend'⟩ := hend client journal
    rw [hend, hend', hpq]
    exact conclude_same (by rw [hs, hσ]) (by rw [hs', hσ']) hsummary hanswers'

end

/-! ### Another case of the same prompt -/

section samples

local instance : Platform := samplePlatform

/-- A prompt, and another with its normal form. -/
def firstPrompt : Bytes := "show the tank level"

def secondPrompt : Bytes := "Show the tank level"

/-- A run after which the first prompt is cached. -/
def cachedConfig : Option (Config Shared Thread) := proposeConfig tankService "rules" quietly

theorem active_of_generation {c : Config Shared Thread} (hrun : cachedConfig = some c)
    (h : c.shared.generations.active.generation = 0) :
    c.shared.generations.active = ⟨tankAccepted, 0⟩ :=
  (reachable_sound (reachable_run hrun)).1.numbered.eq_of_generation (Generations.known_active _)
    (reachable_started (reachable_run hrun)) h

theorem hit_transparent_iff_level : ∃ c : Config Shared Thread, cachedConfig = some c ∧
    ((∀ client journal, SameAnswer
      (interpretAlone tankService c.shared ⟨secondPrompt, "rules", client⟩ ⟨0, 0, .ok [], journal⟩)
      (interpretAlone tankService (started tankService tankAccepted).shared
        ⟨secondPrompt, "rules", client⟩ ⟨0, 0, .ok [], journal⟩)) ↔ firstPrompt = secondPrompt) := by
  have hfound : (cachedConfig.any fun c => c.shared.generations.active.generation == 0 &&
      (c.shared.interpretationCache.get 0 (cacheKey tankService.options ⟨tankAccepted, 0⟩ "rules"
        secondPrompt)).1.any (·.has "prompt" (Json.isStringWith (· == firstPrompt)))) = true := by
    decide +kernel
  obtain ⟨c, hrun, hany⟩ := (Option.any_eq_true _ _).mp hfound
  rw [Bool.and_eq_true, beq_iff_eq] at hany
  obtain ⟨value, hget, hprompt⟩ := (Option.any_eq_true _ _).mp hany.2
  have hbefore : Reachable (requests tankService) always (started tankService tankAccepted)
      (started tankService tankAccepted) := .init
  exact ⟨c, hrun, hit_transparent_iff (reachable_run hrun) hbefore (active_of_generation hrun hany.1)
    rfl (by decide) hget (Json.has_string.mp hprompt) rfl⟩

/-- The first prompt is cached, and a call for the second one echoes the first. -/
theorem hit_echoes_first : ∃ c : Config Shared Thread,
    Reachable (requests tankService) always (started tankService tankAccepted) c ∧
      normalizedCachePrompt firstPrompt = normalizedCachePrompt secondPrompt ∧
      c.shared.generations.active = (started tankService tankAccepted).shared.generations.active ∧
      ¬ SameAnswer
        (interpretAlone tankService c.shared ⟨secondPrompt, "rules", .object []⟩ quietly)
        (interpretAlone tankService (started tankService tankAccepted).shared
          ⟨secondPrompt, "rules", .object []⟩ quietly) := by
  have hfound : (cachedConfig.any fun c => c.shared.generations.active.generation == 0 &&
      echoes firstPrompt
        (interpretAlone tankService c.shared ⟨secondPrompt, "rules", .object []⟩ quietly)) = true := by
    decide +kernel
  have hmiss : echoes secondPrompt (interpretAlone tankService
      (started tankService tankAccepted).shared ⟨secondPrompt, "rules", .object []⟩ quietly) = true := by
    decide +kernel
  obtain ⟨c, hrun, hany⟩ := (Option.any_eq_true _ _).mp hfound
  rw [Bool.and_eq_true, beq_iff_eq] at hany
  refine ⟨c, reachable_run hrun, by decide, active_of_generation hrun hany.1, fun hsame => ?_⟩
  exact absurd (hsame.echo hany.2 hmiss) (by decide)

end samples

end ContextHmi.Runtime
