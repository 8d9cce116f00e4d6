import ContextHmi.Runtime.Replay
import ContextHmi.Runtime.Requests

/-!
# Cached proposals

A ready interpretation is cached before it is checked against the active model. What the rules
propose passes those checks; what a provider proposes does where its task is one of the model, which
neither the schema nor the scope asks for. In a run whose replies only propose such tasks, every
cached proposal can be used again.

* `rules_faithful`  : the rules propose tasks of the model;
* `cached_replays`  : in such a run, every cached proposal replays;
* `foreign_cached`  : a proposal for another model is cached, and fails whenever it is replayed.
-/

namespace ContextHmi.Runtime

open Outcome Retrieval Inference Interleave

section
variable [Platform]

/-! ### Proposals of the rules -/

omit [Platform] in
theorem taskMembers_faithful {index : ModelIndex} (wf : index.WellFormed) {limits : RetrievalLimits}
    {d : Draft} {prompt hint : Bytes} {task : Json} (h : TaskMembers index prompt d hint task)
    (hd : d.Answerable index limits) : FaithfulTask index task where
  modelId := by
    intro v hv
    rw [h.modelId, Option.some.injEq] at hv
    simp [← hv, Json.eqv]
  revision := by
    intro v hv
    rw [h.revision, Option.some.injEq] at hv
    exact hv ▸ eqv_revision wf
  anchor := by
    intro id hid
    rw [h.anchor, Option.map_eq_some_iff] at hid
    obtain ⟨id', hid', heq⟩ := hid
    obtain rfl := Json.str.inj heq
    exact hd.declared _ (mem_eligible_of_anchorOf hid')
  roles := by
    intro roles hroles
    rw [h.roles, Option.map_eq_some_iff] at hroles
    obtain ⟨l, hl, heq⟩ := hroles
    obtain rfl := Json.strings_inj.mp heq
    unfold rolesOf at hl
    split at hl
    · cases hl
    · exact Option.some.inj hl ▸ hd.roles

/-- **The rules propose tasks of the model.** -/
theorem rules_faithful {model : AcceptedModel} {limits : RetrievalLimits}
    {prompt : Bytes} {retrieval value task : Json} (hprompt : IsPrompt prompt)
    (hretrieve : retrieve model.json prompt limits = .ok retrieval)
    (h : RuleInferenceProvider.interpret model.index prompt retrieval = .ok value)
    (hready : value.find? "status" = some (.str "ready")) (htask : value.find? "task" = some task) :
    FaithfulTask model.index task := by
  obtain ⟨index, d, hindex, -, -, hbelow, rfl⟩ := retrieve_eq_ok hretrieve
  obtain rfl : model.index = index := Except.ok.inj (model.accepted.symm.trans hindex)
  rw [interpret_eq_ok hprompt.2] at h
  obtain ⟨rfl, -⟩ := validateInterpretation_eq_ok.mp h
  have hclear : d.requiresClarification = false := by
    by_contra hne
    rw [answerOf, if_pos (Bool.not_eq_false _ ▸ hne), clarification_eq] at hready
    simp at hready
  have hd := answerable model.wellFormed hbelow hclear
  rw [answerOf, if_neg (by simp [hclear])] at hready htask
  split at htask
  · rename_i hint _
    rw [readyAnswer_eq] at htask
    obtain rfl : taskOf model.index prompt d hint = task := by simpa using htask
    exact taskMembers_faithful model.wellFormed (taskOf_members hint) hd
  · rename_i hnone
    split at hready
    · exact (hnone _ ‹_›).elim
    · rw [openAnswer_eq, clarification_eq] at hready
      simp at hready

/-! ### Entries -/

/-- The entry of a key: what is ready in it is a task of the model of its generation. -/
def ProposalEntry (service : Service) (g : Generations) (key : Bytes) (value : Json) : Prop :=
  ∃ σ mode prompt, g.Known σ ∧ key = cacheKey service.options σ mode prompt ∧
    (value.find? "status" = some (.str "ready") → ∃ task, value.find? "task" = some task ∧
      ReadyTask task ∧ FaithfulTask σ.model.index task)

def Cached (service : Service) (s : Shared) : Prop :=
  s.interpretationCache.Every (ProposalEntry service s.generations)

/-- **The condition**: a task that a reply proposes, and that the schema and the scope let through,
is a task of the model the request works on. -/
def FaithfulReplies (service : Service) (_ : Shared) (t : Thread) (input : Input) : Prop :=
  ∀ request held llama task, t = .proposing request held → service.llama = some llama →
    request.mode ≠ "rules" →
    Proposes llama held.snapshot.model.index request.prompt held.retrieval input.reply task →
    FaithfulTask held.snapshot.model.index task

variable {service : Service} {s s' : Shared} {t t' : Thread} {input : Input}

theorem ProposalEntry.mono {g g' : Generations} (hg : Grows g g') {key : Bytes} {value : Json}
    (h : ProposalEntry service g key value) : ProposalEntry service g' key value := by
  obtain ⟨σ, mode, prompt, hσ, hrest⟩ := h
  exact ⟨σ, mode, prompt, hg σ hσ, hrest⟩

omit [Platform] in
theorem find?_record {selectedMode : Bytes} {result : Json} {recorded : Recorded}
    (h : record selectedMode result = .ok recorded) {k : Bytes} (husage : k ≠ "provider_usage")
    (hretrieval : k ≠ "retrieval") : recorded.value.find? k = result.find? k := by
  simp only [record, bind_eq_ok, pure_eq_ok] at h
  obtain ⟨usage, -, rfl⟩ := h
  show ((result.eraseField "provider_usage").eraseField "retrieval").find? k = result.find? k
  rw [Json.find?_eraseField_ne _ hretrieval.symm, Json.find?_eraseField_ne _ husage.symm]

theorem interpretMiss_entry {request : Request} {held : Held}
    (hheld : HeldSound service s.generations request.prompt held)
    (hreply : FaithfulReplies service s (.proposing request held) input) {recorded : Recorded}
    (h : interpretMiss service held.snapshot request held.retrieval input.reply = .ok recorded) :
    ProposalEntry service s.generations (interpretationKey service held.snapshot request)
      recorded.value := by
  simp only [interpretMiss, bind_eq_ok] at h
  obtain ⟨result, hresult, hrecord⟩ := h
  refine ⟨held.snapshot, _, request.prompt, hheld.known, rfl, fun hready => ?_⟩
  rw [find?_record hrecord (by simp) (by simp)] at hready ⊢
  obtain ⟨task, htask, hchecked, horigin⟩ := interpret_ready hresult hready
  refine ⟨task, htask, hchecked, ?_⟩
  cases horigin with
  | rules hrules hstatus hfound =>
    exact rules_faithful hheld.isPrompt hheld.retrieval hrules hstatus hfound
  | reply hllama hmode hproposes => exact hreply _ _ _ _ rfl hllama hmode hproposes

/-- **A section keeps** every cached proposal one of its model. -/
theorem step_cached (ht : ThreadSound service s.generations t) (h : Cached service s)
    (hreply : FaithfulReplies service s t input)
    (hstep : nextSection service s t input = some (s', t')) : Cached service s' := by
  refine step_interpretations (fun hg h => h.mono hg) ?_ h hstep
  intro request held recorded hthread hrecorded
  subst hthread
  exact interpretMiss_entry ht hreply hrecorded

/-! ### Whole runs -/

theorem started_cached (service : Service) (model : AcceptedModel) :
    Cached service (started service model).shared := fun _ h => nomatch h

theorem reachable_cached {model : AcceptedModel} {c : Config Shared Thread}
    (h : Reachable (requests service) (FaithfulReplies service) (started service model) c) :
    Cached service c.shared := by
  refine reachable_rule (started_cached service model) ?_ h
  intro s t input s' t' hs ht hreply hstep hcached
  exact step_cached ht hcached hreply hstep

/-- **Cached proposals replay**: in every run whose replies propose tasks of the model, every ready
interpretation cached under a key of a snapshot passes the checks and resolves against it, for every
prompt of that key and every client that fits. -/
theorem cached_replays {model : AcceptedModel} {c : Config Shared Thread}
    (h : Reachable (requests service) (FaithfulReplies service) (started service model) c)
    {key : Bytes} {entry : CacheEntry} (hentry : (key, entry) ∈ c.shared.interpretationCache.entries)
    {σ : Snapshot} (hσ : c.shared.generations.Known σ) {mode prompt : Bytes}
    (hkey : key = cacheKey service.options σ mode prompt) (hprompt : IsPrompt prompt)
    (hready : entry.value.find? "status" = some (.str "ready")) {client : Json}
    (hclient : ClientFits client) : Replays σ.model.index entry.value prompt client := by
  obtain ⟨τ, mode', p, hτ, hmade, hfaithful⟩ := reachable_cached h _ hentry
  obtain rfl := (reachable_sound h).1.numbered.eq_of_generation hσ hτ
    (cacheKey_generation (hkey.symm.trans hmade))
  obtain ⟨task, htask, hchecked, hf⟩ := hfaithful hready
  exact replays_of_faithful σ.model hready htask hchecked hf hprompt hclient

end

/-! ### A proposal for the model, and one for another -/

section samples

local instance : Platform := samplePlatform

def levelRequest (mode : Bytes) : Request := ⟨"show the tank level", mode, .object []⟩

/-- A request up to where its interpretation is cached. -/
def proposeEvents (mode : Bytes) (input : Input) : List (Event Thread Input) :=
  .start (.asked (.interpret (levelRequest mode))) :: List.replicate 6 (.move 0 input)

def proposeConfig (service : Service) (mode : Bytes) (input : Input) : Option (Config Shared Thread) :=
  run (requests service) (started service tankAccepted) (proposeEvents mode input)

/-- An entry is ready, under the key of a mode and a prompt for the active snapshot. -/
def readyUnder (service : Service) (mode : Bytes) (c : Config Shared Thread)
    (p : Bytes × CacheEntry) : Bool :=
  p.1 == cacheKey service.options c.shared.generations.active mode "show the tank level" &&
    p.2.value.has "status" (Json.isStringWith (· == "ready"))

theorem readyUnder_eq_true {service : Service} {mode : Bytes} {c : Config Shared Thread}
    {p : Bytes × CacheEntry} (h : readyUnder service mode c p = true) :
    p.1 = cacheKey service.options c.shared.generations.active mode "show the tank level" ∧
      p.2.value.find? "status" = some (.str "ready") := by
  rw [readyUnder, Bool.and_eq_true, beq_iff_eq, Json.has_eq_true] at h
  obtain ⟨hkey, v, hv, hready⟩ := h
  obtain ⟨s, rfl, hs⟩ := Json.isStringWith_eq_true.mp hready
  exact ⟨hkey, by rw [hv, beq_iff_eq.mp hs]⟩

theorem isPrompt_level : IsPrompt "show the tank level" := by decide

/-- A provider's answer with a task for a model. -/
def replyFor (modelId : Bytes) : Bytes :=
  let task := Json.object [("kind", .str "overview"), ("model_id", .str modelId),
    ("model_revision", .uint 1), ("anchor_asset_id", .str "tank"),
    ("measurement_roles", Json.strings ["level"]), ("original_request", .str "show the tank level")]
  let answer := Json.object [("status", .str "ready"), ("task", task)]
  let message := Json.object [("content", .str (answer.dump.toOption.getD []))]
  (Json.object [("choices", .arr [.object [("message", message)]])]).dump.toOption.getD []

def replying (modelId : Bytes) : Input := { quietly with reply := .ok (replyFor modelId) }

def llamaService : Service := { tankService with llama := some {} }

def textsOf (j : Json) : List Bytes :=
  j.elements.filterMap fun
    | .str s => some s
    | _ => none

theorem textsOf_strings (l : List Bytes) : textsOf (Json.strings l) = l := by
  show (l.map Json.str).filterMap _ = l
  rw [List.filterMap_map]
  exact List.filterMap_some

/-- A task is one of the model, computed. -/
def isFaithful (index : ModelIndex) (task : Json) : Bool :=
  (task.find? "model_id").all (·.eqv (.str index.modelId)) &&
    (task.find? "model_revision").all (·.eqv index.revision) &&
    (task.find? "anchor_asset_id").all (·.isStringWith fun id => (index.asset? id).isSome) &&
    (task.find? "measurement_roles").all fun roles => decide (textsOf roles).Nodup

theorem faithful_of_isFaithful {index : ModelIndex} {task : Json} (h : isFaithful index task = true) :
    FaithfulTask index task := by
  simp only [isFaithful, Bool.and_eq_true, Option.all_eq_true] at h
  obtain ⟨⟨⟨hmodel, hrevision⟩, hanchor⟩, hroles⟩ := h
  refine ⟨hmodel, hrevision, fun id hid => hanchor _ hid, fun roles hfound => ?_⟩
  have hdistinct := of_decide_eq_true (hroles _ hfound)
  rwa [textsOf_strings] at hdistinct

/-- A reply proposes a task of the model the request works on, computed. -/
def repliesFaithfully (service : Service) (_ : Shared) (t : Thread) (input : Input) : Bool :=
  match t, service.llama, input.reply with
  | .proposing request held, some llama, .ok received =>
    ((decodeResponse received).bind (llama.proposed request.prompt)).toOption.all fun value =>
      (value.find? "task").all (isFaithful held.snapshot.model.index)
  | _, _, _ => true

theorem faithfulReplies_of_check {service : Service} (s : Shared) (t : Thread) (input : Input)
    (h : repliesFaithfully service s t input = true) : FaithfulReplies service s t input := by
  rintro request held llama task rfl hllama -
    ⟨received, decoded, value, hreply, hdecoded, hvalue, -, -, -, htask⟩
  simp only [repliesFaithfully, hllama, hreply] at h
  rw [hdecoded, show (Except.ok decoded).bind (llama.proposed request.prompt) = .ok value from hvalue,
    toOption_ok] at h
  simp only [Option.all_some, htask] at h
  exact faithful_of_isFaithful h

/-- A run that caches a ready proposal under its key, and whose replies are faithful. -/
def cachesFaithfully (service : Service) (mode : Bytes) (input : Input) : Bool :=
  ((proposeConfig service mode input).any fun c =>
    c.shared.interpretationCache.entries.any (readyUnder service mode c)) &&
  meets (repliesFaithfully service) (requests service) (started service tankAccepted)
    (proposeEvents mode input)

/-- Some entry of a run's cache replays for the active model. -/
def SomeReplays (service : Service) (mode : Bytes) (input : Input) : Prop :=
  ∃ c key entry, proposeConfig service mode input = some c ∧
    (key, entry) ∈ c.shared.interpretationCache.entries ∧
    Replays c.shared.generations.active.model.index entry.value "show the tank level" (.object [])

/-- What the rules propose replays, and so does what a reply proposes for the active model. -/
theorem cached_replays_level : SomeReplays tankService "rules" quietly ∧
    SomeReplays llamaService "llama" (replying tankIndex.modelId) := by
  have hreplays : ∀ service mode input, cachesFaithfully service mode input = true →
      SomeReplays service mode input := by
    intro service mode input hcaches
    rw [cachesFaithfully, Bool.and_eq_true] at hcaches
    obtain ⟨c, hrun, hany⟩ := (Option.any_eq_true _ _).mp hcaches.1
    obtain ⟨⟨key, entry⟩, hentry, hunder⟩ := List.any_eq_true.mp hany
    obtain ⟨hkey, hready⟩ := readyUnder_eq_true hunder
    have hreach : Reachable (requests service) (FaithfulReplies service)
        (started service tankAccepted) c :=
      Reachable.init.checked faithfulReplies_of_check hrun hcaches.2
    exact ⟨c, key, entry, hrun, hentry, cached_replays hreach hentry (Generations.known_active _)
      hkey isPrompt_level hready (.inl rfl)⟩
  exact ⟨hreplays _ _ _ (by decide +kernel), hreplays _ _ _ (by decide +kernel)⟩

/-- A proposal for another model is cached as ready, and the checks refuse it. -/
theorem foreign_cached : ∃ c key entry,
    Reachable (requests llamaService) always (started llamaService tankAccepted) c ∧
      (key, entry) ∈ c.shared.interpretationCache.entries ∧
      key = cacheKey llamaService.options c.shared.generations.active "llama" "show the tank level" ∧
      entry.value.find? "status" = some (.str "ready") ∧
      ¬ Replays c.shared.generations.active.model.index entry.value "show the tank level"
        (.object []) := by
  have hfound : ((proposeConfig llamaService "llama" (replying "other")).any fun c =>
      c.shared.interpretationCache.entries.any fun p => readyUnder llamaService "llama" c p &&
        ((refresh "show the tank level" (.object []) p.2.value).bind
          (postCheck c.shared.generations.active.model.index)).toOption.isNone) = true := by
    decide +kernel
  obtain ⟨c, hrun, hany⟩ := (Option.any_eq_true _ _).mp hfound
  obtain ⟨⟨key, entry⟩, hentry, hunder⟩ := List.any_eq_true.mp hany
  rw [Bool.and_eq_true] at hunder
  obtain ⟨hkey, hready⟩ := readyUnder_eq_true hunder.1
  refine ⟨c, key, entry, reachable_run hrun, hentry, hkey, hready, ?_⟩
  rintro ⟨refreshed, task, view, hrefresh, hcheck, -⟩
  have hnone := hunder.2
  rw [hrefresh, show (Except.ok refreshed).bind (postCheck
    c.shared.generations.active.model.index) = .ok task from hcheck, toOption_ok] at hnone
  cases hnone

end samples

end ContextHmi.Runtime
