import ContextHmi.Library.Interleave
import ContextHmi.Runtime.Cache
import ContextHmi.Runtime.Generations
import ContextHmi.Runtime.Interpret

/-!
# Requests over the caches

`Runtime::retrieve` and `Runtime::interpret`, section by section, next to model changes that clear the
caches. A request keeps the snapshot it took first; in between, the model may change, entries may
expire or be pushed out, and what a request of an earlier generation puts may land after the clear of
a newer one.

* `step_sound`             : a section keeps every entry and every retrieval right;
* `retrieval_transparent`  : what a request uses or returns is what retrieving would give it.
-/

namespace ContextHmi.Runtime

open Outcome Retrieval Inference Interleave

section
variable [Platform]

/-! ### Sections -/

/-- What requests share. -/
structure Shared where
  generations : Generations
  retrievalCache : Cache
  interpretationCache : Cache
  viewSequence : UInt64

inductive Ask where
  | retrieve (prompt : Bytes)
  | interpret (request : Request)

def Ask.prompt : Ask → Bytes
  | .retrieve prompt => prompt
  | .interpret request => request.prompt

/-- The retrieval a request holds, the snapshot it is of, and whether it was cached. -/
structure Held where
  snapshot : Snapshot
  retrieval : Json
  hit : Bool

/-- Where a call of the runtime is. -/
inductive Thread where
  | asked (ask : Ask)
  | lookup (ask : Ask) (snapshot : Snapshot)
  | miss (ask : Ask) (snapshot : Snapshot)
  | holding (ask : Ask) (held : Held)
  | retrieved (prompt : Bytes) (held : Held) (response : Json)
  | proposing (request : Request) (held : Held)
  | finishing (request : Request) (held : Held) (hit : Bool) (recorded : Recorded)
  | publishing (request : Request) (held : Held) (result view : Json)
  | answered (request : Request) (held : Held) (response : Json)
  | failed (error : Error)
  | change (cause : Cause) (candidate : AcceptedModel)
  | clearRetrievals
  | clearInterpretations
  | done

/-- What a section reads from outside: the clock, the time it took, what the provider's transport
gives and how the journal's append ends. -/
structure Input where
  now : Nat
  elapsed : Int64
  reply : Result Bytes
  journal : Result Unit

def retrievalKey (service : Service) (snapshot : Snapshot) (prompt : Bytes) : Bytes :=
  cacheKey service.options snapshot "retrieval" prompt

def interpretationKey (service : Service) (snapshot : Snapshot) (request : Request) : Bytes :=
  cacheKey service.options snapshot (service.selectedMode request.mode) request.prompt

def lookupRetrieval (service : Service) (s : Shared) (now : Nat) (ask : Ask) (snapshot : Snapshot) :
    Shared × Thread :=
  let found := s.retrievalCache.get now (retrievalKey service snapshot ask.prompt)
  ({ s with retrievalCache := found.2 }, match found.1 with
    | some retrieval => .holding ask ⟨snapshot, retrieval, true⟩
    | none => .miss ask snapshot)

def missRetrieval (service : Service) (s : Shared) (now : Nat) (ask : Ask) (snapshot : Snapshot) :
    Shared × Thread :=
  match retrieve snapshot.model.json ask.prompt (retrievalLimits service.options) with
  | .error e => (s, .failed e)
  | .ok retrieval =>
    ({ s with retrievalCache :=
        s.retrievalCache.put now (retrievalKey service snapshot ask.prompt) retrieval },
      .holding ask ⟨snapshot, retrieval, false⟩)

/-- The rest of `Runtime::retrieve`. -/
def respond (service : Service) (elapsed : Int64) (prompt : Bytes) (held : Held) : Thread :=
  match retrieveResponse service held.snapshot held.hit elapsed held.retrieval with
  | .error e => .failed e
  | .ok response => .retrieved prompt held response

def lookupInterpretation (service : Service) (s : Shared) (now : Nat) (request : Request)
    (held : Held) : Shared × Thread :=
  let found := s.interpretationCache.get now (interpretationKey service held.snapshot request)
  ({ s with interpretationCache := found.2 }, match found.1 with
    | some value => .finishing request held true ⟨value, defaultUsage⟩
    | none => .proposing request held)

def missInterpretation (service : Service) (s : Shared) (input : Input) (request : Request)
    (held : Held) : Shared × Thread :=
  match interpretMiss service held.snapshot request held.retrieval input.reply with
  | .error e => (s, .failed e)
  | .ok recorded =>
    let key := interpretationKey service held.snapshot request
    ({ s with interpretationCache := s.interpretationCache.put input.now key recorded.value },
      .finishing request held false recorded)

def staleContext (message : Bytes) : Error := .inference "stale_context" message

/-- From the refreshed interpretation to the answer, or to the view to publish before it. -/
def finish (service : Service) (s : Shared) (elapsed : Int64) (request : Request) (held : Held)
    (hit : Bool) (recorded : Recorded) : Thread :=
  match refresh request.prompt request.client recorded.value with
  | .error e => .failed e
  | .ok refreshed =>
    if held.snapshot.generation ≠ s.generations.active.generation then
      .failed (staleContext "active model changed while inference was running")
    else match complete service held.snapshot request held.retrieval recorded.usage held.hit hit
        elapsed refreshed with
      | .error e => .failed e
      | .ok ⟨result, none⟩ => .answered request held result
      | .ok ⟨result, some view⟩ => .publishing request held result view

/-- `publish_view`, as far as the answer goes. -/
def publish (service : Service) (s : Shared) (journal : Result Unit) (request : Request)
    (held : Held) (result view : Json) : Shared × Thread :=
  let sequence := s.viewSequence + 1
  ({ s with viewSequence := sequence },
    if held.snapshot.generation ≠ s.generations.active.generation then
      .failed (staleContext "active model changed while publishing view")
    else match journal with
      | .error e => .failed e
      | .ok () => .answered request held
          (result.setField "view" (publishedView service held.snapshot.generation sequence.toNat view)))

/-- `apply_model_change`, up to where it has committed the model. -/
def change (s : Shared) (cause : Cause) (candidate : AcceptedModel) : Shared × Thread :=
  match s.generations.checkChange cause candidate with
  | .error e => (s, .failed e)
  | .ok () => ({ s with generations := s.generations.advance candidate }, .clearRetrievals)

/-- The next section of a call. -/
def nextSection (service : Service) (s : Shared) (t : Thread) (input : Input) :
    Option (Shared × Thread) :=
  match t with
  | .asked ask => some (s, .lookup ask s.generations.active)
  | .lookup ask snapshot => some (lookupRetrieval service s input.now ask snapshot)
  | .miss ask snapshot => some (missRetrieval service s input.now ask snapshot)
  | .holding (.retrieve prompt) held => some (s, respond service input.elapsed prompt held)
  | .holding (.interpret request) held =>
    some (lookupInterpretation service s input.now request held)
  | .proposing request held => some (missInterpretation service s input request held)
  | .finishing request held hit recorded =>
    some (s, finish service s input.elapsed request held hit recorded)
  | .publishing request held result view =>
    some (publish service s input.journal request held result view)
  | .change cause candidate => some (change s cause candidate)
  | .clearRetrievals =>
    some ({ s with retrievalCache := s.retrievalCache.clear }, .clearInterpretations)
  | .clearInterpretations =>
    some ({ s with interpretationCache := s.interpretationCache.clear }, .done)
  | .retrieved .. | .answered .. | .failed _ | .done => none

instance (prompt : Bytes) : Decidable (IsPrompt prompt) := inferInstanceAs (Decidable (_ ∧ _))

/-- The calls: requests with the prompts their routes let through, and model changes. -/
def begins : Thread → Bool
  | .asked ask => decide (IsPrompt ask.prompt)
  | .change .. => true
  | _ => false

def requests (service : Service) : Program Shared Thread Input := ⟨begins, nextSection service⟩

/-- The runtime after `start`. -/
def started (service : Service) (model : AcceptedModel) : Config Shared Thread where
  shared := {
    generations := .start model
    retrievalCache :=
      { config := ⟨service.options.retrievalCacheCapacity, service.options.cacheTtlMs⟩ }
    interpretationCache :=
      { config := ⟨service.options.interpretationCacheCapacity, service.options.cacheTtlMs⟩ }
    viewSequence := 0 }
  threads := []

/-! ### What is known of entries and of requests -/

/-- The entry of a key is what retrieving for a request with that key gives. -/
def RetrievalEntry (service : Service) (g : Generations) (key : Bytes) (value : Json) : Prop :=
  ∃ σ prompt, g.Known σ ∧ IsPrompt prompt ∧ key = retrievalKey service σ prompt ∧
    retrieve σ.model.json prompt (retrievalLimits service.options) = .ok value

structure Sound (service : Service) (s : Shared) : Prop where
  numbered : s.generations.Numbered
  entries : s.retrievalCache.Every (RetrievalEntry service s.generations)

/-- A request holds the retrieval of its own snapshot. -/
structure HeldSound (service : Service) (g : Generations) (prompt : Bytes) (held : Held) : Prop where
  isPrompt : IsPrompt prompt
  known : g.Known held.snapshot
  retrieval : retrieve held.snapshot.model.json prompt (retrievalLimits service.options) =
    .ok held.retrieval

def ThreadSound (service : Service) (g : Generations) : Thread → Prop
  | .asked ask => IsPrompt ask.prompt
  | .lookup ask snapshot | .miss ask snapshot => IsPrompt ask.prompt ∧ g.Known snapshot
  | .holding ask held => HeldSound service g ask.prompt held
  | .retrieved prompt held response => HeldSound service g prompt held ∧
    ∃ elapsed, retrieveResponse service held.snapshot held.hit elapsed held.retrieval = .ok response
  | .proposing request held | .finishing request held .. | .publishing request held ..
  | .answered request held _ => HeldSound service g request.prompt held
  | _ => True

variable {service : Service} {s s' : Shared} {t t' : Thread} {input : Input}

/-- The snapshots that were known still are. -/
def Grows (g g' : Generations) : Prop := ∀ σ, g.Known σ → g'.Known σ

theorem RetrievalEntry.mono {g g' : Generations} (hg : Grows g g') {key : Bytes} {value : Json}
    (h : RetrievalEntry service g key value) : RetrievalEntry service g' key value := by
  obtain ⟨σ, prompt, hσ, hrest⟩ := h
  exact ⟨σ, prompt, hg σ hσ, hrest⟩

theorem HeldSound.mono {g g' : Generations} (hg : Grows g g') {prompt : Bytes} {held : Held}
    (h : HeldSound service g prompt held) : HeldSound service g' prompt held :=
  ⟨h.isPrompt, hg _ h.known, h.retrieval⟩

theorem ThreadSound.mono {g g' : Generations} (hg : Grows g g') (h : ThreadSound service g t) :
    ThreadSound service g' t := by
  cases t with
  | lookup ask snapshot => exact ⟨h.1, hg _ h.2⟩
  | miss ask snapshot => exact ⟨h.1, hg _ h.2⟩
  | retrieved prompt held response => exact ⟨h.1.mono hg, h.2⟩
  | holding ask held => exact HeldSound.mono hg h
  | proposing request held => exact HeldSound.mono hg h
  | finishing request held hit recorded => exact HeldSound.mono hg h
  | publishing request held result view => exact HeldSound.mono hg h
  | answered request held response => exact HeldSound.mono hg h
  | _ => exact h

/-! ### One section -/

/-- **A hit is right**: what is found under a request's key is the retrieval of its snapshot, whoever
put it there. -/
theorem Sound.found (h : Sound service s) {σ : Snapshot} (hσ : s.generations.Known σ)
    {prompt : Bytes} (hprompt : IsPrompt prompt) {now : Nat} {retrieval : Json}
    (hget : (s.retrievalCache.get now (retrievalKey service σ prompt)).1 = some retrieval) :
    retrieve σ.model.json prompt (retrievalLimits service.options) = .ok retrieval := by
  obtain ⟨τ, p, hτ, hp, hkey, hretrieve⟩ := h.entries.found hget
  obtain ⟨hgeneration, hnormal⟩ := cacheKey_inj hkey
  obtain rfl := h.numbered.eq_of_generation hσ hτ hgeneration
  rw [retrieve_congr hprompt hp hnormal]
  exact hretrieve

/-- What a section keeps. -/
structure Keeps (service : Service) (s s' : Shared) (t' : Thread) : Prop where
  shared : Sound service s'
  thread : ThreadSound service s'.generations t'
  grows : Grows s.generations s'.generations

theorem lookupRetrieval_keeps (h : Sound service s) {ask : Ask} {σ : Snapshot}
    (ht : ThreadSound service s.generations (.lookup ask σ)) (now : Nat) :
    Keeps service s (lookupRetrieval service s now ask σ).1
      (lookupRetrieval service s now ask σ).2 := by
  refine ⟨⟨h.numbered, h.entries.get _ _⟩, ?_, fun _ h => h⟩
  show ThreadSound service s.generations _
  unfold lookupRetrieval
  simp only
  split
  · rename_i retrieval hget
    exact ⟨ht.1, ht.2, h.found ht.2 ht.1 hget⟩
  · exact ht

theorem missRetrieval_keeps (h : Sound service s) {ask : Ask} {σ : Snapshot}
    (ht : ThreadSound service s.generations (.miss ask σ)) (now : Nat) :
    Keeps service s (missRetrieval service s now ask σ).1 (missRetrieval service s now ask σ).2 := by
  unfold missRetrieval
  split
  · exact ⟨h, trivial, fun _ h => h⟩
  · rename_i retrieval hretrieve
    refine ⟨⟨h.numbered, ?_⟩, ⟨ht.1, ht.2, hretrieve⟩, fun _ h => h⟩
    exact h.entries.put ⟨σ, ask.prompt, ht.2, ht.1, rfl, hretrieve⟩ now

theorem respond_sound {prompt : Bytes} {held : Held}
    (h : HeldSound service s.generations prompt held) (elapsed : Int64) :
    ThreadSound service s.generations (respond service elapsed prompt held) := by
  unfold respond
  split
  · trivial
  · rename_i response hresponse
    exact ⟨h, elapsed, hresponse⟩

theorem lookupInterpretation_keeps (h : Sound service s) {request : Request} {held : Held}
    (ht : HeldSound service s.generations request.prompt held) (now : Nat) :
    Keeps service s (lookupInterpretation service s now request held).1
      (lookupInterpretation service s now request held).2 := by
  refine ⟨⟨h.numbered, h.entries⟩, ?_, fun _ h => h⟩
  show ThreadSound service s.generations _
  unfold lookupInterpretation
  simp only
  split
  · exact ht
  · exact ht

theorem missInterpretation_keeps (h : Sound service s) {request : Request} {held : Held}
    (ht : HeldSound service s.generations request.prompt held) (input : Input) :
    Keeps service s (missInterpretation service s input request held).1
      (missInterpretation service s input request held).2 := by
  unfold missInterpretation
  split
  · exact ⟨h, trivial, fun _ h => h⟩
  · exact ⟨⟨h.numbered, h.entries⟩, ht, fun _ h => h⟩

theorem finish_sound {request : Request} {held : Held}
    (h : HeldSound service s.generations request.prompt held) (elapsed : Int64) (hit : Bool)
    (recorded : Recorded) :
    ThreadSound service s.generations (finish service s elapsed request held hit recorded) := by
  unfold finish
  split
  · trivial
  · split
    · trivial
    · split
      · trivial
      · exact h
      · exact h

theorem publish_keeps (h : Sound service s) {request : Request} {held : Held}
    (ht : HeldSound service s.generations request.prompt held) (journal : Result Unit)
    (result view : Json) :
    Keeps service s (publish service s journal request held result view).1
      (publish service s journal request held result view).2 := by
  refine ⟨⟨h.numbered, h.entries⟩, ?_, fun _ h => h⟩
  show ThreadSound service s.generations _
  unfold publish
  simp only
  split
  · trivial
  · split
    · trivial
    · exact ht

theorem change_keeps (h : Sound service s) (cause : Cause) (candidate : AcceptedModel) :
    Keeps service s (change s cause candidate).1 (change s cause candidate).2 := by
  unfold change
  split
  · exact ⟨h, trivial, fun _ h => h⟩
  · have hgrows : Grows s.generations (s.generations.advance candidate) := fun _ h => h.advance
    refine ⟨⟨h.numbered.advance candidate, ?_⟩, trivial, hgrows⟩
    exact fun p hp => (h.entries p hp).mono hgrows

/-- **A section keeps** every entry right, and what the request holds. -/
theorem step_sound (h : Sound service s) (ht : ThreadSound service s.generations t)
    (hstep : nextSection service s t input = some (s', t')) : Keeps service s s' t' := by
  cases t with
  | asked ask =>
    obtain ⟨rfl, rfl⟩ := Prod.mk.inj (Option.some.inj hstep)
    exact ⟨h, ⟨ht, s.generations.known_active⟩, fun _ h => h⟩
  | lookup ask snapshot =>
    obtain ⟨rfl, rfl⟩ := Prod.mk.inj (Option.some.inj hstep)
    exact lookupRetrieval_keeps h ht input.now
  | miss ask snapshot =>
    obtain ⟨rfl, rfl⟩ := Prod.mk.inj (Option.some.inj hstep)
    exact missRetrieval_keeps h ht input.now
  | holding ask held =>
    cases ask with
    | retrieve prompt =>
      obtain ⟨rfl, rfl⟩ := Prod.mk.inj (Option.some.inj hstep)
      exact ⟨h, respond_sound ht input.elapsed, fun _ h => h⟩
    | interpret request =>
      obtain ⟨rfl, rfl⟩ := Prod.mk.inj (Option.some.inj hstep)
      exact lookupInterpretation_keeps h ht input.now
  | proposing request held =>
    obtain ⟨rfl, rfl⟩ := Prod.mk.inj (Option.some.inj hstep)
    exact missInterpretation_keeps h ht input
  | finishing request held hit recorded =>
    obtain ⟨rfl, rfl⟩ := Prod.mk.inj (Option.some.inj hstep)
    exact ⟨h, finish_sound ht input.elapsed hit recorded, fun _ h => h⟩
  | publishing request held result view =>
    obtain ⟨rfl, rfl⟩ := Prod.mk.inj (Option.some.inj hstep)
    exact publish_keeps h ht input.journal result view
  | change cause candidate =>
    obtain ⟨rfl, rfl⟩ := Prod.mk.inj (Option.some.inj hstep)
    exact change_keeps h cause candidate
  | clearRetrievals =>
    obtain ⟨rfl, rfl⟩ := Prod.mk.inj (Option.some.inj hstep)
    exact ⟨⟨h.numbered, Cache.every_clear⟩, trivial, fun _ h => h⟩
  | clearInterpretations =>
    obtain ⟨rfl, rfl⟩ := Prod.mk.inj (Option.some.inj hstep)
    exact ⟨⟨h.numbered, h.entries⟩, trivial, fun _ h => h⟩
  | retrieved prompt held response => cases hstep
  | answered request held response => cases hstep
  | failed error => cases hstep
  | done => cases hstep

/-! ### What holds of every interpretation -/

section
variable {P : Generations → Bytes → Json → Prop}
  (hmono : ∀ {g g' : Generations} {key : Bytes} {value : Json}, Grows g g' → P g key value →
    P g' key value)
include hmono

theorem step_interpretations
    (hput : ∀ request held recorded, t = .proposing request held →
      interpretMiss service held.snapshot request held.retrieval input.reply = .ok recorded →
      P s.generations (interpretationKey service held.snapshot request) recorded.value)
    (h : s.interpretationCache.Every (P s.generations))
    (hstep : nextSection service s t input = some (s', t')) :
    s'.interpretationCache.Every (P s'.generations) := by
  cases t with
  | asked ask =>
    obtain ⟨rfl, -⟩ := Prod.mk.inj (Option.some.inj hstep)
    exact h
  | lookup ask snapshot =>
    obtain ⟨rfl, -⟩ := Prod.mk.inj (Option.some.inj hstep)
    exact h
  | miss ask snapshot =>
    obtain ⟨rfl, -⟩ := Prod.mk.inj (Option.some.inj hstep)
    split
    · exact h
    · exact h
  | holding ask held =>
    cases ask with
    | retrieve prompt =>
      obtain ⟨rfl, -⟩ := Prod.mk.inj (Option.some.inj hstep)
      exact h
    | interpret request =>
      obtain ⟨rfl, -⟩ := Prod.mk.inj (Option.some.inj hstep)
      exact h.get input.now _
  | proposing request held =>
    obtain ⟨rfl, -⟩ := Prod.mk.inj (Option.some.inj hstep)
    split
    · exact h
    · rename_i recorded hrecorded
      exact h.put (hput request held recorded rfl hrecorded) input.now
  | finishing request held hit recorded =>
    obtain ⟨rfl, -⟩ := Prod.mk.inj (Option.some.inj hstep)
    exact h
  | publishing request held result view =>
    obtain ⟨rfl, -⟩ := Prod.mk.inj (Option.some.inj hstep)
    exact h
  | change cause candidate =>
    obtain ⟨rfl, -⟩ := Prod.mk.inj (Option.some.inj hstep)
    split
    · exact h
    · exact fun p hp => hmono (fun _ hσ => hσ.advance) (h p hp)
  | clearRetrievals =>
    obtain ⟨rfl, -⟩ := Prod.mk.inj (Option.some.inj hstep)
    exact h
  | clearInterpretations =>
    obtain ⟨rfl, -⟩ := Prod.mk.inj (Option.some.inj hstep)
    exact Cache.every_clear
  | retrieved prompt held response => cases hstep
  | answered request held response => cases hstep
  | failed error => cases hstep
  | done => cases hstep

end

/-! ### Whole runs -/

theorem started_sound (service : Service) (model : AcceptedModel) :
    Sound service (started service model).shared :=
  ⟨Generations.numbered_start model, fun _ h => nomatch h⟩

theorem begins_sound {g : Generations} (h : begins t = true) : ThreadSound service g t := by
  cases t with
  | asked ask => exact of_decide_eq_true (p := IsPrompt ask.prompt) h
  | change cause candidate => trivial
  | _ => cases h

theorem reachable_sound {allowed : Shared → Thread → Input → Prop} {model : AcceptedModel}
    {c : Config Shared Thread}
    (h : Reachable (requests service) allowed (started service model) c) :
    Sound service c.shared ∧ ∀ t ∈ c.threads, ThreadSound service c.shared.generations t := by
  refine h.rule (L := fun s t => ThreadSound service s.generations t) (started_sound service model)
    (fun _ h => nomatch h) (fun s t _ hbegins => begins_sound hbegins) ?_
  intro s t input s' t' hs ht _ hstep
  have hkeeps := step_sound hs ht hstep
  exact ⟨hkeeps.shared, hkeeps.thread, fun u hu => hu.mono hkeeps.grows⟩

theorem reachable_rule {allowed : Shared → Thread → Input → Prop} {model : AcceptedModel}
    {J : Shared → Prop} (hinit : J (started service model).shared)
    (hkeep : ∀ {s t input s' t'}, Sound service s → ThreadSound service s.generations t →
      allowed s t input → nextSection service s t input = some (s', t') → J s → J s')
    {c : Config Shared Thread}
    (h : Reachable (requests service) allowed (started service model) c) : J c.shared := by
  have hrule := h.rule (I := fun s => J s ∧ Sound service s)
    (L := fun s t => ThreadSound service s.generations t) ⟨hinit, started_sound service model⟩
    (fun _ h => nomatch h) (fun s t _ hbegins => begins_sound hbegins) ?_
  · exact hrule.1.1
  · intro s t input s' t' hs ht hallowed hstep
    have hkeeps := step_sound hs.2 ht hstep
    exact ⟨⟨hkeep hs.2 ht hallowed hstep hs.1, hkeeps.shared⟩, hkeeps.thread,
      fun u hu => hu.mono hkeeps.grows⟩

theorem reachable_started {allowed : Shared → Thread → Input → Prop} {model : AcceptedModel}
    {c : Config Shared Thread}
    (h : Reachable (requests service) allowed (started service model) c) :
    c.shared.generations.Known ⟨model, 0⟩ := by
  refine reachable_rule (J := fun s => s.generations.Known ⟨model, 0⟩) (Generations.known_active _) ?_ h
  intro s t input s' t' hs ht _ hstep hknown
  exact (step_sound hs ht hstep).grows _ hknown

/-- The prompt and the retrieval a call works with, or has answered with. -/
def Thread.uses : Thread → Option (Bytes × Held)
  | .holding ask held => some (ask.prompt, held)
  | .retrieved prompt held _ => some (prompt, held)
  | .proposing request held | .finishing request held .. | .publishing request held ..
  | .answered request held _ => some (request.prompt, held)
  | _ => none

/-- A response of `Runtime::retrieve` without what it adds to the retrieved context. -/
def contextOf (response : Json) : Json :=
  ((response.eraseField "execution").eraseField "context_generation").eraseField "session_id"

theorem contextOf_retrieveResponse {snapshot : Snapshot} {prompt : Bytes} {limits : RetrievalLimits}
    {retrieval response : Json} {hit : Bool} {elapsed : Int64}
    (hretrieve : retrieve snapshot.model.json prompt limits = .ok retrieval)
    (h : retrieveResponse service snapshot hit elapsed retrieval = .ok response) :
    contextOf response = retrieval ∧
      response.find? "context_generation" = some (generationJson snapshot.generation) := by
  obtain ⟨index, d, -, -, -, -, rfl⟩ := retrieve_eq_ok hretrieve
  simp only [retrieveResponse, bind_eq_ok, pure_eq_ok] at h
  obtain ⟨summary, -, rfl⟩ := h
  have hnone : ∀ k ∈ [bytes "session_id", "context_generation", "execution"],
      (d.render index limits).find? k = none := by
    simp [Draft.render]
  simp only [List.forall_mem_cons, List.not_mem_nil, false_implies, implies_true, and_true] at hnone
  have hobject : (d.render index limits).isObject = true := isObject_render
  have hsession := Json.isObject_setField hobject "session_id" (.str service.sessionId)
  have hgeneration := Json.isObject_setField hsession "context_generation"
    (generationJson snapshot.generation)
  constructor
  · rw [contextOf, Json.eraseField_setField _ hgeneration, Json.eraseField_setField _ hsession,
      Json.eraseField_setField hnone.1 hobject]
    · rw [Json.find?_setField hobject, if_neg (by simp), hnone.2.1]
    · rw [Json.find?_setField hsession, if_neg (by simp), Json.find?_setField hobject,
        if_neg (by simp), hnone.2.2]
  · rw [Json.find?_setField hgeneration, if_neg (by simp), Json.find?_setField hsession,
      if_pos rfl]

theorem ThreadSound.held {g : Generations} {prompt : Bytes} {held : Held}
    (h : ThreadSound service g t) (huses : t.uses = some (prompt, held)) :
    HeldSound service g prompt held := by
  cases t with
  | retrieved p held' response =>
    obtain ⟨rfl, rfl⟩ := Prod.mk.inj (Option.some.inj huses)
    exact h.1
  | holding ask held' =>
    obtain ⟨rfl, rfl⟩ := Prod.mk.inj (Option.some.inj huses)
    exact h
  | proposing request held' =>
    obtain ⟨rfl, rfl⟩ := Prod.mk.inj (Option.some.inj huses)
    exact h
  | finishing request held' hit recorded =>
    obtain ⟨rfl, rfl⟩ := Prod.mk.inj (Option.some.inj huses)
    exact h
  | publishing request held' result view =>
    obtain ⟨rfl, rfl⟩ := Prod.mk.inj (Option.some.inj huses)
    exact h
  | answered request held' response =>
    obtain ⟨rfl, rfl⟩ := Prod.mk.inj (Option.some.inj huses)
    exact h
  | _ => cases huses

/-- What holds of the retrieval a call uses. -/
structure Transparent (service : Service) (g : Generations) (t : Thread) (prompt : Bytes)
    (held : Held) : Prop where
  /-- The snapshot is one of this run. -/
  known : g.Known held.snapshot
  /-- The retrieval used is what its model gives. -/
  used : retrieve held.snapshot.model.json prompt (retrievalLimits service.options) =
    .ok held.retrieval
  /-- So it is the retrieval of every prompt with the same normal form. -/
  normal : ∀ q, IsPrompt q → normalizedCachePrompt q = normalizedCachePrompt prompt →
    retrieve held.snapshot.model.json q (retrievalLimits service.options) = .ok held.retrieval
  /-- What is returned is that retrieval, under its own generation. -/
  returned : ∀ response, t = .retrieved prompt held response → contextOf response = held.retrieval ∧
    response.find? "context_generation" = some (generationJson held.snapshot.generation)

/-- **The retrieval cache is transparent**: in every run, what a call uses or returns for its prompt
is what retrieving from the model of its own snapshot gives. -/
theorem retrieval_transparent {model : AcceptedModel} {c : Config Shared Thread}
    (h : Reachable (requests service) always (started service model) c) {t : Thread}
    (ht : t ∈ c.threads) {prompt : Bytes} {held : Held} (huses : t.uses = some (prompt, held)) :
    Transparent service c.shared.generations t prompt held := by
  have hsound := (reachable_sound h).2 t ht
  have hheld := hsound.held huses
  refine ⟨hheld.known, hheld.retrieval, fun q hq hnormal => ?_, ?_⟩
  · rw [retrieve_congr hq hheld.isPrompt hnormal]
    exact hheld.retrieval
  · intro response hresponse
    subst hresponse
    obtain ⟨elapsed, hmade⟩ := hsound.2
    exact contextOf_retrieveResponse hheld.retrieval hmade

end

/-! ### A put behind a clear -/

section samples

local instance : Platform := samplePlatform

theorem accepted_of_isSome {j : Json} (h : (indexModel j).toOption.isSome = true) :
    indexModel j = .ok ((indexModel j).toOption.getD ⟨[], .null, [], [], [], []⟩) :=
  eq_ok_of_isSome h _

theorem isText_of_isSome {j : Json} (h : j.dump.toOption.isSome = true) : j.IsText :=
  Json.dump_isOk_iff.mp ⟨_, eq_ok_of_isSome h []⟩

def tankAccepted : AcceptedModel where
  json := tankModel
  index := tankIndex
  accepted := accepted_of_isSome (by decide +kernel)
  isText := isText_of_isSome (by decide +kernel)

def tankService : Service := ⟨{}, none, "session-1"⟩

def quietly : Input := ⟨0, 0, .error (.inference "provider_unavailable" []), .ok ()⟩

/-- A request computes its retrieval while the model changes and puts it after the clear; another
request of the old snapshot finds it. -/
def lateEvents : List (Event Thread Input) :=
  [.start (.asked (.retrieve "show the tank level")), .start (.asked (.retrieve "Show the TANK level ")),
    .start (.change .scenarioSelected tankAccepted), .move 0 quietly, .move 1 quietly, .move 0 quietly,
    .move 2 quietly, .move 2 quietly, .move 2 quietly, .move 0 quietly, .move 1 quietly,
    .move 1 quietly]

def lateConfig : Option (Config Shared Thread) :=
  run (requests tankService) (started tankService tankAccepted) lateEvents

theorem retrieval_transparent_late : ∃ c t prompt held, lateConfig = some c ∧ t ∈ c.threads ∧
    t.uses = some (prompt, held) ∧ held.hit = true ∧
      Transparent tankService c.shared.generations t prompt held := by
  have hlate : ((lateConfig.bind (·.threads[1]?)).bind (·.uses)).any (·.2.hit) = true := by
    decide +kernel
  obtain ⟨⟨prompt, held⟩, huses, hhit⟩ := (Option.any_eq_true _ _).mp hlate
  obtain ⟨t, hthread, huses⟩ := Option.bind_eq_some_iff.mp huses
  obtain ⟨c, hrun, hthread⟩ := Option.bind_eq_some_iff.mp hthread
  exact ⟨c, t, prompt, held, hrun, List.mem_of_getElem? hthread, huses, hhit,
    retrieval_transparent (reachable_run hrun) (List.mem_of_getElem? hthread) huses⟩

end samples

end ContextHmi.Runtime
