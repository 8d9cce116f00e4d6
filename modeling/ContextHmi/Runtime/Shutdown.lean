import ContextHmi.Library.Interleave
import ContextHmi.Runtime.Lifecycle
import Mathlib.Logic.Function.Basic

/-!
# Starting and stopping

The four machines of the runtime: what `start` leaves of them, wherever it ends, and `shutdown` beside
any number of telemetry batches and readiness requests. What a request finds out (whether the batch was
taken, whether the provider and the source are ready) is an input.

* `Program.step_keeps`   : what a section does to the machines and to its own call;
* `shutdown_allowed`     : a shutdown asks for no transition that the table refuses;
* `shutdown_exhausted`   : a machine that cannot count another change.
-/

namespace ContextHmi.Runtime.Shutdown

open Interleave Lifecycle

/-! ### The machines -/

inductive Component where
  | service
  | source
  | provider
  | store
  deriving DecidableEq

/-- `service_lifecycle_`, `source_lifecycle_`, `provider_lifecycle_` and `store_lifecycle_`. -/
abbrev Machines := Component → Machine

/-- The machines of a runtime that was constructed. -/
def constructed : Machines
  | .service => ⟨"service", .starting, [], 0, by decide⟩
  | .source => ⟨"source", .starting, [], 0, by decide⟩
  | .provider => ⟨"provider", .starting, [], 0, by decide⟩
  | .store => ⟨"store", .disabled, [], 0, by decide⟩

def transition (ms : Machines) (c : Component) (next : State) (reason : Bytes) :
    Except Fault Machines :=
  ((ms c).transition next reason).map (Function.update ms c)

/-! ### Start -/

/-- A transition that is asked for. -/
abbrev Move := Component × State × Bytes

/-- Transitions, one after the other, up to the first that throws. -/
def transitions (ms : Machines) : List Move → Machines
  | [] => ms
  | (c, next, reason) :: rest => match transition ms c next reason with
    | .error _ => ms
    | .ok ms' => transitions ms' rest

/-- What becomes of the journal: there is none to open, it is opened and restored, or it throws. -/
inductive Opening where
  | none
  | opened
  | throws (what : Bytes)

/-- What `start` finds out: whether the model is loaded, the journal, whether there is a provider's
address. What it does after the last transition is of no account here. -/
structure Start where
  loaded : Bool
  journal : Opening
  providerUrl : Bool

def journalMoves : Opening → List Move
  | .none => []
  | .opened => [(.store, .starting, []), (.store, .ready, [])]
  | .throws what => [(.store, .starting, []), (.store, .failed, what)]

/-- The transitions behind the journal. -/
def readyMoves (providerUrl : Bool) : List Move :=
  (.source, .degraded, "waiting for current telemetry") ::
    if providerUrl then [(.service, .ready, [])]
    else [(.provider, .ready, "deterministic rules provider"), (.service, .ready, [])]

/-- The transitions of `start`, as far as it gets. -/
def startMoves (start : Start) : List Move :=
  if ¬ start.loaded then []
  else match start.journal with
    | .throws what => journalMoves (.throws what)
    | journal => journalMoves journal ++ readyMoves start.providerUrl

/-- The machines after `start`. -/
def started (start : Start) : Machines := transitions constructed (startMoves start)

/-! ### Calls -/

/-- `stopped_`, and how far the one shutdown is that it lets through: the machines it has still to move
to `Stopping`, and to `Stopped` once the workers have been joined. -/
inductive Phase where
  | running
  | stopping (rest : List Component)
  | draining (rest : List Component)
  | finished
  /-- An exception. -/
  | terminated (fault : Fault)
  deriving DecidableEq

structure Shared where
  machines : Machines
  phase : Phase

/-- Where a call is. -/
inductive Thread where
  /-- `ingest_telemetry`, up to its transition. -/
  | ingest
  /-- `readiness`. -/
  | readiness
  | checkingSource
  | answered
  /-- A request that throws. -/
  | refused
  | shutdown
  /-- The shutdown that found `stopped_` unset. -/
  | closing
  | done

/-- What a section finds out: whether it is ready, and why. -/
structure Outside where
  ready : Bool
  reason : Bytes

def components : List Component := [.service, .source, .provider, .store]

/-- A store that is not there, or has failed, is left as it is. -/
def skipsStopping (ms : Machines) (c : Component) : Bool :=
  c == .store && ((ms c).state == .disabled || (ms c).state == .failed)

def skipsStopped (ms : Machines) (c : Component) : Bool :=
  c == .store && (ms c).state != .stopping

/-- The transition a shutdown makes next. -/
def asked (s : Shared) : Option (Component × State) :=
  match s.phase with
  | .stopping (c :: _) => if skipsStopping s.machines c then none else some (c, .stopping)
  | .draining (c :: _) => if skipsStopped s.machines c then none else some (c, .stopped)
  | _ => none

/-- Where a shutdown is after its next section. -/
def advanced : Phase → Phase
  | .stopping (_ :: rest) => .stopping rest
  | .stopping [] => .draining components
  | .draining (_ :: rest) => .draining rest
  | .draining [] => .finished
  | phase => phase

/-- A section of the shutdown. -/
def close (s : Shared) : Shared :=
  match asked s with
  | none => { s with phase := advanced s.phase }
  | some (c, next) => match transition s.machines c next [] with
    | .error fault => { s with phase := .terminated fault }
    | .ok ms => ⟨ms, advanced s.phase⟩

/-- A request's transition. -/
def request (s : Shared) (c : Component) (next : State) (reason : Bytes) (t : Thread) :
    Shared × Thread :=
  match transition s.machines c next reason with
  | .error _ => (s, .refused)
  | .ok ms => ({ s with machines := ms }, t)

def readyState (ready : Bool) : State := if ready then .ready else .degraded

/-- The next section of a call. -/
def nextSection (s : Shared) (t : Thread) (input : Outside) : Option (Shared × Thread) :=
  match t with
  | .ingest =>
    if input.ready then some (request s .source .ready "current telemetry received" .answered)
    else some (s, .refused)
  | .readiness => some (request s .provider (readyState input.ready) input.reason .checkingSource)
  | .checkingSource => some (request s .source (readyState input.ready) input.reason .answered)
  | .shutdown => match s.phase with
    | .running => some ({ s with phase := .stopping components }, .closing)
    | _ => some (s, .done)
  | .closing => match s.phase with
    | .stopping _ | .draining _ => some (close s, .closing)
    | _ => some (s, .done)
  | .answered | .refused | .done => none

def begins : Thread → Bool
  | .ingest | .readiness | .shutdown => true
  | _ => false

def runtime : Program Shared Thread Outside := ⟨begins, nextSection⟩

/-- The runtime after `start`, wherever that ended. -/
def afterStart (start : Start) : Config Shared Thread := ⟨⟨started start, .running⟩, []⟩

/-! ### The states of the machines -/

/-- A machine that no shutdown has touched. -/
def Open (c : Component) (state : State) : Prop :=
  state ∈ (if c = .store then [.disabled, .starting, .ready, .failed]
    else [.starting, .ready, .degraded] : List State)

instance instDecidableOpen (c : Component) (state : State) : Decidable (Open c state) :=
  inferInstanceAs (Decidable (state ∈ (if c = .store then [.disabled, .starting, .ready, .failed]
    else [.starting, .ready, .degraded] : List State)))

/-- A machine a shutdown has been to, on its way to `Stopping` or to `Stopped`. -/
def Closed (c : Component) (last state : State) : Prop :=
  state = last ∨ c = .store ∧ (state = .disabled ∨ state = .failed)

/-- A machine's state while a shutdown is where it is. -/
def Allows (phase : Phase) (c : Component) (state : State) : Prop :=
  match phase with
  | .running => Open c state
  | .stopping rest => if c ∈ rest then Open c state else Closed c .stopping state
  | .draining rest => if c ∈ rest then Closed c .stopping state else Closed c .stopped state
  | .finished => Closed c .stopped state
  | .terminated _ => True

/-- No machine is moved twice, and only a machine that cannot count throws. -/
def Remains : Phase → Prop
  | .stopping rest => rest.Nodup
  | .draining rest => rest.Nodup
  | .terminated fault => fault = .exhausted
  | _ => True

structure Sound (s : Shared) : Prop where
  allows : ∀ c, Allows s.phase c (s.machines c).state
  remains : Remains s.phase

section
variable {ms ms' : Machines} {c : Component} {next : State} {reason : Bytes}

theorem transition_cases (h : transition ms c next reason = .ok ms') :
    allowed (ms c).state next = true ∧ (ms' c).state = next ∧ ∀ k, k ≠ c → ms' k = ms k := by
  rw [transition] at h
  cases hmachine : (ms c).transition next reason with
  | error fault =>
    rw [hmachine] at h
    cases h
  | ok m =>
    rw [hmachine] at h
    obtain rfl := Except.ok.inj h
    obtain ⟨-, hallowed, -, rfl⟩ := transition_eq_ok.mp hmachine
    refine ⟨hallowed, ?_, fun k hk => Function.update_of_ne hk _ _⟩
    rw [Function.update_self]
    rfl

theorem transition_error {fault : Fault} (h : transition ms c next [] = .error fault)
    (hallowed : allowed (ms c).state next = true) : fault = .exhausted := by
  rw [transition, Machine.transition, if_neg (by decide), hallowed, if_neg (by decide)] at h
  split_ifs at h
  · exact (Except.error.inj h).symm
  · cases h
  · cases h

/-! ### After start -/

theorem transitions_open {moves : List Move} (hms : ∀ c, Open c (ms c).state)
    (hmoves : ∀ move ∈ moves, Open move.1 move.2.1) :
    ∀ c, Open c (transitions ms moves c).state := by
  induction moves generalizing ms with
  | nil => exact hms
  | cons move moves ih =>
    obtain ⟨c, next, reason⟩ := move
    rw [List.forall_mem_cons] at hmoves
    cases htransition : transition ms c next reason with
    | error fault =>
      simp only [transitions, htransition]
      exact hms
    | ok ms' =>
      simp only [transitions, htransition]
      obtain ⟨-, hstate, hothers⟩ := transition_cases htransition
      refine ih ?_ hmoves.2
      intro k
      by_cases hk : k = c
      · subst hk
        rw [hstate]
        exact hmoves.1
      · rw [hothers k hk]
        exact hms k

theorem journalMoves_open (journal : Opening) :
    ∀ move ∈ journalMoves journal, Open move.1 move.2.1 := by
  cases journal with
  | none => exact List.forall_mem_nil _
  | opened => decide
  | throws what =>
    have hfailed : Open .store .failed := by decide
    exact List.forall_mem_cons.mpr ⟨by decide, List.forall_mem_singleton.mpr hfailed⟩

theorem readyMoves_open (providerUrl : Bool) :
    ∀ move ∈ readyMoves providerUrl, Open move.1 move.2.1 := by
  cases providerUrl <;> decide

theorem startMoves_open (start : Start) : ∀ move ∈ startMoves start, Open move.1 move.2.1 := by
  unfold startMoves
  split_ifs
  · split
    · exact journalMoves_open _
    · exact List.forall_mem_append.mpr ⟨journalMoves_open _, readyMoves_open _⟩
  · exact List.forall_mem_nil _

/-- **No machine is closed after a start**, wherever that ended. -/
theorem started_open (start : Start) : ∀ c, Open c (started start c).state := by
  apply transitions_open
  · intro c
    cases c <;> decide
  · exact startMoves_open start

/-! ### One section -/

theorem not_allowed_closed {c : Component} {last state : State} (hc : c ≠ .store)
    (hlast : last = .stopping ∨ last = .stopped) (h : Closed c last state) {next : State}
    (hnext : next = .ready ∨ next = .degraded) : allowed state next = false := by
  obtain rfl : state = last := h.resolve_right fun hstore => hc hstore.1
  rcases hlast with rfl | rfl
  · rcases hnext with rfl | rfl <;> rfl
  · rcases hnext with rfl | rfl <;> rfl

/-- **A request keeps the machines where the shutdown has them.** -/
theorem Sound.request {s s' : Shared} {t t' : Thread} (h : Sound s) (hc : c ≠ .store)
    (hnext : next = .ready ∨ next = .degraded)
    (hrequest : Shutdown.request s c next reason t = (s', t')) : Sound s' := by
  rw [Shutdown.request] at hrequest
  split at hrequest
  · obtain ⟨rfl, -⟩ := Prod.mk.inj hrequest
    exact h
  · rename_i ms' htransition
    obtain ⟨rfl, -⟩ := Prod.mk.inj hrequest
    obtain ⟨hallowed, hstate, hothers⟩ := transition_cases htransition
    refine ⟨?_, h.remains⟩
    intro k
    have hk := h.allows k
    by_cases hsame : k = c
    · subst hsame
      show Allows s.phase k (ms' k).state
      rw [hstate]
      have hopen : Open k next := by
        rw [Open, if_neg hc]
        rcases hnext with rfl | rfl <;> decide
      have hrefused : ∀ {last : State}, last = .stopping ∨ last = .stopped →
          ¬ Closed k last (s.machines k).state := by
        intro last hlast hclosed
        rw [not_allowed_closed hc hlast hclosed hnext] at hallowed
        cases hallowed
      unfold Allows at hk ⊢
      split at hk
      · exact hopen
      · split_ifs at hk ⊢
        · exact hopen
        · exact absurd hk (hrefused (.inl rfl))
      · split_ifs at hk
        · exact absurd hk (hrefused (.inl rfl))
        · exact absurd hk (hrefused (.inr rfl))
      · exact absurd hk (hrefused (.inr rfl))
      · trivial
    · show Allows s.phase k (ms' k).state
      rw [hothers k hsame]
      exact hk

theorem allowed_stopping {state : State} (h : Open c state)
    (hskip : ¬ (c = .store ∧ (state = .disabled ∨ state = .failed))) :
    allowed state .stopping = true := by
  rw [Open] at h
  split_ifs at h with hc
  · simp only [List.mem_cons, List.not_mem_nil, or_false] at h
    rcases h with rfl | rfl | rfl | rfl
    · exact absurd ⟨hc, .inl rfl⟩ hskip
    · rfl
    · rfl
    · exact absurd ⟨hc, .inr rfl⟩ hskip
  · simp only [List.mem_cons, List.not_mem_nil, or_false] at h
    rcases h with rfl | rfl | rfl <;> rfl

theorem skipsStopping_iff : skipsStopping ms c = true ↔
    c = .store ∧ ((ms c).state = .disabled ∨ (ms c).state = .failed) := by
  simp only [skipsStopping, Bool.and_eq_true, Bool.or_eq_true, beq_iff_eq]

theorem skipsStopped_iff : skipsStopped ms c = true ↔ c = .store ∧ (ms c).state ≠ .stopping := by
  simp only [skipsStopped, Bool.and_eq_true, bne_iff_ne, beq_iff_eq, ne_eq]

/-- **A shutdown asks for no transition that the table refuses.** -/
theorem Sound.asked {s : Shared} (h : Sound s) (hasked : Shutdown.asked s = some (c, next)) :
    allowed (s.machines c).state next = true := by
  unfold Shutdown.asked at hasked
  split at hasked
  · rename_i k rest hphase
    split_ifs at hasked with hskip
    obtain ⟨rfl, rfl⟩ := Prod.mk.inj (Option.some.inj hasked)
    have hk := h.allows k
    rw [hphase, Allows, if_pos List.mem_cons_self] at hk
    rw [skipsStopping_iff] at hskip
    exact allowed_stopping hk hskip
  · rename_i k rest hphase
    split_ifs at hasked with hskip
    obtain ⟨rfl, rfl⟩ := Prod.mk.inj (Option.some.inj hasked)
    have hk := h.allows k
    rw [hphase, Allows, if_pos List.mem_cons_self] at hk
    rw [skipsStopped_iff] at hskip
    have hstate : (s.machines k).state = .stopping := by
      by_contra hne
      exact hskip ⟨(hk.resolve_left hne).1, hne⟩
    rw [hstate]
    rfl
  · cases hasked

theorem sound_advanced {s : Shared} (h : Sound s) {ms' : Machines}
    (hothers : ∀ k, (∀ next, Shutdown.asked s ≠ some (k, next)) → ms' k = s.machines k)
    (hmoved : ∀ k next, Shutdown.asked s = some (k, next) → (ms' k).state = next) :
    Sound ⟨ms', advanced s.phase⟩ := by
  obtain ⟨ms, phase⟩ := s
  obtain ⟨hallows, hremains⟩ := h
  dsimp only at hallows hremains hothers hmoved ⊢
  cases phase with
  | running =>
    refine ⟨?_, trivial⟩
    intro k
    have hsame : ms' k = ms k := hothers k (by intro next hasked; cases hasked)
    show Allows _ k (ms' k).state
    rw [hsame]
    exact hallows k
  | finished =>
    refine ⟨?_, trivial⟩
    intro k
    have hsame : ms' k = ms k := hothers k (by intro next hasked; cases hasked)
    show Allows _ k (ms' k).state
    rw [hsame]
    exact hallows k
  | terminated fault => exact ⟨fun _ => trivial, hremains⟩
  | stopping rest =>
    cases rest with
    | nil =>
      have hnodup : components.Nodup := by decide
      refine ⟨?_, hnodup⟩
      intro k
      have hk := hallows k
      rw [Allows, if_neg List.not_mem_nil] at hk
      show Allows (.draining components) k (ms' k).state
      rw [Allows, if_pos (by cases k <;> decide), hothers k (by intro next hasked; cases hasked)]
      exact hk
    | cons c rest =>
      obtain ⟨hnot, hrest⟩ := List.nodup_cons.mp hremains
      refine ⟨?_, hrest⟩
      intro k
      have hk := hallows k
      show Allows (.stopping rest) k (ms' k).state
      by_cases hsame : k = c
      · subst hsame
        rw [Allows, if_neg hnot]
        by_cases hskip : skipsStopping ms k = true
        · rw [hothers k (by intro next hasked; simp [Shutdown.asked, hskip] at hasked)]
          exact .inr (skipsStopping_iff.mp hskip)
        · exact .inl (hmoved k .stopping (by simp [Shutdown.asked, hskip]))
      · rw [Allows] at hk ⊢
        rw [hothers k (by
          intro next hasked
          unfold Shutdown.asked at hasked
          dsimp only at hasked
          split_ifs at hasked
          exact hsame (Prod.mk.inj (Option.some.inj hasked)).1.symm)]
        simpa only [List.mem_cons, hsame, false_or] using hk
  | draining rest =>
    cases rest with
    | nil =>
      refine ⟨?_, trivial⟩
      intro k
      have hk := hallows k
      rw [Allows, if_neg List.not_mem_nil] at hk
      show Allows .finished k (ms' k).state
      rw [hothers k (by intro next hasked; cases hasked)]
      exact hk
    | cons c rest =>
      obtain ⟨hnot, hrest⟩ := List.nodup_cons.mp hremains
      refine ⟨?_, hrest⟩
      intro k
      have hk := hallows k
      show Allows (.draining rest) k (ms' k).state
      by_cases hsame : k = c
      · subst hsame
        rw [Allows, if_pos List.mem_cons_self] at hk
        rw [Allows, if_neg hnot]
        by_cases hskip : skipsStopped ms k = true
        · rw [hothers k (by intro next hasked; simp [Shutdown.asked, hskip] at hasked)]
          exact .inr (hk.resolve_left (skipsStopped_iff.mp hskip).2)
        · exact .inl (hmoved k .stopped (by simp [Shutdown.asked, hskip]))
      · rw [Allows] at hk ⊢
        rw [hothers k (by
          intro next hasked
          unfold Shutdown.asked at hasked
          dsimp only at hasked
          split_ifs at hasked
          exact hsame (Prod.mk.inj (Option.some.inj hasked)).1.symm)]
        simpa only [List.mem_cons, hsame, false_or] using hk

/-- **A section of the shutdown.** -/
theorem Sound.close {s : Shared} (h : Sound s) : Sound (Shutdown.close s) := by
  unfold Shutdown.close
  cases hasked : Shutdown.asked s with
  | none =>
    refine sound_advanced h (fun _ _ => rfl) ?_
    intro k next hnext
    rw [hasked] at hnext
    cases hnext
  | some move =>
    obtain ⟨c, next⟩ := move
    cases htransition : transition s.machines c next [] with
    | error fault =>
      simp only [htransition]
      exact ⟨fun _ => trivial, transition_error htransition (h.asked hasked)⟩
    | ok ms' =>
      simp only [htransition]
      obtain ⟨-, hstate, hothers⟩ := transition_cases htransition
      apply sound_advanced h
      · intro k hk
        apply hothers
        intro hsame
        exact hk next (hsame ▸ hasked)
      · intro k next' hnext
        rw [hasked] at hnext
        obtain ⟨rfl, rfl⟩ := Prod.mk.inj (Option.some.inj hnext)
        exact hstate

theorem readyState_cases (ready : Bool) : readyState ready = .ready ∨ readyState ready = .degraded := by
  cases ready
  · exact .inr rfl
  · exact .inl rfl

/-- **What a section keeps.** -/
theorem Sound.step {s s' : Shared} {t t' : Thread} {input : Outside} (h : Sound s)
    (hstep : nextSection s t input = some (s', t')) : Sound s' := by
  cases t with
  | ingest =>
    simp only [nextSection] at hstep
    split_ifs at hstep
    · exact h.request (by decide) (.inl rfl) (Option.some.inj hstep)
    · obtain ⟨rfl, -⟩ := Prod.mk.inj (Option.some.inj hstep)
      exact h
  | readiness => exact h.request (by decide) (readyState_cases _) (Option.some.inj hstep)
  | checkingSource => exact h.request (by decide) (readyState_cases _) (Option.some.inj hstep)
  | shutdown =>
    simp only [nextSection] at hstep
    split at hstep
    · rename_i hphase
      obtain ⟨rfl, -⟩ := Prod.mk.inj (Option.some.inj hstep)
      have hnodup : components.Nodup := by decide
      refine ⟨?_, hnodup⟩
      intro k
      have hk := h.allows k
      rw [hphase] at hk
      show Allows (.stopping components) k (s.machines k).state
      rw [Allows, if_pos (by cases k <;> decide)]
      exact hk
    · obtain ⟨rfl, -⟩ := Prod.mk.inj (Option.some.inj hstep)
      exact h
  | closing =>
    simp only [nextSection] at hstep
    split at hstep
    · obtain ⟨rfl, -⟩ := Prod.mk.inj (Option.some.inj hstep)
      exact h.close
    · obtain ⟨rfl, -⟩ := Prod.mk.inj (Option.some.inj hstep)
      exact h.close
    · obtain ⟨rfl, -⟩ := Prod.mk.inj (Option.some.inj hstep)
      exact h
  | answered => cases hstep
  | refused => cases hstep
  | done => cases hstep

/-! ### A machine that is stopped -/

/-- On its way down, or down. -/
def Halted (state : State) : Prop := state = .stopping ∨ state = .stopped

theorem halted_of_allowed {state : State} (h : Halted state) (hallowed : allowed state next = true)
    (hnext : next ≠ .failed) : Halted next := by
  rcases allowed_iff.mp hallowed with rfl | hmem
  · exact h
  · rcases h with rfl | rfl
    · simp only [successors, List.mem_cons, List.not_mem_nil, or_false] at hmem
      exact .inr (hmem.resolve_right hnext)
    · cases hmem

theorem halted_transition {k : Component} (h : Halted (ms k).state) (hnext : next ≠ .failed)
    (htransition : transition ms c next reason = .ok ms') : Halted (ms' k).state := by
  obtain ⟨hallowed, hstate, hothers⟩ := transition_cases htransition
  by_cases hk : k = c
  · subst hk
    rw [hstate]
    exact halted_of_allowed h hallowed hnext
  · rw [hothers k hk]
    exact h

theorem halted_request {s s' : Shared} {t t' : Thread} {k : Component}
    (h : Halted (s.machines k).state) (hnext : next ≠ .failed)
    (hrequest : Shutdown.request s c next reason t = (s', t')) : Halted (s'.machines k).state := by
  rw [Shutdown.request] at hrequest
  split at hrequest
  · obtain ⟨rfl, -⟩ := Prod.mk.inj hrequest
    exact h
  · rename_i ms' htransition
    obtain ⟨rfl, -⟩ := Prod.mk.inj hrequest
    exact halted_transition h hnext htransition

theorem asked_ne_failed {s : Shared} (hasked : Shutdown.asked s = some (c, next)) :
    next ≠ .failed := by
  unfold Shutdown.asked at hasked
  split at hasked
  · split_ifs at hasked
    obtain ⟨-, rfl⟩ := Prod.mk.inj (Option.some.inj hasked)
    decide
  · split_ifs at hasked
    obtain ⟨-, rfl⟩ := Prod.mk.inj (Option.some.inj hasked)
    decide
  · cases hasked

theorem halted_close {s : Shared} {k : Component} (h : Halted (s.machines k).state) :
    Halted ((Shutdown.close s).machines k).state := by
  unfold Shutdown.close
  cases hasked : Shutdown.asked s with
  | none => exact h
  | some move =>
    obtain ⟨c, next⟩ := move
    cases htransition : transition s.machines c next [] with
    | error fault =>
      simp only [htransition]
      exact h
    | ok ms' =>
      simp only [htransition]
      exact halted_transition h (asked_ne_failed hasked) htransition

/-- **A machine that is stopped stays so**, whatever the next section is. -/
theorem halted_step {s s' : Shared} {t t' : Thread} {input : Outside} {k : Component}
    (h : Halted (s.machines k).state) (hstep : nextSection s t input = some (s', t')) :
    Halted (s'.machines k).state := by
  have hready : readyState input.ready ≠ .failed := by
    rcases readyState_cases input.ready with hstate | hstate <;> rw [hstate] <;> decide
  cases t with
  | ingest =>
    simp only [nextSection] at hstep
    split_ifs at hstep
    · exact halted_request h (by decide) (Option.some.inj hstep)
    · obtain ⟨rfl, -⟩ := Prod.mk.inj (Option.some.inj hstep)
      exact h
  | readiness => exact halted_request h hready (Option.some.inj hstep)
  | checkingSource => exact halted_request h hready (Option.some.inj hstep)
  | shutdown =>
    simp only [nextSection] at hstep
    split at hstep <;> obtain ⟨rfl, -⟩ := Prod.mk.inj (Option.some.inj hstep) <;> exact h
  | closing =>
    simp only [nextSection] at hstep
    split at hstep
    · obtain ⟨rfl, -⟩ := Prod.mk.inj (Option.some.inj hstep)
      exact halted_close h
    · obtain ⟨rfl, -⟩ := Prod.mk.inj (Option.some.inj hstep)
      exact halted_close h
    · obtain ⟨rfl, -⟩ := Prod.mk.inj (Option.some.inj hstep)
      exact h
  | answered => cases hstep
  | refused => cases hstep
  | done => cases hstep

end

/-! ### Runs -/

/-- What a shutdown keeps to, in some configuration and from then on. -/
structure Orderly (c : Config Shared Thread) : Prop where
  allowed : ∀ k next, asked c.shared = some (k, next) →
    allowed (c.shared.machines k).state next = true
  exhausted : ∀ fault, c.shared.phase = .terminated fault → fault = .exhausted
  final : ∀ k, Halted (c.shared.machines k).state → ∀ c', Reachable runtime always c c' →
    Halted (c'.shared.machines k).state

/-- **A shutdown asks for no transition that the table refuses**, wherever `start` ended and whatever
requests come between; and a machine it has moved to `Stopping` is never ready or degraded again. -/
theorem shutdown_allowed (start : Start) {c : Config Shared Thread}
    (h : Reachable runtime always (afterStart start) c) : Orderly c := by
  have hsound : Sound c.shared := by
    refine (Reachable.rule (I := Sound) (L := fun _ _ => True) ?_ (List.forall_mem_nil _)
      (fun _ _ _ _ => trivial) ?_ h).1
    · exact ⟨started_open start, trivial⟩
    · intro s t input s' t' hs _ _ hstep
      exact ⟨hs.step hstep, trivial, fun _ _ => trivial⟩
  refine ⟨fun k next hasked => hsound.asked hasked, ?_, ?_⟩
  · intro fault hphase
    have hremains := hsound.remains
    rw [hphase] at hremains
    exact hremains
  · intro k hk c' hreach
    refine (Reachable.rule (I := fun s => Halted (s.machines k).state) (L := fun _ _ => True) hk
      (fun _ _ => trivial) (fun _ _ _ _ => trivial) ?_ hreach).1
    intro s t input s' t' hs _ _ hstep
    exact ⟨halted_step hs hstep, trivial, fun _ _ => trivial⟩

/-! ### A machine that has counted to the end -/

/-- A start without a journal and without a provider's address. -/
def plainStart : Start := ⟨true, .none, false⟩

theorem provider_counts (n : Nat) (hn : n < 2 ^ 64 - 1) :
    ∃ c, Reachable runtime always (afterStart plainStart) c ∧ c.shared.phase = .running ∧
      (c.shared.machines .provider).transitions.toNat = n + 1 ∧
      ((c.shared.machines .provider).state = .ready ∨
        (c.shared.machines .provider).state = .degraded) ∧
      ∀ k, k ≠ .provider → c.shared.machines k = started plainStart k := by
  induction n with
  | zero => exact ⟨_, .init, rfl, rfl, .inl rfl, fun _ _ => rfl⟩
  | succ n ih =>
    obtain ⟨c, hreach, hphase, hcount, hstate, hothers⟩ := ih (by omega)
    -- The provider answers the other way this time.
    have hnext : ∃ ready, allowed (c.shared.machines .provider).state (readyState ready) = true ∧
        (c.shared.machines .provider).state ≠ readyState ready := by
      rcases hstate with hstate | hstate
      · exact ⟨false, by rw [hstate]; rfl, by rw [hstate]; decide⟩
      · exact ⟨true, by rw [hstate]; rfl, by rw [hstate]; decide⟩
    obtain ⟨ready, hallowed, hne⟩ := hnext
    have hfree : (c.shared.machines .provider).transitions ≠ UInt64.ofNat (2 ^ 64 - 1) := by
      intro hfull
      rw [hfull] at hcount
      have hmax : (UInt64.ofNat (2 ^ 64 - 1)).toNat = 2 ^ 64 - 1 := rfl
      omega
    have hmachine : (c.shared.machines .provider).transition (readyState ready) [] =
        .ok ((c.shared.machines .provider).moved (readyState ready) []) :=
      transition_eq_ok.mpr ⟨Nat.zero_le _, hallowed, .inr hfree, rfl⟩
    have hstep : runtime.step c.shared .readiness ⟨ready, []⟩ =
        some (⟨Function.update c.shared.machines .provider
          ((c.shared.machines .provider).moved (readyState ready) []), c.shared.phase⟩,
          .checkingSource) := by
      simp only [runtime, nextSection, request, transition, hmachine]
      rfl
    refine ⟨_, hreach.begin rfl hstep, hphase, ?_, ?_, ?_⟩
    · simp only [Function.update_self, Machine.moved, if_neg hne]
      have hone : (1 : UInt64).toNat = 1 := rfl
      rw [UInt64.toNat_add, hcount, hone]
      exact Nat.mod_eq_of_lt (by omega)
    · simp only [Function.update_self, Machine.moved]
      exact readyState_cases ready
    · intro k hk
      have hsame := Function.update_of_ne hk
        ((c.shared.machines .provider).moved (readyState ready) []) c.shared.machines
      exact hsame.trans (hothers k hk)

theorem close_of_ok {s : Shared} {c : Component} {next : State} {m : Machine}
    (hasked : asked s = some (c, next)) (h : (s.machines c).transition next [] = .ok m) :
    close s = ⟨Function.update s.machines c m, advanced s.phase⟩ := by
  simp only [close, hasked, transition, h]
  rfl

theorem close_of_error {s : Shared} {c : Component} {next : State} {fault : Fault}
    (hasked : asked s = some (c, next)) (h : (s.machines c).transition next [] = .error fault) :
    close s = ⟨s.machines, .terminated fault⟩ := by
  simp only [close, hasked, transition, h]
  rfl

/-- **A shutdown throws where a machine cannot count another change.** -/
theorem shutdown_exhausted : ∃ c, Reachable runtime always (afterStart plainStart) c ∧
    c.shared.phase = .terminated .exhausted := by
  obtain ⟨c, hreach, hphase, hcount, hstate, hothers⟩ := provider_counts (2 ^ 64 - 2) (by decide)
  obtain ⟨⟨ms, phase⟩, ts⟩ := c
  dsimp only at hphase hcount hstate hothers
  subst hphase
  -- The service and the source are moved.
  have hservice : (ms .service).transition .stopping [] =
      .ok ((started plainStart .service).moved .stopping []) := by
    rw [hothers .service (by decide)]
    rfl
  have hsource : (ms .source).transition .stopping [] =
      .ok ((started plainStart .source).moved .stopping []) := by
    rw [hothers .source (by decide)]
    rfl
  have hfirst := close_of_ok (s := ⟨ms, .stopping components⟩) rfl hservice
  have hsecond := close_of_ok
    (s := ⟨Function.update ms .service ((started plainStart .service).moved .stopping []),
      .stopping [.source, .provider, .store]⟩) rfl hsource
  -- The provider is not.
  have hfull : (ms .provider).transitions = UInt64.ofNat (2 ^ 64 - 1) :=
    UInt64.toNat.inj (by rw [hcount]; rfl)
  have hprovider : (ms .provider).transition .stopping [] = .error .exhausted := by
    rw [Machine.transition, if_neg (by decide)]
    rcases hstate with hstate | hstate
    · rw [hstate, if_neg (by decide), if_pos (by decide), if_pos hfull]
    · rw [hstate, if_neg (by decide), if_pos (by decide), if_pos hfull]
  have hthird := close_of_error
    (s := ⟨Function.update (Function.update ms .service
        ((started plainStart .service).moved .stopping [])) .source
        ((started plainStart .source).moved .stopping []), .stopping [.provider, .store]⟩)
    rfl hprovider
  have hbegin : runtime.step ⟨ms, .running⟩ .shutdown ⟨true, []⟩ =
      some (⟨ms, .stopping components⟩, .closing) := rfl
  have hclose : ∀ ms rest, runtime.step ⟨ms, .stopping rest⟩ .closing ⟨true, []⟩ =
      some (close ⟨ms, .stopping rest⟩, .closing) := fun _ _ => rfl
  have h₁ := (hreach.begin rfl hbegin).moveLast (hclose _ _)
  rw [hfirst] at h₁
  have h₂ := h₁.moveLast (hclose _ _)
  rw [hsecond] at h₂
  have h₃ := h₂.moveLast (hclose _ _)
  rw [hthird] at h₃
  exact ⟨_, h₃, rfl⟩

/-- A batch, a shutdown, and a batch and a readiness request beside it. -/
def sampleEvents : List (Event Thread Outside) :=
  [.start .ingest, .move 0 ⟨true, []⟩, .start .ingest, .start .shutdown, .start .readiness] ++
    List.replicate 3 (.move 2 ⟨true, []⟩) ++ [.move 1 ⟨true, []⟩, .move 3 ⟨false, []⟩] ++
    List.replicate 9 (.move 2 ⟨true, []⟩)

theorem shutdown_allowed_sample : ∃ c, run runtime (afterStart plainStart) sampleEvents = some c ∧
    c.shared.phase = .finished ∧ Orderly c := by
  have hsome : (run runtime (afterStart plainStart) sampleEvents).any
      (fun c => c.shared.phase = .finished) = true := by decide +kernel
  obtain ⟨c, hrun, hfinished⟩ := (Option.any_eq_true _ _).mp hsome
  exact ⟨c, hrun, of_decide_eq_true hfinished, shutdown_allowed plainStart (reachable_run hrun)⟩

end ContextHmi.Runtime.Shutdown
