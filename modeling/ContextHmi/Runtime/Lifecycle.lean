import ContextHmi.Json.Value

/-!
# Lifecycles

`lifecycle::Machine`: a state, the reason of the last transition, and how often the state has changed.
Transitions are checked against a table, and one that is refused leaves the machine.

* `transition_eq_ok` : which transitions are taken, and what they leave;
* `Machine.ran`      : what any transitions, refused or not, leave of a machine.
-/

namespace ContextHmi.Runtime.Lifecycle

inductive State where
  | disabled
  | starting
  | ready
  | paused
  | degraded
  | stopping
  | stopped
  | failed
  deriving DecidableEq

def stateName : State → Bytes
  | .disabled => "disabled"
  | .starting => "starting"
  | .ready => "ready"
  | .paused => "paused"
  | .degraded => "degraded"
  | .stopping => "stopping"
  | .stopped => "stopped"
  | .failed => "failed"

/-- The table: where a state may change to. -/
def successors : State → List State
  | .disabled => [.starting, .stopping, .stopped]
  | .starting => [.ready, .degraded, .failed, .stopping]
  | .ready => [.paused, .degraded, .failed, .stopping]
  | .paused => [.ready, .degraded, .failed, .stopping]
  | .degraded => [.ready, .paused, .failed, .stopping]
  | .failed => [.starting, .stopping]
  | .stopping => [.stopped, .failed]
  | .stopped => []

/-- `allowed`. -/
def allowed (current next : State) : Bool := current == next || (successors current).contains next

abbrev kMaximumComponentBytes : Nat := 128
abbrev kMaximumReasonBytes : Nat := 1024

/-- What a transition can throw. -/
inductive Fault where
  /-- `std::invalid_argument`. -/
  | reason
  /-- `std::logic_error`. -/
  | illegal (component : Bytes) (current next : State)
  /-- `std::overflow_error`. -/
  | exhausted
  deriving DecidableEq

def Fault.what : Fault → Bytes
  | .reason => "lifecycle transition reason exceeds 1024 bytes"
  | .illegal component current next => "illegal " ++ component ++ " lifecycle transition from " ++
      stateName current ++ " to " ++ stateName next
  | .exhausted => "lifecycle transition counter exhausted"

/-- `Machine`; the constructor refuses a component without a name or with one that is too long. -/
structure Machine where
  component : Bytes
  state : State
  reason : Bytes
  transitions : UInt64
  named : component ≠ [] ∧ component.length ≤ kMaximumComponentBytes

/-- `Machine::Machine`. -/
def Machine.make (component : Bytes) (initial : State) : Option Machine :=
  if h : component ≠ [] ∧ component.length ≤ kMaximumComponentBytes then
    some ⟨component, initial, [], 0, h⟩
  else none

/-- `Machine::transition`. -/
def Machine.transition (m : Machine) (next : State) (reason : Bytes) : Except Fault Machine :=
  if kMaximumReasonBytes < reason.length then .error .reason
  else if allowed m.state next = false then .error (.illegal m.component m.state next)
  else if m.state ≠ next then
    if m.transitions = UInt64.ofNat (2 ^ 64 - 1) then .error .exhausted
    else .ok { m with state := next, reason := reason, transitions := m.transitions + 1 }
  else .ok { m with reason := reason }

/-- `Machine::snapshot`. -/
def Machine.snapshot (m : Machine) : Json :=
  .object [("component", .str m.component), ("state", .str (stateName m.state)),
    ("reason", .str m.reason), ("transitions", .uint m.transitions)]

/-! ### One transition -/

theorem allowed_iff {current next : State} :
    allowed current next = true ↔ current = next ∨ next ∈ successors current := by
  rw [allowed, Bool.or_eq_true, beq_iff_eq, List.contains_iff_mem]

section
variable {m m' : Machine} {next : State} {reason : Bytes}

/-- The machine after a transition that is taken. -/
def Machine.moved (m : Machine) (next : State) (reason : Bytes) : Machine :=
  { m with
    state := next
    reason := reason
    transitions := if m.state = next then m.transitions else m.transitions + 1 }

/-- **Which transitions are taken**, and what they leave. -/
theorem transition_eq_ok : m.transition next reason = .ok m' ↔
    reason.length ≤ kMaximumReasonBytes ∧ allowed m.state next = true ∧
      (m.state = next ∨ m.transitions ≠ UInt64.ofNat (2 ^ 64 - 1)) ∧ m' = m.moved next reason := by
  unfold Machine.transition Machine.moved
  by_cases hreason : kMaximumReasonBytes < reason.length
  · rw [if_pos hreason]
    exact iff_of_false (by simp) fun h => absurd h.1 (by omega)
  · rw [if_neg hreason]
    by_cases hallowed : allowed m.state next = false
    · rw [if_pos hallowed]
      exact iff_of_false (by simp) fun h => by simp [hallowed] at h
    · rw [if_neg hallowed]
      rw [Bool.not_eq_false] at hallowed
      by_cases hsame : m.state = next
      · subst hsame
        simp only [ne_eq, not_true, if_false, if_true, Except.ok.injEq, hallowed, true_or, true_and]
        exact ⟨fun h => ⟨by omega, h.symm⟩, fun h => h.2.symm⟩
      · by_cases hfull : m.transitions = UInt64.ofNat (2 ^ 64 - 1)
        · simp only [ne_eq, hsame, not_false_eq_true, if_true, hfull]
          exact iff_of_false (by simp) fun h => by simp at h
        · simp only [ne_eq, hsame, not_false_eq_true, if_true, hfull, if_false, Except.ok.injEq,
            hallowed, or_true, true_and]
          exact ⟨fun h => ⟨by omega, h.symm⟩, fun h => h.2.symm⟩

/-- A machine after a call; one that throws leaves it as it is. -/
def Machine.call (m : Machine) (call : State × Bytes) : Machine :=
  (m.transition call.1 call.2).toOption.getD m

def Machine.run (m : Machine) (calls : List (State × Bytes)) : Machine := calls.foldl Machine.call m

/-- The states a machine changes to, one after another. -/
def Machine.visited (m : Machine) : List (State × Bytes) → List State
  | [] => []
  | call :: calls =>
    if (m.call call).state = m.state then (m.call call).visited calls
    else (m.call call).state :: (m.call call).visited calls

/-! ### Any transitions -/

/-- **What a call leaves of a machine**, whether it is refused or not. -/
theorem call_cases (m : Machine) (call : State × Bytes) :
    (m.call call).component = m.component ∧
      ((m.call call).state = m.state ∧ (m.call call).transitions = m.transitions ∨
        (m.call call).state ∈ successors m.state ∧ (m.call call).state ≠ m.state ∧
          (m.call call).transitions.toNat = m.transitions.toNat + 1) := by
  unfold Machine.call
  cases htransition : m.transition call.1 call.2 with
  | error e => exact ⟨rfl, .inl ⟨rfl, rfl⟩⟩
  | ok m' =>
    obtain ⟨-, hallowed, hcount, rfl⟩ := transition_eq_ok.mp htransition
    refine ⟨rfl, ?_⟩
    show (m.moved call.1 call.2).state = m.state ∧ _ ∨ _
    by_cases hsame : m.state = call.1
    · exact .inl ⟨hsame.symm, if_pos hsame⟩
    · refine .inr ⟨(allowed_iff.mp hallowed).resolve_left hsame, Ne.symm hsame, ?_⟩
      have hfree : m.transitions ≠ UInt64.ofNat (2 ^ 64 - 1) := hcount.resolve_left hsame
      have hlt : m.transitions.toNat + 1 < 2 ^ 64 := by
        have hbound := m.transitions.toNat_lt
        have hne : m.transitions.toNat ≠ 2 ^ 64 - 1 := by
          intro heq
          exact hfree (UInt64.toNat.inj (by rw [heq]; rfl))
        omega
      show (m.moved call.1 call.2).transitions.toNat = _
      rw [Machine.moved, if_neg hsame, UInt64.toNat_add]
      exact Nat.mod_eq_of_lt hlt

/-- A machine has gone through the states of a path, and has counted them. -/
structure Machine.Ran (m m' : Machine) (path : List State) : Prop where
  component : m'.component = m.component
  chain : List.IsChain (fun current next => next ∈ successors current) (m.state :: path)
  last : (m.state :: path).getLast (List.cons_ne_nil _ _) = m'.state
  counted : m'.transitions.toNat = m.transitions.toNat + path.length

/-- **A machine moves along its table**, and counts every change, whatever it is asked for. -/
theorem Machine.ran (m : Machine) (calls : List (State × Bytes)) :
    m.Ran (m.run calls) (m.visited calls) := by
  induction calls generalizing m with
  | nil => exact ⟨rfl, List.isChain_singleton _, rfl, rfl⟩
  | cons call calls ih =>
    have hrest := ih (m.call call)
    obtain ⟨hcomponent, ⟨hstate, htransitions⟩ | ⟨hnext, hother, htransitions⟩⟩ := call_cases m call
    · have hchain := hrest.chain
      have hlast := hrest.last
      have hcounted := hrest.counted
      rw [Machine.visited, if_pos hstate]
      simp only [hstate] at hchain hlast
      rw [htransitions] at hcounted
      exact ⟨hrest.component.trans hcomponent, hchain, hlast, hcounted⟩
    · rw [Machine.visited, if_neg hother]
      refine ⟨hrest.component.trans hcomponent, List.isChain_cons_cons.mpr ⟨hnext, hrest.chain⟩, ?_, ?_⟩
      · rw [List.getLast_cons (List.cons_ne_nil _ _)]
        exact hrest.last
      · have hcounted := hrest.counted
        rw [htransitions] at hcounted
        rw [List.length_cons]
        show ((m.call call).run calls).transitions.toNat = _
        omega

theorem chain_stopped {path : List State}
    (h : List.IsChain (fun current next => next ∈ successors current) (.stopped :: path)) :
    path = [] := by
  cases path with
  | nil => rfl
  | cons next path =>
    have hnext := (List.isChain_cons_cons.mp h).1
    cases hnext

/-- **What a machine is ever asked for, it moves along its table**: the states it changes to follow each
other there, its counter is their number, and once stopped it stays so. -/
theorem machine_moves {component : Bytes} {initial : State} {m : Machine}
    (hmake : Machine.make component initial = some m) (calls : List (State × Bytes)) :
    m.Ran (m.run calls) (m.visited calls) ∧
      (m.run calls).transitions.toNat = (m.visited calls).length ∧
      ∀ earlier later, calls = earlier ++ later → (m.run earlier).state = .stopped →
        (m.run calls).state = .stopped ∧ (m.run calls).transitions = (m.run earlier).transitions := by
  have hzero : m.transitions = 0 := by
    unfold Machine.make at hmake
    split_ifs at hmake
    obtain rfl := Option.some.inj hmake
    rfl
  have hran := m.ran calls
  refine ⟨hran, ?_, ?_⟩
  · have hcounted := hran.counted
    rw [hzero] at hcounted
    rw [hcounted]
    exact Nat.zero_add _
  · intro earlier later hcalls hstopped
    have hrun : m.run calls = (m.run earlier).run later := by
      rw [hcalls, Machine.run, List.foldl_append]
      rfl
    have hrest := (m.run earlier).ran later
    have hchain := hrest.chain
    have hlast := hrest.last
    have hcounted := hrest.counted
    rw [hstopped] at hchain
    simp only [chain_stopped hchain] at hlast hcounted
    rw [hrun]
    exact ⟨hlast.symm.trans hstopped, UInt64.toNat.inj hcounted⟩

end

/-- The source of the service, asked to be ready, to pause, to start, to stop and to be ready again. -/
theorem machine_moves_sample : ∃ m, Machine.make "source" .starting = some m ∧
    m.visited [(.ready, []), (.paused, []), (.starting, []), (.stopping, []), (.stopped, []),
      (.ready, [])] = [.ready, .paused, .stopping, .stopped] ∧
    (m.run [(.ready, []), (.paused, []), (.starting, []), (.stopping, []), (.stopped, []),
      (.ready, [])]).transitions.toNat = 4 := by
  obtain ⟨m, hmake⟩ : ∃ m, Machine.make "source" .starting = some m := ⟨_, rfl⟩
  obtain ⟨-, hcounted, -⟩ := machine_moves hmake
    [(.ready, []), (.paused, []), (.starting, []), (.stopping, []), (.stopped, []), (.ready, [])]
  have hvisited : m.visited [(.ready, []), (.paused, []), (.starting, []), (.stopping, []),
      (.stopped, []), (.ready, [])] = [.ready, .paused, .stopping, .stopped] := by
    obtain rfl := Option.some.inj hmake
    rfl
  refine ⟨m, hmake, hvisited, ?_⟩
  rw [hcounted, hvisited]
  rfl

end ContextHmi.Runtime.Lifecycle
