import ContextHmi.Library.Interleave
import Mathlib.Data.List.Perm.Basic

/-!
# The worker pool

`WorkerPool`: a bounded queue of jobs, workers that take the oldest job and run it outside the lock,
producers that push or are refused, and one call of `shutdown`. Every section under the mutex and
every atomic update outside it is one step, and the steps of all threads interleave.

What the pool has accepted, taken and run so far is kept beside its state as a history no step reads.

* `Reachable.inv`      : what holds between any two steps;
* `pool_loses_nothing` : no job is lost, repeated or overtaken, and a finished shutdown has run all;
* `shutdown_returns`   : a shutdown that is called can finish, wherever the threads are.
-/

namespace ContextHmi.Execution

open Interleave (exists_split)

variable {J : Type}

/-! ### The state under the mutex -/

/-- The members of `WorkerPool`. -/
structure Pool (J : Type) where
  queueCapacity : Nat
  queue : List J := []
  accepting : Bool := true
  stopping : Bool := false
  submitted : UInt64 := 0
  completed : UInt64 := 0
  rejected : UInt64 := 0
  failed : UInt64 := 0
  active : UInt64 := 0

namespace Pool

/-- `!accepting_ || queue_.size() >= queue_capacity_` does not hold. -/
def hasRoom (p : Pool J) : Bool := p.accepting && p.queue.length < p.queueCapacity

/-- `enqueue`; `none` where it returns `false`. -/
def enqueue (p : Pool J) (job : J) : Option (Pool J) :=
  if p.hasRoom then some { p with queue := p.queue ++ [job], submitted := p.submitted + 1 } else none

/-- The locked section of `run` that takes a job. -/
def take (p : Pool J) : Option (J × Pool J) :=
  match p.queue with
  | [] => none
  | job :: rest => some (job, { p with queue := rest, active := p.active + 1 })

/-- The first section of `shutdown`. -/
def stop (p : Pool J) : Pool J := { p with accepting := false, stopping := true }

end Pool

/-! ### Threads -/

/-- Where a worker is in `run`. -/
inductive Worker (J : Type) where
  /-- About to enter the locked section, or waiting in it. -/
  | waiting
  | running (job : J)
  /-- The job is over; `active_` still counts it. -/
  | ran
  /-- `completed_` does not count the job yet. -/
  | retired
  | exited

/-- Where the call of `shutdown` is. -/
inductive Shutdown where
  | notCalled
  /-- Joining the workers; the number of those joined. -/
  | joining (joined : Nat)
  | returned

/-- What has happened to the jobs. -/
structure History (J : Type) where
  /-- The jobs accepted, in order. -/
  accepted : List J := []
  /-- The submissions refused. -/
  refused : Nat := 0
  /-- The jobs taken from the queue, in order. -/
  taken : List J := []
  /-- The jobs that were run to their end. -/
  finished : List J := []

structure System (J : Type) where
  pool : Pool J
  workers : List (Worker J)
  /-- Producers that were refused and have not counted it yet. -/
  refusing : Nat
  shutdown : Shutdown
  history : History J

/-- The pool as its constructor leaves it. -/
def System.start (J : Type) (workerCount queueCapacity : Nat) : System J :=
  ⟨{ queueCapacity := queueCapacity }, List.replicate workerCount .waiting, 0, .notCalled, {}⟩

/-! ### Steps -/

inductive Event (J : Type) where
  /-- A producer is in `enqueue`. -/
  | submit (job : J)
  /-- A refused producer counts it and throws `QueueFull`. -/
  | refuse
  /-- Worker `w` takes a job. -/
  | take (w : Nat)
  /-- Worker `w` finds the pool stopping and the queue empty. -/
  | exit (w : Nat)
  /-- The job of worker `w` is over, with or without an exception. -/
  | finish (w : Nat) (threw : Bool)
  | retire (w : Nat)
  | complete (w : Nat)
  /-- `shutdown` is called. -/
  | stop
  /-- `shutdown` joins its next worker. -/
  | join
  /-- `shutdown` has joined all workers. -/
  | close

/-- Worker `w` in its state `before` goes on as `after`. -/
def System.moveWorker (s : System J) (w : Nat) (after : Worker J) : System J :=
  { s with workers := s.workers.set w after }

def submitStep (s : System J) (job : J) : System J :=
  match s.pool.enqueue job with
  | some pool => { s with
      pool := pool
      history := { s.history with accepted := s.history.accepted ++ [job] } }
  | none => { s with
      refusing := s.refusing + 1
      history := { s.history with refused := s.history.refused + 1 } }

def takeStep (s : System J) (w : Nat) : Option (System J) :=
  match s.workers[w]?, s.pool.take with
  | some .waiting, some (job, pool) => some { s.moveWorker w (.running job) with
      pool := pool
      history := { s.history with taken := s.history.taken ++ [job] } }
  | _, _ => none

def exitStep (s : System J) (w : Nat) : Option (System J) :=
  match s.workers[w]? with
  | some .waiting =>
    if s.pool.stopping && s.pool.queue.isEmpty then some (s.moveWorker w .exited) else none
  | _ => none

def finishStep (s : System J) (w : Nat) (threw : Bool) : Option (System J) :=
  match s.workers[w]? with
  | some (.running job) => some { s.moveWorker w .ran with
      pool := { s.pool with failed := if threw then s.pool.failed + 1 else s.pool.failed }
      history := { s.history with finished := s.history.finished ++ [job] } }
  | _ => none

def retireStep (s : System J) (w : Nat) : Option (System J) :=
  match s.workers[w]? with
  | some .ran => some { s.moveWorker w .retired with
      pool := { s.pool with active := s.pool.active - 1 } }
  | _ => none

def completeStep (s : System J) (w : Nat) : Option (System J) :=
  match s.workers[w]? with
  | some .retired => some { s.moveWorker w .waiting with
      pool := { s.pool with completed := s.pool.completed + 1 } }
  | _ => none

def stopStep (s : System J) : Option (System J) :=
  match s.shutdown with
  | .notCalled => some { s with pool := s.pool.stop, shutdown := .joining 0 }
  | _ => none

/-- `join` returns once the worker has left `run`. -/
def joinStep (s : System J) : Option (System J) :=
  match s.shutdown with
  | .joining joined => match s.workers[joined]? with
    | some .exited => some { s with shutdown := .joining (joined + 1) }
    | _ => none
  | _ => none

def closeStep (s : System J) : Option (System J) :=
  match s.shutdown with
  | .joining joined => if joined = s.workers.length then some { s with shutdown := .returned } else none
  | _ => none

/-- The step of an event, where it is enabled. -/
def step (s : System J) : Event J → Option (System J)
  | .submit job => some (submitStep s job)
  | .refuse => if 0 < s.refusing then some { s with
      refusing := s.refusing - 1
      pool := { s.pool with rejected := s.pool.rejected + 1 } } else none
  | .take w => takeStep s w
  | .exit w => exitStep s w
  | .finish w threw => finishStep s w threw
  | .retire w => retireStep s w
  | .complete w => completeStep s w
  | .stop => stopStep s
  | .join => joinStep s
  | .close => closeStep s

/-- The states the threads of a pool can reach, in any order of their steps. -/
inductive Reachable (workerCount queueCapacity : Nat) : System J → Prop where
  | start : Reachable workerCount queueCapacity (.start J workerCount queueCapacity)
  | next {s s' : System J} {e : Event J} : Reachable workerCount queueCapacity s →
      step s e = some s' → Reachable workerCount queueCapacity s'

/-- Any number of steps. -/
inductive Steps : System J → System J → Prop where
  | refl (s : System J) : Steps s s
  | next {s s' s'' : System J} {e : Event J} : Steps s s' → step s' e = some s'' → Steps s s''

/-! ### What a step can do -/

theorem submitStep_cases (s : System J) (job : J) :
    (s.pool.hasRoom = true ∧ submitStep s job = { s with
      pool := { s.pool with queue := s.pool.queue ++ [job], submitted := s.pool.submitted + 1 }
      history := { s.history with accepted := s.history.accepted ++ [job] } }) ∨
    (s.pool.hasRoom = false ∧ submitStep s job = { s with
      refusing := s.refusing + 1
      history := { s.history with refused := s.history.refused + 1 } }) := by
  unfold submitStep Pool.enqueue
  cases hroom : s.pool.hasRoom with
  | true => exact .inl ⟨rfl, rfl⟩
  | false => exact .inr ⟨rfl, rfl⟩

/-- A worker's step: its place among the workers, its states, and what becomes of the rest. -/
inductive WorkerStep (s : System J) : System J → Prop where
  | take {pre post : List (Worker J)} {job : J} {rest : List J}
      (hworkers : s.workers = pre ++ .waiting :: post) (hqueue : s.pool.queue = job :: rest) :
      WorkerStep s { s with
        workers := pre ++ .running job :: post
        pool := { s.pool with queue := rest, active := s.pool.active + 1 }
        history := { s.history with taken := s.history.taken ++ [job] } }
  | exit {pre post : List (Worker J)} (hworkers : s.workers = pre ++ .waiting :: post)
      (hstopping : s.pool.stopping = true) (hqueue : s.pool.queue = []) :
      WorkerStep s { s with workers := pre ++ .exited :: post }
  | finish {pre post : List (Worker J)} {job : J} (failed : UInt64)
      (hworkers : s.workers = pre ++ .running job :: post) :
      WorkerStep s { s with
        workers := pre ++ .ran :: post
        pool := { s.pool with failed := failed }
        history := { s.history with finished := s.history.finished ++ [job] } }
  | retire {pre post : List (Worker J)} (hworkers : s.workers = pre ++ .ran :: post) :
      WorkerStep s { s with
        workers := pre ++ .retired :: post
        pool := { s.pool with active := s.pool.active - 1 } }
  | complete {pre post : List (Worker J)} (hworkers : s.workers = pre ++ .retired :: post) :
      WorkerStep s { s with
        workers := pre ++ .waiting :: post
        pool := { s.pool with completed := s.pool.completed + 1 } }

/-- What any step can do. -/
inductive Change (s : System J) : System J → Prop where
  | accept (job : J) (hroom : s.pool.hasRoom = true) :
      Change s { s with
        pool := { s.pool with queue := s.pool.queue ++ [job], submitted := s.pool.submitted + 1 }
        history := { s.history with accepted := s.history.accepted ++ [job] } }
  | refuse (hroom : s.pool.hasRoom = false) :
      Change s { s with
        refusing := s.refusing + 1
        history := { s.history with refused := s.history.refused + 1 } }
  | count (hrefusing : 0 < s.refusing) :
      Change s { s with
        refusing := s.refusing - 1
        pool := { s.pool with rejected := s.pool.rejected + 1 } }
  | worker {s' : System J} (h : WorkerStep s s') : Change s s'
  | stop (hshutdown : s.shutdown = .notCalled) :
      Change s { s with pool := s.pool.stop, shutdown := .joining 0 }
  | join {joined : Nat} (hshutdown : s.shutdown = .joining joined)
      (hworker : s.workers[joined]? = some .exited) :
      Change s { s with shutdown := .joining (joined + 1) }
  | close (hshutdown : s.shutdown = .joining s.workers.length) :
      Change s { s with shutdown := .returned }

theorem takeStep_cases {s s' : System J} {w : Nat} (h : takeStep s w = some s') :
    WorkerStep s s' := by
  unfold takeStep at h
  split at h
  · rename_i job pool hworker htake
    obtain rfl := Option.some.inj h
    obtain ⟨pre, post, hworkers, hset⟩ := exists_split hworker
    unfold Pool.take at htake
    split at htake
    · cases htake
    · rename_i job' rest hqueue
      obtain ⟨rfl, rfl⟩ := Prod.mk.inj (Option.some.inj htake)
      rw [System.moveWorker, hset]
      exact .take hworkers hqueue
  · cases h

theorem exitStep_cases {s s' : System J} {w : Nat} (h : exitStep s w = some s') :
    WorkerStep s s' := by
  unfold exitStep at h
  split at h
  · rename_i hworker
    obtain ⟨pre, post, hworkers, hset⟩ := exists_split hworker
    split at h
    · rename_i hguard
      obtain rfl := Option.some.inj h
      rw [Bool.and_eq_true, List.isEmpty_iff] at hguard
      rw [System.moveWorker, hset]
      exact .exit hworkers hguard.1 hguard.2
    · cases h
  · cases h

theorem step_cases {s s' : System J} {e : Event J} (h : step s e = some s') : Change s s' := by
  cases e with
  | submit job =>
    obtain rfl := Option.some.inj h
    obtain ⟨hroom, heq⟩ | ⟨hroom, heq⟩ := submitStep_cases s job
    · rw [heq]
      exact .accept job hroom
    · rw [heq]
      exact .refuse hroom
  | refuse =>
    simp only [step] at h
    split at h
    · obtain rfl := Option.some.inj h
      exact .count ‹_›
    · cases h
  | take w => exact .worker (takeStep_cases h)
  | exit w => exact .worker (exitStep_cases h)
  | finish w threw =>
    simp only [step, finishStep] at h
    split at h
    · rename_i job hworker
      obtain rfl := Option.some.inj h
      obtain ⟨pre, post, hworkers, hset⟩ := exists_split hworker
      rw [System.moveWorker, hset]
      exact .worker (.finish _ hworkers)
    · cases h
  | retire w =>
    simp only [step, retireStep] at h
    split at h
    · rename_i hworker
      obtain rfl := Option.some.inj h
      obtain ⟨pre, post, hworkers, hset⟩ := exists_split hworker
      rw [System.moveWorker, hset]
      exact .worker (.retire hworkers)
    · cases h
  | complete w =>
    simp only [step, completeStep] at h
    split at h
    · rename_i hworker
      obtain rfl := Option.some.inj h
      obtain ⟨pre, post, hworkers, hset⟩ := exists_split hworker
      rw [System.moveWorker, hset]
      exact .worker (.complete hworkers)
    · cases h
  | stop =>
    simp only [step, stopStep] at h
    split at h
    · obtain rfl := Option.some.inj h
      exact .stop ‹_›
    · cases h
  | join =>
    simp only [step, joinStep] at h
    split at h
    · split at h
      · obtain rfl := Option.some.inj h
        exact .join ‹_› ‹_›
      · cases h
    · cases h
  | close =>
    simp only [step, closeStep] at h
    split at h
    · rename_i joined hshutdown
      split at h
      · rename_i hall
        obtain rfl := Option.some.inj h
        exact .close (hall ▸ hshutdown)
      · cases h
    · cases h

/-! ### What holds between steps -/

/-- The job a worker is running. -/
def Worker.job? : Worker J → Option J
  | .running job => some job
  | _ => none

/-- The worker has run a job that `completed_` does not count yet. -/
def Worker.owes : Worker J → Bool
  | .ran | .retired => true
  | _ => false

/-- The jobs that are being run. -/
def inHand (workers : List (Worker J)) : List J := workers.filterMap Worker.job?

@[simp] theorem inHand_split (pre post : List (Worker J)) (w : Worker J) :
    inHand (pre ++ w :: post) = inHand pre ++ (w.job?.toList ++ inHand post) := by
  unfold inHand
  rw [List.filterMap_append, List.filterMap_cons]
  cases w.job? <;> rfl

@[simp] theorem countP_owes_split (pre post : List (Worker J)) (w : Worker J) :
    (pre ++ w :: post).countP Worker.owes =
      pre.countP Worker.owes + post.countP Worker.owes + if w.owes then 1 else 0 := by
  rw [List.countP_append, List.countP_cons, Nat.add_assoc]

/-- Where the threads are. -/
structure Threads (workerCount : Nat) (s : System J) : Prop where
  workerCount : s.workers.length = workerCount
  closed : s.pool.stopping = true → s.pool.accepting = false
  stopping : s.shutdown ≠ .notCalled → s.pool.stopping = true
  joined : ∀ joined, s.shutdown = .joining joined → ∀ i < joined, s.workers[i]? = some .exited
  returned : s.shutdown = .returned → ∀ w ∈ s.workers, w = .exited

/-- Where the jobs are. -/
structure Jobs (queueCapacity : Nat) (s : System J) : Prop where
  capacity : s.pool.queueCapacity = queueCapacity
  bounded : s.pool.queue.length ≤ s.pool.queueCapacity
  order : s.history.accepted = s.history.taken ++ s.pool.queue
  held : s.history.taken.Perm (s.history.finished ++ inHand s.workers)
  submitted : s.pool.submitted = UInt64.ofNat s.history.accepted.length
  completed : s.pool.completed + UInt64.ofNat (s.workers.countP Worker.owes) =
    UInt64.ofNat s.history.finished.length
  rejected : s.pool.rejected + UInt64.ofNat s.refusing = UInt64.ofNat s.history.refused
  drained : .exited ∈ s.workers → s.pool.stopping = true ∧ s.pool.queue = []

variable {workerCount queueCapacity : Nat}

theorem threads_start : Threads workerCount (System.start J workerCount queueCapacity) where
  workerCount := List.length_replicate
  closed := fun h => by cases h
  stopping := fun h => absurd rfl h
  joined := fun _ h => by cases h
  returned := fun h => by cases h

theorem jobs_start : Jobs queueCapacity (System.start J workerCount queueCapacity) where
  capacity := rfl
  bounded := Nat.zero_le _
  order := rfl
  held := by simp [System.start, inHand, Worker.job?, List.filterMap_replicate]
  submitted := rfl
  completed := by simp [System.start, List.countP_replicate, Worker.owes]
  rejected := rfl
  drained := fun h => by cases (List.mem_replicate.mp h).2

theorem exited_of_split {pre post : List (Worker J)} {before after : Worker J} {i : Nat}
    (hbefore : before ≠ .exited) (h : (pre ++ before :: post)[i]? = some .exited) :
    (pre ++ after :: post)[i]? = some .exited := by
  rcases Nat.lt_trichotomy i pre.length with hlt | rfl | hgt
  · rw [List.getElem?_append_left hlt] at h ⊢
    exact h
  · rw [List.getElem?_append_right (Nat.le_refl _), Nat.sub_self] at h
    exact absurd (Option.some.inj h) hbefore
  · obtain ⟨k, hk⟩ : ∃ k, i - pre.length = k + 1 := ⟨i - pre.length - 1, by omega⟩
    rw [List.getElem?_append_right (Nat.le_of_lt hgt), hk, List.getElem?_cons_succ] at h ⊢
    exact h

theorem exited_mem_of_split {pre post : List (Worker J)} {before after : Worker J}
    (hafter : after ≠ .exited) (h : .exited ∈ pre ++ after :: post) :
    .exited ∈ pre ++ before :: post := by
  rw [List.mem_append, List.mem_cons] at h ⊢
  rcases h with h | h | h
  · exact .inl h
  · exact absurd h.symm hafter
  · exact .inr (.inr h)

theorem Threads.move {s s' : System J} (h : Threads workerCount s) {pre post : List (Worker J)}
    {before after : Worker J} (hworkers : s.workers = pre ++ before :: post)
    (hbefore : before ≠ .exited) (hmoved : s'.workers = pre ++ after :: post)
    (hshutdown : s'.shutdown = s.shutdown) (hstopping : s'.pool.stopping = s.pool.stopping)
    (haccepting : s'.pool.accepting = s.pool.accepting) : Threads workerCount s' := by
  obtain ⟨hcount, hclosed, hcalled, hjoined, hreturned⟩ := h
  rw [hworkers] at hcount hjoined hreturned
  constructor
  case workerCount =>
    rw [hmoved]
    simpa using hcount
  case closed =>
    rw [hstopping, haccepting]
    exact hclosed
  case stopping =>
    rw [hshutdown, hstopping]
    exact hcalled
  case joined =>
    rw [hshutdown, hmoved]
    exact fun k hk i hi => exited_of_split hbefore (hjoined k hk i hi)
  case returned =>
    rw [hshutdown]
    exact fun hdone => absurd (hreturned hdone before
      (List.mem_append_right _ List.mem_cons_self)) hbefore

theorem threads_worker {s s' : System J} (h : Threads workerCount s) (hs : WorkerStep s s') :
    Threads workerCount s' := by
  cases hs with
  | take hworkers _ => exact h.move hworkers (by simp) rfl rfl rfl rfl
  | exit hworkers _ _ => exact h.move hworkers (by simp) rfl rfl rfl rfl
  | finish _ hworkers => exact h.move hworkers (by simp) rfl rfl rfl rfl
  | retire hworkers => exact h.move hworkers (by simp) rfl rfl rfl rfl
  | complete hworkers => exact h.move hworkers (by simp) rfl rfl rfl rfl

theorem jobs_worker {s s' : System J} (h : Jobs queueCapacity s) (hs : WorkerStep s s') :
    Jobs queueCapacity s' := by
  obtain ⟨hcapacity, hbounded, horder, hheld, hsubmitted, hcompleted, hrejected, hdrained⟩ := h
  cases hs with
  | @take pre post job rest hworkers hqueue =>
    rw [hworkers, inHand_split] at hheld
    rw [hworkers, countP_owes_split] at hcompleted
    rw [hworkers, hqueue] at hdrained
    rw [hqueue] at hbounded horder
    have hmoved : (s.history.taken ++ [job]).Perm
        (s.history.finished ++ (inHand pre ++ job :: inHand post)) := by
      refine (hheld.append_right [job]).trans ?_
      rw [List.append_assoc]
      refine List.Perm.append_left _ ?_
      exact (List.perm_append_singleton _ _).trans List.perm_middle.symm
    refine ⟨hcapacity, Nat.le_of_succ_le hbounded, by simpa using horder, ?_, hsubmitted, ?_,
      hrejected, ?_⟩
    · rw [inHand_split]
      exact hmoved
    · rw [countP_owes_split]
      exact hcompleted
    · intro hexited
      cases (hdrained (exited_mem_of_split (by simp) hexited)).2
  | @exit pre post hworkers hstop hqueue =>
    rw [hworkers, inHand_split] at hheld
    rw [hworkers, countP_owes_split] at hcompleted
    refine ⟨hcapacity, hbounded, horder, ?_, hsubmitted, ?_, hrejected, fun _ => ⟨hstop, hqueue⟩⟩
    · rw [inHand_split]
      exact hheld
    · rw [countP_owes_split]
      exact hcompleted
  | @finish pre post job failed hworkers =>
    rw [hworkers, inHand_split] at hheld
    rw [hworkers, countP_owes_split] at hcompleted
    rw [hworkers] at hdrained
    have hmoved : s.history.taken.Perm
        (s.history.finished ++ [job] ++ (inHand pre ++ inHand post)) := by
      refine hheld.trans ?_
      rw [List.append_assoc, List.singleton_append]
      exact List.Perm.append_left _ List.perm_middle
    refine ⟨hcapacity, hbounded, horder, ?_, hsubmitted, ?_, hrejected, ?_⟩
    · rw [inHand_split]
      exact hmoved
    · rw [countP_owes_split, List.length_append, List.length_singleton,
        UInt64.ofNat_add s.history.finished.length, ← hcompleted]
      simp only [Worker.owes, if_true, Bool.false_eq_true, if_false, Nat.add_zero]
      rw [UInt64.ofNat_add (pre.countP Worker.owes + post.countP Worker.owes), UInt64.add_assoc]
    · exact fun hexited => hdrained (exited_mem_of_split (by simp) hexited)
  | @retire pre post hworkers =>
    rw [hworkers, inHand_split] at hheld
    rw [hworkers, countP_owes_split] at hcompleted
    rw [hworkers] at hdrained
    refine ⟨hcapacity, hbounded, horder, ?_, hsubmitted, ?_, hrejected, ?_⟩
    · rw [inHand_split]
      exact hheld
    · rw [countP_owes_split]
      exact hcompleted
    · exact fun hexited => hdrained (exited_mem_of_split (by simp) hexited)
  | @complete pre post hworkers =>
    rw [hworkers, inHand_split] at hheld
    rw [hworkers, countP_owes_split] at hcompleted
    rw [hworkers] at hdrained
    refine ⟨hcapacity, hbounded, horder, ?_, hsubmitted, ?_, hrejected, ?_⟩
    · rw [inHand_split]
      exact hheld
    · rw [countP_owes_split, ← hcompleted]
      simp only [Worker.owes, if_true, Bool.false_eq_true, if_false, Nat.add_zero]
      rw [UInt64.ofNat_add _ 1, UInt64.add_assoc, UInt64.add_comm 1]
      rfl
    · exact fun hexited => hdrained (exited_mem_of_split (by simp) hexited)

theorem threads_change {s s' : System J} (h : Threads workerCount s) (hs : Change s s') :
    Threads workerCount s' := by
  cases hs with
  | accept => exact ⟨h.workerCount, h.closed, h.stopping, h.joined, h.returned⟩
  | refuse => exact ⟨h.workerCount, h.closed, h.stopping, h.joined, h.returned⟩
  | count => exact ⟨h.workerCount, h.closed, h.stopping, h.joined, h.returned⟩
  | worker hw => exact threads_worker h hw
  | stop =>
    refine ⟨h.workerCount, fun _ => rfl, fun _ => rfl, ?_, fun hdone => by cases hdone⟩
    intro joined hjoined i hi
    obtain rfl := Shutdown.joining.inj hjoined
    exact absurd hi (Nat.not_lt_zero i)
  | @join joined hshutdown hworker =>
    refine ⟨h.workerCount, h.closed, fun _ => h.stopping (by simp [hshutdown]), ?_,
      fun hdone => by cases hdone⟩
    intro k hk i hi
    obtain rfl := Shutdown.joining.inj hk
    rcases Nat.lt_succ_iff_lt_or_eq.mp hi with hi | rfl
    · exact h.joined joined hshutdown i hi
    · exact hworker
  | close hshutdown =>
    refine ⟨h.workerCount, h.closed, fun _ => h.stopping (by simp [hshutdown]),
      fun _ hjoining => (by cases hjoining), fun _ w hw => ?_⟩
    obtain ⟨i, hi, rfl⟩ := List.getElem_of_mem hw
    have hexited := h.joined _ hshutdown i hi
    rw [List.getElem?_eq_getElem hi] at hexited
    exact Option.some.inj hexited

theorem jobs_change {s s' : System J} (h : Jobs queueCapacity s) (ht : Threads workerCount s)
    (hs : Change s s') : Jobs queueCapacity s' := by
  obtain ⟨hcapacity, hbounded, horder, hheld, hsubmitted, hcompleted, hrejected, hdrained⟩ := h
  cases hs with
  | accept job hroom =>
    rw [Pool.hasRoom, Bool.and_eq_true, decide_eq_true_eq] at hroom
    refine ⟨hcapacity, ?_, ?_, hheld, ?_, hcompleted, hrejected, ?_⟩
    · simpa using Nat.succ_le_of_lt hroom.2
    · simp [horder]
    · rw [List.length_append, List.length_singleton, UInt64.ofNat_add, ← hsubmitted]
      rfl
    · intro hexited
      rw [ht.closed (hdrained hexited).1] at hroom
      cases hroom.1
  | refuse hroom =>
    refine ⟨hcapacity, hbounded, horder, hheld, hsubmitted, hcompleted, ?_, hdrained⟩
    rw [UInt64.ofNat_add, UInt64.ofNat_add, ← hrejected, UInt64.add_assoc]
  | count hrefusing =>
    refine ⟨hcapacity, hbounded, horder, hheld, hsubmitted, hcompleted, ?_, hdrained⟩
    obtain ⟨waiting, hwaiting⟩ := Nat.exists_eq_add_of_lt hrefusing
    rw [hwaiting, Nat.zero_add, UInt64.ofNat_add, UInt64.add_comm (.ofNat waiting),
      ← UInt64.add_assoc] at hrejected
    rw [hwaiting, Nat.zero_add, Nat.add_sub_cancel]
    exact hrejected
  | worker hw =>
    exact jobs_worker ⟨hcapacity, hbounded, horder, hheld, hsubmitted, hcompleted, hrejected,
      hdrained⟩ hw
  | stop =>
    exact ⟨hcapacity, hbounded, horder, hheld, hsubmitted, hcompleted, hrejected,
      fun hexited => ⟨rfl, (hdrained hexited).2⟩⟩
  | join => exact ⟨hcapacity, hbounded, horder, hheld, hsubmitted, hcompleted, hrejected, hdrained⟩
  | close => exact ⟨hcapacity, hbounded, horder, hheld, hsubmitted, hcompleted, hrejected, hdrained⟩

/-- **What holds in every state the threads reach.** -/
theorem Reachable.inv {s : System J} (h : Reachable workerCount queueCapacity s) :
    Threads workerCount s ∧ Jobs queueCapacity s := by
  induction h with
  | start => exact ⟨threads_start, jobs_start⟩
  | next _ hstep ih =>
    have hchange := step_cases hstep
    exact ⟨threads_change ih.1 hchange, jobs_change ih.2 ih.1 hchange⟩

/-! ### After the shutdown -/

theorem accepted_of_stopping {s s' : System J} (ht : Threads workerCount s) (hs : Change s s')
    (hstopping : s.pool.stopping = true) :
    s'.pool.stopping = true ∧ s'.history.accepted = s.history.accepted := by
  cases hs with
  | accept job hroom =>
    rw [Pool.hasRoom, ht.closed hstopping] at hroom
    cases hroom
  | refuse => exact ⟨hstopping, rfl⟩
  | count => exact ⟨hstopping, rfl⟩
  | worker hw => cases hw <;> exact ⟨hstopping, rfl⟩
  | stop => exact ⟨rfl, rfl⟩
  | join => exact ⟨hstopping, rfl⟩
  | close => exact ⟨hstopping, rfl⟩

theorem Steps.threads {s s' : System J} (h : Steps s s') (ht : Threads workerCount s) :
    Threads workerCount s' := by
  induction h with
  | refl => exact ht
  | next _ hstep ih => exact threads_change ih (step_cases hstep)

theorem Steps.accepted {s s' : System J} (h : Steps s s') (ht : Threads workerCount s)
    (hstopping : s.pool.stopping = true) :
    s'.pool.stopping = true ∧ s'.history.accepted = s.history.accepted := by
  induction h with
  | refl => exact ⟨hstopping, rfl⟩
  | next hrun hstep ih =>
    obtain ⟨hstill, heq⟩ := accepted_of_stopping (hrun.threads ht) (step_cases hstep) ih.1
    exact ⟨hstill, heq.trans ih.2⟩

theorem of_all_exited {workers : List (Worker J)} (h : ∀ w ∈ workers, w = .exited) :
    inHand workers = [] ∧ workers.countP Worker.owes = 0 := by
  constructor
  · rw [inHand, List.filterMap_eq_nil_iff]
    intro w hw
    rw [h w hw]
    rfl
  · rw [List.countP_eq_zero]
    intro w hw
    rw [h w hw]
    simp [Worker.owes]

/-- A submission is accepted, or refused by a producer that goes on to count it. -/
def Answered (s : System J) (job : J) : Prop :=
  (s.pool.hasRoom = true ∧
    (submitStep s job).history = { s.history with accepted := s.history.accepted ++ [job] }) ∨
  (s.pool.hasRoom = false ∧
    (submitStep s job).history = { s.history with refused := s.history.refused + 1 } ∧
    (submitStep s job).refusing = s.refusing + 1)

theorem answered (s : System J) (job : J) : Answered s job := by
  obtain ⟨hroom, heq⟩ | ⟨hroom, heq⟩ := submitStep_cases s job
  · exact .inl ⟨hroom, by rw [heq]⟩
  · exact .inr ⟨hroom, by rw [heq], by rw [heq]⟩

/-- **The pool loses and duplicates no job.** -/
theorem pool_loses_nothing (hworkers : 0 < workerCount) {s : System J}
    (h : Reachable workerCount queueCapacity s) :
    s.pool.queue.length ≤ queueCapacity ∧
    (∀ job, Answered s job) ∧
    s.pool.rejected + UInt64.ofNat s.refusing = UInt64.ofNat s.history.refused ∧
    s.history.accepted = s.history.taken ++ s.pool.queue ∧
    (s.shutdown ≠ .notCalled → ∀ s', Steps s s' → s'.history.accepted = s.history.accepted) ∧
    (s.shutdown = .returned → s.history.taken = s.history.accepted ∧
      s.history.finished.Perm s.history.accepted ∧ s.pool.completed = s.pool.submitted) := by
  obtain ⟨ht, hj⟩ := h.inv
  refine ⟨hj.capacity ▸ hj.bounded, answered s, hj.rejected, hj.order, ?_, ?_⟩
  · exact fun hcalled s' hrun => (hrun.accepted ht (ht.stopping hcalled)).2
  · intro hreturned
    have hleft := ht.returned hreturned
    obtain ⟨hhand, howes⟩ := of_all_exited hleft
    have hexited : Worker.exited ∈ s.workers := by
      have hlen : 0 < s.workers.length := ht.workerCount ▸ hworkers
      have hmem := List.getElem_mem hlen
      rwa [hleft _ hmem] at hmem
    have htaken : s.history.taken = s.history.accepted := by
      rw [hj.order, (hj.drained hexited).2, List.append_nil]
    have hfinished : s.history.finished.Perm s.history.accepted := by
      have hheld := hj.held
      rw [hhand, List.append_nil, htaken] at hheld
      exact hheld.symm
    refine ⟨htaken, hfinished, ?_⟩
    calc s.pool.completed = UInt64.ofNat s.history.finished.length := by
          rw [← hj.completed, howes]
          exact (UInt64.add_zero _).symm
      _ = UInt64.ofNat s.history.accepted.length := by rw [hfinished.length_eq]
      _ = s.pool.submitted := hj.submitted.symm

/-! ### Progress -/

theorem take_of_waiting {s : System J} {w : Nat} {job : J} {rest : List J}
    (hworker : s.workers[w]? = some .waiting) (hqueue : s.pool.queue = job :: rest) :
    ∃ s', step s (.take w) = some s' ∧ s'.workers = s.workers.set w (.running job) ∧
      s'.pool.queue = rest ∧ s'.history.taken = s.history.taken ++ [job] ∧
      s'.shutdown = s.shutdown := by
  have htake : s.pool.take =
      some (job, { s.pool with queue := rest, active := s.pool.active + 1 }) := by
    rw [Pool.take, hqueue]
  refine ⟨{ s.moveWorker w (.running job) with
    pool := { s.pool with queue := rest, active := s.pool.active + 1 }
    history := { s.history with taken := s.history.taken ++ [job] } }, ?_, rfl, rfl, rfl, rfl⟩
  show takeStep s w = _
  rw [takeStep, hworker, htake]

/-- The sections a worker has left, if it takes no other job. -/
def Worker.left : Worker J → Nat
  | .running _ => 4
  | .ran => 3
  | .retired => 2
  | .waiting => 1
  | .exited => 0

/-- The sections `shutdown` has left. -/
def Shutdown.left (workers : Nat) : Shutdown → Nat
  | .notCalled => workers + 2
  | .joining joined => workers - joined + 1
  | .returned => 0

def leftOf : List (Worker J) → Nat
  | [] => 0
  | w :: workers => w.left + leftOf workers

/-- What is left to do if nothing more is submitted; a job that is taken has four sections. -/
def System.left (s : System J) : Nat :=
  4 * s.pool.queue.length + leftOf s.workers + s.shutdown.left s.workers.length

theorem leftOf_split (pre post : List (Worker J)) (w : Worker J) :
    leftOf (pre ++ w :: post) = leftOf pre + w.left + leftOf post := by
  induction pre with
  | nil => rw [List.nil_append, leftOf, leftOf, Nat.zero_add]
  | cons v pre ih => rw [List.cons_append, leftOf, leftOf, ih, Nat.add_assoc, Nat.add_assoc, Nat.add_assoc]

theorem left_set {workers : List (Worker J)} {w : Nat} {before : Worker J}
    (h : workers[w]? = some before) (after : Worker J) :
    leftOf (workers.set w after) + before.left = leftOf workers + after.left := by
  obtain ⟨pre, post, hworkers, hset⟩ := exists_split h
  rw [hset, hworkers, leftOf_split, leftOf_split]
  omega

theorem left_of_worker {s s' : System J} {w : Nat} {before after : Worker J}
    (hworker : s.workers[w]? = some before) (hmoved : s'.workers = s.workers.set w after)
    (hqueue : s'.pool.queue = s.pool.queue) (hshutdown : s'.shutdown = s.shutdown)
    (hless : after.left < before.left) : s'.left < s.left := by
  have hsum := left_set hworker after
  unfold System.left
  rw [hmoved, hqueue, hshutdown, List.length_set]
  omega

/-- **A worker that has not left the pool can go on**, once the pool is stopping. -/
theorem worker_progress {s : System J} (hstopping : s.pool.stopping = true) {w : Nat}
    {worker : Worker J} (hworker : s.workers[w]? = some worker) (hleft : worker ≠ .exited) :
    ∃ e s', step s e = some s' ∧ s'.left < s.left ∧ s'.shutdown = s.shutdown := by
  cases worker with
  | waiting =>
    cases hqueue : s.pool.queue with
    | nil =>
      refine ⟨.exit w, s.moveWorker w .exited, ?_,
        left_of_worker hworker rfl rfl rfl (by simp [Worker.left]), rfl⟩
      show exitStep s w = _
      simp only [exitStep, hworker, hstopping, hqueue, List.isEmpty_nil, Bool.and_self, if_true]
    | cons job rest =>
      obtain ⟨s', hstep, hworkers, hrest, -, hshutdown⟩ := take_of_waiting hworker hqueue
      refine ⟨.take w, s', hstep, ?_, hshutdown⟩
      have hsum := left_set hworker (.running job)
      unfold System.left
      rw [hworkers, hrest, hshutdown, hqueue, List.length_set, List.length_cons]
      simp only [Worker.left] at hsum
      omega
  | running job =>
    refine ⟨.finish w false, { s.moveWorker w .ran with
      pool := { s.pool with failed := s.pool.failed }
      history := { s.history with finished := s.history.finished ++ [job] } }, ?_,
      left_of_worker hworker rfl rfl rfl (by simp [Worker.left]), rfl⟩
    show finishStep s w false = _
    simp only [finishStep, hworker, Bool.false_eq_true, if_false]
  | ran =>
    refine ⟨.retire w, { s.moveWorker w .retired with
      pool := { s.pool with active := s.pool.active - 1 } }, ?_,
      left_of_worker hworker rfl rfl rfl (by simp [Worker.left]), rfl⟩
    show retireStep s w = _
    simp only [retireStep, hworker]
  | retired =>
    refine ⟨.complete w, { s.moveWorker w .waiting with
      pool := { s.pool with completed := s.pool.completed + 1 } }, ?_,
      left_of_worker hworker rfl rfl rfl (by simp [Worker.left]), rfl⟩
    show completeStep s w = _
    simp only [completeStep, hworker]
  | exited => exact absurd rfl hleft

theorem shutdown_progress {s : System J} (ht : Threads workerCount s)
    (hcalled : s.shutdown ≠ .notCalled) (hopen : s.shutdown ≠ .returned) :
    ∃ e s', step s e = some s' ∧ s'.left < s.left ∧ s'.shutdown ≠ .notCalled := by
  obtain ⟨joined, hshutdown⟩ : ∃ joined, s.shutdown = .joining joined := by
    cases h : s.shutdown with
    | notCalled => exact absurd h hcalled
    | joining joined => exact ⟨joined, rfl⟩
    | returned => exact absurd h hopen
  by_cases hlt : joined < s.workers.length
  · have hworker := List.getElem?_eq_getElem hlt
    by_cases hexited : s.workers[joined] = .exited
    · rw [hexited] at hworker
      refine ⟨.join, { s with shutdown := .joining (joined + 1) }, ?_, ?_, nofun⟩
      · show joinStep s = _
        simp only [joinStep, hshutdown, hworker]
      · unfold System.left
        rw [hshutdown]
        simp only [Shutdown.left]
        omega
    · obtain ⟨e, s', hstep, hless, hsame⟩ := worker_progress (ht.stopping hcalled) hworker hexited
      exact ⟨e, s', hstep, hless, hsame ▸ hcalled⟩
  · have hall : joined = s.workers.length := by
      by_contra hne
      have hgone := ht.joined joined hshutdown s.workers.length (by omega)
      rw [List.getElem?_eq_none (Nat.le_refl _)] at hgone
      cases hgone
    refine ⟨.close, { s with shutdown := .returned }, ?_, ?_, nofun⟩
    · show closeStep s = _
      simp only [closeStep, hshutdown, hall, if_true]
    · unfold System.left
      rw [hshutdown]
      simp only [Shutdown.left]
      omega

theorem Steps.head {s s₁ s' : System J} {e : Event J} (hstep : step s e = some s₁)
    (h : Steps s₁ s') : Steps s s' := by
  induction h with
  | refl => exact .next (.refl s) hstep
  | next _ hlast ih => exact .next ih hlast

/-- **Once `shutdown` is called, the pool can drain and it can return**, from every state reached. -/
theorem shutdown_returns {s : System J} (h : Reachable workerCount queueCapacity s)
    (hcalled : s.shutdown ≠ .notCalled) : ∃ s', Steps s s' ∧ s'.shutdown = .returned := by
  induction hleft : s.left using Nat.strongRecOn generalizing s with
  | ind left ih =>
    by_cases hreturned : s.shutdown = .returned
    · exact ⟨s, .refl s, hreturned⟩
    · obtain ⟨e, s₁, hstep, hless, hcalled₁⟩ := shutdown_progress h.inv.1 hcalled hreturned
      obtain ⟨s', hrun, hdone⟩ := ih s₁.left (hleft ▸ hless) (h.next hstep) hcalled₁ rfl
      exact ⟨s', hrun.head hstep, hdone⟩

/-! ### A shift of one worker -/

/-- The state after some events. -/
def after (s : System J) : List (Event J) → Option (System J)
  | [] => some s
  | e :: events => (step s e).bind (after · events)

theorem Reachable.after {s s' : System J} (h : Reachable workerCount queueCapacity s)
    {events : List (Event J)} (hs : Execution.after s events = some s') :
    Reachable workerCount queueCapacity s' := by
  induction events generalizing s with
  | nil =>
    obtain rfl := Option.some.inj hs
    exact h
  | cons e events ih =>
    obtain ⟨s₁, hstep, hrest⟩ := Option.bind_eq_some_iff.mp hs
    exact ih (h.next hstep) hrest

/-- Two jobs are accepted, the second one throws, a third one is refused, and the pool shuts down. -/
def shiftEvents : List (Event Nat) := [.submit 7, .take 0, .submit 8, .submit 9, .refuse,
  .finish 0 false, .retire 0, .stop, .complete 0, .take 0, .finish 0 true, .retire 0, .complete 0,
  .exit 0, .join, .close]

theorem pool_loses_nothing_shift : ∃ s, after (System.start Nat 1 1) shiftEvents = some s ∧
    s.history.accepted = [7, 8] ∧ s.history.refused = 1 ∧ s.shutdown = .returned ∧
      s.history.taken = s.history.accepted ∧ s.history.finished.Perm s.history.accepted ∧
      s.pool.completed = s.pool.submitted := by
  obtain ⟨s, hrun⟩ : ∃ s, after (System.start Nat 1 1) shiftEvents = some s := ⟨_, rfl⟩
  have hreturned : s.history.accepted = [7, 8] ∧ s.history.refused = 1 ∧ s.shutdown = .returned := by
    obtain rfl := Option.some.inj hrun
    exact ⟨rfl, rfl, rfl⟩
  have hreach : Reachable 1 1 s := Reachable.start.after hrun
  exact ⟨s, hrun, hreturned.1, hreturned.2.1, hreturned.2.2,
    (pool_loses_nothing (by decide) hreach).2.2.2.2.2 hreturned.2.2⟩

end ContextHmi.Execution
