import ContextHmi.Library.Interleave
import Mathlib.Tactic

/-!
# The leases of event streams

A request for the event stream takes one of a few leases and hands it on: from the route to the stream
callback, from there to a pump that a queued closure and later a timer keep alive. Each of the owners
gives the lease back on the paths on which it fails. The counter is one atomic number: a load and each
attempt of a compare-and-exchange is a section of its own, so all requests interleave.

What the framework may do is in `Choice`: a call throws or returns, a closure or timer is run or
dropped. It calls the stream callback once, or throws before it.

* `step_conserves`    : a section moves the counter as it moves its own lease;
* `leases_conserved`  : the counter is the number of live streams in every reachable configuration.
-/

namespace ContextHmi.Http

open Interleave

/-- The members of a `StreamPump` that change. -/
structure StreamPump where
  /-- `stream_` is set. -/
  stream : Bool
  /-- `timer_` is valid. -/
  timer : Bool
  closed : Bool
  released : Bool

/-- Who called `release_sse_client`. -/
inductive Caller where
  /-- The `catch` of the route. -/
  | route
  /-- The `catch` of the stream callback. -/
  | callback
  /-- `stop()`; its closure still holds the pump. -/
  | stop (pump : StreamPump)
  /-- `~StreamPump()`. -/
  | destructor

/-- Where the code for a request is. -/
inductive Place where
  /-- In the route. -/
  | arrived
  /-- In the loop of `acquire_sse_client`, with what it read. -/
  | acquiring (clients : Nat)
  /-- Answered without a stream. -/
  | answered
  /-- In `newAsyncStreamResponse`. -/
  | responding
  /-- The framework is to call the stream callback. -/
  | awaiting
  /-- In the stream callback, before `make_shared`. -/
  | constructing
  /-- The stream callback owns the pump. -/
  | owned (pump : StreamPump)
  /-- A queued closure owns it. -/
  | queued (pump : StreamPump)
  /-- In `start()`, before the first snapshot. -/
  | starting (pump : StreamPump)
  /-- A closure or a timer keeps the pump, and nothing runs. -/
  | kept (pump : StreamPump)
  /-- In the closure of the timer. -/
  | ticking (pump : StreamPump)
  /-- In `stop()`. -/
  | stopping (pump : StreamPump)
  /-- In `release()` at the end of `stop()`. -/
  | giving (pump : StreamPump)
  /-- In `~StreamPump()`, before `release()`. -/
  | destroying (pump : StreamPump)
  /-- In the loop of `release_sse_client`, with what it read. -/
  | releasing (caller : Caller) (current : Option Nat)
  | ended

/-- A request, with how often it acquired a lease and called for its release. -/
structure Stream where
  place : Place
  acquires : Nat
  releases : Nat

/-- What is not decided by the code. -/
inductive Choice where
  | succeeds
  | fails
  | dropped

/-- `send_snapshot()` can return true. -/
def StreamPump.sends (pump : StreamPump) : Bool := !pump.closed && pump.stream

/-- Where `release_sse_client` returns to. -/
def Caller.next : Caller → Place
  | .route | .callback | .destructor => .ended
  | .stop pump => .kept pump

namespace Stream

def moveTo (t : Stream) (place : Place) : Stream := { t with place }

/-- The call of `release_sse_client`. -/
def release (t : Stream) (caller : Caller) : Stream :=
  { t with place := .releasing caller none, releases := t.releases + 1 }

end Stream

/-- `acquire_sse_client`, an attempt of its loop. A weak exchange may fail without a reason. -/
def acquire (limit : Nat) (clients : Nat) (t : Stream) (read : Nat) : Choice → Option (Nat × Stream)
  | .succeeds =>
    if limit ≤ read then some (clients, t.moveTo .answered)
    else if clients = read then
      some (clients + 1, { t with place := .responding, acquires := t.acquires + 1 })
    else some (clients, t.moveTo (.acquiring clients))
  | .fails => if limit ≤ read then none else some (clients, t.moveTo (.acquiring clients))
  | .dropped => none

/-- `release_sse_client`, its load or an attempt of its loop. -/
def releaseStep (clients : Nat) (t : Stream) (caller : Caller) :
    Option Nat → Choice → Option (Nat × Stream)
  | none, .succeeds => some (clients, t.moveTo (.releasing caller (some clients)))
  | some 0, .succeeds => some (clients, t.moveTo caller.next)
  | some (n + 1), .succeeds =>
    if clients = n + 1 then some (n, t.moveTo caller.next)
    else some (clients, t.moveTo (.releasing caller (some clients)))
  | some (_ + 1), .fails => some (clients, t.moveTo (.releasing caller (some clients)))
  | _, _ => none

/-- The next section of a request. -/
def advance (limit : Nat) (clients : Nat) (t : Stream) (choice : Choice) : Option (Nat × Stream) :=
  match t.place, choice with
  | .arrived, .succeeds => some (clients, t.moveTo (.acquiring clients))
  -- The client closes the connection after the response: one snapshot, no stream.
  | .arrived, .fails => some (clients, t.moveTo .answered)
  | .acquiring read, choice => acquire limit clients t read choice
  | .responding, .succeeds => some (clients, t.moveTo .awaiting)
  | .responding, .fails => some (clients, t.release .route)
  | .awaiting, .succeeds => some (clients, t.moveTo .constructing)
  | .constructing, .succeeds =>
    some (clients, t.moveTo (.owned { stream := true, timer := false, closed := false, released := false }))
  | .constructing, .fails => some (clients, t.release .callback)
  | .owned pump, .succeeds => some (clients, t.moveTo (.queued pump))
  -- There is no loop, or `queueInLoop` throws.
  | .owned pump, .fails => some (clients, t.moveTo (.destroying pump))
  | .queued pump, .succeeds => some (clients, t.moveTo (.starting pump))
  | .queued pump, .dropped => some (clients, t.moveTo (.destroying pump))
  | .starting pump, .succeeds =>
    if pump.sends then some (clients, t.moveTo (.kept { pump with timer := true })) else none
  | .starting pump, .fails => some (clients, t.moveTo (.stopping pump))
  -- `runEvery` throws.
  | .starting pump, .dropped =>
    if pump.sends then some (clients, t.moveTo (.destroying pump)) else none
  | .kept pump, .succeeds => if pump.timer then some (clients, t.moveTo (.ticking pump)) else none
  | .kept pump, .dropped => some (clients, t.moveTo (.destroying pump))
  | .ticking pump, .succeeds => if pump.sends then some (clients, t.moveTo (.kept pump)) else none
  | .ticking pump, .fails => some (clients, t.moveTo (.stopping pump))
  | .stopping pump, .succeeds =>
    if pump.closed then some (clients, t.moveTo (.kept pump))
    else some (clients, t.moveTo (.giving { pump with closed := true, timer := false, stream := false }))
  | .giving pump, .succeeds =>
    if pump.released then some (clients, t.moveTo (.kept pump))
    else some (clients, t.release (.stop { pump with released := true }))
  | .destroying pump, .succeeds =>
    if pump.released then some (clients, t.moveTo .ended) else some (clients, t.release .destructor)
  | .releasing caller current, choice => releaseStep clients t caller current choice
  | _, _ => none

/-- The requests for the event stream. -/
def eventsRoute (limit : Nat) : Program Nat Stream Choice where
  starts := fun t => match t with
    | ⟨.arrived, 0, 0⟩ => true
    | _ => false
  step := advance limit

/-! ### Leases -/

/-- The request holds a lease that has not been given back. -/
def Place.live : Place → Bool
  | .arrived | .acquiring _ | .answered | .ended => false
  | .responding | .awaiting | .constructing | .releasing _ _ => true
  | .owned pump | .queued pump | .starting pump | .kept pump | .ticking pump | .stopping pump
  | .giving pump | .destroying pump => !pump.released

def Place.finished : Place → Bool
  | .answered | .ended => true
  | _ => false

def Stream.live (t : Stream) : Bool := t.place.live

/-- A pump whose lease was given back has given it back once. -/
def ownsPump (pump : StreamPump) (acquires releases : Nat) : Prop :=
  acquires = 1 ∧ releases = if pump.released then 1 else 0

/-- What is known of a request where it is. -/
def Stream.Kept (t : Stream) : Prop :=
  match t.place with
  | .arrived | .acquiring _ | .answered => t.acquires = 0 ∧ t.releases = 0
  | .responding | .awaiting | .constructing => t.acquires = 1 ∧ t.releases = 0
  | .owned pump | .queued pump | .starting pump | .kept pump | .ticking pump | .stopping pump
  | .giving pump | .destroying pump => ownsPump pump t.acquires t.releases
  | .releasing (.stop pump) current =>
    t.acquires = 1 ∧ t.releases = 1 ∧ pump.released = true ∧ current ≠ some 0
  | .releasing _ current => t.acquires = 1 ∧ t.releases = 1 ∧ current ≠ some 0
  | .ended => t.acquires = 1 ∧ t.releases = 1

/-- What a section does to the counter, it does to its own lease. -/
structure Conserves (limit clients : Nat) (t : Stream) (clients' : Nat) (t' : Stream) : Prop where
  kept : t'.Kept
  counter : clients' + t.live.toNat = clients + t'.live.toNat
  bounded : clients' ≤ limit

section
variable {limit clients clients' : Nat} {t t' : Stream} {choice : Choice}

theorem conserves_same (hkept : t'.Kept) (hlive : t'.live = t.live) (hlimit : clients ≤ limit) :
    Conserves limit clients t clients t' := ⟨hkept, by rw [hlive], hlimit⟩

theorem acquire_conserves {read : Nat} (ht : t.acquires = 0 ∧ t.releases = 0) (hdead : t.live = false)
    (hlimit : clients ≤ limit) (h : acquire limit clients t read choice = some (clients', t')) :
    Conserves limit clients t clients' t' := by
  cases choice with
  | succeeds =>
    rw [acquire] at h
    by_cases hfull : limit ≤ read
    · rw [if_pos hfull] at h
      obtain ⟨rfl, rfl⟩ := Prod.mk.inj (Option.some.inj h)
      exact conserves_same ht hdead.symm hlimit
    rw [if_neg hfull] at h
    by_cases hsame : clients = read
    · rw [if_pos hsame] at h
      obtain ⟨rfl, rfl⟩ := Prod.mk.inj (Option.some.inj h)
      refine ⟨⟨congrArg (· + 1) ht.1, ht.2⟩, ?_, by omega⟩
      rw [hdead]
      rfl
    · rw [if_neg hsame] at h
      obtain ⟨rfl, rfl⟩ := Prod.mk.inj (Option.some.inj h)
      exact conserves_same ht hdead.symm hlimit
  | fails =>
    rw [acquire] at h
    split_ifs at h
    obtain ⟨rfl, rfl⟩ := Prod.mk.inj (Option.some.inj h)
    exact conserves_same ht hdead.symm hlimit
  | dropped => cases h

theorem next_dead {caller : Caller} {current : Option Nat}
    (ht : (t.moveTo (.releasing caller current)).Kept) :
    (t.moveTo caller.next).Kept ∧ (t.moveTo caller.next).live = false := by
  cases caller with
  | stop pump =>
    obtain ⟨hacquires, hreleases, hreleased, -⟩ := ht
    refine ⟨⟨hacquires, ?_⟩, ?_⟩
    · rw [hreleased]
      exact hreleases
    · show (!pump.released) = false
      rw [hreleased]
      rfl
  | route => exact ⟨⟨ht.1, ht.2.1⟩, rfl⟩
  | callback => exact ⟨⟨ht.1, ht.2.1⟩, rfl⟩
  | destructor => exact ⟨⟨ht.1, ht.2.1⟩, rfl⟩

theorem kept_read {caller : Caller} {current : Option Nat}
    (ht : (t.moveTo (.releasing caller current)).Kept) (hpos : 0 < clients) :
    (t.moveTo (.releasing caller (some clients))).Kept := by
  have hne : some clients ≠ some 0 := fun h => absurd (Option.some.inj h) (Nat.ne_of_gt hpos)
  cases caller with
  | stop pump => exact ⟨ht.1, ht.2.1, ht.2.2.1, hne⟩
  | route => exact ⟨ht.1, ht.2.1, hne⟩
  | callback => exact ⟨ht.1, ht.2.1, hne⟩
  | destructor => exact ⟨ht.1, ht.2.1, hne⟩

theorem kept_ne_zero {caller : Caller} {current : Option Nat}
    (ht : (t.moveTo (.releasing caller current)).Kept) : current ≠ some 0 := by
  cases caller with
  | stop pump => exact ht.2.2.2
  | route => exact ht.2.2
  | callback => exact ht.2.2
  | destructor => exact ht.2.2

theorem releaseStep_conserves {caller : Caller} {current : Option Nat}
    (ht : (t.moveTo (.releasing caller current)).Kept) (hlive : t.live = true) (hpos : 0 < clients)
    (hlimit : clients ≤ limit)
    (h : releaseStep clients t caller current choice = some (clients', t')) :
    Conserves limit clients t clients' t' := by
  have hread : Conserves limit clients t clients (t.moveTo (.releasing caller (some clients))) :=
    conserves_same (kept_read ht hpos) hlive.symm hlimit
  unfold releaseStep at h
  split at h
  · obtain ⟨rfl, rfl⟩ := Prod.mk.inj (Option.some.inj h)
    exact hread
  · exact absurd rfl (kept_ne_zero ht)
  · rename_i n
    by_cases hsame : clients = n + 1
    · rw [if_pos hsame] at h
      obtain ⟨rfl, rfl⟩ := Prod.mk.inj (Option.some.inj h)
      obtain ⟨hkept, hdead⟩ := next_dead ht
      refine ⟨hkept, ?_, by omega⟩
      rw [hlive, hdead, hsame]
      rfl
    · rw [if_neg hsame] at h
      obtain ⟨rfl, rfl⟩ := Prod.mk.inj (Option.some.inj h)
      exact hread
  · obtain ⟨rfl, rfl⟩ := Prod.mk.inj (Option.some.inj h)
    exact hread
  · cases h

theorem release_conserves {caller : Caller} (hacquires : t.acquires = 1) (hreleases : t.releases = 0)
    (hcaller : ∀ pump, caller = .stop pump → pump.released = true) (hlive : t.live = true)
    (hlimit : clients ≤ limit) : Conserves limit clients t clients (t.release caller) := by
  have hone : (t.release caller).releases = 1 := congrArg (· + 1) hreleases
  refine conserves_same ?_ hlive.symm hlimit
  cases caller with
  | stop pump => exact ⟨hacquires, hone, hcaller pump rfl, nofun⟩
  | route => exact ⟨hacquires, hone, nofun⟩
  | callback => exact ⟨hacquires, hone, nofun⟩
  | destructor => exact ⟨hacquires, hone, nofun⟩

section
variable {place u : Place} {pump : StreamPump} {acquires releases : Nat}

theorem moved_conserves (h : some (clients, (⟨place, acquires, releases⟩ : Stream).moveTo u) =
      some (clients', t')) (hkept : (⟨u, acquires, releases⟩ : Stream).Kept) (hlive : u.live = place.live)
    (hlimit : clients ≤ limit) : Conserves limit clients ⟨place, acquires, releases⟩ clients' t' := by
  obtain ⟨rfl, rfl⟩ := Prod.mk.inj (Option.some.inj h)
  exact conserves_same hkept hlive hlimit

theorem starting_conserves (ht : ownsPump pump acquires releases) (hlimit : clients ≤ limit)
    (h : advance limit clients ⟨.starting pump, acquires, releases⟩ choice = some (clients', t')) :
    Conserves limit clients ⟨.starting pump, acquires, releases⟩ clients' t' := by
  rw [advance.eq_def] at h
  cases choice with
  | succeeds =>
    simp only at h
    split_ifs at h
    exact moved_conserves h ht rfl hlimit
  | fails => exact moved_conserves h ht rfl hlimit
  | dropped =>
    simp only at h
    split_ifs at h
    exact moved_conserves h ht rfl hlimit

theorem kept_conserves (ht : ownsPump pump acquires releases) (hlimit : clients ≤ limit)
    (h : advance limit clients ⟨.kept pump, acquires, releases⟩ choice = some (clients', t')) :
    Conserves limit clients ⟨.kept pump, acquires, releases⟩ clients' t' := by
  rw [advance.eq_def] at h
  cases choice with
  | succeeds =>
    simp only at h
    split_ifs at h
    exact moved_conserves h ht rfl hlimit
  | fails => cases h
  | dropped => exact moved_conserves h ht rfl hlimit

theorem ticking_conserves (ht : ownsPump pump acquires releases) (hlimit : clients ≤ limit)
    (h : advance limit clients ⟨.ticking pump, acquires, releases⟩ choice = some (clients', t')) :
    Conserves limit clients ⟨.ticking pump, acquires, releases⟩ clients' t' := by
  rw [advance.eq_def] at h
  cases choice with
  | succeeds =>
    simp only at h
    split_ifs at h
    exact moved_conserves h ht rfl hlimit
  | fails => exact moved_conserves h ht rfl hlimit
  | dropped => cases h

theorem stopping_conserves (ht : ownsPump pump acquires releases) (hlimit : clients ≤ limit)
    (h : advance limit clients ⟨.stopping pump, acquires, releases⟩ choice = some (clients', t')) :
    Conserves limit clients ⟨.stopping pump, acquires, releases⟩ clients' t' := by
  rw [advance.eq_def] at h
  cases choice with
  | succeeds =>
    simp only at h
    split_ifs at h
    · exact moved_conserves h ht rfl hlimit
    · exact moved_conserves h ht rfl hlimit
  | fails => cases h
  | dropped => cases h

theorem giving_conserves (ht : ownsPump pump acquires releases) (hlimit : clients ≤ limit)
    (h : advance limit clients ⟨.giving pump, acquires, releases⟩ choice = some (clients', t')) :
    Conserves limit clients ⟨.giving pump, acquires, releases⟩ clients' t' := by
  rw [advance.eq_def] at h
  cases choice with
  | succeeds =>
    simp only at h
    split_ifs at h with hreleased
    · exact moved_conserves h ht rfl hlimit
    · obtain ⟨rfl, rfl⟩ := Prod.mk.inj (Option.some.inj h)
      obtain ⟨hacquires, hreleases⟩ := ht
      rw [if_neg hreleased] at hreleases
      refine release_conserves hacquires hreleases ?_ (by simp [Stream.live, Place.live, hreleased])
        hlimit
      intro pump' hpump
      rw [← Caller.stop.inj hpump]
  | fails => cases h
  | dropped => cases h

theorem destroying_conserves (ht : ownsPump pump acquires releases) (hlimit : clients ≤ limit)
    (h : advance limit clients ⟨.destroying pump, acquires, releases⟩ choice = some (clients', t')) :
    Conserves limit clients ⟨.destroying pump, acquires, releases⟩ clients' t' := by
  rw [advance.eq_def] at h
  cases choice with
  | succeeds =>
    simp only at h
    obtain ⟨hacquires, hreleases⟩ := ht
    split_ifs at h with hreleased
    · rw [if_pos hreleased] at hreleases
      exact moved_conserves h ⟨hacquires, hreleases⟩ (by simp [Place.live, hreleased]) hlimit
    · obtain ⟨rfl, rfl⟩ := Prod.mk.inj (Option.some.inj h)
      rw [if_neg hreleased] at hreleases
      exact release_conserves hacquires hreleases nofun (by simp [Stream.live, Place.live, hreleased])
        hlimit
  | fails => cases h
  | dropped => cases h

end

/-- **A section moves the counter as it moves its own lease.** -/
theorem step_conserves (ht : t.Kept) (hpos : t.live = true → 0 < clients) (hlimit : clients ≤ limit)
    (h : advance limit clients t choice = some (clients', t')) :
    Conserves limit clients t clients' t' := by
  obtain ⟨place, acquires, releases⟩ := t
  cases place with
  | arrived =>
    cases choice with
    | succeeds => exact moved_conserves h ht rfl hlimit
    | fails => exact moved_conserves h ht rfl hlimit
    | dropped => cases h
  | acquiring read => exact acquire_conserves ht rfl hlimit h
  | answered => cases choice <;> cases h
  | responding =>
    cases choice with
    | succeeds => exact moved_conserves h ht rfl hlimit
    | fails =>
      obtain ⟨rfl, rfl⟩ := Prod.mk.inj (Option.some.inj h)
      exact release_conserves ht.1 ht.2 nofun rfl hlimit
    | dropped => cases h
  | awaiting =>
    cases choice with
    | succeeds => exact moved_conserves h ht rfl hlimit
    | fails => cases h
    | dropped => cases h
  | constructing =>
    cases choice with
    | succeeds => exact moved_conserves h ht rfl hlimit
    | fails =>
      obtain ⟨rfl, rfl⟩ := Prod.mk.inj (Option.some.inj h)
      exact release_conserves ht.1 ht.2 nofun rfl hlimit
    | dropped => cases h
  | owned pump =>
    cases choice with
    | succeeds => exact moved_conserves h ht rfl hlimit
    | fails => exact moved_conserves h ht rfl hlimit
    | dropped => cases h
  | queued pump =>
    cases choice with
    | succeeds => exact moved_conserves h ht rfl hlimit
    | fails => cases h
    | dropped => exact moved_conserves h ht rfl hlimit
  | starting pump => exact starting_conserves ht hlimit h
  | kept pump => exact kept_conserves ht hlimit h
  | ticking pump => exact ticking_conserves ht hlimit h
  | stopping pump => exact stopping_conserves ht hlimit h
  | giving pump => exact giving_conserves ht hlimit h
  | destroying pump => exact destroying_conserves ht hlimit h
  | releasing caller current => exact releaseStep_conserves ht rfl (hpos rfl) hlimit h
  | ended => cases choice <;> cases h

end

/-! ### All requests together -/

/-- The counter and the requests of a configuration. -/
structure Balanced (limit : Nat) (c : Config Nat Stream) : Prop where
  counter : c.shared = c.threads.countP Stream.live
  bounded : c.shared ≤ limit
  kept : ∀ t ∈ c.threads, t.Kept

theorem balanced_change {limit : Nat} {c c' : Config Nat Stream} (h : Balanced limit c)
    (hchange : Change (eventsRoute limit) always c c') : Balanced limit c' := by
  cases hchange with
  | @start t hstarts =>
    have ht : t = ⟨.arrived, 0, 0⟩ := by
      unfold eventsRoute at hstarts
      simp only at hstarts
      split at hstarts
      · rfl
      · cases hstarts
    refine ⟨?_, h.bounded, ?_⟩
    · rw [h.counter, List.countP_append, ht]
      rfl
    · intro u hu
      rcases List.mem_append.mp hu with hu | hu
      · exact h.kept u hu
      · rw [List.mem_singleton.mp hu, ht]
        exact ⟨rfl, rfl⟩
  | @move before later t t' clients choice hthreads _ hstep =>
    have hcounter := h.counter
    rw [hthreads, List.countP_append, List.countP_cons] at hcounter
    have hpos : t.live = true → 0 < c.shared := by
      intro hlive
      rw [if_pos hlive] at hcounter
      omega
    have ht : t.Kept := h.kept t (hthreads ▸ List.mem_append_right _ List.mem_cons_self)
    obtain ⟨hkept, hmoved, hbounded⟩ := step_conserves ht hpos h.bounded hstep
    refine ⟨?_, hbounded, ?_⟩
    · show clients = (before ++ t' :: later).countP Stream.live
      rw [List.countP_append, List.countP_cons]
      cases hlive : t.live <;> cases hlive' : t'.live <;>
        simp only [hlive, hlive', Bool.toNat_true, Bool.toNat_false, if_true, if_false,
          Bool.false_eq_true] at hcounter hmoved ⊢ <;> omega
    · intro u hu
      have hothers : ∀ v ∈ before ++ later, v.Kept := by
        intro v hv
        apply h.kept v
        rw [hthreads]
        rcases List.mem_append.mp hv with hv | hv
        · exact List.mem_append_left _ hv
        · exact List.mem_append_right _ (List.mem_cons_of_mem _ hv)
      rcases List.mem_append.mp hu with hu | hu
      · exact hothers u (List.mem_append_left _ hu)
      · rcases List.mem_cons.mp hu with rfl | hu
        · exact hkept
        · exact hothers u (List.mem_append_right _ hu)

theorem dead_of_finished {place : Place} (h : place.finished = true) : place.live = false := by
  cases place with
  | answered | ended => rfl
  | _ => cases h

theorem calls_of_kept {t : Stream} (h : t.Kept) :
    t.acquires ≤ 1 ∧ t.releases ≤ t.acquires ∧ (t.live = true → t.acquires = 1) ∧
      (t.place.finished = true → t.releases = t.acquires) ∧
      ∀ caller, t.place ≠ .releasing caller (some 0) := by
  obtain ⟨place, acquires, releases⟩ := t
  cases place with
  | arrived | acquiring read | answered =>
    obtain ⟨rfl, rfl⟩ := h
    exact ⟨Nat.zero_le 1, le_rfl, nofun, fun _ => rfl, nofun⟩
  | responding | awaiting | constructing =>
    obtain ⟨rfl, rfl⟩ := h
    exact ⟨le_rfl, Nat.zero_le 1, fun _ => rfl, nofun, nofun⟩
  | owned pump | queued pump | starting pump | kept pump | ticking pump | stopping pump
  | giving pump | destroying pump =>
    obtain ⟨hacquires, hreleases⟩ := h
    dsimp only at hacquires hreleases ⊢
    refine ⟨hacquires.le, ?_, fun _ => hacquires, nofun, nofun⟩
    rw [hacquires, hreleases]
    split_ifs <;> decide
  | releasing caller current =>
    have hcalls : acquires = 1 ∧ releases = 1 := by
      cases caller with
      | stop pump => exact ⟨h.1, h.2.1⟩
      | route => exact ⟨h.1, h.2.1⟩
      | callback => exact ⟨h.1, h.2.1⟩
      | destructor => exact ⟨h.1, h.2.1⟩
    obtain ⟨rfl, rfl⟩ := hcalls
    refine ⟨le_rfl, le_rfl, fun _ => rfl, nofun, ?_⟩
    intro caller' heq
    exact kept_ne_zero (t := ⟨.arrived, 1, 1⟩) h (Place.releasing.inj heq).2
  | ended =>
    obtain ⟨rfl, rfl⟩ := h
    exact ⟨le_rfl, le_rfl, nofun, fun _ => rfl, nofun⟩

/-- **Stream leases are conserved.** In every configuration of any number of requests, the counter is
the number of live streams and within the limit; a request releases what it acquired, once, and never
finds the counter at zero; where all have finished, the counter is zero. -/
theorem leases_conserved {limit : Nat} {c : Config Nat Stream}
    (h : Reachable (eventsRoute limit) always ⟨0, []⟩ c) :
    c.shared = c.threads.countP Stream.live ∧ c.shared ≤ limit ∧
      (∀ t ∈ c.threads, t.acquires ≤ 1 ∧ t.releases ≤ t.acquires ∧
        (t.live = true → t.acquires = 1) ∧ (t.place.finished = true → t.releases = t.acquires) ∧
        ∀ caller, t.place ≠ .releasing caller (some 0)) ∧
      ((∀ t ∈ c.threads, t.place.finished = true) → c.shared = 0) := by
  have hbalanced : Balanced limit c :=
    Reachable.invariant (I := Balanced limit) ⟨rfl, Nat.zero_le _, List.forall_mem_nil _⟩
      (fun c c' _ hI hchange => balanced_change hI hchange) h
  refine ⟨hbalanced.counter, hbalanced.bounded, fun t ht => calls_of_kept (hbalanced.kept t ht), ?_⟩
  intro hfinished
  rw [hbalanced.counter, List.countP_eq_zero]
  intro t ht hlive
  rw [Stream.live, dead_of_finished (hfinished t ht)] at hlive
  cases hlive

/-- Two requests read the counter before either has a lease, and the third one finds the limit. -/
def crowdEvents : List (Event Stream Choice) :=
  [.start ⟨.arrived, 0, 0⟩, .start ⟨.arrived, 0, 0⟩, .start ⟨.arrived, 0, 0⟩, .move 0 .succeeds,
    .move 1 .succeeds, .move 0 .succeeds, .move 1 .succeeds, .move 2 .succeeds, .move 1 .succeeds,
    .move 2 .succeeds, .move 2 .succeeds]

/-- The response of the first one fails; the pump of the second one stops at a tick. Both release. -/
def leaveEvents : List (Event Stream Choice) :=
  [.move 1 .succeeds, .move 1 .succeeds, .move 1 .succeeds, .move 1 .succeeds, .move 1 .succeeds,
    .move 1 .succeeds, .move 0 .fails, .move 1 .succeeds, .move 1 .fails, .move 1 .succeeds,
    .move 1 .succeeds, .move 0 .succeeds, .move 1 .succeeds, .move 0 .succeeds, .move 1 .succeeds,
    .move 1 .succeeds, .move 1 .dropped, .move 1 .succeeds]

theorem leases_conserved_sample : ∃ c d, run (eventsRoute 2) ⟨0, []⟩ crowdEvents = some c ∧
    c.threads = [⟨.responding, 1, 0⟩, ⟨.responding, 1, 0⟩, ⟨.answered, 0, 0⟩] ∧
    c.shared = c.threads.countP Stream.live ∧ run (eventsRoute 2) c leaveEvents = some d ∧
    d.threads = [⟨.ended, 1, 1⟩, ⟨.ended, 1, 1⟩, ⟨.answered, 0, 0⟩] ∧ d.shared = 0 := by
  have hcrowd : run (eventsRoute 2) ⟨0, []⟩ crowdEvents =
      some ⟨2, [⟨.responding, 1, 0⟩, ⟨.responding, 1, 0⟩, ⟨.answered, 0, 0⟩]⟩ := rfl
  have hleave : run (eventsRoute 2) ⟨2, [⟨.responding, 1, 0⟩, ⟨.responding, 1, 0⟩, ⟨.answered, 0, 0⟩]⟩
      leaveEvents = some ⟨0, [⟨.ended, 1, 1⟩, ⟨.ended, 1, 1⟩, ⟨.answered, 0, 0⟩]⟩ := rfl
  have hcount := (leases_conserved (reachable_run hcrowd)).1
  have hall := (leases_conserved ((reachable_run hcrowd).trans (reachable_run hleave))).2.2.2
  exact ⟨_, _, hcrowd, rfl, hcount, hleave, rfl, hall (by decide)⟩

end ContextHmi.Http
