import Mathlib.Data.List.Basic

/-!
# Threads over a shared state

Threads that take turns on a shared state, one atomic section at a time, in any order. A program says
which threads may be started and what the next section of a thread does to the shared state and to
the thread. A finished thread is one without a next section.

* `Reachable.rule`  : an invariant of the shared state, and an assertion of each thread that the
  sections of the others do not disturb, hold in every reachable configuration;
* `Reachable.run`, `reachable_run` : what running a list of events reaches.
-/

namespace Interleave

/-- `σ` is the shared state, `τ` where a thread is, `ι` what a section reads from outside. -/
structure Program (σ τ ι : Type) where
  starts : τ → Bool
  step : σ → τ → ι → Option (σ × τ)

structure Config (σ τ : Type) where
  shared : σ
  threads : List τ

inductive Event (τ ι : Type) where
  /-- A thread is started. -/
  | start (t : τ)
  /-- Thread `k` runs its next section. -/
  | move (k : Nat) (input : ι)

variable {σ τ ι : Type}

/-- The configuration after an event, where it can happen. -/
def next (P : Program σ τ ι) (c : Config σ τ) : Event τ ι → Option (Config σ τ)
  | .start t => if P.starts t then some { c with threads := c.threads ++ [t] } else none
  | .move k input => match c.threads[k]? with
    | none => none
    | some t => (P.step c.shared t input).map fun r => ⟨r.1, c.threads.set k r.2⟩

/-- The configuration after some events. -/
def run (P : Program σ τ ι) (c : Config σ τ) : List (Event τ ι) → Option (Config σ τ)
  | [] => some c
  | e :: events => (next P c e).bind fun c => run P c events

/-- A move of the event is one the condition allows. -/
def Allowed (allowed : σ → τ → ι → Prop) (c : Config σ τ) : Event τ ι → Prop
  | .start _ => True
  | .move k input => ∀ t, c.threads[k]? = some t → allowed c.shared t input

/-- The configurations that runs reach all of whose sections meet a condition. -/
inductive Reachable (P : Program σ τ ι) (allowed : σ → τ → ι → Prop) (c₀ : Config σ τ) :
    Config σ τ → Prop where
  | init : Reachable P allowed c₀ c₀
  | next {c c' : Config σ τ} {e : Event τ ι} (h : Reachable P allowed c₀ c)
      (hstep : Interleave.next P c e = some c') (hallowed : Allowed allowed c e) :
      Reachable P allowed c₀ c'

/-- No condition. -/
def always (_ : σ) (_ : τ) (_ : ι) : Prop := True

/-! ### What an event does -/

theorem exists_split {α : Type} {l : List α} {i : Nat} {a : α} (h : l[i]? = some a) :
    ∃ pre post, l = pre ++ a :: post ∧ ∀ b, l.set i b = pre ++ b :: post := by
  obtain ⟨hi, rfl⟩ := List.getElem?_eq_some_iff.mp h
  refine ⟨l.take i, l.drop (i + 1), ?_, fun b => ?_⟩
  · rw [List.getElem_cons_drop, List.take_append_drop]
  · rw [List.set_eq_take_append_cons_drop, if_pos hi]

/-- An event starts a thread, or one thread among the others moves. -/
inductive Change (P : Program σ τ ι) (allowed : σ → τ → ι → Prop) (c : Config σ τ) :
    Config σ τ → Prop where
  | start {t : τ} (hstarts : P.starts t = true) :
      Change P allowed c { c with threads := c.threads ++ [t] }
  | move {pre post : List τ} {t t' : τ} {s : σ} {input : ι}
      (hthreads : c.threads = pre ++ t :: post) (hallowed : allowed c.shared t input)
      (hstep : P.step c.shared t input = some (s, t')) :
      Change P allowed c ⟨s, pre ++ t' :: post⟩

variable {P : Program σ τ ι} {allowed : σ → τ → ι → Prop} {c₀ c c' : Config σ τ}

theorem next_cases {e : Event τ ι} (h : next P c e = some c') (hallowed : Allowed allowed c e) :
    Change P allowed c c' := by
  cases e with
  | start t =>
    simp only [next] at h
    split at h
    · obtain rfl := Option.some.inj h
      exact .start ‹_›
    · cases h
  | move k input =>
    simp only [next] at h
    split at h
    · cases h
    · rename_i t hthread
      obtain ⟨⟨s, t'⟩, hstep, rfl⟩ := Option.map_eq_some_iff.mp h
      obtain ⟨pre, post, hthreads, hset⟩ := exists_split hthread
      rw [hset]
      exact .move hthreads (hallowed t hthread) hstep

theorem run_move {k : Nat} {t : τ} (hk : c.threads[k]? = some t) (input : ι)
    (events : List (Event τ ι)) : run P c (.move k input :: events) =
      (P.step c.shared t input).bind fun r => run P ⟨r.1, c.threads.set k r.2⟩ events := by
  simp only [run, next, hk, Option.bind_map, Function.comp_def]

theorem thread_set {threads : List τ} {k : Nat} {t : τ} (hk : threads[k]? = some t) (t' : τ) :
    (threads.set k t')[k]? = some t' :=
  List.getElem?_set_self (List.getElem?_eq_some_iff.mp hk).1

theorem next_move {k : Nat} {input : ι} (h : next P c (.move k input) = some c') :
    ∃ t s t', c.threads[k]? = some t ∧ P.step c.shared t input = some (s, t') ∧
      c' = ⟨s, c.threads.set k t'⟩ ∧ c'.threads[k]? = some t' := by
  simp only [next] at h
  split at h
  · cases h
  · rename_i t hthread
    obtain ⟨⟨s, t'⟩, hstep, rfl⟩ := Option.map_eq_some_iff.mp h
    exact ⟨t, s, t', hthread, hstep, rfl, thread_set hthread t'⟩

theorem Reachable.trans {c₁ : Config σ τ} (h : Reachable P allowed c₀ c₁)
    (h' : Reachable P allowed c₁ c) : Reachable P allowed c₀ c := by
  induction h' with
  | init => exact h
  | next _ hstep hallowed ih => exact ih.next hstep hallowed

/-- What the sections of a thread preserve of it holds wherever it gets. -/
theorem Reachable.thread {Q : τ → Prop} {k : Nat} {t₀ : τ} (hinit : c₀.threads[k]? = some t₀)
    (hQ : Q t₀) (hstep : ∀ s t input s' t', Q t → P.step s t input = some (s', t') → Q t')
    (h : Reachable P allowed c₀ c) : ∃ t, c.threads[k]? = some t ∧ Q t := by
  induction h with
  | init => exact ⟨t₀, hinit, hQ⟩
  | @next c c' e hreach hnext hallowed ih =>
    obtain ⟨t, hk, ht⟩ := ih
    cases e with
    | start u =>
      simp only [Interleave.next] at hnext
      split at hnext
      · obtain rfl := Option.some.inj hnext
        have hlt := (List.getElem?_eq_some_iff.mp hk).1
        exact ⟨t, (List.getElem?_append_left hlt).trans hk, ht⟩
      · cases hnext
    | move j input =>
      obtain ⟨u, s, u', hj, hu, rfl, hu'⟩ := next_move hnext
      by_cases hjk : j = k
      · subst hjk
        obtain rfl := Option.some.inj (hj.symm.trans hk)
        exact ⟨u', hu', hstep _ _ _ _ _ ht hu⟩
      · exact ⟨t, (List.getElem?_set_ne hjk).trans hk, ht⟩

theorem Change.always (h : Change P allowed c c') : Change P Interleave.always c c' := by
  cases h with
  | start hstarts => exact .start hstarts
  | move hthreads _ hstep => exact .move hthreads trivial hstep

theorem Reachable.always (h : Reachable P allowed c₀ c) : Reachable P Interleave.always c₀ c := by
  induction h with
  | init => exact .init
  | @next c c' e hreach hstep hallowed ih =>
    refine ih.next hstep ?_
    cases e with
    | start t => trivial
    | move k input => exact fun _ _ => trivial

theorem Reachable.invariant {I : Config σ τ → Prop} (hinit : I c₀)
    (hchange : ∀ c c', Reachable P allowed c₀ c → I c → Change P allowed c c' → I c')
    (h : Reachable P allowed c₀ c) : I c := by
  induction h with
  | init => exact hinit
  | next hreach hstep hallowed ih => exact hchange _ _ hreach ih (next_cases hstep hallowed)

/-- **The rule for threads.** An invariant of the shared state and an assertion of every thread hold
whenever a section keeps the invariant, establishes the assertion of its own thread and does not
disturb those of the others. -/
theorem Reachable.rule {I : σ → Prop} {L : σ → τ → Prop} (hinit : I c₀.shared)
    (hthreads : ∀ t ∈ c₀.threads, L c₀.shared t)
    (hstart : ∀ s t, I s → P.starts t = true → L s t)
    (hstep : ∀ s t input s' t', I s → L s t → allowed s t input → P.step s t input = some (s', t') →
      I s' ∧ L s' t' ∧ ∀ u, L s u → L s' u)
    (h : Reachable P allowed c₀ c) : I c.shared ∧ ∀ t ∈ c.threads, L c.shared t := by
  induction h with
  | init => exact ⟨hinit, hthreads⟩
  | next _ hnext hallowed ih =>
    obtain ⟨hI, hL⟩ := ih
    cases next_cases hnext hallowed with
    | @start t hstarts =>
      refine ⟨hI, fun u hu => ?_⟩
      rcases List.mem_append.mp hu with hu | hu
      · exact hL u hu
      · rw [List.mem_singleton.mp hu]
        exact hstart _ t hI hstarts
    | @move pre post t t' s input hsplit hmove hsection =>
      have ht : L _ t := hL t (hsplit ▸ List.mem_append_right _ List.mem_cons_self)
      obtain ⟨hI', hown, hothers⟩ := hstep _ t input s t' hI ht hmove hsection
      refine ⟨hI', fun u hu => ?_⟩
      rcases List.mem_append.mp hu with hu | hu
      · exact hothers u (hL u (hsplit ▸ List.mem_append_left _ hu))
      · rcases List.mem_cons.mp hu with rfl | hu
        · exact hown
        · exact hothers u (hL u (hsplit ▸ List.mem_append_right _ (List.mem_cons_of_mem _ hu)))

theorem Reachable.run {events : List (Event τ ι)} (hall : ∀ s t input, allowed s t input)
    (h : Reachable P allowed c₀ c) (hrun : Interleave.run P c events = some c') :
    Reachable P allowed c₀ c' := by
  induction events generalizing c with
  | nil =>
    obtain rfl := Option.some.inj hrun
    exact h
  | cons e events ih =>
    obtain ⟨c₁, hnext, hrest⟩ := Option.bind_eq_some_iff.mp hrun
    refine ih (h.next hnext ?_) hrest
    cases e with
    | start t => trivial
    | move k input => exact fun t _ => hall _ t input

/-- Every move of a run meets a condition that is checked. -/
def meets (check : σ → τ → ι → Bool) (P : Program σ τ ι) (c : Config σ τ) : List (Event τ ι) → Bool
  | [] => true
  | .start t :: events => (next P c (.start t)).all fun c => meets check P c events
  | .move k input :: events => c.threads[k]?.all (fun t => check c.shared t input) &&
    (next P c (.move k input)).all fun c => meets check P c events

theorem Reachable.checked {check : σ → τ → ι → Bool} {events : List (Event τ ι)}
    (hcheck : ∀ s t input, check s t input = true → allowed s t input)
    (h : Reachable P allowed c₀ c) (hrun : Interleave.run P c events = some c')
    (hmeets : meets check P c events = true) : Reachable P allowed c₀ c' := by
  induction events generalizing c with
  | nil =>
    obtain rfl := Option.some.inj hrun
    exact h
  | cons e events ih =>
    obtain ⟨c₁, hnext, hrest⟩ := Option.bind_eq_some_iff.mp hrun
    cases e with
    | start t =>
      rw [meets, hnext] at hmeets
      exact ih (h.next hnext trivial) hrest hmeets
    | move k input =>
      rw [meets, hnext, Bool.and_eq_true] at hmeets
      refine ih (h.next hnext ?_) hrest hmeets.2
      intro t hk
      apply hcheck
      have hthread := hmeets.1
      rw [hk] at hthread
      exact hthread

theorem Reachable.moveLast {ts : List τ} {s s' : σ} {t t' : τ} {input : ι}
    (h : Reachable P Interleave.always c₀ ⟨s, ts ++ [t]⟩) (hstep : P.step s t input = some (s', t')) :
    Reachable P Interleave.always c₀ ⟨s', ts ++ [t']⟩ := by
  have hlast : (ts ++ [t])[ts.length]? = some t := by
    rw [List.getElem?_append_right (Nat.le_refl _), Nat.sub_self]
    rfl
  refine h.next (e := .move ts.length input) ?_ (fun _ _ => trivial)
  simp only [Interleave.next, hlast, hstep, Option.map_some, Option.some.injEq, Config.mk.injEq,
    true_and]
  rw [List.set_append_right _ _ (Nat.le_refl _), Nat.sub_self]
  rfl

theorem Reachable.begin {t t' : τ} {s' : σ} {input : ι} (h : Reachable P Interleave.always c₀ c)
    (hstarts : P.starts t = true) (hstep : P.step c.shared t input = some (s', t')) :
    Reachable P Interleave.always c₀ ⟨s', c.threads ++ [t']⟩ := by
  have hstart : Reachable P Interleave.always c₀ ⟨c.shared, c.threads ++ [t]⟩ := by
    refine h.next (e := .start t) ?_ trivial
    rw [Interleave.next, if_pos hstarts]
  exact hstart.moveLast hstep

theorem reachable_run {events : List (Event τ ι)} (hrun : Interleave.run P c₀ events = some c) :
    Reachable P always c₀ c := Reachable.run (fun _ _ _ => trivial) .init hrun

end Interleave
