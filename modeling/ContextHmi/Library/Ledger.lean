import Mathlib.Tactic

/-!
# Ledgers of bindings

A ledger keeps, for each name, what it was bound to. A binding is renewed while the name still
declares the same thing and is blocked for good once it does not; names never disappear.

* `Run.blocked_stays` : a blocked name is blocked in every later state;
* `Run.held_between`  : a name held now was held, and declared, in every state since it appeared,
  and each binding is the same as the one before it.
-/

namespace Ledger

variable {ι β : Type}

/-- What a ledger knows of a name. -/
inductive Entry (β : Type) where
  | absent
  | held (b : β)
  | blocked

/-- The ledger of each name. -/
abbrev State (ι β : Type) := ι → Entry β

/-- One step to a state in which a name declares at most one thing. -/
structure Step (declared : ι → Option β) (same : β → β → Prop) (s s' : State ι β) : Prop where
  /-- A blocked name stays blocked. -/
  blocked : ∀ x, s x = .blocked → s' x = .blocked
  /-- A name stays known. -/
  known : ∀ x, s x ≠ .absent → s' x ≠ .absent
  /-- What is held is declared now. -/
  declares : ∀ x b, s' x = .held b → declared x = some b
  /-- What was held and still is, is bound to the same. -/
  renewed : ∀ x b b', s x = .held b → s' x = .held b' → same b b'

/-- A run of `n` steps, each to a state with declarations of its own. -/
structure Run (declared : ℕ → ι → Option β) (same : β → β → Prop) (n : ℕ) (s : ℕ → State ι β) :
    Prop where
  initial : ∀ x b, s 0 x = .held b → declared 0 x = some b
  step : ∀ i < n, Step (declared (i + 1)) same (s i) (s (i + 1))

namespace Run

variable {declared : ℕ → ι → Option β} {same : β → β → Prop} {n : ℕ} {s : ℕ → State ι β}
  (run : Run declared same n s)
include run

theorem declares {i : ℕ} (hi : i ≤ n) {x : ι} {b : β} (h : s i x = .held b) :
    declared i x = some b := by
  cases i with
  | zero => exact run.initial x b h
  | succ i => exact (run.step i (by omega)).declares x b h

theorem known_stays {i j : ℕ} (hij : i ≤ j) (hj : j ≤ n) {x : ι} (h : s i x ≠ .absent) :
    s j x ≠ .absent := by
  induction j, hij using Nat.le_induction with
  | base => exact h
  | succ j _ ih => exact (run.step j (by omega)).known x (ih (by omega))

theorem blocked_stays {i j : ℕ} (hij : i ≤ j) (hj : j ≤ n) {x : ι} (h : s i x = .blocked) :
    s j x = .blocked := by
  induction j, hij using Nat.le_induction with
  | base => exact h
  | succ j _ ih => exact (run.step j (by omega)).blocked x (ih (by omega))

theorem held_before {k i j : ℕ} (hkj : k ≤ j) (hji : j ≤ i) (hi : i ≤ n) {x : ι} {b : β}
    (hk : s k x ≠ .absent) (h : s i x = .held b) : ∃ b', s j x = .held b' := by
  cases hj : s j x with
  | absent => exact absurd hj (run.known_stays hkj (by omega) hk)
  | held b' => exact ⟨b', rfl⟩
  | blocked =>
    rw [run.blocked_stays hji hi hj] at h
    cases h

/-- **A name held now was declared in every state since it became known, and from each of these
states to the next its binding stayed the same.** -/
theorem held_between {k i : ℕ} (hi : i ≤ n) {x : ι} {b : β}
    (hk : s k x ≠ .absent) (h : s i x = .held b) :
    ∃ c : ℕ → β, (∀ j, k ≤ j → j ≤ i → declared j x = some (c j)) ∧
      ∀ j, k ≤ j → j < i → same (c j) (c (j + 1)) := by
  have hheld : ∀ j, ∃ b', k ≤ j → j ≤ i → s j x = .held b' := by
    intro j
    by_cases hj : k ≤ j ∧ j ≤ i
    · obtain ⟨b', hb'⟩ := run.held_before hj.1 hj.2 hi hk h
      exact ⟨b', fun _ _ => hb'⟩
    · exact ⟨b, fun hkj hji => absurd ⟨hkj, hji⟩ hj⟩
  choose c hc using hheld
  refine ⟨c, fun j hkj hji => run.declares (by omega) (hc j hkj hji), fun j hkj hji => ?_⟩
  exact (run.step j (by omega)).renewed x _ _ (hc j hkj (by omega)) (hc (j + 1) (by omega) hji)

end Run

end Ledger
