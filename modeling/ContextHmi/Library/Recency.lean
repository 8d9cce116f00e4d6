import Mathlib.Tactic
import Mathlib.Data.Set.Card

/-!
# Bounded maps that forget what was used least recently

What a bounded map with expiry holds, as a partial function: of each key the value that was put last,
when it was put and when it was used last. A list of keys from the one used last to the one used
first stands for the order of use.

* `OrderedBy.dropOldest` : the key used least recently is the last of the list;
* `OrderedBy.use`        : a use brings a key to the front;
* `OrderedBy.drop`       : a key that is dropped leaves the list.
-/

namespace Recency

variable {κ α : Type}

/-- The value of a key, when it was put, and when it was used last. -/
structure Held (α : Type) where
  value : α
  putAt : ℕ
  usedAt : ℕ

/-- What is held, and how many uses there were. -/
structure Reference (κ α : Type) where
  held : κ → Option (Held α) := fun _ => none
  uses : ℕ := 0

namespace Reference

def keys (r : Reference κ α) : Set κ := {k | (r.held k).isSome = true}

/-- No key that is held was used before this one. -/
def IsOldest (r : Reference κ α) (k : κ) : Prop :=
  ∃ h, r.held k = some h ∧ ∀ k' h', r.held k' = some h' → h.usedAt ≤ h'.usedAt

section
variable [DecidableEq κ]

/-- The key is used now, with a value that was put at some time. -/
def use (r : Reference κ α) (k : κ) (value : α) (putAt : ℕ) : Reference κ α where
  held := Function.update r.held k (some ⟨value, putAt, r.uses⟩)
  uses := r.uses + 1

def drop (r : Reference κ α) (k : κ) : Reference κ α :=
  { r with held := Function.update r.held k none }

open Classical in
/-- The key that was used least recently is dropped. -/
noncomputable def dropOldest (r : Reference κ α) : Reference κ α :=
  if h : ∃ k, r.IsOldest k then r.drop h.choose else r

/-- A value is found if it was put less than `timeToLive` ago; one that was not is dropped. -/
def get (r : Reference κ α) (timeToLive now : ℕ) (k : κ) : Option α × Reference κ α :=
  match r.held k with
  | none => (none, r)
  | some h => if now - h.putAt < timeToLive then (some h.value, r.use k h.value h.putAt)
      else (none, r.drop k)

/-- A key that is not held takes the place of the oldest one once `capacity` keys are held. -/
noncomputable def put (r : Reference κ α) (capacity now : ℕ) (k : κ) (value : α) : Reference κ α :=
  if (r.held k).isSome then r.use k value now
  else (if capacity ≤ r.keys.ncard then r.dropOldest else r).use k value now

def clear (r : Reference κ α) : Reference κ α := { r with held := fun _ => none }

theorem held_use (r : Reference κ α) (k k' : κ) (value : α) (putAt : ℕ) :
    (r.use k value putAt).held k' = if k' = k then some ⟨value, putAt, r.uses⟩ else r.held k' :=
  Function.update_apply _ _ _ _

theorem held_drop (r : Reference κ α) (k k' : κ) :
    (r.drop k).held k' = if k' = k then none else r.held k' :=
  Function.update_apply _ _ _ _

end

/-- The list has the keys that are held, from the one used last to the one used first. -/
structure OrderedBy (r : Reference κ α) (l : List κ) : Prop where
  nodup : l.Nodup
  mem : ∀ k, k ∈ l ↔ (r.held k).isSome = true
  later : l.Pairwise fun k k' => ∀ h h', r.held k = some h → r.held k' = some h' →
    h'.usedAt < h.usedAt
  past : ∀ k h, r.held k = some h → h.usedAt < r.uses

namespace OrderedBy

variable {r : Reference κ α} {l : List κ} {k : κ}

theorem initial : (⟨fun _ => none, 0⟩ : Reference κ α).OrderedBy [] where
  nodup := List.nodup_nil
  mem _ := by simp
  later := .nil
  past _ _ h := nomatch h

theorem clear (r : Reference κ α) : r.clear.OrderedBy [] where
  nodup := List.nodup_nil
  mem _ := by simp [Reference.clear]
  later := .nil
  past _ _ h := nomatch h

theorem ncard_keys (h : r.OrderedBy l) : r.keys.ncard = l.length := by
  classical
  have hkeys : r.keys = (l.toFinset : Set κ) := by
    ext k
    rw [Finset.mem_coe, List.mem_toFinset, h.mem]
    rfl
  rw [hkeys, Set.ncard_coe_finset, List.toFinset_card_of_nodup h.nodup]

theorem isOldest_iff (h : r.OrderedBy (l ++ [k])) {k' : κ} : r.IsOldest k' ↔ k' = k := by
  have hlast : ∀ a ∈ l, ∀ h₁ h₂, r.held a = some h₁ → r.held k = some h₂ →
      h₂.usedAt < h₁.usedAt := by
    intro a ha
    exact (List.pairwise_append.mp h.later).2.2 a ha k (List.mem_singleton_self k)
  obtain ⟨held, hheld⟩ := Option.isSome_iff_exists.mp
    ((h.mem k).mp (List.mem_append_right _ (List.mem_singleton_self k)))
  constructor
  · intro holdest
    obtain ⟨h', hh', hle⟩ := holdest
    have hmem : k' ∈ l ++ [k] := (h.mem k').mpr (by rw [hh']; rfl)
    rcases List.mem_append.mp hmem with hmem | hmem
    · have hlt := hlast k' hmem h' held hh' hheld
      have := hle k held hheld
      omega
    · exact List.mem_singleton.mp hmem
  · intro e
    subst e
    refine ⟨held, hheld, fun a ha hfound => ?_⟩
    have hmem : a ∈ l ++ [k'] := (h.mem a).mpr (by rw [hfound]; rfl)
    rcases List.mem_append.mp hmem with hmem | hmem
    · exact (hlast a hmem ha held hfound hheld).le
    · obtain rfl := List.mem_singleton.mp hmem
      rw [hfound, Option.some.injEq] at hheld
      exact hheld ▸ le_refl _

variable [DecidableEq κ] [BEq κ] [LawfulBEq κ]

theorem drop (h : r.OrderedBy l) (k : κ) : (r.drop k).OrderedBy (l.erase k) where
  nodup := h.nodup.erase k
  mem k' := by
    rw [h.nodup.mem_erase_iff, held_drop, h.mem]
    by_cases e : k' = k
    · simp [e]
    · simp [e]
  later := by
    refine (h.later.sublist List.erase_sublist).imp_of_mem ?_
    intro a b ha hb hab h₁ h₂ hh₁ hh₂
    rw [held_drop, if_neg (h.nodup.mem_erase_iff.mp ha).1] at hh₁
    rw [held_drop, if_neg (h.nodup.mem_erase_iff.mp hb).1] at hh₂
    exact hab h₁ h₂ hh₁ hh₂
  past k' h' hh' := by
    rw [held_drop] at hh'
    by_cases e : k' = k
    · rw [if_pos e] at hh'
      cases hh'
    · rw [if_neg e] at hh'
      exact h.past k' h' hh'

/-- **A use brings a key to the front**, held or not. -/
theorem use (h : r.OrderedBy l) (k : κ) (value : α) (putAt : ℕ) :
    (r.use k value putAt).OrderedBy (k :: l.erase k) where
  nodup := List.nodup_cons.mpr ⟨h.nodup.not_mem_erase, h.nodup.erase k⟩
  mem k' := by
    rw [List.mem_cons, h.nodup.mem_erase_iff, held_use, h.mem]
    by_cases e : k' = k
    · simp [e]
    · simp [e]
  later := by
    refine List.pairwise_cons.mpr ⟨fun a ha h₁ h₂ hh₁ hh₂ => ?_,
      (h.later.sublist List.erase_sublist).imp_of_mem ?_⟩
    · rw [held_use, if_pos rfl, Option.some.injEq] at hh₁
      rw [held_use, if_neg (h.nodup.mem_erase_iff.mp ha).1] at hh₂
      exact hh₁ ▸ h.past a h₂ hh₂
    · intro a b ha hb hab h₁ h₂ hh₁ hh₂
      rw [held_use, if_neg (h.nodup.mem_erase_iff.mp ha).1] at hh₁
      rw [held_use, if_neg (h.nodup.mem_erase_iff.mp hb).1] at hh₂
      exact hab h₁ h₂ hh₁ hh₂
  past k' h' hh' := by
    show h'.usedAt < r.uses + 1
    rw [held_use] at hh'
    by_cases e : k' = k
    · rw [if_pos e, Option.some.injEq] at hh'
      rw [← hh']
      exact Nat.lt_succ_self _
    · rw [if_neg e] at hh'
      exact (h.past k' h' hh').trans (Nat.lt_succ_self _)

omit [BEq κ] [LawfulBEq κ] in
/-- **The key used least recently is the last of the list.** -/
theorem dropOldest (h : r.OrderedBy (l ++ [k])) : r.dropOldest = r.drop k := by
  have hex : ∃ k', r.IsOldest k' := ⟨k, h.isOldest_iff.mpr rfl⟩
  rw [Reference.dropOldest, dif_pos hex, h.isOldest_iff.mp hex.choose_spec]

end OrderedBy

end Reference

end Recency
