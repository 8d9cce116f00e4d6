import ContextHmi.Library.AssocMap

/-!
# A bounded map that forgets the oldest key

A map next to the list of its keys in the order they came. A full map gives up the key it has held
longest; values can be replaced in place, and a key can be taken back.

* `WellFormed.push`, `WellFormed.remove`, `WellFormed.set` : the operations keep map and list together;
* `evict_order_eq_iff`, `remove_push`                      : what taking a new key back restores.
-/

structure Fifo (κ α : Type) where
  entries : List (κ × α) := []
  order : List κ := []

namespace Fifo

variable {κ α : Type} [DecidableEq κ]

def find? (s : Fifo κ α) (k : κ) : Option α := Assoc.find? k s.entries

def keys (s : Fifo κ α) : List κ := s.entries.map Prod.fst

/-- Room for another key: full, the map forgets the one it has held longest. -/
def evict (capacity : Nat) (s : Fifo κ α) : Fifo κ α :=
  if capacity ≤ s.entries.length then
    match s.order with
    | [] => s
    | oldest :: order => ⟨Assoc.erase oldest s.entries, order⟩
  else s

/-- Another key, as the latest. -/
def push (s : Fifo κ α) (k : κ) (v : α) : Fifo κ α := ⟨Assoc.insert k v s.entries, s.order ++ [k]⟩

/-- A key is taken back, wherever it is. -/
def remove (s : Fifo κ α) (k : κ) : Fifo κ α := ⟨Assoc.erase k s.entries, s.order.erase k⟩

/-- Another value for a key that is there. -/
def set (s : Fifo κ α) (k : κ) (v : α) : Fifo κ α := { s with entries := Assoc.insert k v s.entries }

/-- The map has the keys of the list, once each, and not too many. -/
structure WellFormed (capacity : Nat) (s : Fifo κ α) : Prop where
  mem_keys : ∀ k, k ∈ s.keys ↔ k ∈ s.order
  nodupKeys : s.keys.Nodup
  nodup : s.order.Nodup
  bounded : s.entries.length ≤ capacity

variable {s : Fifo κ α} {k k' : κ} {v : α} {capacity : Nat}

omit [DecidableEq κ] in
theorem wellFormed_empty (capacity : Nat) : WellFormed capacity (⟨[], []⟩ : Fifo κ α) :=
  ⟨fun _ => Iff.rfl, List.nodup_nil, List.nodup_nil, Nat.zero_le _⟩

omit [DecidableEq κ] in
theorem length_entries (s : Fifo κ α) : s.entries.length = s.keys.length := by
  rw [keys, List.length_map]

theorem mem_keys_of_find? (h : s.find? k = some v) : k ∈ s.keys :=
  List.mem_map_of_mem (Assoc.find?_mem h)

theorem find?_eq_none (h : k ∉ s.keys) : s.find? k = none := Assoc.find?_eq_none_iff.mpr h

theorem find?_isSome (h : k ∈ s.keys) : ∃ v, s.find? k = some v := by
  rw [← Option.ne_none_iff_exists']
  exact fun hnone => Assoc.find?_eq_none_iff.mp hnone h

/-! ### Lookups -/

theorem find?_push (s : Fifo κ α) (k k' : κ) (v : α) :
    (s.push k v).find? k' = if k = k' then some v else s.find? k' := by
  unfold push find?
  split_ifs with h
  · rw [h, Assoc.find?_insert_self]
  · exact Assoc.find?_insert_ne h v _

theorem find?_set (s : Fifo κ α) (k k' : κ) (v : α) :
    (s.set k v).find? k' = if k = k' then some v else s.find? k' := find?_push s k k' v

theorem find?_remove_ne (h : k' ≠ k) (s : Fifo κ α) : (s.remove k).find? k' = s.find? k' :=
  Assoc.find?_erase_ne h _

theorem find?_remove_self (h : s.WellFormed capacity) (k : κ) : (s.remove k).find? k = none :=
  Assoc.find?_erase_self h.nodupKeys

theorem find?_evict (h : s.WellFormed capacity) (k : κ) :
    (s.evict capacity).find? k = s.find? k ∨ (s.evict capacity).find? k = none := by
  unfold evict
  split
  · split
    · exact .inl rfl
    · rename_i oldest order _
      by_cases hk : k = oldest
      · subst hk
        exact .inr (Assoc.find?_erase_self h.nodupKeys)
      · exact .inl (Assoc.find?_erase_ne hk _)
  · exact .inl rfl

theorem find?_remove (h : s.WellFormed capacity) (k k' : κ) :
    (s.remove k).find? k' = s.find? k' ∨ (s.remove k).find? k' = none := by
  by_cases hk : k' = k
  · subst hk
    exact .inr (find?_remove_self h k')
  · exact .inl (find?_remove_ne hk s)

/-! ### The operations keep map and list together -/

theorem keys_set (h : k ∈ s.keys) (v : α) : (s.set k v).keys = s.keys := by
  unfold set keys
  rw [Assoc.keys_insert]
  exact if_pos h

theorem WellFormed.set (h : s.WellFormed capacity) (hk : k ∈ s.keys) (v : α) :
    (s.set k v).WellFormed capacity := by
  have hkeys := keys_set hk v
  have hlength : (s.set k v).entries.length = s.entries.length := by
    rw [length_entries, hkeys, ← length_entries]
  exact ⟨fun k' => by rw [hkeys]; exact h.mem_keys k', hkeys ▸ h.nodupKeys, h.nodup,
    hlength ▸ h.bounded⟩

theorem WellFormed.remove (h : s.WellFormed capacity) (k : κ) : (s.remove k).WellFormed capacity := by
  have hkeys : (s.remove k).keys = s.keys.erase k := Assoc.keys_erase k s.entries
  refine ⟨fun k' => ?_, hkeys ▸ h.nodupKeys.erase k, h.nodup.erase k, ?_⟩
  · rw [hkeys, h.nodupKeys.mem_erase_iff, h.mem_keys]
    exact h.nodup.mem_erase_iff.symm
  · rw [length_entries, hkeys]
    exact (List.erase_sublist.length_le).trans (length_entries s ▸ h.bounded)

omit [DecidableEq κ] in
theorem WellFormed.length_eq (h : s.WellFormed capacity) : s.entries.length = s.order.length := by
  rw [length_entries]
  exact ((List.perm_ext_iff_of_nodup h.nodupKeys h.nodup).mpr h.mem_keys).length_eq

theorem WellFormed.evict (h : s.WellFormed capacity) (hcapacity : 0 < capacity) :
    (s.evict capacity).WellFormed capacity ∧ (s.evict capacity).entries.length < capacity := by
  unfold Fifo.evict
  split
  · rename_i hfull
    cases horder : s.order with
    | nil =>
      rw [h.length_eq, horder, List.length_nil] at hfull
      exact absurd hfull (by omega)
    | cons oldest order =>
      have hremove : (⟨Assoc.erase oldest s.entries, order⟩ : Fifo κ α) = s.remove oldest := by
        rw [Fifo.remove, horder, List.erase_cons_head]
      have hmem : oldest ∈ s.keys := (h.mem_keys oldest).mpr (horder ▸ List.mem_cons_self)
      show WellFormed capacity (⟨Assoc.erase oldest s.entries, order⟩ : Fifo κ α) ∧
        (⟨Assoc.erase oldest s.entries, order⟩ : Fifo κ α).entries.length < capacity
      rw [hremove]
      refine ⟨h.remove oldest, ?_⟩
      have hlength : (s.remove oldest).entries.length = s.keys.length - 1 := by
        rw [length_entries, show (s.remove oldest).keys = s.keys.erase oldest from
          Assoc.keys_erase oldest s.entries, List.length_erase_of_mem hmem]
      have hbounded := h.bounded
      rw [hlength]
      rw [length_entries] at hfull hbounded
      omega
  · exact ⟨h, by omega⟩

theorem WellFormed.push (h : s.WellFormed capacity) (hroom : s.entries.length < capacity)
    (hk : k ∉ s.keys) (v : α) : (s.push k v).WellFormed capacity := by
  have hkeys : (s.push k v).keys = s.keys ++ [k] := by
    unfold Fifo.push keys
    rw [Assoc.keys_insert]
    exact if_neg hk
  have horder : k ∉ s.order := fun hmem => hk ((h.mem_keys k).mpr hmem)
  refine ⟨fun k' => ?_, ?_, ?_, ?_⟩
  · rw [hkeys, List.mem_append, h.mem_keys]
    exact List.mem_append.symm
  · rw [hkeys, List.nodup_append]
    exact ⟨h.nodupKeys, List.nodup_singleton k, fun a ha b hb e =>
      hk (List.mem_singleton.mp hb ▸ e ▸ ha)⟩
  · show (s.order ++ [k]).Nodup
    rw [List.nodup_append]
    exact ⟨h.nodup, List.nodup_singleton k, fun a ha b hb e =>
      horder (List.mem_singleton.mp hb ▸ e ▸ ha)⟩
  · rw [length_entries, hkeys, List.length_append, List.length_singleton, ← length_entries]
    omega

theorem notMem_evict (h : s.WellFormed capacity) (hk : k ∉ s.keys) :
    k ∉ (s.evict capacity).keys := by
  intro hmem
  obtain ⟨v, hv⟩ := find?_isSome hmem
  rcases find?_evict h k with hsame | hnone
  · exact hk (mem_keys_of_find? (hsame.symm.trans hv))
  · rw [hnone] at hv
    cases hv

/-! ### Taking a new key back -/

theorem remove_push (hk : k ∉ s.keys) (horder : k ∉ s.order) (v : α) : (s.push k v).remove k = s := by
  unfold push remove
  rw [Assoc.insert_of_notMem v hk]
  have hentries : ∀ l : List (κ × α), k ∉ l.map Prod.fst → Assoc.erase k (l ++ [(k, v)]) = l := by
    intro l hl
    induction l with
    | nil => exact if_pos rfl
    | cons p l ih =>
      obtain ⟨k', v'⟩ := p
      simp only [List.map_cons, List.mem_cons, not_or] at hl
      rw [List.cons_append, Assoc.erase, if_neg fun e : k' = k => hl.1 e.symm, ih hl.2]
  rw [hentries s.entries hk, List.erase_append_right _ horder, List.erase_cons_head, List.append_nil]

theorem evict_of_room (hroom : s.entries.length < capacity) : s.evict capacity = s :=
  if_neg (by omega)

theorem evict_order_eq_iff (h : s.WellFormed capacity) (hcapacity : 0 < capacity) :
    (s.evict capacity).order = s.order ↔ s.entries.length < capacity := by
  refine ⟨fun horder => ?_, fun hroom => by rw [evict_of_room hroom]⟩
  obtain ⟨hevict, hroom⟩ := h.evict hcapacity
  rwa [hevict.length_eq, horder, ← h.length_eq] at hroom

end Fifo
