import ContextHmi.Json.Value

/-!
# The bounded cache

`BoundedJsonCache`: a map with an expiry, and the list of its keys from the one used last to the one
used first. A lookup of an expired entry erases it, and a new key pushes out the key used least
recently once the cache is full. Clock readings are arguments.

* `Every.get`, `Every.put`, `Every.clear` : what holds of every entry keeps holding;
* `get_put`                               : an entry is found until it expires.
-/

namespace ContextHmi.Runtime

structure CacheConfig where
  capacity : Nat := 128
  timeToLive : Nat := 300000

structure CacheEntry where
  value : Json
  expiresAt : Nat
  /-- The key at the node of `recency_` the entry's iterator points to. -/
  recency : Bytes

structure Cache where
  config : CacheConfig
  recency : List Bytes := []
  entries : List (Bytes × CacheEntry) := []
  hits : Nat := 0
  misses : Nat := 0
  expirations : Nat := 0
  evictions : Nat := 0
  invalidations : Nat := 0

namespace Cache

/-- `recency_.splice(recency_.begin(), recency_, node)`. -/
def touch (cache : Cache) (node : Bytes) : Cache :=
  { cache with recency := node :: cache.recency.erase node }

/-- `erase_locked`. -/
def eraseLocked (cache : Cache) (key : Bytes) (entry : CacheEntry) : Cache :=
  { cache with
    recency := cache.recency.erase entry.recency
    entries := Assoc.erase key cache.entries }

/-- `get`. -/
def get (cache : Cache) (now : Nat) (key : Bytes) : Option Json × Cache :=
  match Assoc.find? key cache.entries with
  | none => (none, { cache with misses := cache.misses + 1 })
  | some entry =>
    if entry.expiresAt ≤ now then
      (none, { cache.eraseLocked key entry with
        expirations := cache.expirations + 1
        misses := cache.misses + 1 })
    else (some entry.value, { cache.touch entry.recency with hits := cache.hits + 1 })

/-- The cache with room for another key: full, it gives up the key used least recently. -/
def evict (cache : Cache) : Cache :=
  if cache.config.capacity ≤ cache.entries.length then
    match cache.recency.getLast? with
    | none => cache
    | some oldest => match Assoc.find? oldest cache.entries with
      | none => cache
      | some entry => { cache.eraseLocked oldest entry with evictions := cache.evictions + 1 }
  else cache

/-- `put`. -/
def put (cache : Cache) (now : Nat) (key : Bytes) (value : Json) : Cache :=
  let expiration := now + cache.config.timeToLive
  match Assoc.find? key cache.entries with
  | some entry => { cache.touch entry.recency with
      entries := Assoc.insert key ⟨value, expiration, entry.recency⟩ cache.entries }
  | none => { cache.evict with
      recency := key :: cache.evict.recency
      entries := cache.evict.entries ++ [(key, ⟨value, expiration, key⟩)] }

/-- `clear`. -/
def clear (cache : Cache) : Cache :=
  { cache with
    invalidations := cache.invalidations + cache.entries.length
    entries := []
    recency := [] }

/-! ### What every entry satisfies -/

/-- A property of every key and its value. -/
def Every (P : Bytes → Json → Prop) (cache : Cache) : Prop :=
  ∀ p ∈ cache.entries, P p.1 p.2.value

variable {P : Bytes → Json → Prop} {cache : Cache} {key : Bytes} {value : Json} {now : Nat}

theorem Every.eraseLocked (h : cache.Every P) (key : Bytes) (entry : CacheEntry) :
    (cache.eraseLocked key entry).Every P :=
  fun p hp => h p (Assoc.mem_erase hp)

theorem every_clear : cache.clear.Every P := fun _ h => nomatch h

theorem Every.get (h : cache.Every P) (now : Nat) (key : Bytes) : (cache.get now key).2.Every P := by
  unfold Cache.get
  split
  · exact h
  · rename_i entry _
    split
    · exact h.eraseLocked key entry
    · exact h

theorem Every.found (h : cache.Every P) (hget : (cache.get now key).1 = some value) :
    P key value := by
  unfold Cache.get at hget
  split at hget
  · cases hget
  · rename_i entry hfind
    split at hget
    · cases hget
    · obtain rfl := Option.some.inj hget
      exact h _ (Assoc.find?_mem hfind)

theorem Every.evict (h : cache.Every P) : cache.evict.Every P := by
  unfold Cache.evict
  split
  · split
    · exact h
    · rename_i oldest _
      split
      · exact h
      · rename_i entry _
        exact h.eraseLocked oldest entry
  · exact h

theorem Every.put (h : cache.Every P) (hvalue : P key value) (now : Nat) :
    (cache.put now key value).Every P := by
  intro p hp
  unfold Cache.put at hp
  simp only at hp
  split at hp
  · rcases Assoc.mem_insert hp with rfl | hp
    · exact hvalue
    · exact h p hp
  · rcases List.mem_append.mp hp with hp | hp
    · exact h.evict p hp
    · rw [List.mem_singleton.mp hp]
      exact hvalue

/-! ### Finding what was put -/

theorem find?_evict_of_none (h : Assoc.find? key cache.entries = none) :
    Assoc.find? key cache.evict.entries = none := by
  unfold Cache.evict
  split
  · split
    · exact h
    · rename_i oldest _
      split
      · exact h
      · rename_i entry hfind
        have hne : key ≠ oldest := fun e => by simp [← e, h] at hfind
        exact (Assoc.find?_erase_ne hne _).trans h
  · exact h

/-- **An entry is found until it expires.** -/
theorem get_put (hlive : now < now' + cache.config.timeToLive) :
    ((cache.put now' key value).get now key).1 = some value := by
  have hfind : ∃ recency, Assoc.find? key (cache.put now' key value).entries =
      some ⟨value, now' + cache.config.timeToLive, recency⟩ := by
    unfold Cache.put
    simp only
    split
    · exact ⟨_, Assoc.find?_insert_self _ _ _⟩
    · rename_i hnone
      refine ⟨key, ?_⟩
      rw [Assoc.find?_append, find?_evict_of_none hnone, Option.none_or, Assoc.find?_cons,
        if_pos rfl]
  obtain ⟨recency, hfind⟩ := hfind
  unfold Cache.get
  rw [hfind]
  simp only
  rw [if_neg (Nat.not_le.mpr hlive)]

end Cache

end ContextHmi.Runtime
