import ContextHmi.Runtime.LinkedCache
import ContextHmi.Library.Recency

/-!
# Runs of the bounded cache

Any sequence of calls on a new cache, against the map that forgets what was used least recently. The
reference holds the value put last under each key until it is cleared, is found to be too old, or is
the oldest key when a new one needs its place; the cache answers as the reference does.

* `Represents.get`, `Represents.put`, `Represents.clear` : a call keeps the two together;
* `lru_exact`                                            : the cache is an exact map of this kind.
-/

namespace ContextHmi.Runtime

open Recency

/-! ### A cache of keys against the reference -/

/-- The reference holds what the entries of the cache say, in the order of the list of keys. -/
structure Cache.Represents (cache : Cache) (r : Reference Bytes Json) : Prop where
  ordered : r.OrderedBy cache.recency
  nodup : (cache.entries.map Prod.fst).Nodup
  entries : ∀ k, Assoc.find? k cache.entries =
    (r.held k).map fun h => ⟨h.value, h.putAt + cache.config.timeToLive, k⟩

namespace Cache.Represents

variable {cache : Cache} {r : Reference Bytes Json} {key : Bytes} {entry : CacheEntry}

theorem perm (h : cache.Represents r) : cache.recency.Perm (cache.entries.map Prod.fst) := by
  rw [List.perm_ext_iff_of_nodup h.ordered.nodup h.nodup]
  intro k
  have hfind := Assoc.find?_eq_none_iff (k := k) (l := cache.entries)
  rw [h.entries, Option.map_eq_none_iff] at hfind
  rw [h.ordered.mem, ← not_iff_not, ← hfind, Bool.not_eq_true, Option.isSome_eq_false_iff,
    Option.isNone_iff_eq_none]

theorem ncard_keys (h : cache.Represents r) : r.keys.ncard = cache.entries.length := by
  rw [h.ordered.ncard_keys, h.perm.length_eq, List.length_map]

theorem eraseLocked (h : cache.Represents r) (hfind : Assoc.find? key cache.entries = some entry) :
    (cache.eraseLocked key entry).Represents (r.drop key) := by
  have hkey : entry.recency = key := by
    rw [h.entries] at hfind
    obtain ⟨held, -, rfl⟩ := Option.map_eq_some_iff.mp hfind
    rfl
  refine ⟨?_, ?_, fun k => ?_⟩
  · show (r.drop key).OrderedBy (cache.recency.erase entry.recency)
    rw [hkey]
    exact h.ordered.drop key
  · exact Assoc.nodup_erase key h.nodup
  · show Assoc.find? k (Assoc.erase key cache.entries) = _
    rw [Reference.held_drop]
    by_cases e : k = key
    · rw [if_pos e, e, Assoc.find?_erase_self h.nodup, Option.map_none]
    · rw [if_neg e, Assoc.find?_erase_ne e]
      exact h.entries k

theorem get (h : cache.Represents r) (hlive : 0 < cache.config.timeToLive) (now : Nat)
    (key : Bytes) : (cache.get now key).1 = (r.get cache.config.timeToLive now key).1 ∧
      (cache.get now key).2.Represents (r.get cache.config.timeToLive now key).2 := by
  unfold Cache.get Reference.get
  have hentry := h.entries key
  cases hheld : r.held key with
  | none =>
    rw [hheld, Option.map_none] at hentry
    rw [hentry]
    exact ⟨rfl, ⟨h.ordered, h.nodup, h.entries⟩⟩
  | some held =>
    rw [hheld, Option.map_some] at hentry
    rw [hentry]
    simp only
    by_cases hexpired : held.putAt + cache.config.timeToLive ≤ now
    · have hold : ¬ now - held.putAt < cache.config.timeToLive := by omega
      rw [if_pos hexpired, if_neg hold]
      have herased := h.eraseLocked hentry
      exact ⟨rfl, ⟨herased.ordered, herased.nodup, herased.entries⟩⟩
    · have hnew : now - held.putAt < cache.config.timeToLive := by omega
      rw [if_neg hexpired, if_pos hnew]
      refine ⟨rfl, ⟨h.ordered.use key held.value held.putAt, h.nodup, fun k => ?_⟩⟩
      rw [Reference.held_use]
      by_cases e : k = key
      · rw [if_pos e, e]
        exact hentry
      · rw [if_neg e]
        exact h.entries k

theorem evict_full (h : cache.Represents r) (hcapacity : 0 < cache.config.capacity)
    (hfull : cache.config.capacity ≤ cache.entries.length) :
    ∃ l oldest entry, cache.recency = l ++ [oldest] ∧
      Assoc.find? oldest cache.entries = some entry ∧ cache.evict =
        { cache.eraseLocked oldest entry with evictions := cache.evictions + 1 } := by
  have hlength : 0 < cache.recency.length := by
    rw [h.perm.length_eq, List.length_map]
    omega
  obtain hnil | ⟨l, oldest, hl⟩ := List.eq_nil_or_concat' cache.recency
  · rw [hnil] at hlength
    cases hlength
  · have hlast : cache.recency.getLast? = some oldest := by
      rw [hl, List.getLast?_concat]
    have hheld : (r.held oldest).isSome = true := by
      rw [← h.ordered.mem, hl]
      exact List.mem_append_right _ (List.mem_singleton_self oldest)
    obtain ⟨held, hheld⟩ := Option.isSome_iff_exists.mp hheld
    have hfind := h.entries oldest
    rw [hheld, Option.map_some] at hfind
    refine ⟨l, oldest, _, hl, hfind, ?_⟩
    rw [Cache.evict, if_pos hfull, hlast]
    simp only [hfind]

theorem evict (h : cache.Represents r) (hcapacity : 0 < cache.config.capacity) :
    cache.evict.Represents
      (if cache.config.capacity ≤ r.keys.ncard then r.dropOldest else r) := by
  rw [h.ncard_keys]
  by_cases hfull : cache.config.capacity ≤ cache.entries.length
  · obtain ⟨l, oldest, entry, hl, hfind, hevict⟩ := h.evict_full hcapacity hfull
    have hordered := h.ordered
    rw [hl] at hordered
    rw [if_pos hfull, hordered.dropOldest, hevict]
    have herased := h.eraseLocked hfind
    exact ⟨herased.ordered, herased.nodup, herased.entries⟩
  · rw [if_neg hfull, Cache.evict, if_neg hfull]
    exact h

theorem evict_config (cache : Cache) : cache.evict.config = cache.config := by
  unfold Cache.evict
  split_ifs
  · split
    · rfl
    · split <;> rfl
  · rfl

theorem insert (h : cache.Represents r) (hnone : Assoc.find? key cache.entries = none)
    {now expiration : Nat} (hexpiration : expiration = now + cache.config.timeToLive)
    (value : Json) :
    ({ cache with
        recency := key :: cache.recency
        entries := cache.entries ++ [(key, ⟨value, expiration, key⟩)] } : Cache).Represents
      (r.use key value now) := by
  have hheld : r.held key = none := by
    rw [h.entries, Option.map_eq_none_iff] at hnone
    exact hnone
  have hnew : key ∉ cache.recency := by
    rw [h.ordered.mem, hheld]
    exact Bool.false_ne_true
  refine ⟨?_, ?_, fun k => ?_⟩
  · have huse := h.ordered.use key value now
    rwa [List.erase_of_not_mem hnew] at huse
  · show ((cache.entries ++ [(key, _)]).map Prod.fst).Nodup
    rw [← Assoc.insert_of_notMem _ (Assoc.find?_eq_none_iff.mp hnone)]
    exact Assoc.nodup_insert key _ h.nodup
  · show Assoc.find? k (cache.entries ++ [(key, _)]) = _
    rw [Reference.held_use, Assoc.find?_append, h.entries]
    by_cases e : k = key
    · rw [if_pos e, e, hheld, Option.map_none, Option.none_or, Assoc.find?_cons, if_pos rfl,
        hexpiration]
      rfl
    · rw [if_neg e, Assoc.find?_cons, if_neg (Ne.symm e), Assoc.find?_nil, Option.or_none]

theorem put (h : cache.Represents r) (hcapacity : 0 < cache.config.capacity) (now : Nat)
    (key : Bytes) (value : Json) :
    (cache.put now key value).Represents (r.put cache.config.capacity now key value) := by
  unfold Cache.put Reference.put
  have hentry := h.entries key
  cases hheld : r.held key with
  | none =>
    rw [hheld, Option.map_none] at hentry
    rw [hentry]
    simp only [Option.isSome_none, Bool.false_eq_true, if_false]
    exact (h.evict hcapacity).insert (Cache.find?_evict_of_none hentry)
      (by rw [evict_config]) value
  | some held =>
    rw [hheld, Option.map_some] at hentry
    rw [hentry]
    simp only [Option.isSome_some, if_true]
    refine ⟨h.ordered.use key value now, Assoc.nodup_insert key _ h.nodup, fun k => ?_⟩
    rw [Reference.held_use]
    by_cases e : k = key
    · rw [if_pos e, e]
      exact Assoc.find?_insert_self key _ cache.entries
    · rw [if_neg e]
      exact (Assoc.find?_insert_ne (Ne.symm e) _ cache.entries).trans (h.entries k)

theorem clear (_ : cache.Represents r) : cache.clear.Represents r.clear :=
  ⟨Reference.OrderedBy.clear r, List.nodup_nil, fun _ => rfl⟩

end Cache.Represents

/-! ### What a cache counts -/

/-- The counters of a cache against the number of lookups and of keys that were inserted. -/
structure Cache.Counts (cache : Cache) (lookups inserted : Nat) : Prop where
  lookups : cache.hits + cache.misses = lookups
  inserted : cache.entries.length + cache.evictions + cache.expirations + cache.invalidations =
    inserted
  bounded : cache.entries.length ≤ cache.config.capacity

namespace Cache.Counts

variable {cache : Cache} {r : Reference Bytes Json} {lookups inserted : Nat} {key : Bytes}

theorem get (h : cache.Counts lookups inserted) (now : Nat) (key : Bytes) :
    (cache.get now key).2.Counts (lookups + 1) inserted := by
  obtain ⟨hlookups, hinserted, hbounded⟩ := h
  unfold Cache.get
  cases hfind : Assoc.find? key cache.entries with
  | none =>
    refine ⟨?_, hinserted, hbounded⟩
    show cache.hits + (cache.misses + 1) = lookups + 1
    omega
  | some entry =>
    simp only
    by_cases hexpired : entry.expiresAt ≤ now
    · rw [if_pos hexpired]
      have hlength := Assoc.length_erase hfind
      refine ⟨?_, ?_, ?_⟩
      · show cache.hits + (cache.misses + 1) = lookups + 1
        omega
      · show (Assoc.erase key cache.entries).length + cache.evictions + (cache.expirations + 1) +
          cache.invalidations = inserted
        omega
      · show (Assoc.erase key cache.entries).length ≤ cache.config.capacity
        omega
    · rw [if_neg hexpired]
      refine ⟨?_, hinserted, hbounded⟩
      show cache.hits + 1 + cache.misses = lookups + 1
      omega

theorem evict (h : cache.Counts lookups inserted) (hr : cache.Represents r)
    (hcapacity : 0 < cache.config.capacity) : cache.evict.Counts lookups inserted ∧
      cache.evict.entries.length < cache.config.capacity := by
  by_cases hfull : cache.config.capacity ≤ cache.entries.length
  · obtain ⟨l, oldest, entry, -, hfind, hevict⟩ := hr.evict_full hcapacity hfull
    obtain ⟨hlookups, hinserted, hbounded⟩ := h
    have hlength := Assoc.length_erase hfind
    rw [hevict]
    refine ⟨⟨hlookups, ?_, ?_⟩, ?_⟩
    · show (Assoc.erase oldest cache.entries).length + (cache.evictions + 1) + cache.expirations +
        cache.invalidations = inserted
      omega
    · show (Assoc.erase oldest cache.entries).length ≤ cache.config.capacity
      omega
    · show (Assoc.erase oldest cache.entries).length < cache.config.capacity
      omega
  · rw [Cache.evict, if_neg hfull]
    exact ⟨h, not_le.mp hfull⟩

theorem put (h : cache.Counts lookups inserted) (hr : cache.Represents r)
    (hcapacity : 0 < cache.config.capacity) (now : Nat) (key : Bytes) (value : Json) :
    (cache.put now key value).Counts lookups
      (inserted + if (r.held key).isSome then 0 else 1) := by
  unfold Cache.put
  have hentry := hr.entries key
  cases hheld : r.held key with
  | none =>
    rw [hheld, Option.map_none] at hentry
    obtain ⟨⟨hlookups, hinserted, -⟩, hroom⟩ := h.evict hr hcapacity
    rw [hentry]
    simp only
    refine ⟨hlookups, ?_, ?_⟩
    · show (cache.evict.entries ++ [_]).length + cache.evict.evictions + cache.evict.expirations +
        cache.evict.invalidations = inserted + 1
      rw [List.length_append, List.length_singleton]
      omega
    · show (cache.evict.entries ++ [_]).length ≤ cache.evict.config.capacity
      rw [List.length_append, List.length_singleton, Represents.evict_config]
      exact hroom
  | some held =>
    rw [hheld, Option.map_some] at hentry
    obtain ⟨hlookups, hinserted, hbounded⟩ := h
    have hlength : (Assoc.insert key (⟨value, now + cache.config.timeToLive, key⟩ : CacheEntry)
        cache.entries).length = cache.entries.length := by
      have hkeys := Assoc.keys_insert key (⟨value, now + cache.config.timeToLive, key⟩ : CacheEntry)
        cache.entries
      rw [if_pos (List.mem_map_of_mem (Assoc.find?_mem hentry))] at hkeys
      simpa using congrArg List.length hkeys
    rw [hentry]
    simp only [Option.isSome_some, if_true, Nat.add_zero]
    refine ⟨hlookups, ?_, ?_⟩
    · show (Assoc.insert key _ cache.entries).length + _ + _ + _ = inserted
      rw [hlength]
      exact hinserted
    · show (Assoc.insert key _ cache.entries).length ≤ _
      rw [hlength]
      exact hbounded

theorem clear (h : cache.Counts lookups inserted) : cache.clear.Counts lookups inserted := by
  obtain ⟨hlookups, hinserted, -⟩ := h
  refine ⟨hlookups, ?_, Nat.zero_le _⟩
  show 0 + cache.evictions + cache.expirations + (cache.invalidations + cache.entries.length) =
    inserted
  omega

end Cache.Counts

/-! ### Runs -/

inductive CacheCall where
  | get (key : Bytes)
  | put (key : Bytes) (value : Json)
  | clear

def CacheCall.isGet : CacheCall → Bool
  | .get _ => true
  | _ => false

/-- What a call answers, and the cache after it; only `get` answers. -/
def LinkedCache.call (linked : LinkedCache) (now : Nat) : CacheCall → Option Json × LinkedCache
  | .get key => linked.get now key
  | .put key value => (none, linked.put now key value)
  | .clear => (none, linked.clear)

/-- What the reference answers under the limits of the cache. -/
noncomputable def referenceCall (config : CacheConfig) (r : Reference Bytes Json) (now : Nat) :
    CacheCall → Option Json × Reference Bytes Json
  | .get key => r.get (ticks config.timeToLive) now key
  | .put key value => (none, r.put config.capacity now key value)
  | .clear => (none, r.clear)

/-- The answers to calls made one after the other, each at its clock reading, and what they leave. -/
def runCalls {σ : Type} (call : σ → Nat → CacheCall → Option Json × σ) :
    σ → List (Nat × CacheCall) → List (Option Json) × σ
  | s, [] => ([], s)
  | s, (now, c) :: rest =>
    ((call s now c).1 :: (runCalls call (call s now c).2 rest).1,
      (runCalls call (call s now c).2 rest).2)

/-- The number of keys a call inserts: one that has no entry when it is put. -/
def LinkedCache.inserts (linked : LinkedCache) : CacheCall → Nat
  | .put key _ => if (Assoc.find? key linked.entries).isSome then 0 else 1
  | _ => 0

def LinkedCache.inserted : LinkedCache → List (Nat × CacheCall) → Nat
  | _, [] => 0
  | linked, (now, c) :: rest =>
    linked.inserts c + LinkedCache.inserted (linked.call now c).2 rest

def lookups (calls : List (Nat × CacheCall)) : Nat := calls.countP fun c => c.2.isGet

theorem config_get (cache : Cache) (now : Nat) (key : Bytes) :
    (cache.get now key).2.config = cache.config := by
  unfold Cache.get
  cases Assoc.find? key cache.entries with
  | none => rfl
  | some entry =>
    simp only
    by_cases h : entry.expiresAt ≤ now
    · rw [if_pos h]
      rfl
    · rw [if_neg h]
      rfl

theorem config_put (cache : Cache) (now : Nat) (key : Bytes) (value : Json) :
    (cache.put now key value).config = cache.config := by
  unfold Cache.put
  cases Assoc.find? key cache.entries with
  | none => exact Cache.Represents.evict_config cache
  | some entry => rfl

/-- The cache with iterators, by way of the one of keys alone, against the reference. -/
def Tracks (config : CacheConfig) (linked : LinkedCache) (r : Reference Bytes Json)
    (gets puts : Nat) : Prop :=
  ∃ cache : Cache, cache.config = ⟨config.capacity, ticks config.timeToLive⟩ ∧
    linked.Shows cache ∧ cache.Represents r ∧ cache.Counts gets puts

section
variable {config : CacheConfig} {linked : LinkedCache} {r : Reference Bytes Json} {gets puts : Nat}

theorem Tracks.call (hcapacity : 0 < config.capacity) (hlive : 0 < ticks config.timeToLive)
    (h : Tracks config linked r gets puts) (now : Nat) (c : CacheCall) :
    (linked.call now c).1 = (referenceCall config r now c).1 ∧
      Tracks config (linked.call now c).2 (referenceCall config r now c).2
        (gets + if c.isGet then 1 else 0) (puts + linked.inserts c) := by
  obtain ⟨cache, hconfig, hshows, hrepresents, hcounts⟩ := h
  have hcapacity' : 0 < cache.config.capacity := by rwa [hconfig]
  have hlive' : 0 < cache.config.timeToLive := by rwa [hconfig]
  cases c with
  | get key =>
    obtain ⟨hsame, hshown⟩ := hshows.get hrepresents.ordered.nodup hrepresents.nodup now key
    obtain ⟨hanswer, hkept⟩ := hrepresents.get hlive' now key
    rw [hconfig] at hanswer hkept
    exact ⟨hsame.trans hanswer, _, (config_get cache now key).trans hconfig, hshown, hkept,
      hcounts.get now key⟩
  | put key value =>
    have hkept := hrepresents.put hcapacity' now key value
    rw [hconfig] at hkept
    have hheld : (Assoc.find? key linked.entries).isSome = (r.held key).isSome := by
      have hfind := hrepresents.entries key
      rw [hshows.find?] at hfind
      simpa using congrArg Option.isSome hfind
    have hcounted := hcounts.put hrepresents hcapacity' now key value
    rw [← hheld] at hcounted
    exact ⟨rfl, _, (config_put cache now key value).trans hconfig,
      hshows.put hrepresents.ordered.nodup hrepresents.nodup now key value, hkept, hcounted⟩
  | clear =>
    exact ⟨rfl, cache.clear, hconfig, hshows.clear, hrepresents.clear, hcounts.clear⟩

theorem Tracks.run (hcapacity : 0 < config.capacity) (hlive : 0 < ticks config.timeToLive)
    (h : Tracks config linked r gets puts) (calls : List (Nat × CacheCall)) :
    (runCalls LinkedCache.call linked calls).1 = (runCalls (referenceCall config) r calls).1 ∧
      Tracks config (runCalls LinkedCache.call linked calls).2
        (runCalls (referenceCall config) r calls).2 (gets + lookups calls)
        (puts + linked.inserted calls) := by
  induction calls generalizing linked r gets puts with
  | nil => exact ⟨rfl, h⟩
  | cons first calls ih =>
    obtain ⟨now, c⟩ := first
    obtain ⟨hanswer, hnext⟩ := h.call hcapacity hlive now c
    obtain ⟨hanswers, hlast⟩ := ih hnext
    rw [lookups, List.countP_cons, LinkedCache.inserted, Nat.add_comm (List.countP _ _),
      ← Nat.add_assoc, ← Nat.add_assoc]
    exact ⟨congrArg₂ List.cons hanswer hanswers, hlast⟩

theorem tracks_initial (config : CacheConfig) : Tracks config { config } {} 0 0 := by
  refine ⟨{ config := ⟨config.capacity, ticks config.timeToLive⟩ }, rfl, ?_, ?_, ?_⟩
  · exact ⟨rfl, rfl, rfl, rfl, .nil, fun _ h => (nomatch h), fun _ h => (nomatch h), rfl, rfl, rfl,
      rfl, rfl⟩
  · exact ⟨Reference.OrderedBy.initial, List.nodup_nil, fun _ => rfl⟩
  · exact ⟨rfl, rfl, Nat.zero_le _⟩

end

/-! ### The cache is exact -/

/-- The list of keys and the map are one enumeration of the keys, each entry with the node of its own
key, within the capacity. -/
structure LinkedCache.Linked (linked : LinkedCache) (config : CacheConfig) : Prop where
  distinct : (linked.recency.map Node.key).Nodup
  enumerates : (linked.recency.map Node.key).Perm (linked.entries.map Prod.fst)
  pointed : ∀ p ∈ linked.entries, linked.recency.find? (·.address = p.2.recency) =
    some ⟨p.2.recency, p.1⟩
  bounded : linked.entries.length ≤ config.capacity

/-- The counters of a cache after some lookups and insertions; they are of 64 bits. -/
structure LinkedCache.Counted (linked : LinkedCache) (gets puts : Nat) : Prop where
  lookups : linked.hits + linked.misses = UInt64.ofNat gets
  inserted : UInt64.ofNat linked.entries.length =
    UInt64.ofNat puts - linked.evictions - linked.expirations - linked.invalidations
  lookups_nat : gets < 2 ^ 64 → linked.hits.toNat + linked.misses.toNat = gets
  inserted_nat : puts < 2 ^ 64 → linked.entries.length + linked.evictions.toNat +
    linked.expirations.toNat + linked.invalidations.toNat = puts

theorem toNat_ofNat_of_le {n m : Nat} (hle : n ≤ m) (hm : m < 2 ^ 64) :
    (UInt64.ofNat n).toNat = n := by
  rw [UInt64.toNat_ofNat']
  exact Nat.mod_eq_of_lt (hle.trans_lt hm)

theorem Tracks.counted {config : CacheConfig} {linked : LinkedCache} {r : Reference Bytes Json}
    {gets puts : Nat} (h : Tracks config linked r gets puts) : linked.Counted gets puts := by
  obtain ⟨cache, -, hshows, -, hlookups, hinserted, -⟩ := h
  rw [hshows.length] at hinserted
  refine ⟨?_, ?_, fun hgets => ?_, fun hputs => ?_⟩
  · rw [hshows.hits, hshows.misses, ← UInt64.ofNat_add, hlookups]
  · rw [hshows.evictions, hshows.expirations, hshows.invalidations, ← hinserted]
    simp only [UInt64.ofNat_add]
    grind
  · rw [hshows.hits, hshows.misses, toNat_ofNat_of_le (m := gets) (by omega) hgets,
      toNat_ofNat_of_le (m := gets) (by omega) hgets, hlookups]
  · rw [hshows.evictions, hshows.expirations, hshows.invalidations,
      toNat_ofNat_of_le (m := puts) (by omega) hputs,
      toNat_ofNat_of_le (m := puts) (by omega) hputs,
      toNat_ofNat_of_le (m := puts) (by omega) hputs, hinserted]

theorem Tracks.linked {config : CacheConfig} {linked : LinkedCache} {r : Reference Bytes Json}
    {gets puts : Nat} (h : Tracks config linked r gets puts) : linked.Linked config := by
  obtain ⟨cache, hconfig, hshows, hrepresents, hcounts⟩ := h
  have hperm := hrepresents.perm
  rw [hshows.recency, hshows.entries, List.map_map] at hperm
  refine ⟨hshows.recency ▸ hrepresents.ordered.nodup, hperm, fun p hp => ?_, ?_⟩
  · exact LinkedCache.find?_address hshows.addresses (hshows.pointed p hp)
  · rw [← hshows.length]
    have hbounded := hcounts.bounded
    rwa [hconfig] at hbounded

/-- **The bounded cache is an exact map that forgets what was used least recently.** A cache that was
made under its limits answers any calls, at any clock readings, as the reference does, and stays an
enumeration of its keys within its capacity, with counters that add up. -/
theorem lru_exact {config : CacheConfig} {linked : LinkedCache}
    (h : LinkedCache.create config = .ok linked) (calls : List (Nat × CacheCall)) :
    (runCalls LinkedCache.call linked calls).1 = (runCalls (referenceCall config) {} calls).1 ∧
      (runCalls LinkedCache.call linked calls).2.Linked config ∧
      (runCalls LinkedCache.call linked calls).2.Counted (lookups calls)
        (linked.inserted calls) := by
  unfold LinkedCache.create at h
  split_ifs at h with hlimits
  rw [not_or, not_or, not_or] at hlimits
  obtain ⟨hcapacity, -, hlive, -⟩ := hlimits
  cases h
  have hticks : 0 < ticks config.timeToLive := by
    unfold ticks
    omega
  obtain ⟨hanswers, hafter⟩ := (tracks_initial config).run (Nat.pos_of_ne_zero hcapacity) hticks calls
  rw [Nat.zero_add, Nat.zero_add] at hafter
  exact ⟨hanswers, hafter.linked, hafter.counted⟩

/-- The cache of the tests: two entries, of which the one that was not read gives way. -/
theorem lru_exact_sample :
    (runCalls LinkedCache.call { config := ⟨2, 5000⟩ }
        [(0, .put "a" .null), (1, .put "b" .null), (2, .get "a"), (3, .put "c" .null)]).1 =
      (runCalls (referenceCall ⟨2, 5000⟩) {}
        [(0, .put "a" .null), (1, .put "b" .null), (2, .get "a"), (3, .put "c" .null)]).1 ∧
    (runCalls LinkedCache.call { config := ⟨2, 5000⟩ }
      [(0, .put "a" .null), (1, .put "b" .null), (2, .get "a"), (3, .put "c" .null)]).2.Linked
        ⟨2, 5000⟩ ∧
    (runCalls LinkedCache.call { config := ⟨2, 5000⟩ }
      [(0, .put "a" .null), (1, .put "b" .null), (2, .get "a"), (3, .put "c" .null)]).2.Counted
        (lookups [(0, .put "a" .null), (1, .put "b" .null), (2, .get "a"), (3, .put "c" .null)])
        (LinkedCache.inserted { config := ⟨2, 5000⟩ }
          [(0, .put "a" .null), (1, .put "b" .null), (2, .get "a"), (3, .put "c" .null)]) :=
  lru_exact rfl _

end ContextHmi.Runtime
