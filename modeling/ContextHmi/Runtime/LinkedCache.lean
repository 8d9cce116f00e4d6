import ContextHmi.Runtime.Cache

/-!
# The bounded cache, with its iterators

`BoundedJsonCache` as its two containers are: the nodes of the list of keys have addresses, and an
entry of the map keeps the address of the node of its own key, through which the node is moved to the
front or erased. The cache of keys alone is what remains when the addresses are forgotten.

* `Shows.get`, `Shows.put`, `Shows.clear` : the operations do what those on keys alone do.
-/

namespace ContextHmi.Runtime

/-- A node of `recency_`. -/
structure Node where
  address : Nat
  key : Bytes
  deriving DecidableEq

/-- `BoundedJsonCache::Entry`. -/
structure LinkedEntry where
  value : Json
  expiresAt : Nat
  /-- The node the iterator points to. -/
  recency : Nat

structure LinkedCache where
  config : CacheConfig
  recency : List Node := []
  entries : List (Bytes × LinkedEntry) := []
  /-- The address of the next node. -/
  allocated : Nat := 0
  hits : UInt64 := 0
  misses : UInt64 := 0
  expirations : UInt64 := 0
  evictions : UInt64 := 0
  invalidations : UInt64 := 0

/-- Nanoseconds, the ticks of `steady_clock`. -/
def ticks (milliseconds : Nat) : Nat := milliseconds * 1000000

namespace LinkedCache

/-- The constructor. -/
def create (config : CacheConfig) : Result LinkedCache :=
  if config.capacity = 0 ∨ 4096 < config.capacity ∨ config.timeToLive < 1000 ∨
      24 * 60 * 60 * 1000 < config.timeToLive then
    .error (.runtime "cache limits are out of range")
  else .ok { config }

/-- `recency_.splice(recency_.begin(), recency_, node)`. -/
def splice (cache : LinkedCache) (address : Nat) : LinkedCache :=
  match cache.recency.find? (·.address = address) with
  | some node =>
    { cache with recency := node :: cache.recency.eraseP (·.address = address) }
  | none => cache

/-- `erase_locked`. -/
def eraseLocked (cache : LinkedCache) (key : Bytes) (location : LinkedEntry) : LinkedCache :=
  { cache with
    recency := cache.recency.eraseP (·.address = location.recency)
    entries := Assoc.erase key cache.entries }

/-- `get`. -/
def get (cache : LinkedCache) (now : Nat) (key : Bytes) : Option Json × LinkedCache :=
  match Assoc.find? key cache.entries with
  | none => (none, { cache with misses := cache.misses + 1 })
  | some found =>
    if found.expiresAt ≤ now then
      (none, { cache.eraseLocked key found with
        expirations := cache.expirations + 1
        misses := cache.misses + 1 })
    else (some found.value, { cache.splice found.recency with hits := cache.hits + 1 })

/-- The part of `put` that makes room. -/
def evict (cache : LinkedCache) : LinkedCache :=
  if cache.config.capacity ≤ cache.entries.length then
    match cache.recency.getLast? with
    | none => cache
    | some back => match Assoc.find? back.key cache.entries with
      | none => cache
      | some oldest =>
        { cache.eraseLocked back.key oldest with evictions := cache.evictions + 1 }
  else cache

/-- `recency_.push_front` and `entries_.emplace` of a key that has no entry. -/
def pushFront (cache : LinkedCache) (key : Bytes) (value : Json) (expiration : Nat) : LinkedCache :=
  { cache with
    recency := ⟨cache.allocated, key⟩ :: cache.recency
    entries := cache.entries ++ [(key, ⟨value, expiration, cache.allocated⟩)]
    allocated := cache.allocated + 1 }

/-- `put`. -/
def put (cache : LinkedCache) (now : Nat) (key : Bytes) (value : Json) : LinkedCache :=
  let expiration := now + ticks cache.config.timeToLive
  match Assoc.find? key cache.entries with
  | some existing => { cache.splice existing.recency with
      entries := Assoc.insert key ⟨value, expiration, existing.recency⟩ cache.entries }
  | none => cache.evict.pushFront key value expiration

/-- `clear`. -/
def clear (cache : LinkedCache) : LinkedCache :=
  { cache with
    invalidations := cache.invalidations + UInt64.ofNat cache.entries.length
    entries := []
    recency := [] }

/-! ### The addresses forgotten -/

/-- An entry whose iterator points at its own key. -/
def forgotten (p : Bytes × LinkedEntry) : Bytes × CacheEntry :=
  (p.1, ⟨p.2.value, p.2.expiresAt, p.1⟩)

/-- A cache of keys alone is the one with iterators, which all point at their own keys. -/
structure Shows (linked : LinkedCache) (cache : Cache) : Prop where
  capacity : cache.config.capacity = linked.config.capacity
  timeToLive : cache.config.timeToLive = ticks linked.config.timeToLive
  recency : cache.recency = linked.recency.map Node.key
  entries : cache.entries = linked.entries.map forgotten
  addresses : (linked.recency.map Node.address).Nodup
  allocated : ∀ node ∈ linked.recency, node.address < linked.allocated
  pointed : ∀ p ∈ linked.entries, (⟨p.2.recency, p.1⟩ : Node) ∈ linked.recency
  hits : linked.hits = UInt64.ofNat cache.hits
  misses : linked.misses = UInt64.ofNat cache.misses
  expirations : linked.expirations = UInt64.ofNat cache.expirations
  evictions : linked.evictions = UInt64.ofNat cache.evictions
  invalidations : linked.invalidations = UInt64.ofNat cache.invalidations

theorem ofNat_succ (n : Nat) : UInt64.ofNat n + 1 = UInt64.ofNat (n + 1) := by
  rw [UInt64.ofNat_add]
  rfl

section
variable {l : List Node} {node : Node}

theorem find?_address (haddress : (l.map Node.address).Nodup) (hmem : node ∈ l) :
    l.find? (fun n => n.address = node.address) = some node :=
  (Assoc.findKey_eq_some_iff Node.address haddress).mpr ⟨hmem, rfl⟩

theorem eraseP_address (haddress : (l.map Node.address).Nodup) (hmem : node ∈ l) :
    l.eraseP (fun n => n.address = node.address) = l.erase node := by
  induction l with
  | nil => cases hmem
  | cons n l ih =>
    rw [List.map_cons, List.nodup_cons] at haddress
    by_cases e : n = node
    · subst e
      rw [List.eraseP_cons_of_pos (by simp), List.erase_cons_head]
    · have hmem' : node ∈ l := (List.mem_cons.mp hmem).resolve_left (Ne.symm e)
      have hne : n.address ≠ node.address := fun h => haddress.1 (h ▸ List.mem_map_of_mem hmem')
      rw [List.eraseP_cons_of_neg (by simpa using hne), List.erase_cons_tail (by simpa using e),
        ih haddress.2 hmem']

theorem keys_erase (hkeys : (l.map Node.key).Nodup) (hmem : node ∈ l) :
    (l.erase node).map Node.key = (l.map Node.key).erase node.key := by
  induction l with
  | nil => cases hmem
  | cons n l ih =>
    rw [List.map_cons, List.nodup_cons] at hkeys
    by_cases e : n = node
    · subst e
      rw [List.erase_cons_head, List.map_cons, List.erase_cons_head]
    · have hmem' : node ∈ l := (List.mem_cons.mp hmem).resolve_left (Ne.symm e)
      have hne : n.key ≠ node.key := fun h => hkeys.1 (h ▸ List.mem_map_of_mem hmem')
      rw [List.erase_cons_tail (by simpa using e), List.map_cons, List.map_cons,
        List.erase_cons_tail (by simpa using hne), ih hkeys.2 hmem']

end

namespace Shows

variable {linked : LinkedCache} {cache : Cache} {key : Bytes} {entry : LinkedEntry}

theorem find? (h : linked.Shows cache) (key : Bytes) : Assoc.find? key cache.entries =
    (Assoc.find? key linked.entries).map fun e => ⟨e.value, e.expiresAt, key⟩ := by
  rw [h.entries]
  exact Assoc.find?_mapKey (fun k (e : LinkedEntry) => (⟨e.value, e.expiresAt, k⟩ : CacheEntry))
    key linked.entries

theorem length (h : linked.Shows cache) : cache.entries.length = linked.entries.length := by
  rw [h.entries, List.length_map]

theorem node_mem (h : linked.Shows cache) (hfind : Assoc.find? key linked.entries = some entry) :
    (⟨entry.recency, key⟩ : Node) ∈ linked.recency :=
  h.pointed _ (Assoc.find?_mem hfind)

theorem splice_eq (h : linked.Shows cache) (hfind : Assoc.find? key linked.entries = some entry) :
    linked.splice entry.recency = { linked with recency :=
      ⟨entry.recency, key⟩ :: linked.recency.erase ⟨entry.recency, key⟩ } := by
  have hmem := h.node_mem hfind
  rw [LinkedCache.splice, find?_address h.addresses hmem]
  simp only [eraseP_address h.addresses hmem]

theorem splice (h : linked.Shows cache) (hkeys : cache.recency.Nodup)
    (hfind : Assoc.find? key linked.entries = some entry) :
    (linked.splice entry.recency).Shows (cache.touch key) := by
  have hmem := h.node_mem hfind
  have hperm := List.perm_cons_erase hmem
  rw [h.splice_eq hfind]
  refine { h with
    recency := ?_
    addresses := ?_
    allocated := ?_
    pointed := ?_ }
  · show key :: cache.recency.erase key = _
    rw [h.recency] at hkeys ⊢
    rw [List.map_cons, keys_erase hkeys hmem]
  · exact (hperm.map Node.address).nodup_iff.mp h.addresses
  · intro node hnode
    exact h.allocated node (hperm.mem_iff.mpr hnode)
  · intro p hp
    exact hperm.mem_iff.mp (h.pointed p hp)

theorem eraseLocked (h : linked.Shows cache) (hkeys : cache.recency.Nodup)
    (hentries : (cache.entries.map Prod.fst).Nodup)
    (hfind : Assoc.find? key linked.entries = some entry) :
    (linked.eraseLocked key entry).Shows
      (cache.eraseLocked key ⟨entry.value, entry.expiresAt, key⟩) := by
  have hmem := h.node_mem hfind
  have herase : (linked.eraseLocked key entry).recency =
      linked.recency.erase ⟨entry.recency, key⟩ := eraseP_address h.addresses hmem
  have hnodes : linked.recency.Nodup := h.addresses.of_map _
  have hkeys' : (linked.entries.map Prod.fst).Nodup := by
    rw [h.entries, List.map_map] at hentries
    exact hentries
  refine { h with
    recency := ?_
    entries := ?_
    addresses := ?_
    allocated := ?_
    pointed := ?_ }
  · show cache.recency.erase key = _
    rw [h.recency] at hkeys ⊢
    rw [herase, keys_erase hkeys hmem]
  · show Assoc.erase key cache.entries = _
    rw [h.entries]
    exact Assoc.erase_mapKey (fun k (e : LinkedEntry) => (⟨e.value, e.expiresAt, k⟩ : CacheEntry))
      key linked.entries
  · rw [herase]
    exact h.addresses.sublist (List.erase_sublist.map _)
  · intro node hnode
    rw [herase] at hnode
    exact h.allocated node (List.mem_of_mem_erase hnode)
  · intro p hp
    have hne : p.1 ≠ key := by
      intro e
      have hin : p.1 ∈ (Assoc.erase key linked.entries).map Prod.fst := List.mem_map_of_mem hp
      rw [e] at hin
      exact Assoc.find?_eq_none_iff.mp (Assoc.find?_erase_self hkeys') hin
    rw [herase, hnodes.mem_erase_iff]
    exact ⟨fun e => hne (congrArg Node.key e), h.pointed p (Assoc.mem_erase hp)⟩

theorem get (h : linked.Shows cache) (hkeys : cache.recency.Nodup)
    (hentries : (cache.entries.map Prod.fst).Nodup) (now : Nat) (key : Bytes) :
    (linked.get now key).1 = (cache.get now key).1 ∧
      (linked.get now key).2.Shows (cache.get now key).2 := by
  unfold LinkedCache.get Cache.get
  rw [h.find?]
  cases hfind : Assoc.find? key linked.entries with
  | none => exact ⟨rfl, { h with misses := h.misses ▸ ofNat_succ _ }⟩
  | some found =>
    simp only [Option.map_some]
    by_cases hexpired : found.expiresAt ≤ now
    · rw [if_pos hexpired, if_pos hexpired]
      exact ⟨rfl, { h.eraseLocked hkeys hentries hfind with
        misses := h.misses ▸ ofNat_succ _
        expirations := h.expirations ▸ ofNat_succ _ }⟩
    · rw [if_neg hexpired, if_neg hexpired]
      exact ⟨rfl, { h.splice hkeys hfind with hits := h.hits ▸ ofNat_succ _ }⟩

theorem evict (h : linked.Shows cache) (hkeys : cache.recency.Nodup)
    (hentries : (cache.entries.map Prod.fst).Nodup) : linked.evict.Shows cache.evict := by
  unfold LinkedCache.evict Cache.evict
  rw [h.capacity, h.length]
  by_cases hfull : linked.config.capacity ≤ linked.entries.length
  · rw [if_pos hfull, if_pos hfull, h.recency, List.getLast?_map]
    cases linked.recency.getLast? with
    | none => exact h
    | some back =>
      simp only [Option.map_some, h.find?]
      cases hfind : Assoc.find? back.key linked.entries with
      | none => exact h
      | some oldest =>
        exact { h.eraseLocked hkeys hentries hfind with
          evictions := h.evictions ▸ ofNat_succ _ }
  · rw [if_neg hfull, if_neg hfull]
    exact h

theorem pushFront (h : linked.Shows cache) (key : Bytes) (value : Json) (expiration : Nat) :
    (linked.pushFront key value expiration).Shows { cache with
      recency := key :: cache.recency
      entries := cache.entries ++ [(key, ⟨value, expiration, key⟩)] } := by
  refine { h with
    recency := ?_
    entries := ?_
    addresses := ?_
    allocated := ?_
    pointed := ?_ }
  · show key :: cache.recency = _
    rw [h.recency]
    rfl
  · show cache.entries ++ _ = _
    rw [h.entries, LinkedCache.pushFront, List.map_append]
    rfl
  · refine List.nodup_cons.mpr ⟨fun hin => ?_, h.addresses⟩
    obtain ⟨node, hnode, haddress⟩ := List.mem_map.mp hin
    have hlt := h.allocated node hnode
    rw [haddress] at hlt
    exact absurd hlt (lt_irrefl _)
  · intro node hnode
    show node.address < linked.allocated + 1
    rcases List.mem_cons.mp hnode with hnode | hnode
    · rw [hnode]
      exact Nat.lt_succ_self _
    · exact (h.allocated node hnode).trans (Nat.lt_succ_self _)
  · intro p hp
    rcases List.mem_append.mp hp with hp | hp
    · exact List.mem_cons_of_mem _ (h.pointed p hp)
    · rw [List.mem_singleton.mp hp]
      exact List.mem_cons_self

theorem put (h : linked.Shows cache) (hkeys : cache.recency.Nodup)
    (hentries : (cache.entries.map Prod.fst).Nodup) (now : Nat) (key : Bytes) (value : Json) :
    (linked.put now key value).Shows (cache.put now key value) := by
  unfold LinkedCache.put Cache.put
  simp only
  rw [h.find?]
  cases hfind : Assoc.find? key linked.entries with
  | none =>
    simp only [Option.map_none, h.timeToLive]
    exact (h.evict hkeys hentries).pushFront key value _
  | some existing =>
    simp only [Option.map_some, h.timeToLive]
    have hsplice := h.splice hkeys hfind
    refine { hsplice with
      entries := ?_
      pointed := ?_ }
    · show Assoc.insert key _ cache.entries = _
      rw [h.entries]
      exact Assoc.insert_mapKey
        (fun k (e : LinkedEntry) => (⟨e.value, e.expiresAt, k⟩ : CacheEntry)) key
        ⟨value, now + ticks linked.config.timeToLive, existing.recency⟩ linked.entries
    · intro p hp
      have hsame : (linked.splice existing.recency).entries = linked.entries := by
        rw [h.splice_eq hfind]
      rcases Assoc.mem_insert hp with hp | hp
      · rw [hp]
        exact hsplice.pointed (key, existing) (hsame ▸ Assoc.find?_mem hfind)
      · exact hsplice.pointed p (hsame ▸ hp)

theorem clear (h : linked.Shows cache) : linked.clear.Shows cache.clear := by
  refine { h with
    recency := rfl
    entries := rfl
    addresses := .nil
    allocated := fun _ hnode => nomatch hnode
    pointed := fun _ hp => nomatch hp
    invalidations := ?_ }
  show linked.invalidations + UInt64.ofNat linked.entries.length = UInt64.ofNat
    (cache.invalidations + cache.entries.length)
  rw [h.invalidations, h.length, UInt64.ofNat_add]

end Shows

end LinkedCache

end ContextHmi.Runtime
