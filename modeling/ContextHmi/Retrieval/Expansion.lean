import ContextHmi.Retrieval.Hints

/-!
# How a scope grows

A scope of one asset takes in one asset for each relationship that touches it, until the limit is
reached. As long as nothing was turned away the limit plays no part.

* `foldl_extend_untruncated` : without a truncation, the growth is the one without a limit;
* `foldl_extend_join`        : a limit that is large enough truncates nothing;
* `length_orderedScopeIds`   : the assets of a context are as many as its scope has at most;
* `scopeOf_of_grows`         : a scope that can grow does, or is marked.
-/

namespace ContextHmi.Retrieval

/-! ### Growing without a limit -/

/-- What a relationship adds to a scope. -/
def join (ids : List Bytes) (rel : Relationship) : List Bytes :=
  if ids.contains rel.fromId then ids.insert rel.toId
  else if ids.contains rel.toId then ids.insert rel.fromId
  else ids

theorem subset_join (ids : List Bytes) (rel : Relationship) : ids ⊆ join ids rel := by
  intro id hid
  unfold join
  split_ifs
  · exact List.mem_insert_of_mem hid
  · exact List.mem_insert_of_mem hid
  · exact hid

theorem length_insert_le (id : Bytes) (ids : List Bytes) :
    (ids.insert id).length ≤ ids.length + 1 := by
  rw [List.length_insert]
  split_ifs
  · exact Nat.le_succ _
  · exact le_rfl

theorem length_join_le (ids : List Bytes) (rel : Relationship) :
    (join ids rel).length ≤ ids.length + 1 := by
  unfold join
  split_ifs
  · exact length_insert_le _ _
  · exact length_insert_le _ _
  · exact Nat.le_succ _

theorem subset_foldl_join (rels : List Relationship) (ids : List Bytes) :
    ids ⊆ rels.foldl join ids := by
  induction rels generalizing ids with
  | nil => exact List.Subset.refl ids
  | cons rel rels ih => exact List.Subset.trans (subset_join ids rel) (ih _)

/-! ### Growing up to a limit -/

theorem extend_truncated {limit : Nat} {scope : Scope} (rel : Relationship)
    (h : scope.truncated = true) : (scope.extend limit rel).truncated = true := by
  unfold Scope.extend
  dsimp only
  split_ifs
  · exact h
  · exact h
  · rfl
  · exact h

theorem foldl_extend_truncated {limit : Nat} (rels : List Relationship) {scope : Scope}
    (h : scope.truncated = true) : (rels.foldl (Scope.extend limit) scope).truncated = true := by
  induction rels generalizing scope with
  | nil => exact h
  | cons rel rels ih => exact ih (extend_truncated rel h)

theorem extend_of_lt {limit : Nat} {scope : Scope} (rel : Relationship)
    (h : scope.ids.length < limit) :
    scope.extend limit rel = { scope with ids := join scope.ids rel } := by
  unfold Scope.extend join
  cases hfrom : scope.ids.contains rel.fromId
  · cases hto : scope.ids.contains rel.toId
    · simp
    · simp [h]
  · simp [h]

theorem extend_untruncated {limit : Nat} {scope : Scope} {rel : Relationship}
    (h : (scope.extend limit rel).truncated = false) :
    (scope.extend limit rel).ids = join scope.ids rel := by
  by_cases hlt : scope.ids.length < limit
  · rw [extend_of_lt rel hlt]
  · revert h
    unfold Scope.extend join
    cases hfrom : scope.ids.contains rel.fromId
    · cases hto : scope.ids.contains rel.toId
      · simp
      · simp [hlt]
    · cases hto : scope.ids.contains rel.toId
      · simp [hlt]
      · have hmem : rel.toId ∈ scope.ids := by simpa using hto
        simp [hlt, List.insert_of_mem hmem]

theorem extend_subset {limit : Nat} (scope : Scope) (rel : Relationship) :
    scope.ids ⊆ (scope.extend limit rel).ids := by
  intro id hid
  unfold Scope.extend
  dsimp only
  split_ifs
  · exact List.mem_insert_of_mem hid
  · exact List.mem_insert_of_mem hid
  · exact hid
  · exact hid

theorem foldl_extend_subset {limit : Nat} (rels : List Relationship) (scope : Scope) :
    scope.ids ⊆ (rels.foldl (Scope.extend limit) scope).ids := by
  induction rels generalizing scope with
  | nil => exact List.Subset.refl _
  | cons rel rels ih => exact List.Subset.trans (extend_subset scope rel) (ih _)

/-- **Without a truncation**, the scope grows as it does without a limit. -/
theorem foldl_extend_untruncated {limit : Nat} {rels : List Relationship} {scope : Scope}
    (h : (rels.foldl (Scope.extend limit) scope).truncated = false) :
    (rels.foldl (Scope.extend limit) scope).ids = rels.foldl join scope.ids := by
  induction rels generalizing scope with
  | nil => rfl
  | cons rel rels ih =>
    have hstep : (scope.extend limit rel).truncated = false := by
      by_contra htrue
      rw [Bool.not_eq_false] at htrue
      rw [List.foldl_cons, foldl_extend_truncated rels htrue] at h
      cases h
    rw [List.foldl_cons, List.foldl_cons, ih h, extend_untruncated hstep]

/-- **A limit above everything there is** to add truncates nothing. -/
theorem foldl_extend_join {limit : Nat} {rels : List Relationship} {scope : Scope}
    (h : scope.ids.length + rels.length ≤ limit) :
    rels.foldl (Scope.extend limit) scope = { scope with ids := rels.foldl join scope.ids } := by
  induction rels generalizing scope with
  | nil => rfl
  | cons rel rels ih =>
    rw [List.length_cons] at h
    have hlength := length_join_le scope.ids rel
    rw [List.foldl_cons, List.foldl_cons, extend_of_lt rel (by omega), ih (by dsimp only; omega)]

/-! ### The scope of a request -/

section
variable {index : ModelIndex} {limit : Nat} {eligible : List Bytes} {specific : Bool}

theorem initialScope_of_untruncated {limit' : Nat}
    (h : (initialScope index limit eligible specific).truncated = false)
    (hlimit : index.assets.length ≤ limit') :
    initialScope index limit eligible specific = initialScope index limit' eligible specific := by
  revert h
  unfold initialScope
  split_ifs
  · intro h
    rw [decide_eq_false_iff_not, not_lt] at h
    rw [List.take_of_length_le (by simpa using h), List.take_of_length_le (by simpa using hlimit),
      decide_eq_false (by omega), decide_eq_false (by omega)]
  · exact fun _ => rfl

theorem scopeOf_of_untruncated {limit' : Nat}
    (h : (scopeOf index limit eligible specific).truncated = false)
    (hassets : index.assets.length ≤ limit') (hrels : index.relationships.length < limit') :
    scopeOf index limit eligible specific = scopeOf index limit' eligible specific := by
  have hinitial : (initialScope index limit eligible specific).truncated = false := by
    by_contra htrue
    rw [Bool.not_eq_false] at htrue
    revert h
    unfold scopeOf
    dsimp only
    split_ifs
    · rw [foldl_extend_truncated _ htrue]
      exact Bool.noConfusion
    · rw [htrue]
      exact Bool.noConfusion
  have hsame := initialScope_of_untruncated hinitial hassets
  revert h
  unfold scopeOf
  dsimp only
  rw [← hsame]
  split_ifs with hone
  · intro h
    have hroom : (initialScope index limit eligible specific).ids.length +
        index.relationships.length ≤ limit' := by omega
    rw [foldl_extend_join hroom, ← foldl_extend_untruncated h, hinitial, ← h]
  · exact fun _ => rfl

theorem eligible_subset_scopeOf : eligible ⊆ (scopeOf index limit eligible specific).ids := by
  have hinitial : eligible ⊆ (initialScope index limit eligible specific).ids := by
    unfold initialScope
    split_ifs with hnone
    · rw [Bool.and_eq_true, List.isEmpty_iff] at hnone
      rw [hnone.1]
      exact List.nil_subset _
    · exact List.Subset.refl _
  unfold scopeOf
  dsimp only
  split_ifs
  · exact List.Subset.trans hinitial (foldl_extend_subset _ _)
  · exact hinitial

/-- **A context has no more assets than its scope.** -/
theorem length_orderedScopeIds (hassets : (index.assets.map (·.id)).Nodup)
    (heligible : eligible.Nodup) {scope : Scope} (hsub : eligible ⊆ scope.ids) :
    (orderedScopeIds index eligible scope).length ≤ scope.ids.length := by
  refine (List.subperm_of_subset ?_ ?_).length_le
  · refine List.nodup_append.mpr ⟨heligible, hassets.filter _, ?_⟩
    rintro id hid _ hrest rfl
    have hnew := (List.mem_filter.mp hrest).2
    simp [hid] at hnew
  · intro id hid
    rcases List.mem_append.mp hid with hid | hid
    · exact hsub hid
    · have hin := (List.mem_filter.mp hid).2
      rw [Bool.and_eq_true] at hin
      simpa using hin.1

/-- Some relationship leads away from a sole eligible asset. -/
def Grows (index : ModelIndex) (eligible : List Bytes) : Prop :=
  eligible.length = 1 ∧ ∃ rel ∈ index.relationships, rel.fromId ∈ eligible ∨ rel.toId ∈ eligible

theorem extend_of_apart {scope : Scope} {rel : Relationship}
    (h : ¬ (rel.fromId ∈ scope.ids ∨ rel.toId ∈ scope.ids)) : scope.extend limit rel = scope := by
  rw [not_or] at h
  unfold Scope.extend
  simp [h.1, h.2]

theorem foldl_extend_apart {rels : List Relationship} {scope : Scope}
    (h : ∀ rel ∈ rels, ¬ (rel.fromId ∈ scope.ids ∨ rel.toId ∈ scope.ids)) :
    rels.foldl (Scope.extend limit) scope = scope := by
  induction rels with
  | nil => rfl
  | cons rel rels ih =>
    rw [List.forall_mem_cons] at h
    rw [List.foldl_cons, extend_of_apart h.1, ih h.2]

theorem extend_full {id : Bytes} {truncated : Bool} {rel : Relationship} (hlimit : limit ≤ 1)
    (hdistinct : rel.fromId ≠ rel.toId) (h : rel.fromId ∈ [id] ∨ rel.toId ∈ [id]) :
    (Scope.mk [id] truncated).extend limit rel = ⟨[id], true⟩ := by
  rw [List.mem_singleton, List.mem_singleton] at h
  unfold Scope.extend
  rcases h with rfl | rfl
  · simp [hdistinct.symm, Nat.not_lt.mpr hlimit]
  · simp [hdistinct, Nat.not_lt.mpr hlimit]

theorem foldl_extend_full {rels : List Relationship} {id : Bytes} (hlimit : limit ≤ 1)
    (hdistinct : ∀ rel ∈ rels, rel.fromId ≠ rel.toId) :
    rels.foldl (Scope.extend limit) ⟨[id], true⟩ = ⟨[id], true⟩ := by
  induction rels with
  | nil => rfl
  | cons rel rels ih =>
    rw [List.forall_mem_cons] at hdistinct
    rw [List.foldl_cons]
    by_cases htouch : rel.fromId ∈ [id] ∨ rel.toId ∈ [id]
    · rw [extend_full hlimit hdistinct.1 htouch, ih hdistinct.2]
    · rw [extend_of_apart htouch, ih hdistinct.2]

/-- **A scope of one asset** takes in both ends of a relationship that leads away from it, or has no
room for it. -/
theorem foldl_extend_sole {rels : List Relationship} {id : Bytes}
    (hdistinct : ∀ rel ∈ rels, rel.fromId ≠ rel.toId)
    (h : ∃ rel ∈ rels, rel.fromId ∈ [id] ∨ rel.toId ∈ [id]) :
    (1 < limit ∧ ∃ rel ∈ rels, rel.fromId ∈ (rels.foldl (Scope.extend limit) ⟨[id], false⟩).ids ∧
      rel.toId ∈ (rels.foldl (Scope.extend limit) ⟨[id], false⟩).ids) ∨
    (limit ≤ 1 ∧ rels.foldl (Scope.extend limit) ⟨[id], false⟩ = ⟨[id], true⟩) := by
  induction rels with
  | nil =>
    obtain ⟨rel, hrel, -⟩ := h
    cases hrel
  | cons rel rels ih =>
    rw [List.forall_mem_cons] at hdistinct
    rw [List.foldl_cons]
    by_cases htouch : rel.fromId ∈ [id] ∨ rel.toId ∈ [id]
    · by_cases hlimit : 1 < limit
      · refine .inl ⟨hlimit, rel, List.mem_cons_self, ?_⟩
        have hjoin : rel.fromId ∈ join [id] rel ∧ rel.toId ∈ join [id] rel := by
          rw [List.mem_singleton, List.mem_singleton] at htouch
          unfold join
          rcases htouch with rfl | rfl
          · simp
          · simp [hdistinct.1]
        rw [extend_of_lt rel hlimit]
        exact ⟨foldl_extend_subset _ _ hjoin.1, foldl_extend_subset _ _ hjoin.2⟩
      · rw [not_lt] at hlimit
        rw [extend_full hlimit hdistinct.1 htouch, foldl_extend_full hlimit hdistinct.2]
        exact .inr ⟨hlimit, rfl⟩
    · obtain ⟨other, hother, hends⟩ := h
      have hrest : ∃ rel ∈ rels, rel.fromId ∈ [id] ∨ rel.toId ∈ [id] := by
        rcases List.mem_cons.mp hother with rfl | hother
        · exact absurd hends htouch
        · exact ⟨other, hother, hends⟩
      rw [extend_of_apart htouch]
      rcases ih hdistinct.2 hrest with ⟨hlimit, found, hfound, hboth⟩ | hfull
      · exact .inl ⟨hlimit, found, List.mem_cons_of_mem rel hfound, hboth⟩
      · exact .inr hfull

theorem scopeOf_of_not_grows (heligible : eligible ≠ []) (h : ¬ Grows index eligible) :
    scopeOf index limit eligible specific = ⟨eligible, false⟩ := by
  have hinitial : initialScope index limit eligible specific = ⟨eligible, false⟩ := by
    unfold initialScope
    rw [List.isEmpty_eq_false_iff.mpr heligible]
    rfl
  rw [scopeOf, hinitial]
  by_cases hone : eligible.length = 1
  · have hapart : ∀ rel ∈ index.relationships, ¬ (rel.fromId ∈ eligible ∨ rel.toId ∈ eligible) :=
      fun rel hrel htouch => h ⟨hone, rel, hrel, htouch⟩
    exact (if_pos hone).trans (foldl_extend_apart hapart)
  · exact if_neg hone

/-- **A scope that grows** has room for another asset and takes one in, or is marked. -/
theorem scopeOf_of_grows (limit : Nat) (specific : Bool)
    (hdistinct : ∀ rel ∈ index.relationships, rel.fromId ≠ rel.toId) (h : Grows index eligible) :
    (1 < limit ∧ ∃ rel ∈ index.relationships,
      rel.fromId ∈ (scopeOf index limit eligible specific).ids ∧
        rel.toId ∈ (scopeOf index limit eligible specific).ids) ∨
    (limit ≤ 1 ∧ scopeOf index limit eligible specific = ⟨eligible, true⟩) := by
  obtain ⟨hone, htouch⟩ := h
  obtain ⟨id, rfl⟩ := List.length_eq_one_iff.mp hone
  exact foldl_extend_sole hdistinct htouch

end

end ContextHmi.Retrieval
