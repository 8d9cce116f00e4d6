import ContextHmi.Json.Value
import ContextHmi.Library.While

/-!
# Limits of an artifact

What an engineering bundle may not exceed, and the check of the structure of its JSON: a loop over a
stack of values that grows while it is consumed. The stack always stands for the nodes that were not
visited yet, which is what every turn lowers.

* `validateJsonLimits_exact` : the loop ends, visits every node once with its depth, and returns
  exactly where the recursive definition of the limits holds.
-/

namespace ContextHmi.Import

open Outcome

/-- `Limits`. -/
structure Limits where
  maxFileBytes : Nat := 1024 * 1024
  maxArtifacts : Nat := 32
  maxRecordsPerArtifact : Nat := 8192
  maxColumns : Nat := 32
  maxFieldBytes : Nat := 4096
  maxTotalRecords : Nat := 32768
  maxStringBytes : Nat := 4096
  maxJsonDepth : Nat := 32
  maxJsonNodes : Nat := 32768

/-! ### The loop -/

/-- A value and how deep it is. -/
abbrev Placed := Json × Nat

/-- The variables of `validate_json_limits`; the back of `pending` is the head of the list. -/
structure Worklist where
  pending : List Placed
  nodes : Nat := 0

def tooComplex (path : Bytes) : Error :=
  .importing "json_too_complex" path "JSON artifact exceeds the configured depth or node limit"

def stringTooLarge (path : Bytes) : Error :=
  .importing "field_too_large" path "JSON string exceeds the configured byte limit"

def keyTooLarge (path : Bytes) : Error :=
  .importing "field_too_large" path "JSON key exceeds the configured byte limit"

/-- What is pushed for a value, in the order it is pushed. -/
def members : Json → List Json
  | .obj fields => fields.map (·.2)
  | .arr items => items
  | _ => []

/-- The values of the members are pushed one by one, each once its key was looked at. -/
def pushMembers (limits : Limits) (path : Bytes) (depth : Nat) :
    List (Bytes × Json) → List Placed → Result (List Placed)
  | [], pending => .ok pending
  | (key, value) :: rest, pending =>
    if limits.maxStringBytes < key.length then .error (keyTooLarge path)
    else pushMembers limits path depth rest ((value, depth + 1) :: pending)

/-- The body of the loop. -/
def visit (limits : Limits) (path : Bytes) (s : Worklist) : Result Worklist :=
  match s.pending with
  | [] => .ok s
  | (current, depth) :: rest =>
    if limits.maxJsonNodes < s.nodes + 1 ∨ limits.maxJsonDepth < depth then
      .error (tooComplex path)
    else if current.isStringWith (fun text => limits.maxStringBytes < text.length) then
      .error (stringTooLarge path)
    else match current with
      | .obj fields => do
        let pending ← pushMembers limits path depth fields rest
        return ⟨pending, s.nodes + 1⟩
      | .arr items =>
        .ok ⟨items.foldl (fun pending item => (item, depth + 1) :: pending) rest, s.nodes + 1⟩
      | _ => .ok ⟨rest, s.nodes + 1⟩

/-- The condition of the loop. -/
def unfinished (s : Worklist) : Result Bool := .ok (!s.pending.isEmpty)

/-! ### The nodes of a value -/

mutual

/-- Every node of a value with its depth: the value first, then what is inside. -/
def nodes (depth : Nat) : Json → List Placed
  | .obj fields => (.obj fields, depth) :: nodesOfFields (depth + 1) fields
  | .arr items => (.arr items, depth) :: nodesOfItems (depth + 1) items
  | j => [(j, depth)]

def nodesOfItems (depth : Nat) : List Json → List Placed
  | [] => []
  | item :: items => nodes depth item ++ nodesOfItems depth items

def nodesOfFields (depth : Nat) : List (Bytes × Json) → List Placed
  | [] => []
  | field :: fields => nodes depth field.2 ++ nodesOfFields depth fields

end

/-- The nodes a stack stands for. -/
def allNodes (pending : List Placed) : List Placed := pending.flatMap fun p => nodes p.2 p.1

/-- `validate_json_limits`, on fuel that is never used up. -/
def validateJsonLimits (limits : Limits) (path : Bytes) (value : Json) : Result Unit := do
  let start : Worklist := { pending := [(value, 0)] }
  let _ ← whileLoop unfinished (visit limits path) ((allNodes start.pending).length + 1) start
  return ()

theorem nodesOfItems_eq (depth : Nat) (items : List Json) :
    nodesOfItems depth items = items.flatMap (nodes depth) := by
  induction items with
  | nil => rw [nodesOfItems, List.flatMap_nil]
  | cons item items ih => rw [nodesOfItems, List.flatMap_cons, ih]

theorem nodesOfFields_eq (depth : Nat) (fields : List (Bytes × Json)) :
    nodesOfFields depth fields = (fields.map (·.2)).flatMap (nodes depth) := by
  induction fields with
  | nil => rw [nodesOfFields, List.map_nil, List.flatMap_nil]
  | cons field fields ih => rw [nodesOfFields, List.map_cons, List.flatMap_cons, ih]

theorem nodes_eq (depth : Nat) (j : Json) :
    nodes depth j = (j, depth) :: (members j).flatMap (nodes (depth + 1)) := by
  cases j with
  | obj fields => rw [nodes, nodesOfFields_eq, members]
  | arr items => rw [nodes, nodesOfItems_eq, members]
  | _ => rfl

/-! ### One turn -/

/-- What is asked of a node. -/
structure Fits (limits : Limits) (node : Placed) : Prop where
  depth : node.2 ≤ limits.maxJsonDepth
  string : ∀ text, node.1 = .str text → text.length ≤ limits.maxStringBytes
  keys : ∀ field ∈ node.1.fields, field.1.length ≤ limits.maxStringBytes

section
variable {limits : Limits} {path : Bytes} {current : Json} {depth n : Nat} {rest : List Placed}

theorem foldl_push (items : List Json) (rest : List Placed) :
    items.foldl (fun pending item => (item, depth + 1) :: pending) rest =
      (items.map fun item => (item, depth + 1)).reverse ++ rest := by
  induction items generalizing rest with
  | nil => rfl
  | cons item items ih =>
    rw [List.foldl_cons, ih, List.map_cons, List.reverse_cons, List.append_assoc]
    rfl

theorem pushMembers_eq (fields : List (Bytes × Json)) (rest : List Placed) :
    pushMembers limits path depth fields rest =
      if ∀ field ∈ fields, field.1.length ≤ limits.maxStringBytes then
        .ok (((fields.map (·.2)).map fun value => (value, depth + 1)).reverse ++ rest)
      else .error (keyTooLarge path) := by
  induction fields generalizing rest with
  | nil => exact (if_pos (List.forall_mem_nil _)).symm
  | cons field fields ih =>
    obtain ⟨key, value⟩ := field
    rw [pushMembers, ih]
    simp only [List.forall_mem_cons, List.map_cons, List.reverse_cons, List.append_assoc]
    by_cases hkey : limits.maxStringBytes < key.length
    · rw [if_pos hkey, if_neg fun h => absurd h.1 (not_le.mpr hkey)]
    · rw [if_neg hkey]
      simp only [not_lt.mp hkey, true_and]
      rfl

/-- The stack after a turn. -/
def pushed (current : Json) (depth : Nat) (rest : List Placed) : List Placed :=
  ((members current).map fun value => (value, depth + 1)).reverse ++ rest

/-- **A turn goes on exactly where the node fits and there is room for it**, and otherwise throws
one of the two errors. -/
theorem visit_eq (limits : Limits) (path : Bytes) (current : Json) (depth n : Nat)
    (rest : List Placed) : (Fits limits (current, depth) ∧ n + 1 ≤ limits.maxJsonNodes ∧
        visit limits path ⟨(current, depth) :: rest, n⟩ =
          .ok ⟨pushed current depth rest, n + 1⟩) ∨
      (¬ (Fits limits (current, depth) ∧ n + 1 ≤ limits.maxJsonNodes) ∧
        (visit limits path ⟨(current, depth) :: rest, n⟩ = .error (tooComplex path) ∨
          visit limits path ⟨(current, depth) :: rest, n⟩ = .error (stringTooLarge path) ∨
          visit limits path ⟨(current, depth) :: rest, n⟩ = .error (keyTooLarge path))) := by
  unfold visit
  simp only
  by_cases hcomplex : limits.maxJsonNodes < n + 1 ∨ limits.maxJsonDepth < depth
  · right
    rw [if_pos hcomplex]
    refine ⟨fun h => ?_, .inl rfl⟩
    have hdepth : depth ≤ limits.maxJsonDepth := h.1.depth
    have hnodes := h.2
    omega
  · rw [if_neg hcomplex]
    rw [not_or, not_lt, not_lt] at hcomplex
    obtain ⟨hnodes, hdepth⟩ := hcomplex
    cases current with
    | str text =>
      by_cases hlong : (Json.str text).isStringWith
          (fun text => limits.maxStringBytes < text.length) = true
      · right
        rw [if_pos hlong]
        have hlt : limits.maxStringBytes < text.length := of_decide_eq_true hlong
        exact ⟨fun h => absurd (h.1.string text rfl) (not_le.mpr hlt), .inr (.inl rfl)⟩
      · left
        rw [if_neg hlong]
        refine ⟨⟨hdepth, fun s hs => ?_, List.forall_mem_nil _⟩, hnodes, rfl⟩
        cases hs
        exact not_lt.mp fun h => hlong (decide_eq_true h)
    | obj fields =>
      rw [if_neg (by simp [Json.isStringWith])]
      simp only [pushMembers_eq]
      by_cases hkeys : ∀ field ∈ fields, field.1.length ≤ limits.maxStringBytes
      · left
        rw [if_pos hkeys]
        exact ⟨⟨hdepth, fun s hs => (by cases hs), hkeys⟩, hnodes, rfl⟩
      · right
        rw [if_neg hkeys]
        exact ⟨fun h => hkeys h.1.keys, .inr (.inr rfl)⟩
    | arr items =>
      left
      refine ⟨⟨hdepth, fun s hs => (by cases hs), List.forall_mem_nil _⟩, hnodes, ?_⟩
      rw [if_neg (by simp [Json.isStringWith])]
      simp only [foldl_push]
      rfl
    | _ =>
      left
      exact ⟨⟨hdepth, fun s hs => (by cases hs), List.forall_mem_nil _⟩, hnodes, rfl⟩

/-- What a turn leaves to visit, with what it visited, is what there was to visit. -/
theorem allNodes_pushed (current : Json) (depth : Nat) (rest : List Placed) :
    (allNodes ((current, depth) :: rest)).Perm
      ((current, depth) :: allNodes (pushed current depth rest)) := by
  have hmembers : (((members current).map fun value => (value, depth + 1)).reverse.flatMap
      fun p : Placed => nodes p.2 p.1).Perm ((members current).flatMap (nodes (depth + 1))) := by
    rw [← List.map_reverse, List.flatMap_map]
    exact (List.reverse_perm (members current)).flatMap_right _
  rw [allNodes, List.flatMap_cons, nodes_eq, allNodes, pushed, List.flatMap_append]
  exact (hmembers.symm.append_right _).cons _

end

/-! ### The whole loop -/

/-- The nodes the turns of the loop take from the stack, as they come. -/
def visitedFrom (limits : Limits) (path : Bytes) (fuel : Nat) (s : Worklist) : List Placed :=
  (whileTrace unfinished (visit limits path) fuel s).filterMap (·.pending.head?)

/-- The nodes `validate_json_limits` visits. -/
def visited (limits : Limits) (path : Bytes) (value : Json) : List Placed :=
  visitedFrom limits path ((allNodes [(value, 0)]).length + 1) { pending := [(value, 0)] }

/-- The limits of the structure of a value. -/
structure WithinLimits (limits : Limits) (value : Json) : Prop where
  count : (nodes 0 value).length ≤ limits.maxJsonNodes
  fits : ∀ node ∈ nodes 0 value, Fits limits node

/-- One of the two errors of the check. -/
def IsOverLimit (path : Bytes) (e : Error) : Prop :=
  ∃ message, e = .importing "json_too_complex" path message ∨
    e = .importing "field_too_large" path message

/-- What a loop that starts with some nodes to visit and room for them does, or without. -/
structure Exact (limits : Limits) (path : Bytes) (fuel : Nat) (s : Worklist) : Prop where
  returns : s.nodes + (allNodes s.pending).length ≤ limits.maxJsonNodes →
    (∀ node ∈ allNodes s.pending, Fits limits node) →
    (∃ t : Worklist, whileLoop unfinished (visit limits path) fuel s = .ok t ∧ t.pending = []) ∧
      (visitedFrom limits path fuel s).Perm (allNodes s.pending)
  throws : ¬ (s.nodes + (allNodes s.pending).length ≤ limits.maxJsonNodes ∧
      ∀ node ∈ allNodes s.pending, Fits limits node) →
    (∃ e, whileLoop unfinished (visit limits path) fuel s = .error e ∧ IsOverLimit path e) ∧
      (visitedFrom limits path fuel s).Subperm (allNodes s.pending)

theorem exact_run (limits : Limits) (path : Bytes) {fuel : Nat} {s : Worklist}
    (hfuel : (allNodes s.pending).length < fuel) (hroom : s.nodes ≤ limits.maxJsonNodes) :
    Exact limits path fuel s := by
  induction fuel generalizing s with
  | zero => omega
  | succ fuel ih =>
    obtain ⟨pending, n⟩ := s
    cases pending with
    | nil =>
      refine ⟨fun _ _ => ⟨⟨_, rfl, rfl⟩, .refl _⟩, fun h => ?_⟩
      exact absurd ⟨hroom, List.forall_mem_nil _⟩ h
    | cons first rest =>
      obtain ⟨current, depth⟩ := first
      have hperm := allNodes_pushed current depth rest
      have hlength := hperm.length_eq
      rw [List.length_cons] at hlength
      have hgoes : unfinished ⟨(current, depth) :: rest, n⟩ = .ok true := rfl
      -- the turn either goes on with the nodes inside, or throws
      rcases visit_eq limits path current depth n rest with ⟨hfits, hnext, hbody⟩ | ⟨hnot, hbody⟩
      · have hih := ih (s := ⟨pushed current depth rest, n + 1⟩) (by simp only at hfuel ⊢; omega) hnext
        have hloop : whileLoop unfinished (visit limits path) (fuel + 1)
            ⟨(current, depth) :: rest, n⟩ = whileLoop unfinished (visit limits path) fuel
              ⟨pushed current depth rest, n + 1⟩ := by
          rw [whileLoop, hbody]
          rfl
        have hvisited : visitedFrom limits path (fuel + 1) ⟨(current, depth) :: rest, n⟩ =
            (current, depth) :: visitedFrom limits path fuel
              ⟨pushed current depth rest, n + 1⟩ := by
          rw [visitedFrom, whileTrace_ok hgoes hbody]
          rfl
        have hgood : (n + (allNodes ((current, depth) :: rest)).length ≤ limits.maxJsonNodes ∧
            ∀ node ∈ allNodes ((current, depth) :: rest), Fits limits node) ↔
            n + 1 + (allNodes (pushed current depth rest)).length ≤ limits.maxJsonNodes ∧
              ∀ node ∈ allNodes (pushed current depth rest), Fits limits node := by
          simp only [hlength, hperm.mem_iff, List.forall_mem_cons, hfits, true_and]
          rw [Nat.add_right_comm, Nat.add_assoc]
        refine ⟨fun hcount hall => ?_, fun h => ?_⟩
        · obtain ⟨hcount', hall'⟩ := hgood.mp ⟨hcount, hall⟩
          obtain ⟨hends, hseen⟩ := hih.returns hcount' hall'
          rw [hloop, hvisited]
          exact ⟨hends, (hseen.cons _).trans hperm.symm⟩
        · obtain ⟨hends, hseen⟩ := hih.throws fun h' => h (hgood.mpr h')
          rw [hloop, hvisited]
          exact ⟨hends, ((List.subperm_cons _).mpr hseen).trans hperm.symm.subperm⟩
      · refine ⟨fun hcount hall => ?_, fun _ => ?_⟩
        · refine absurd ⟨hall _ (hperm.mem_iff.mpr List.mem_cons_self), ?_⟩ hnot
          simp only at hcount
          omega
        · have hthrows : ∃ e, visit limits path ⟨(current, depth) :: rest, n⟩ = .error e ∧
              IsOverLimit path e := by
            rcases hbody with hbody | hbody | hbody
            · exact ⟨_, hbody, _, .inl rfl⟩
            · exact ⟨_, hbody, _, .inr rfl⟩
            · exact ⟨_, hbody, _, .inr rfl⟩
          obtain ⟨e, hbody, he⟩ := hthrows
          refine ⟨⟨e, ?_, he⟩, ?_⟩
          · rw [whileLoop, hbody]
            rfl
          · rw [visitedFrom, whileTrace_error hgoes hbody]
            exact List.singleton_subperm_iff.mpr (hperm.mem_iff.mpr List.mem_cons_self)

theorem allNodes_singleton (value : Json) : allNodes [(value, 0)] = nodes 0 value := by
  rw [allNodes, List.flatMap_cons, List.flatMap_nil, List.append_nil]

/-- A turn lowers the number of nodes that were not visited yet. -/
theorem visit_lowers {limits : Limits} {path : Bytes} (s s' : Worklist)
    (hgoes : unfinished s = .ok true) (hbody : visit limits path s = .ok s') :
    (allNodes s'.pending).length < (allNodes s.pending).length := by
  obtain ⟨pending, n⟩ := s
  cases pending with
  | nil => cases hgoes
  | cons first rest =>
    obtain ⟨current, depth⟩ := first
    have hlength := (allNodes_pushed current depth rest).length_eq
    rw [List.length_cons] at hlength
    rcases visit_eq limits path current depth n rest with ⟨-, -, h⟩ | ⟨-, h | h | h⟩
    · rw [h] at hbody
      cases hbody
      exact hlength ▸ Nat.lt_succ_self _
    all_goals
      rw [h] at hbody
      cases hbody

theorem validateJsonLimits_ends (limits : Limits) (path : Bytes) (value : Json) :
    ∃ turns t, turns ≤ (nodes 0 value).length ∧
      Turns unfinished (visit limits path) turns { pending := [(value, 0)] } t ∧
      (t.pending = [] ∨ ∃ e, visit limits path t = .error e) := by
  have hlowers : ∀ s s', unfinished s = .ok true → visit limits path s = .ok s' →
    (allNodes s'.pending).length < (allNodes s.pending).length := visit_lowers
  obtain ⟨turns, t, hle, hturns, hends⟩ := whileLoop_ends hlowers { pending := [(value, 0)] }
  refine ⟨turns, t, allNodes_singleton value ▸ hle, hturns, ?_⟩
  generalize whileLoop unfinished (visit limits path) _ _ = outcome at hends
  cases hends with
  | done h =>
    have hempty : (!t.pending.isEmpty) = false := Except.ok.inj h
    exact .inl (by simpa using hempty)
  | conditionThrows h => cases h
  | bodyThrows _ h => exact .inr ⟨_, h⟩

theorem withinLimits_iff_allNodes {limits : Limits} {value : Json} : WithinLimits limits value ↔
    0 + (allNodes [(value, 0)]).length ≤ limits.maxJsonNodes ∧
      ∀ node ∈ allNodes [(value, 0)], Fits limits node := by
  rw [allNodes_singleton, Nat.zero_add]
  exact ⟨fun h => ⟨h.count, h.fits⟩, fun h => ⟨h.1, h.2⟩⟩

theorem exact_started (limits : Limits) (path : Bytes) (value : Json) :
    Exact limits path ((allNodes [(value, 0)]).length + 1) { pending := [(value, 0)] } :=
  exact_run limits path (Nat.lt_succ_self _) (Nat.zero_le _)

theorem validateJsonLimits_within {limits : Limits} (path : Bytes) {value : Json}
    (h : WithinLimits limits value) : validateJsonLimits limits path value = .ok () ∧
      (visited limits path value).Perm (nodes 0 value) := by
  obtain ⟨hcount, hfits⟩ := withinLimits_iff_allNodes.mp h
  obtain ⟨⟨t, ht, -⟩, hseen⟩ := (exact_started limits path value).returns hcount hfits
  refine ⟨?_, allNodes_singleton value ▸ hseen⟩
  rw [validateJsonLimits]
  simp only [ht]
  rfl

theorem validateJsonLimits_over {limits : Limits} (path : Bytes) {value : Json}
    (h : ¬ WithinLimits limits value) :
    (∃ e, validateJsonLimits limits path value = .error e ∧ IsOverLimit path e) ∧
      (visited limits path value).Subperm (nodes 0 value) := by
  obtain ⟨⟨e, he, hkind⟩, hseen⟩ :=
    (exact_started limits path value).throws fun h' => h (withinLimits_iff_allNodes.mpr h')
  refine ⟨⟨e, ?_, hkind⟩, allNodes_singleton value ▸ hseen⟩
  rw [validateJsonLimits]
  simp only [he]
  rfl

theorem validateJsonLimits_eq_ok {limits : Limits} {path : Bytes} {value : Json} :
    validateJsonLimits limits path value = .ok () ↔ WithinLimits limits value := by
  refine ⟨fun h => ?_, fun h => (validateJsonLimits_within path h).1⟩
  by_contra hnot
  obtain ⟨⟨e, he, -⟩, -⟩ := validateJsonLimits_over path hnot
  rw [he] at h
  cases h

/-- **The check of the structure equals its recursive definition.** The loop ends: where the value is
within its limits it has visited every node once, with its depth, and it returns; where it is not it
has visited some nodes, none twice, and throws one of its two errors. -/
theorem validateJsonLimits_exact (limits : Limits) (path : Bytes) (value : Json) :
    (∃ turns t, turns ≤ (nodes 0 value).length ∧
      Turns unfinished (visit limits path) turns { pending := [(value, 0)] } t ∧
      (t.pending = [] ∨ ∃ e, visit limits path t = .error e)) ∧
    (validateJsonLimits limits path value = .ok () ↔ WithinLimits limits value) ∧
      (WithinLimits limits value →
        (visited limits path value).Perm (nodes 0 value)) ∧
      (¬ WithinLimits limits value →
        (∃ e, validateJsonLimits limits path value = .error e ∧ IsOverLimit path e) ∧
          (visited limits path value).Subperm (nodes 0 value)) := by
  exact ⟨validateJsonLimits_ends limits path value, validateJsonLimits_eq_ok,
    fun h => (validateJsonLimits_within path h).2, validateJsonLimits_over path⟩

end ContextHmi.Import
