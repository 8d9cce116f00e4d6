import ContextHmi.Retrieval.Expansion

/-!
# Honest truncation

A context says with a flag for each of its lists, and two for its size, whether something was left
out. The context that leaves nothing out is the one of the same request without limits on its lists,
before the budget loop.

* `draftOf_lifted`  : a first draft without a flag is that context;
* `retrieve_honest` : so is a retrieved context without a flag, and what leaves something out has one.
-/

namespace ContextHmi.Retrieval

open Outcome

/-! ### Limits that are lifted -/

/-- The largest limit there is, above the size of any list of a model. -/
def kUnlimited : UInt64 := 0xffffffffffffffff

/-- The limits, with none on the lists. -/
def RetrievalLimits.lifted (limits : RetrievalLimits) : RetrievalLimits :=
  { limits with
    candidates := kUnlimited
    assets := kUnlimited
    relationships := kUnlimited
    tags := kUnlimited
    alarms := kUnlimited }

/-- No flag is raised. -/
def Truncated.Clear (truncated : Truncated) : Prop :=
  truncated = ⟨false, false, false, false, false, false, false⟩

theorem le_kUnlimited (n : UInt64) : n.toNat ≤ kUnlimited.toNat := Nat.le_pred_of_lt n.toNat_lt

section
variable (limits : RetrievalLimits)

@[simp] theorem lifted_candidates : limits.lifted.candidates = kUnlimited := rfl

@[simp] theorem lifted_assets : limits.lifted.assets = kUnlimited := rfl

@[simp] theorem lifted_relationships : limits.lifted.relationships = kUnlimited := rfl

@[simp] theorem lifted_tags : limits.lifted.tags = kUnlimited := rfl

@[simp] theorem lifted_alarms : limits.lifted.alarms = kUnlimited := rfl

end

/-- Two drafts with the same lists. -/
structure SameLists (d d' : Draft) : Prop where
  candidates : d.candidates = d'.candidates
  eligible : d.eligible = d'.eligible
  roleHints : d.roleHints = d'.roleHints
  assets : d.assets = d'.assets
  relationships : d.relationships = d'.relationships
  tags : d.tags = d'.tags
  alarms : d.alarms = d'.alarms

theorem take_eq_of_not_lt {α : Type} {l : List α} {n m : Nat}
    (h : ¬ (l.take n).length < l.length) (hm : n ≤ m) : l.take n = l.take m := by
  rw [List.length_take] at h
  rw [List.take_of_length_le (by omega), List.take_of_length_le (by omega)]

section
variable {index : ModelIndex} {promptTerms : List Bytes} {scopePhrase : Bool}
  {limits : RetrievalLimits}

theorem listCandidates_of_untruncated {scored : List Candidate}
    (h : ¬ (listCandidates limits scored).length < scored.length) :
    listCandidates limits scored = listCandidates limits.lifted scored := by
  unfold listCandidates at h ⊢
  rw [List.length_map] at h
  rw [take_eq_of_not_lt h (le_kUnlimited _)]
  rfl

theorem nodup_scoredAssets (hassets : (index.assets.map (·.id)).Nodup) :
    ((scoredAssets index promptTerms).map Candidate.id).Nodup := by
  have hperm := (List.perm_insertionSort Candidate.before
    ((index.assets.map (candidateOf promptTerms)).filter fun item => 0 < item.score)).map Candidate.id
  rw [scoredAssets, hperm.nodup_iff]
  refine List.Nodup.sublist (List.filter_sublist.map _) ?_
  rw [List.map_map]
  exact hassets

theorem nodup_eligibleIds (hassets : (index.assets.map (·.id)).Nodup) :
    (eligibleIds (listCandidates limits (scoredAssets index promptTerms))).Nodup := by
  refine List.Nodup.sublist (List.filter_sublist.map _) ?_
  unfold listCandidates
  rw [List.map_map]
  exact List.Nodup.sublist ((List.take_sublist _ _).map _) (nodup_scoredAssets hassets)

theorem assets_of_untruncated (hassets : (index.assets.map (·.id)).Nodup) {eligible : List Bytes}
    (heligible : eligible.Nodup) {scope : Scope} (hsub : eligible ⊆ scope.ids) {n m : Nat}
    (h : ¬ (((orderedScopeIds index eligible scope).filterMap index.asset?).take n).length <
      scope.ids.length) (hm : n ≤ m) :
    ((orderedScopeIds index eligible scope).filterMap index.asset?).take n =
      ((orderedScopeIds index eligible scope).filterMap index.asset?).take m := by
  have hordered := length_orderedScopeIds hassets heligible hsub
  have hfound := List.length_filterMap_le index.asset? (orderedScopeIds index eligible scope)
  exact take_eq_of_not_lt (by omega) hm

/-- **A first draft without a flag** leaves nothing out. -/
theorem draftOf_lifted (wf : index.WellFormed)
    (h : (draftOf index promptTerms scopePhrase limits).truncated.Clear) :
    SameLists (draftOf index promptTerms scopePhrase limits)
      (draftOf index promptTerms scopePhrase limits.lifted) := by
  have hassetRoom : kMaxAssets ≤ kUnlimited.toNat := by decide
  have hrelationshipRoom : kMaxRelationships < kUnlimited.toNat := by decide
  simp only [Truncated.Clear, draftOf, Truncated.mk.injEq, Bool.or_eq_false_iff,
    decide_eq_false_iff_not] at h
  obtain ⟨⟨hcandidates, -⟩, ⟨hscope, hassets⟩, hrelationships, htags, halarms, -⟩ := h
  have hlisted := listCandidates_of_untruncated hcandidates
  have hgrown := scopeOf_of_untruncated hscope (wf.assets_length.trans hassetRoom)
    (lt_of_le_of_lt wf.relationships_length hrelationshipRoom)
  have hnodup : (eligibleIds (listCandidates limits (scoredAssets index promptTerms))).Nodup :=
    nodup_eligibleIds wf.assets_nodup
  constructor
  case candidates => exact hlisted
  case eligible => exact congrArg eligibleIds hlisted
  all_goals
    simp only [draftOf, ← hlisted, lifted_assets, lifted_relationships, lifted_tags, lifted_alarms,
      ← hgrown]
  case assets =>
    exact assets_of_untruncated wf.assets_nodup hnodup eligible_subset_scopeOf hassets
      (le_kUnlimited _)
  case relationships => rw [take_eq_of_not_lt hrelationships (le_kUnlimited _)]
  case tags =>
    rw [take_eq_of_not_lt (not_lt.mpr ((length_orderedTags_le _ _).trans (not_lt.mp htags)))
      (le_kUnlimited _)]
  case alarms => rw [take_eq_of_not_lt halarms (le_kUnlimited _)]

end

/-! ### The flags of a context -/

/-- The flags of a retrieved context. -/
def flagsOf (retrieved : Json) : List (Bytes × Json) :=
  ((retrieved.find? "truncated").getD .null).fields

/-- No flag of the context is raised. -/
def Untruncated (retrieved : Json) : Prop := ∀ flag ∈ flagsOf retrieved, flag.2 = .bool false

/-- A list of the scope of a context. -/
def scopeList (retrieved : Json) (key : Bytes) : Json :=
  (((retrieved.find? "scope").getD .null).find? key).getD .null

/-- The lists of a context that have limits. -/
def limitedLists (retrieved : Json) : List Json :=
  [(retrieved.find? "candidates").getD .null, scopeList retrieved "assets",
    scopeList retrieved "relationships", scopeList retrieved "tags", scopeList retrieved "alarms"]

/-- Two contexts with the same lists. -/
structure SameContent (retrieved full : Json) : Prop where
  limited : limitedLists retrieved = limitedLists full
  eligible : retrieved.find? "eligible_asset_ids" = full.find? "eligible_asset_ids"
  roleHints : retrieved.find? "measurement_role_hints" = full.find? "measurement_role_hints"

/-- An item of a list is missing in the context. -/
def Drops (retrieved full : Json) : Prop :=
  ∃ lists ∈ (limitedLists full).zip (limitedLists retrieved), ∃ item ∈ lists.1.elements,
    item ∉ lists.2.elements

/-- The context of a request that leaves nothing out. -/
def fullContext (index : ModelIndex) (prompt : Bytes) (limits : RetrievalLimits) : Json :=
  (requestDraft index prompt limits.lifted).render index limits

theorem flagsOf_render (index : ModelIndex) (limits : RetrievalLimits) (d : Draft) :
    flagsOf (d.render index limits) = d.truncated.toJson.fields := by
  have hflags : (d.render index limits).find? "truncated" = some d.truncated.toJson := by
    simp [Draft.render]
  rw [flagsOf, hflags]
  rfl

theorem limitedLists_render (index : ModelIndex) (limits : RetrievalLimits) (d : Draft) :
    limitedLists (d.render index limits) = [.arr (d.candidates.map Listed.toJson),
      .arr (d.assets.map compactAsset), .arr d.relationships, .arr d.tags, .arr d.alarms] := by
  have hscope : (d.render index limits).find? "scope" = some (.object
      [("assets", .arr (d.assets.map compactAsset)), ("relationships", .arr d.relationships),
        ("tags", .arr d.tags), ("alarms", .arr d.alarms)]) := by
    simp [Draft.render]
  simp [limitedLists, scopeList, hscope, find?_render_candidates]

theorem mem_flags {truncated : Truncated} {flag : Bytes × Json}
    (h : flag ∈ truncated.toJson.fields) : ∃ b, flag.2 = .bool b := by
  have hflags := Json.mem_fields_object h
  simp only [List.mem_cons, List.not_mem_nil, or_false] at hflags
  rcases hflags with rfl | rfl | rfl | rfl | rfl | rfl | rfl | rfl
  all_goals exact ⟨_, rfl⟩

theorem clear_of_untruncated {truncated : Truncated}
    (h : ∀ flag ∈ truncated.toJson.fields, flag.2 = .bool false) : truncated.Clear := by
  have hflag : ∀ {key : Bytes} {b : Bool}, truncated.toJson.find? key = some (.bool b) → b = false := by
    intro key b hfind
    exact Json.bool.inj (h _ (Assoc.find?_mem hfind))
  have hcandidates : truncated.toJson.find? "candidates" = some (.bool truncated.candidates) := by
    simp [Truncated.toJson]
  have hassets : truncated.toJson.find? "assets" = some (.bool truncated.assets) := by
    simp [Truncated.toJson]
  have hrelationships :
      truncated.toJson.find? "relationships" = some (.bool truncated.relationships) := by
    simp [Truncated.toJson]
  have htags : truncated.toJson.find? "tags" = some (.bool truncated.tags) := by
    simp [Truncated.toJson]
  have halarms : truncated.toJson.find? "alarms" = some (.bool truncated.alarms) := by
    simp [Truncated.toJson]
  have hroles :
      truncated.toJson.find? "measurement_roles" = some (.bool truncated.measurementRoles) := by
    simp [Truncated.toJson]
  have hbudget : truncated.toJson.find? "serialized_bytes" = some (.bool truncated.budget) := by
    simp [Truncated.toJson]
  cases truncated
  rw [Truncated.Clear, Truncated.mk.injEq]
  exact ⟨hflag hcandidates, hflag hassets, hflag hrelationships, hflag htags, hflag halarms,
    hflag hroles, hflag hbudget⟩

theorem Draft.shrink_flag {d d' : Draft} (h : d.shrink = some d') : d'.truncated.budget = true := by
  obtain ⟨e, -, rfl⟩ := Option.map_eq_some_iff.mp h
  rfl

theorem sameContent_render {index : ModelIndex} {limits : RetrievalLimits} {d d' : Draft}
    (h : SameLists d d') : SameContent (d.render index limits) (d'.render index limits) := by
  constructor
  · rw [limitedLists_render, limitedLists_render, h.candidates, h.assets, h.relationships, h.tags,
      h.alarms]
  · rw [find?_render_eligible, find?_render_eligible, h.eligible]
  · rw [find?_render_roles, find?_render_roles, h.roleHints]

section
variable [Platform] {index : ModelIndex} {limits : RetrievalLimits} {model retrieved : Json}
  {prompt : Bytes}

theorem fitBudget_flag {d d' : Draft} (h : fitBudget index limits d = .ok d') :
    d' = d ∨ d'.truncated.budget = true := by
  refine whileLoop_invariant (P := fun s => s = d ∨ s.truncated.budget = true) ?_ (.inl rfl) h
  intro s s' _ _ hs
  exact .inr (Draft.shrink_flag (Draft.shrinkOrThrow_eq_ok.mp hs))

theorem sameContent_of_untruncated (hindex : indexModel model = .ok index)
    (h : retrieve model prompt limits = .ok retrieved) (hclear : Untruncated retrieved) :
    SameContent retrieved (fullContext index prompt limits) := by
  simp only [retrieve, retrieveTerms, hindex, ok_bind, bind_eq_ok, pure_eq_ok] at h
  obtain ⟨_, -, _, -, d, hfit, rfl⟩ := h
  rw [Untruncated, flagsOf_render] at hclear
  have hflags := clear_of_untruncated hclear
  rcases fitBudget_flag hfit with rfl | hbudget
  · exact sameContent_render (draftOf_lifted (indexModel_wellFormed hindex) hflags)
  · rw [hflags] at hbudget
    cases hbudget

/-- **Truncation is honest**: a context whose flags are all lowered has everything, and one that lacks
an item of a list has a flag raised. -/
theorem retrieve_honest (h : retrieve model prompt limits = .ok retrieved) :
    ∃ index, indexModel model = .ok index ∧
      (Untruncated retrieved → SameContent retrieved (fullContext index prompt limits)) ∧
      (Drops retrieved (fullContext index prompt limits) →
        ∃ flag ∈ flagsOf retrieved, flag.2 = .bool true) := by
  obtain ⟨index, d, hindex, -, -, -, hrender⟩ := retrieve_eq_ok h
  refine ⟨index, hindex, sameContent_of_untruncated hindex h, ?_⟩
  intro hdrops
  by_contra hraised
  have hclear : Untruncated retrieved := by
    intro flag hflag
    have hmem := hflag
    rw [hrender, flagsOf_render] at hmem
    obtain ⟨b, hb⟩ := mem_flags hmem
    cases b with
    | false => exact hb
    | true => exact absurd ⟨flag, hflag, hb⟩ hraised
  obtain ⟨lists, hlists, item, hitem, hmissing⟩ := hdrops
  rw [(sameContent_of_untruncated hindex h hclear).limited, List.zip, List.zipWith_self] at hlists
  obtain ⟨list, -, rfl⟩ := List.mem_map.mp hlists
  exact hmissing hitem

end

section
local instance honestPlatform : Platform := samplePlatform

theorem retrieve_honest_sample : ∃ retrieved,
    retrieve (sampleModel 1 (.int 80)) "show the tank level" {} = .ok retrieved ∧
      ∃ index, indexModel (sampleModel 1 (.int 80)) = .ok index ∧
        (Untruncated retrieved →
          SameContent retrieved (fullContext index "show the tank level" {})) ∧
        (Drops retrieved (fullContext index "show the tank level" {}) →
          ∃ flag ∈ flagsOf retrieved, flag.2 = .bool true) := by
  have hretrieve : retrieve (sampleModel 1 (.int 80)) "show the tank level" {} = .ok _ :=
    eq_ok_of_isSome (by decide +kernel) .null
  exact ⟨_, hretrieve, retrieve_honest hretrieve⟩

end

end ContextHmi.Retrieval
