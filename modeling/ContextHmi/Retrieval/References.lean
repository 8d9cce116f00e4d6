import ContextHmi.Retrieval.Neighbours

/-!
# References within a context

The relationships, tags and alarms of a context refer to its assets, and its eligible assets are
candidates that are marked. The loop takes assets away before relationships, and eligible assets
without their marks, so only part of this holds of every context.

* `fitBudget_marked`  : the marks stay;
* `fitBudget_owners`  : the eligible assets stay as long as tags or alarms do;
* `retrieve_refers`   : what refers to what in a context.
-/

namespace ContextHmi.Retrieval

open Outcome

/-! ### The loop -/

theorem shrink_inessential {d d' : Draft} (h : d.shrink = some d') :
    (∃ e, d' = e.flagged ∧ (d.TakesContext e ∨ d.TakesRest e)) ∨
      (d.dropInessential = none ∧ d' = ({ d with eligible := d.eligible.dropLast } : Draft).flagged) := by
  rw [Draft.shrink_eq] at h
  obtain ⟨e, he, rfl⟩ := Option.map_eq_some_iff.mp h
  simp only [Option.orElse_eq_orElse, Option.orElse_eq_or, Option.or_eq_some_iff] at he
  rcases he with he | ⟨hcontext, he | ⟨hrest, he⟩⟩
  · exact .inl ⟨e, rfl, .inl (Draft.dropContext_takes he)⟩
  · exact .inl ⟨e, rfl, .inr (Draft.dropRest_takes he)⟩
  · refine .inr ⟨?_, ?_⟩
    · rw [Draft.dropInessential, hcontext, hrest]
      rfl
    · rw [← Option.some.inj (Option.ite_none_left_eq_some.mp he).2]

theorem measurements_of_dropInessential {d : Draft} (h : d.dropInessential = none) :
    d.tags = [] ∧ d.alarms = [] := by
  have hstripped := Draft.stripped_of_dropInessential h
  have htags : d.stripped.tags = d.flagged.tags := by rw [hstripped]
  have halarms : d.stripped.alarms = d.flagged.alarms := by rw [hstripped]
  exact ⟨htags.symm, halarms.symm⟩

theorem shrink_marked {d d' : Draft} (h : d.shrink = some d') :
    (d'.candidates.filter (·.eligible)) = d.candidates.filter (·.eligible) := by
  rcases shrink_inessential h with ⟨e, rfl, hcontext | hrest⟩ | ⟨-, rfl⟩
  · exact congrArg Draft.candidates hcontext.stripped
  · exact congrArg Draft.candidates hrest.stripped
  · rfl

/-- The eligible assets of a first draft are there, or nothing they own is. -/
def KeepsOwners (eligible : List Bytes) (d : Draft) : Prop :=
  (d.eligible = eligible ∧ ∀ id ∈ eligible, id ∈ d.assets.map (·.id)) ∨ (d.tags = [] ∧ d.alarms = [])

theorem TakesContext.keepsOwners {eligible : List Bytes} {d e : Draft} (h : d.TakesContext e)
    (hkeeps : KeepsOwners eligible d) : KeepsOwners eligible e.flagged := by
  rcases hkeeps with ⟨hsame, hkept⟩ | ⟨htags, halarms⟩
  · refine .inl ⟨?_, ?_⟩
    · cases h with
      | candidate | asset | relationship | alarm | tag => exact hsame
    · cases h with
      | candidate | relationship | alarm | tag => exact hkept
      | asset hl =>
        intro id hid
        obtain ⟨_, -, -, -, -, hstays⟩ := removeLast_eq_some hl
        obtain ⟨asset, hasset, rfl⟩ := List.mem_map.mp (hkept id hid)
        refine List.mem_map_of_mem (hstays asset hasset ?_)
        simp [hsame, hid]
  · refine .inr ?_
    cases h with
    | candidate | asset | relationship => exact ⟨htags, halarms⟩
    | alarm =>
      refine ⟨htags, ?_⟩
      show d.alarms.dropLast = []
      rw [halarms]
      rfl
    | tag =>
      refine ⟨?_, halarms⟩
      show d.tags.dropLast = []
      rw [htags]
      rfl

theorem TakesRest.keepsOwners {eligible : List Bytes} {d e : Draft} (h : d.TakesRest e)
    (hkeeps : KeepsOwners eligible d) : KeepsOwners eligible e.flagged := by
  rcases hkeeps with ⟨hsame, hkept⟩ | hempty
  · refine .inl ⟨?_, ?_⟩
    · cases h with
      | role | aliases | term => exact hsame
    · cases h with
      | role | term => exact hkept
      | @aliases l hl =>
        intro id hid
        show id ∈ l.map (·.id)
        rw [(eraseAliases_eq_some hl).1]
        exact hkept id hid
  · refine .inr ?_
    cases h with
    | role | aliases | term => exact hempty

theorem shrink_keepsOwners {eligible : List Bytes} {d d' : Draft} (h : d.shrink = some d')
    (hkeeps : KeepsOwners eligible d) : KeepsOwners eligible d' := by
  rcases shrink_inessential h with ⟨e, rfl, hcontext | hrest⟩ | ⟨hnone, rfl⟩
  · exact TakesContext.keepsOwners hcontext hkeeps
  · exact TakesRest.keepsOwners hrest hkeeps
  · obtain ⟨htags, halarms⟩ := measurements_of_dropInessential hnone
    exact .inr ⟨htags, halarms⟩

theorem shrink_assets_flag {d d' : Draft} (h : d.shrink = some d') :
    d'.truncated.assets = true ∨
      (d'.assets = d.assets ∧ d'.truncated.assets = d.truncated.assets) := by
  rcases shrink_inessential h with ⟨e, rfl, hcontext | hrest⟩ | ⟨-, rfl⟩
  · cases hcontext with
    | asset => exact .inl rfl
    | candidate | relationship | alarm | tag => exact .inr ⟨rfl, rfl⟩
  · cases hrest with
    | aliases => exact .inl rfl
    | role | term => exact .inr ⟨rfl, rfl⟩
  · exact .inr ⟨rfl, rfl⟩

section
variable [Platform] {index : ModelIndex} {limits : RetrievalLimits} {d u : Draft}

/-- **The marks stay.** -/
theorem fitBudget_marked (h : fitBudget index limits d = .ok u) :
    u.candidates.filter (·.eligible) = d.candidates.filter (·.eligible) := by
  refine whileLoop_invariant (P := fun s => s.candidates.filter (·.eligible) =
    d.candidates.filter (·.eligible)) ?_ rfl h
  intro s s' hs _ hturn
  exact (shrink_marked (Draft.shrinkOrThrow_eq_ok.mp hturn)).trans hs

/-- **The eligible assets stay** as long as tags or alarms do. -/
theorem fitBudget_owners (h : fitBudget index limits d = .ok u)
    (hkept : ∀ id ∈ d.eligible, id ∈ d.assets.map (·.id)) : KeepsOwners d.eligible u := by
  refine whileLoop_invariant (P := KeepsOwners d.eligible) ?_ (.inl ⟨rfl, hkept⟩) h
  intro s s' hs _ hturn
  exact shrink_keepsOwners (Draft.shrinkOrThrow_eq_ok.mp hturn) hs

theorem fitBudget_assets_flag (h : fitBudget index limits d = .ok u)
    (hflag : u.truncated.assets = false) : u.assets = d.assets ∧ d.truncated.assets = false := by
  have hsame : u.truncated.assets = true ∨
      (u.assets = d.assets ∧ u.truncated.assets = d.truncated.assets) := by
    refine whileLoop_invariant (P := fun s => s.truncated.assets = true ∨
      (s.assets = d.assets ∧ s.truncated.assets = d.truncated.assets)) ?_ (.inr ⟨rfl, rfl⟩) h
    intro s s' hs _ hturn
    have hshrink := Draft.shrinkOrThrow_eq_ok.mp hturn
    rcases shrink_assets_flag hshrink with hraised | ⟨hassets, hflags⟩
    · exact .inl hraised
    · rw [hassets, hflags]
      exact hs
  rcases hsame with hraised | ⟨hassets, hflags⟩
  · rw [hraised] at hflag
    cases hflag
  · exact ⟨hassets, hflags ▸ hflag⟩

end

/-! ### First drafts -/

section
variable {index : ModelIndex} {prompt : Bytes} {limits : RetrievalLimits}

theorem requestScope_subset_assets (wf : index.WellFormed)
    (hflag : (requestDraft index prompt limits).truncated.assets = false) :
    (requestScope index prompt limits).ids ⊆ (requestDraft index prompt limits).assets.map (·.id) := by
  have hfull : (requestScope index prompt limits).ids.length ≤
      ((requestDraft index prompt limits).assets.map (·.id)).length := by
    have hcut : ((requestScope index prompt limits).truncated ||
        decide ((requestDraft index prompt limits).assets.length <
          (requestScope index prompt limits).ids.length)) = false := hflag
    rw [Bool.or_eq_false_iff, decide_eq_false_iff_not, not_lt] at hcut
    rw [List.length_map]
    exact hcut.2
  have hnodup : ((requestDraft index prompt limits).assets.map (·.id)).Nodup := by
    have hordered : (orderedScopeIds index (requestDraft index prompt limits).eligible
        (requestScope index prompt limits)).Nodup := by
      refine List.nodup_append.mpr ⟨nodup_eligibleIds wf.assets_nodup, wf.assets_nodup.filter _, ?_⟩
      rintro id hid _ hrest rfl
      have hnew := (List.mem_filter.mp hrest).2
      simp [hid] at hnew
    exact hordered.sublist (((List.take_sublist _ _).map _).trans (sublist_filterMap_asset? _ _))
  exact ((List.subperm_of_subset hnodup requestDraft_assets_subset).perm_of_length_le hfull).symm.subset

theorem length_foldl_extend_le {limit : Nat} {l : List Relationship} {scope : Scope}
    (h : scope.ids.length ≤ limit) :
    (l.foldl (Scope.extend limit) scope).ids.length ≤ limit := by
  induction l generalizing scope with
  | nil => exact h
  | cons rel l ih =>
    refine ih ?_
    by_cases hlt : scope.ids.length < limit
    · rw [extend_of_lt rel hlt]
      exact (length_join_le scope.ids rel).trans hlt
    · rw [extend_ids_of_not_lt hlt]
      exact h

theorem length_requestScope_le
    (h : (requestDraft index prompt limits).eligible.length ≤ limits.assets.toNat) :
    (requestScope index prompt limits).ids.length ≤ limits.assets.toNat := by
  have hinitial : (initialScope index limits.assets.toNat (requestDraft index prompt limits).eligible
      (requestDraft index prompt limits).specific).ids.length ≤ limits.assets.toNat := by
    unfold initialScope
    split_ifs
    · exact List.length_take_le _ _
    · exact h
  unfold requestScope scopeOf
  dsimp only
  split_ifs
  · exact length_foldl_extend_le hinitial
  · exact hinitial

theorem foldl_extend_declared (wf : index.WellFormed) {limit : Nat} {l : List Relationship}
    (hl : l ⊆ index.relationships) {scope : Scope} (h : scope.ids ⊆ index.assets.map (·.id)) :
    (l.foldl (Scope.extend limit) scope).ids ⊆ index.assets.map (·.id) := by
  induction l generalizing scope with
  | nil => exact h
  | cons rel l ih =>
    rw [List.cons_subset] at hl
    refine ih hl.2 (List.Subset.trans (extend_subset_join scope rel) ?_)
    have hends := (wf.relationships rel hl.1).declared
    intro id hid
    unfold join at hid
    split_ifs at hid
    · rcases List.mem_insert_iff.mp hid with rfl | hid
      · exact hends.2
      · exact h hid
    · rcases List.mem_insert_iff.mp hid with rfl | hid
      · exact hends.1
      · exact h hid
    · exact h hid

theorem requestScope_declared (wf : index.WellFormed) :
    (requestScope index prompt limits).ids ⊆ index.assets.map (·.id) := by
  have hinitial : (initialScope index limits.assets.toNat (requestDraft index prompt limits).eligible
      (requestDraft index prompt limits).specific).ids ⊆ index.assets.map (·.id) := by
    unfold initialScope
    split_ifs
    · exact (List.take_sublist _ _).subset
    · intro id hid
      have heligible : id ∈ (requestDraft index prompt limits).eligible := hid
      obtain ⟨asset, htop, rfl⟩ := draftOf_eligible heligible
      exact List.mem_map_of_mem htop.declared
  unfold requestScope scopeOf
  dsimp only
  split_ifs
  · exact foldl_extend_declared wf (List.Subset.refl _) hinitial
  · exact hinitial

theorem requestDraft_relationships {rel : Json}
    (h : rel ∈ (requestDraft index prompt limits).relationships) : ∃ r, rel = compactRelationship r ∧
      r.fromId ∈ (requestScope index prompt limits).ids ∧
        r.toId ∈ (requestScope index prompt limits).ids := by
  obtain ⟨r, hr, rfl⟩ := List.mem_map.mp h
  have hrelevant : r ∈ relevantRelationships index prompt limits := List.mem_of_mem_take hr
  have hends := (List.mem_filter.mp hrelevant).2
  rw [Bool.and_eq_true, List.contains_iff_mem, List.contains_iff_mem] at hends
  exact ⟨r, rfl, hends⟩

/-- The assets of the measurements of a request. -/
def requestOwners (index : ModelIndex) (prompt : Bytes) (limits : RetrievalLimits) : List Bytes :=
  measurementScopeIds (requestDraft index prompt limits).eligible (requestScope index prompt limits)

theorem requestDraft_tags {tag : Json} (h : tag ∈ (requestDraft index prompt limits).tags) :
    ∃ owner ∈ requestOwners index prompt limits, tag.find? "asset_id" = some (.str owner) := by
  obtain ⟨t, ht, rfl⟩ := List.mem_map.mp h
  have hsource : t ∈ sourceTags index (termsFor prompt) (hasScopePhrase prompt) limits :=
    mem_of_mem_orderedTags (List.mem_of_mem_take ht)
  have howner := (List.mem_filter.mp hsource).2
  rw [List.contains_iff_mem] at howner
  exact ⟨t.assetId, howner, by simp [compactTag]⟩

theorem requestDraft_alarms {alarm : Json} (h : alarm ∈ (requestDraft index prompt limits).alarms) :
    ∃ owner ∈ requestOwners index prompt limits, alarm.find? "asset_id" = some (.str owner) := by
  obtain ⟨a, ha, rfl⟩ := List.mem_map.mp h
  have howner := (List.mem_filter.mp (List.mem_of_mem_take ha)).2
  rw [List.contains_iff_mem] at howner
  exact ⟨a.assetId, howner, by simp [compactAlarm]⟩

theorem requestOwners_subset :
    requestOwners index prompt limits ⊆ (requestScope index prompt limits).ids := by
  unfold requestOwners measurementScopeIds
  split_ifs
  · exact List.Subset.refl _
  · exact eligible_subset_scopeOf

theorem requestDraft_eligible (wf : index.WellFormed)
    (h : (requestDraft index prompt limits).eligible.length ≤ limits.assets.toNat) :
    ∀ id ∈ (requestDraft index prompt limits).eligible,
      id ∈ (requestDraft index prompt limits).assets.map (·.id) := by
  intro id hid
  have hdeclared : ∀ id ∈ (requestDraft index prompt limits).eligible, (index.asset? id).isSome :=
    draftOf_declared _ _ _ wf
  have hlength := length_filterMap_asset? hdeclared
  have hkept : ((requestDraft index prompt limits).eligible.filterMap index.asset?).take
      limits.assets.toNat = (requestDraft index prompt limits).eligible.filterMap index.asset? :=
    List.take_of_length_le (by omega)
  obtain ⟨asset, hasset⟩ := Option.isSome_iff_exists.mp (hdeclared id hid)
  obtain ⟨-, rfl⟩ := wf.asset?_eq_some.mp hasset
  refine List.mem_map_of_mem (List.mem_of_mem_filter (p := fun asset =>
    (requestDraft index prompt limits).eligible.contains asset.id) ?_)
  show asset ∈ (contextAssets index limits.assets.toNat (requestDraft index prompt limits).eligible
    (requestScope index prompt limits)).filter _
  rw [filter_contextAssets, hkept]
  exact List.mem_filterMap.mpr ⟨asset.id, hid, hasset⟩

end

/-! ### Contexts -/

/-- The id is that of an asset in the scope of a context. -/
def InScope (retrieved : Json) (id : Option Json) : Prop :=
  ∃ asset ∈ scopeAssetIds retrieved, id = some asset

/-- Both ends of every relationship in the scope are in it. -/
def EndsInScope (retrieved : Json) : Prop :=
  ∀ rel ∈ (scopeList retrieved "relationships").elements,
    InScope retrieved (rel.find? "from") ∧ InScope retrieved (rel.find? "to")

/-- The owner of every tag and alarm in the scope is in it. -/
def OwnersInScope (retrieved : Json) : Prop :=
  ∀ item ∈ (scopeList retrieved "tags").elements ++ (scopeList retrieved "alarms").elements,
    InScope retrieved (item.find? "asset_id")

def isMarked (candidate : Json) : Bool :=
  match candidate.find? "eligible" with
  | some (.bool marked) => marked
  | _ => false

/-- The ids of the candidates of a context that are marked eligible. -/
def markedIds (retrieved : Json) : List Json :=
  (((retrieved.find? "candidates").getD .null).elements.filter isMarked).map fun candidate =>
    (candidate.find? "asset_id").getD .null

/-- The eligible assets of a context. -/
def eligibleAssetIds (retrieved : Json) : List Json :=
  ((retrieved.find? "eligible_asset_ids").getD .null).elements

/-- The context counts no more than one eligible asset. -/
def SoleEligible (retrieved : Json) : Prop :=
  ∃ n : UInt64, n ≤ 1 ∧ retrieved.find? "eligible_asset_count" = some (.uint n)

/-- The flag that a context raises for a list, or for its size. -/
def Raised (retrieved : Json) (key : Bytes) : Prop :=
  ((retrieved.find? "truncated").getD .null).find? key = some (.bool true)

section
variable (index : ModelIndex) (limits : RetrievalLimits) (d : Draft)

theorem scopeLists_render :
    (scopeList (d.render index limits) "relationships").elements = d.relationships ∧
      (scopeList (d.render index limits) "tags").elements = d.tags ∧
      (scopeList (d.render index limits) "alarms").elements = d.alarms := by
  have hlists := limitedLists_render index limits d
  simp only [limitedLists, List.cons.injEq] at hlists
  obtain ⟨-, -, hrelationships, htags, halarms, -⟩ := hlists
  rw [hrelationships, htags, halarms]
  exact ⟨rfl, rfl, rfl⟩

theorem eligibleAssetIds_render :
    eligibleAssetIds (d.render index limits) = d.eligible.map Json.str := by
  rw [eligibleAssetIds, find?_render_eligible]
  rfl

theorem markedIds_render : markedIds (d.render index limits) =
    (eligibleIds d.candidates).map Json.str := by
  have hmarked : ∀ item : Listed, isMarked item.toJson = item.eligible := by
    intro item
    have hfind : item.toJson.find? "eligible" = some (.bool item.eligible) := by
      simp [Listed.toJson]
    rw [isMarked, hfind]
  have hid : ∀ item : Listed, item.toJson.find? "asset_id" = some (.str item.candidate.id) := by
    intro item
    simp [Listed.toJson]
  rw [markedIds, find?_render_candidates, eligibleIds, Option.getD_some, Json.elements,
    List.filter_map, List.map_map, List.map_map]
  have hfilter : d.candidates.filter (isMarked ∘ Listed.toJson) =
      d.candidates.filter (·.eligible) := List.filter_congr fun item _ => hmarked item
  rw [hfilter]
  refine List.map_congr_left fun item _ => ?_
  show ((item.toJson.find? "asset_id").getD .null) = .str item.candidate.id
  rw [hid]
  rfl

theorem inScope_render {id : Bytes} (h : id ∈ d.assets.map (·.id)) :
    InScope (d.render index limits) (some (.str id)) := by
  refine ⟨.str id, ?_, rfl⟩
  rw [scopeAssetIds_render]
  exact List.mem_map_of_mem h

theorem raised_render (key : Bytes) : Raised (d.render index limits) key ↔
    d.truncated.toJson.find? key = some (.bool true) := by
  have hflags : (d.render index limits).find? "truncated" = some d.truncated.toJson := by
    simp [Draft.render]
  rw [Raised, hflags]
  rfl

end

section
variable [Platform] {model retrieved : Json} {prompt : Bytes} {limits : RetrievalLimits}

omit [Platform] in
theorem refers_of_scope {index : ModelIndex} {u : Draft}
    (hbelow : u.Below (requestDraft index prompt limits))
    (hwhole : (requestScope index prompt limits).ids ⊆ u.assets.map (·.id)) :
    EndsInScope (u.render index limits) ∧ OwnersInScope (u.render index limits) := by
  have hscope : ∀ id ∈ (requestScope index prompt limits).ids,
      InScope (u.render index limits) (some (.str id)) :=
    fun id hid => inScope_render index limits u (hwhole hid)
  obtain ⟨hrelationships, htags, halarms⟩ := scopeLists_render index limits u
  constructor
  · intro rel hrel
    rw [hrelationships] at hrel
    obtain ⟨r, rfl, hfrom, hto⟩ := requestDraft_relationships (hbelow.relationships.subset hrel)
    have hends : (compactRelationship r).find? "from" = some (.str r.fromId) ∧
        (compactRelationship r).find? "to" = some (.str r.toId) := by
      simp [compactRelationship]
    rw [hends.1, hends.2]
    exact ⟨hscope _ hfrom, hscope _ hto⟩
  · intro item hitem
    rw [htags, halarms] at hitem
    rcases List.mem_append.mp hitem with htag | halarm
    · obtain ⟨owner, howner, hfind⟩ := requestDraft_tags (hbelow.tags.subset htag)
      rw [hfind]
      exact hscope owner (requestOwners_subset howner)
    · obtain ⟨owner, howner, hfind⟩ := requestDraft_alarms (hbelow.alarms.subset halarm)
      rw [hfind]
      exact hscope owner (requestOwners_subset howner)

theorem owners_of_eligible {index : ModelIndex} {u : Draft} (wf : index.WellFormed)
    (hu : fitBudget index limits (requestDraft index prompt limits) = .ok u)
    (hnonempty : (requestDraft index prompt limits).eligible ≠ [])
    (hlimit : (requestDraft index prompt limits).eligible.length ≤ limits.assets.toNat) :
    OwnersInScope (u.render index limits) := by
  have hbelow := (fitBudget_eq_ok hu).1
  obtain ⟨-, htags, halarms⟩ := scopeLists_render index limits u
  have howners : requestOwners index prompt limits = (requestDraft index prompt limits).eligible := by
    rw [requestOwners, measurementScopeIds, List.isEmpty_eq_false_iff.mpr hnonempty]
    rfl
  intro item hitem
  rw [htags, halarms] at hitem
  rcases fitBudget_owners hu (requestDraft_eligible wf hlimit) with ⟨-, hkept⟩ | ⟨hnone, hnone'⟩
  · have hthere : ∀ owner ∈ requestOwners index prompt limits,
        InScope (u.render index limits) (some (.str owner)) := by
      intro owner howner
      rw [howners] at howner
      exact inScope_render index limits u (hkept owner howner)
    rcases List.mem_append.mp hitem with htag | halarm
    · obtain ⟨owner, howner, hfind⟩ := requestDraft_tags (hbelow.tags.subset htag)
      rw [hfind]
      exact hthere owner howner
    · obtain ⟨owner, howner, hfind⟩ := requestDraft_alarms (hbelow.alarms.subset halarm)
      rw [hfind]
      exact hthere owner howner
  · rw [hnone, hnone'] at hitem
    cases hitem

omit [Platform] in
theorem eligibleCount_of_soleEligible {index : ModelIndex} {d : Draft} (wf : index.WellFormed)
    (hcount : d.eligibleCount = (requestDraft index prompt limits).eligibleCount)
    (h : SoleEligible (d.render index limits)) :
    (requestDraft index prompt limits).eligibleCount ≤ 1 := by
  obtain ⟨n, hn, hfind⟩ := h
  have hfew : d.eligibleCount ≤ kMaxAssets := by
    have hnodup : (allEligibleIds (scoredAssets index (termsFor prompt)) (eligibleIds (listCandidates
        limits (scoredAssets index (termsFor prompt))))).Nodup :=
      nodup_allEligibleIds (nodup_eligibleIds wf.assets_nodup)
    have hsub : allEligibleIds (scoredAssets index (termsFor prompt)) (eligibleIds (listCandidates
        limits (scoredAssets index (termsFor prompt)))) ⊆ index.assets.map (·.id) := by
      intro id hid
      obtain ⟨asset, htop, rfl⟩ := mem_allEligibleIds.mp hid
      exact List.mem_map_of_mem htop.declared
    have hlength := (List.subperm_of_subset hnodup hsub).length_le
    rw [List.length_map] at hlength
    rw [hcount]
    exact hlength.trans wf.assets_length
  rw [find?_render_count, count, Option.some.injEq, Json.uint.injEq] at hfind
  have hvalue : (UInt64.ofNat d.eligibleCount).toNat = d.eligibleCount :=
    UInt64.toNat_ofNat_of_lt' (lt_of_le_of_lt hfew (by decide))
  rw [← hcount, ← hvalue, hfind]
  exact UInt64.le_iff_toNat_le.mp hn

/-- **What refers to what in a context**: the relationships, tags and alarms are those of its assets
while the flag of the assets is lowered, or where the assets marked eligible are within the asset
limit and the budget took nothing. The owners are there whatever the budget took, if assets are
marked and within that limit. The eligible assets are the first of those that are marked, and all of
them where there is only one or the budget took nothing. -/
theorem retrieve_refers (h : retrieve model prompt limits = .ok retrieved) :
    (¬ Raised retrieved "assets" ∨ (¬ Raised retrieved "serialized_bytes" ∧
        (markedIds retrieved).length ≤ limits.assets.toNat) →
      EndsInScope retrieved ∧ OwnersInScope retrieved) ∧
    (markedIds retrieved ≠ [] → (markedIds retrieved).length ≤ limits.assets.toNat →
      OwnersInScope retrieved) ∧
    eligibleAssetIds retrieved <+: markedIds retrieved ∧
    (SoleEligible retrieved ∨ ¬ Raised retrieved "serialized_bytes" →
      eligibleAssetIds retrieved = markedIds retrieved) := by
  simp only [retrieve, retrieveTerms, bind_eq_ok, pure_eq_ok] at h
  obtain ⟨index, hindex, _, -, _, hlimits, u, hu, rfl⟩ := h
  have wf := indexModel_wellFormed hindex
  have hbelow : u.Below (requestDraft index prompt limits) := (fitBudget_eq_ok hu).1
  have hmarked : eligibleIds u.candidates = (requestDraft index prompt limits).eligible :=
    congrArg (List.map fun item : Listed => item.candidate.id) (fitBudget_marked hu)
  have hflags : ∀ key : Bytes, Raised (u.render index limits) key ↔
      u.truncated.toJson.find? key = some (.bool true) := raised_render index limits u
  rw [markedIds_render, eligibleAssetIds_render, hmarked, List.length_map]
  have huntouched : ¬ Raised (u.render index limits) "serialized_bytes" →
      u = requestDraft index prompt limits := by
    intro hlowered
    rcases fitBudget_flag hu with hsame | hraised
    · exact hsame
    · refine absurd ((hflags _).mpr ?_) hlowered
      simp [Truncated.toJson, hraised]
  refine ⟨?_, ?_, hbelow.eligible.map _, ?_⟩
  · rintro (hlowered | ⟨hlowered, hlimit⟩)
    · have hflag : u.truncated.assets = false := by
        by_contra hraised
        rw [Bool.not_eq_false] at hraised
        refine hlowered ((hflags _).mpr ?_)
        simp [Truncated.toJson, hraised]
      obtain ⟨hassets, hfirst⟩ := fitBudget_assets_flag hu hflag
      refine refers_of_scope hbelow ?_
      rw [hassets]
      exact requestScope_subset_assets wf hfirst
    · refine refers_of_scope hbelow fun id hid => ?_
      rw [huntouched hlowered]
      exact mem_requestDraft_assets wf (length_requestScope_le hlimit) (requestScope_declared wf hid)
        hid
  · intro hnonempty hlimit
    refine owners_of_eligible wf hu ?_ hlimit
    rintro hnil
    exact hnonempty (hnil ▸ rfl)
  · rintro (hsole | hlowered)
    · rw [hbelow.eligible_kept (eligibleCount_of_soleEligible wf hbelow.eligibleCount hsole)]
    · rw [huntouched hlowered]

end

/-! ### What the loop and the limits leave -/

section
local instance referencePlatform : Platform := samplePlatform

theorem retrieve_refers_sample : ∃ retrieved,
    retrieve pair "show the tank" {} = .ok retrieved ∧
      (¬ Raised retrieved "assets" ∨ (¬ Raised retrieved "serialized_bytes" ∧
          (markedIds retrieved).length ≤ ({} : RetrievalLimits).assets.toNat) →
        EndsInScope retrieved ∧ OwnersInScope retrieved) ∧
      (markedIds retrieved ≠ [] →
        (markedIds retrieved).length ≤ ({} : RetrievalLimits).assets.toNat →
        OwnersInScope retrieved) ∧
      eligibleAssetIds retrieved <+: markedIds retrieved ∧
      (SoleEligible retrieved ∨ ¬ Raised retrieved "serialized_bytes" →
        eligibleAssetIds retrieved = markedIds retrieved) := by
  have hretrieve : retrieve pair "show the tank" {} = .ok _ :=
    eq_ok_of_isSome (by decide +kernel) .null
  exact ⟨_, hretrieve, retrieve_refers hretrieve⟩

/-- Two tanks, the second with a tag. -/
def measuredTanks : Json := (samplePlant 1
  [(sampleTag "level" "m").setField "asset_id" (.str "tank-2")] []).setField "assets"
    (.arr [namedTank [], otherTank])

/-- A tank and a pump, with a relationship that takes up space. -/
def widePair : Json := pair.setField "relationships"
  (.arr [(chainLink "one" "tank" "pump").setField "kind" (.str "feeds water continuously into")])

/-- An id in a list, computed. -/
def among (id : Bytes) (ids : List Json) : Bool := ids.any fun v => v.eqv (.str id)

theorem not_inScope {retrieved v : Json} {id : Bytes} (hv : v.eqv (.str id) = true)
    (h : among id (scopeAssetIds retrieved) = false) : ¬ InScope retrieved (some v) := by
  intro ⟨asset, hasset, hsame⟩
  rw [Option.some.injEq] at hsame
  subst hsame
  rw [among, List.any_eq_false] at h
  exact h v hasset hv

/-- An asset limit can leave out the owner of a tag, the budget an end of a relationship, or an
eligible asset whose candidate is marked. -/
theorem not_refers :
    (∃ retrieved, retrieve measuredTanks "show the tank" { assets := 1 } = .ok retrieved ∧
      ¬ OwnersInScope retrieved) ∧
    (∃ retrieved, retrieve widePair "show the tank" { maxSerializedBytes := 1024 } = .ok retrieved ∧
      ¬ EndsInScope retrieved) ∧
    ∃ retrieved, retrieve (plantOf [namedTank ["vat", "drum"], otherTank]) "show the tank"
        { maxSerializedBytes := 1024 } = .ok retrieved ∧
      eligibleAssetIds retrieved ≠ markedIds retrieved := by
  refine ⟨?_, ?_, ?_⟩
  · obtain ⟨retrieved, hretrieved, hfound⟩ := exists_ok_of_any
      (x := retrieve measuredTanks "show the tank" { assets := 1 })
      (fun r => (scopeList r "tags").elements.any fun tag =>
        (tag.find? "asset_id").any fun v => v.eqv (.str "tank-2") &&
          !among "tank-2" (scopeAssetIds r)) (by decide +kernel)
    refine ⟨retrieved, hretrieved, fun howners => ?_⟩
    obtain ⟨tag, htag, hany⟩ := List.any_eq_true.mp hfound
    obtain ⟨v, hv, hboth⟩ := (Option.any_eq_true _ _).mp hany
    rw [Bool.and_eq_true, Bool.not_eq_true'] at hboth
    exact not_inScope hboth.1 hboth.2 (hv ▸ howners tag (List.mem_append_left _ htag))
  · obtain ⟨retrieved, hretrieved, hfound⟩ := exists_ok_of_any
      (x := retrieve widePair "show the tank" { maxSerializedBytes := 1024 })
      (fun r => (scopeList r "relationships").elements.any fun rel =>
        (rel.find? "to").any fun v => v.eqv (.str "pump") && !among "pump" (scopeAssetIds r))
      (by decide +kernel)
    refine ⟨retrieved, hretrieved, fun hends => ?_⟩
    obtain ⟨rel, hrel, hany⟩ := List.any_eq_true.mp hfound
    obtain ⟨v, hv, hboth⟩ := (Option.any_eq_true _ _).mp hany
    rw [Bool.and_eq_true, Bool.not_eq_true'] at hboth
    exact not_inScope hboth.1 hboth.2 (hv ▸ (hends rel hrel).2)
  · obtain ⟨retrieved, hretrieved, hfewer⟩ := exists_ok_of_any
      (x := retrieve (plantOf [namedTank ["vat", "drum"], otherTank]) "show the tank"
        { maxSerializedBytes := 1024 })
      (fun r => (eligibleAssetIds r).length < (markedIds r).length) (by decide +kernel)
    refine ⟨retrieved, hretrieved, fun hsame => ?_⟩
    rw [decide_eq_true_eq, hsame] at hfewer
    exact Nat.lt_irrefl _ hfewer

end

end ContextHmi.Retrieval
