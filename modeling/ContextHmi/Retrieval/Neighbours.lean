import ContextHmi.Retrieval.Order

/-!
# Direct relationships

The scope of one eligible asset should take in the assets it is related to. The expansion looks up
each relationship in the scope as it has grown by then, so it follows chains, as far as the order of
the relationships lets it. It keeps to the direct ones exactly where nothing leads further from them.

* `foldl_extend_around` : a scope that nothing leads out of keeps to the direct relationships;
* `expands_directly`    : so does the context, in every order of the relationships.
-/

namespace ContextHmi.Retrieval

open Outcome

/-! ### Neighbours -/

/-- A relationship has the two assets for its ends. -/
def Joined (rels : List Relationship) (a b : Bytes) : Prop :=
  ∃ rel ∈ rels, (rel.fromId = a ∧ rel.toId = b) ∨ (rel.fromId = b ∧ rel.toId = a)

/-- The asset itself, or one it is related to. -/
def Around (rels : List Relationship) (id other : Bytes) : Prop := other = id ∨ Joined rels id other

instance (rels : List Relationship) (a b : Bytes) : Decidable (Joined rels a b) :=
  inferInstanceAs (Decidable (∃ _ ∈ _, _))

instance (rels : List Relationship) (id other : Bytes) : Decidable (Around rels id other) :=
  inferInstanceAs (Decidable (_ ∨ _))

/-- Nothing leads from the neighbours of an asset to an asset further away. -/
def Closed (rels : List Relationship) (id : Bytes) : Prop :=
  ∀ a b, Joined rels id a → Joined rels a b → Around rels id b

theorem Joined.symm {rels : List Relationship} {a b : Bytes} (h : Joined rels a b) :
    Joined rels b a := by
  obtain ⟨rel, hrel, hends⟩ := h
  exact ⟨rel, hrel, hends.symm⟩

theorem joined_of_mem {rels : List Relationship} {rel : Relationship} (h : rel ∈ rels) :
    Joined rels rel.fromId rel.toId := ⟨rel, h, .inl ⟨rfl, rfl⟩⟩

theorem around_congr {rels rels' : List Relationship} (h : rels.Perm rels') {id other : Bytes} :
    Around rels id other ↔ Around rels' id other := by
  simp only [Around, Joined, h.mem_iff]

theorem Closed.joined {rels : List Relationship} {id a b : Bytes} (h : Closed rels id)
    (ha : Around rels id a) (hab : Joined rels a b) : Around rels id b := by
  rcases ha with rfl | ha
  · exact .inr hab
  · exact h a b ha hab

/-! ### How far a scope grows -/

theorem extend_ids_of_not_lt {limit : Nat} {scope : Scope} {rel : Relationship}
    (h : ¬ scope.ids.length < limit) : (scope.extend limit rel).ids = scope.ids := by
  unfold Scope.extend
  simp only [h, decide_false, Bool.and_false, Bool.false_eq_true, if_false]
  split_ifs
  · rfl
  · rfl

theorem foldl_extend_ids_of_not_lt {limit : Nat} {l : List Relationship} {scope : Scope}
    (h : ¬ scope.ids.length < limit) : (l.foldl (Scope.extend limit) scope).ids = scope.ids := by
  induction l generalizing scope with
  | nil => rfl
  | cons rel l ih =>
    have hsame : (scope.extend limit rel).ids = scope.ids := extend_ids_of_not_lt h
    rw [List.foldl_cons, ih (hsame ▸ h), hsame]

theorem extend_subset_join {limit : Nat} (scope : Scope) (rel : Relationship) :
    (scope.extend limit rel).ids ⊆ join scope.ids rel := by
  by_cases hlt : scope.ids.length < limit
  · rw [extend_of_lt rel hlt]
    exact List.Subset.refl _
  · rw [extend_ids_of_not_lt hlt]
    exact subset_join _ rel

theorem join_around {rels : List Relationship} {id : Bytes} (hclosed : Closed rels id)
    {rel : Relationship} (hrel : rel ∈ rels) {ids : List Bytes} (h : ∀ a ∈ ids, Around rels id a) :
    ∀ a ∈ join ids rel, Around rels id a := by
  intro a ha
  unfold join at ha
  split_ifs at ha with hfrom hto
  · rcases List.mem_insert_iff.mp ha with rfl | ha
    · exact hclosed.joined (h _ (by simpa using hfrom)) (joined_of_mem hrel)
    · exact h a ha
  · rcases List.mem_insert_iff.mp ha with rfl | ha
    · exact hclosed.joined (h _ (by simpa using hto)) (joined_of_mem hrel).symm
    · exact h a ha
  · exact h a ha

/-- **A scope that nothing leads out of** keeps to the direct relationships. -/
theorem foldl_extend_around {rels : List Relationship} {id : Bytes} (hclosed : Closed rels id)
    {limit : Nat} {l : List Relationship} (hl : l ⊆ rels) {scope : Scope}
    (h : ∀ a ∈ scope.ids, Around rels id a) :
    ∀ a ∈ (l.foldl (Scope.extend limit) scope).ids, Around rels id a := by
  induction l generalizing scope with
  | nil => exact h
  | cons rel l ih =>
    rw [List.cons_subset] at hl
    refine ih hl.2 fun a ha => ?_
    exact join_around hclosed hl.1 h a (extend_subset_join scope rel ha)

theorem mem_foldl_join {l : List Relationship} {ids : List Bytes} {id other : Bytes}
    (hid : id ∈ ids) (h : Joined l id other) : other ∈ l.foldl join ids := by
  induction l generalizing ids with
  | nil =>
    obtain ⟨rel, hrel, -⟩ := h
    cases hrel
  | cons rel l ih =>
    obtain ⟨found, hfound, hends⟩ := h
    rcases List.mem_cons.mp hfound with rfl | hfound
    · refine subset_foldl_join l _ ?_
      unfold join
      rcases hends with ⟨rfl, rfl⟩ | ⟨rfl, rfl⟩
      · simp [hid]
      · by_cases hfrom : found.fromId ∈ ids
        · simp [hfrom]
        · simp [hfrom, hid]
    · exact ih (subset_join ids rel hid) ⟨found, hfound, hends⟩

theorem length_le_extend {limit : Nat} (scope : Scope) (rel : Relationship) :
    scope.ids.length ≤ (scope.extend limit rel).ids.length := by
  have hinsert : ∀ id : Bytes, scope.ids.length ≤ (scope.ids.insert id).length := by
    intro id
    rw [List.length_insert]
    split_ifs
    · exact le_rfl
    · exact Nat.le_succ _
  unfold Scope.extend
  dsimp only
  split_ifs
  · exact hinsert _
  · exact hinsert _
  · exact le_rfl
  · exact le_rfl

theorem length_le_foldl_extend {limit : Nat} (l : List Relationship) (scope : Scope) :
    scope.ids.length ≤ (l.foldl (Scope.extend limit) scope).ids.length := by
  induction l generalizing scope with
  | nil => exact le_rfl
  | cons rel l ih => exact (length_le_extend scope rel).trans (ih _)

theorem foldl_extend_of_lt {limit : Nat} {l : List Relationship} {scope : Scope}
    (h : (l.foldl (Scope.extend limit) scope).ids.length < limit) :
    l.foldl (Scope.extend limit) scope = { scope with ids := l.foldl join scope.ids } := by
  induction l generalizing scope with
  | nil => rfl
  | cons rel l ih =>
    have hlt : scope.ids.length < limit :=
      lt_of_le_of_lt (length_le_foldl_extend (rel :: l) scope) h
    rw [List.foldl_cons] at h
    rw [List.foldl_cons, List.foldl_cons, ih h, extend_of_lt rel hlt]

theorem nodup_foldl_extend {limit : Nat} {l : List Relationship} {scope : Scope}
    (h : scope.ids.Nodup) : (l.foldl (Scope.extend limit) scope).ids.Nodup := by
  induction l generalizing scope with
  | nil => exact h
  | cons rel l ih =>
    refine ih ?_
    unfold Scope.extend
    dsimp only
    split_ifs
    · exact h.insert
    · exact h.insert
    · exact h
    · exact h

/-! ### Requests for one asset -/

/-- Exactly one asset is eligible. -/
structure Sole (index : ModelIndex) (promptTerms : List Bytes) (id : Bytes) : Prop where
  eligible : ∃ asset, TopScoring index promptTerms asset ∧ asset.id = id
  only : ∀ asset, TopScoring index promptTerms asset → asset.id = id

theorem nodup_allEligibleIds {scored : List Candidate} {ids : List Bytes} (h : ids.Nodup) :
    (allEligibleIds scored ids).Nodup := by
  have hgrows : ∀ (l : List Candidate) (ids : List Bytes), ids.Nodup →
      (l.foldl (fun ids item => if item.score = eligibilityScore scored ∧ item.id ∉ ids
        then ids ++ [item.id] else ids) ids).Nodup := by
    intro l
    induction l with
    | nil => exact fun _ h => h
    | cons item l ih =>
      intro ids h
      refine ih _ ?_
      dsimp only
      split_ifs with hnew
      · refine List.nodup_append.mpr ⟨h, List.nodup_singleton _, ?_⟩
        intro id hid other hother heq
        rw [List.mem_singleton] at hother
        exact hnew.2 (hother ▸ heq ▸ hid)
      · exact h
  exact hgrows scored ids h

theorem eq_singleton_of_nodup {α : Type} {l : List α} {a : α} (hnodup : l.Nodup) (hne : l ≠ [])
    (h : ∀ b ∈ l, b = a) : l = [a] := by
  have hone : l.length ≤ 1 := by
    have hsub : l ⊆ [a] := fun b hb => List.mem_singleton.mpr (h b hb)
    exact (List.subperm_of_subset hnodup hsub).length_le
  obtain ⟨b, rfl⟩ := List.length_eq_one_iff.mp
    (le_antisymm hone (List.length_pos_iff.mpr hne))
  rw [h b (List.mem_singleton_self b)]

section
variable {index : ModelIndex} {promptTerms : List Bytes} {scopePhrase : Bool}
  {limits : RetrievalLimits} {id : Bytes}

theorem Sole.allEligible (wf : index.WellFormed) (h : Sole index promptTerms id) :
    allEligibleIds (scoredAssets index promptTerms) (eligibleIds (listCandidates limits
      (scoredAssets index promptTerms))) = [id] := by
  refine eq_singleton_of_nodup (nodup_allEligibleIds (nodup_eligibleIds wf.assets_nodup)) ?_ ?_
  · obtain ⟨asset, htop, hid⟩ := h.eligible
    exact List.ne_nil_of_mem (mem_allEligibleIds.mpr ⟨asset, htop, hid⟩)
  · intro other hother
    obtain ⟨asset, htop, rfl⟩ := mem_allEligibleIds.mp hother
    exact h.only asset htop

theorem Sole.eligibleCount (wf : index.WellFormed) (h : Sole index promptTerms id) :
    (draftOf index promptTerms scopePhrase limits).eligibleCount = 1 :=
  congrArg List.length (h.allEligible wf)

theorem Sole.eligible_draftOf (wf : index.WellFormed) (hlimit : limits.candidates ≠ 0)
    (h : Sole index promptTerms id) :
    (draftOf index promptTerms scopePhrase limits).eligible = [id] := by
  refine eq_singleton_of_nodup (nodup_eligibleIds wf.assets_nodup) ?_ ?_
  · intro hnil
    have hnone : (draftOf index promptTerms scopePhrase limits).eligibleCount = 0 :=
      eligibleCount_of_nil hlimit hnil
    rw [h.eligibleCount wf] at hnone
    cases hnone
  · intro other hother
    obtain ⟨asset, htop, rfl⟩ := mem_eligibleIds hother
    exact h.only asset htop

end

/-- The scope of a request, before the budget loop. -/
def requestScope (index : ModelIndex) (prompt : Bytes) (limits : RetrievalLimits) : Scope :=
  scopeOf index limits.assets.toNat (requestDraft index prompt limits).eligible
    (requestDraft index prompt limits).specific

/-- The asset limit is not reached. -/
def LimitFree (index : ModelIndex) (prompt : Bytes) (limits : RetrievalLimits) : Prop :=
  (requestScope index prompt limits).ids.length < limits.assets.toNat

/-- The relationships between an asset and its neighbours are within their limit. -/
def FewRelationships (index : ModelIndex) (limits : RetrievalLimits) (id : Bytes) : Prop :=
  (index.relationships.filter fun rel => Around index.relationships id rel.fromId ∧
    Around index.relationships id rel.toId).length ≤ limits.relationships.toNat

instance (index : ModelIndex) (limits : RetrievalLimits) (id : Bytes) :
    Decidable (FewRelationships index limits id) := inferInstanceAs (Decidable (_ ≤ _))

section
variable {index : ModelIndex} {prompt : Bytes} {limits : RetrievalLimits} {id : Bytes}

theorem requestScope_sole (wf : index.WellFormed) (hlimit : limits.candidates ≠ 0)
    (h : Sole index (termsFor prompt) id) : requestScope index prompt limits =
      index.relationships.foldl (Scope.extend limits.assets.toNat) ⟨[id], false⟩ := by
  have heligible : (requestDraft index prompt limits).eligible = [id] :=
    h.eligible_draftOf wf hlimit
  rw [requestScope, heligible]
  rfl

theorem requestScope_around (wf : index.WellFormed) (hlimit : limits.candidates ≠ 0)
    (h : Sole index (termsFor prompt) id) (hclosed : Closed index.relationships id) :
    ∀ a ∈ (requestScope index prompt limits).ids, Around index.relationships id a := by
  rw [requestScope_sole wf hlimit h]
  refine foldl_extend_around hclosed (List.Subset.refl _) fun a ha => ?_
  exact .inl (List.mem_singleton.mp ha)

theorem requestScope_of_one (wf : index.WellFormed) (hlimit : limits.candidates ≠ 0)
    (h : Sole index (termsFor prompt) id) (hone : limits.assets = 1) :
    (requestScope index prompt limits).ids = [id] := by
  rw [requestScope_sole wf hlimit h, hone]
  exact foldl_extend_ids_of_not_lt (Nat.lt_irrefl 1)

theorem requestScope_free (wf : index.WellFormed) (hlimit : limits.candidates ≠ 0)
    (h : Sole index (termsFor prompt) id) (hfree : LimitFree index prompt limits) :
    requestScope index prompt limits = ⟨index.relationships.foldl join [id], false⟩ := by
  unfold LimitFree at hfree
  rw [requestScope_sole wf hlimit h] at hfree ⊢
  exact foldl_extend_of_lt hfree

theorem mem_requestScope (wf : index.WellFormed) (hlimit : limits.candidates ≠ 0)
    (h : Sole index (termsFor prompt) id) (hclosed : Closed index.relationships id)
    (hfree : LimitFree index prompt limits) {a : Bytes} :
    a ∈ (requestScope index prompt limits).ids ↔ Around index.relationships id a := by
  constructor
  · exact requestScope_around wf hlimit h hclosed a
  · rw [requestScope_free wf hlimit h hfree]
    intro ha
    rcases ha with rfl | ha
    · exact subset_foldl_join _ _ (List.mem_singleton_self _)
    · exact mem_foldl_join (List.mem_singleton_self _) ha

theorem contextAssets_subset {limit : Nat} {eligible : List Bytes} {scope : Scope}
    (h : eligible ⊆ scope.ids) :
    (contextAssets index limit eligible scope).map (·.id) ⊆ scope.ids := by
  intro a ha
  have hordered : a ∈ orderedScopeIds index eligible scope :=
    (((List.take_sublist _ _).map _).trans (sublist_filterMap_asset? _ _)).subset ha
  rcases List.mem_append.mp hordered with hin | hin
  · exact h hin
  · have hscope := (List.mem_filter.mp hin).2
    rw [Bool.and_eq_true] at hscope
    simpa using hscope.1

theorem requestDraft_assets_subset :
    (requestDraft index prompt limits).assets.map (·.id) ⊆ (requestScope index prompt limits).ids :=
  contextAssets_subset eligible_subset_scopeOf

end

/-! ### Contexts -/

/-- The ids of the assets in the scope of a context. -/
def scopeAssetIds (retrieved : Json) : List Json :=
  (scopeList retrieved "assets").elements.map fun asset => (asset.find? "id").getD .null

theorem scopeAssetIds_render (index : ModelIndex) (limits : RetrievalLimits) (d : Draft) :
    scopeAssetIds (d.render index limits) = (d.assets.map (·.id)).map Json.str := by
  have hlist : scopeList (d.render index limits) "assets" = .arr (d.assets.map compactAsset) := by
    have hlists := limitedLists_render index limits d
    rw [limitedLists, List.cons.injEq, List.cons.injEq] at hlists
    exact hlists.2.1
  have hid : ∀ asset : Asset, (compactAsset asset).find? "id" = some (.str asset.id) := by
    intro asset
    rw [compactAsset, Json.find?_setOptional (Json.isObject_object _)]
    simp
  rw [scopeAssetIds, hlist, Json.elements, List.map_map, List.map_map]
  refine List.map_congr_left fun asset _ => ?_
  show ((compactAsset asset).find? "id").getD .null = .str asset.id
  rw [hid]
  rfl

/-- Every asset in the scope of a context is the asset itself, or one it is related to. -/
def DirectScope (rels : List Relationship) (id : Bytes) (retrieved : Json) : Prop :=
  ∀ item ∈ scopeAssetIds retrieved, ∃ other, item = .str other ∧ Around rels id other

/-! ### Drafts of models in another order -/

/-- The same draft with its relationships in another order. -/
structure Draft.Reordered (d d' : Draft) : Prop where
  same : d' = { d with relationships := d'.relationships }
  relationships : d'.relationships.Perm d.relationships

namespace Draft.Reordered

variable {d d' : Draft} (h : d.Reordered d')
include h

theorem candidates : d'.candidates = d.candidates := by rw [h.same]

theorem assets : d'.assets = d.assets := by rw [h.same]

theorem eligible : d'.eligible = d.eligible := by rw [h.same]

theorem eligibleCount : d'.eligibleCount = d.eligibleCount := by rw [h.same]

end Draft.Reordered

section
variable {index : ModelIndex} {prompt : Bytes} {limits : RetrievalLimits} {id : Bytes}
  {rels : List Relationship}

theorem Sole.reorder {promptTerms : List Bytes} (h : Sole index promptTerms id) :
    Sole (index.reorder rels) promptTerms id := by
  obtain ⟨asset, htop, hid⟩ := h.eligible
  refine ⟨⟨asset, ⟨htop.declared, htop.best, htop.enough⟩, hid⟩, ?_⟩
  exact fun other hother => h.only other ⟨hother.declared, hother.best, hother.enough⟩

theorem Closed.perm {l l' : List Relationship} (hperm : l.Perm l') (h : Closed l id) :
    Closed l' id := by
  intro a b ha hab
  simp only [Joined, ← hperm.mem_iff] at ha hab
  exact (around_congr hperm).mp (h a b ha hab)

theorem LimitFree.reorder (wf : index.WellFormed)
    (wf' : (index.reorder rels).WellFormed)
    (hlimit : limits.candidates ≠ 0) (hsole : Sole index (termsFor prompt) id)
    (hclosed : Closed index.relationships id) (hperm : index.relationships.Perm rels)
    (h : LimitFree index prompt limits) :
    LimitFree (index.reorder rels) prompt limits := by
  refine lt_of_le_of_lt (List.subperm_of_subset ?_ ?_).length_le h
  · rw [requestScope_sole wf' hlimit hsole.reorder]
    exact nodup_foldl_extend (List.nodup_singleton id)
  · intro a ha
    have haround := requestScope_around wf' hlimit hsole.reorder (hclosed.perm hperm) a ha
    exact (mem_requestScope wf hlimit hsole hclosed h).mpr ((around_congr hperm).mpr haround)

theorem mem_requestScope_reorder (wf : index.WellFormed)
    (wf' : (index.reorder rels).WellFormed)
    (hlimit : limits.candidates ≠ 0) (hsole : Sole index (termsFor prompt) id)
    (hclosed : Closed index.relationships id) (hperm : index.relationships.Perm rels)
    (hfree : LimitFree index prompt limits) (a : Bytes) :
    a ∈ (requestScope (index.reorder rels) prompt limits).ids ↔
      a ∈ (requestScope index prompt limits).ids := by
  rw [mem_requestScope wf hlimit hsole hclosed hfree, mem_requestScope wf' hlimit hsole.reorder
    (hclosed.perm hperm) (hfree.reorder wf wf' hlimit hsole hclosed hperm)]
  exact (around_congr hperm).symm

/-- What a draft of one eligible asset takes from its scope is decided by the assets in it. -/
theorem assets_reorder (hcontains : ∀ a, a ∈ (requestScope (index.reorder rels) prompt
      limits).ids ↔ a ∈ (requestScope index prompt limits).ids) :
    (requestDraft (index.reorder rels) prompt limits).assets =
      (requestDraft index prompt limits).assets := by
  have hordered : orderedScopeIds (index.reorder rels)
      (requestDraft index prompt limits).eligible
        (requestScope (index.reorder rels) prompt limits) =
      orderedScopeIds index (requestDraft index prompt limits).eligible
        (requestScope index prompt limits) := by
    refine congrArg (_ ++ ·) (List.filter_congr fun a _ => ?_)
    congr 1
    rw [Bool.eq_iff_iff, List.contains_iff_mem, List.contains_iff_mem, hcontains]
  exact congrArg (fun ids => (ids.filterMap index.asset?).take limits.assets.toNat) hordered

/-- The relationships of a request, before their limit. -/
def relevantRelationships (index : ModelIndex) (prompt : Bytes) (limits : RetrievalLimits) :
    List Relationship :=
  index.relationships.filter fun rel =>
    (requestScope index prompt limits).ids.contains rel.fromId &&
      (requestScope index prompt limits).ids.contains rel.toId

theorem relevantRelationships_around
    (hmem : ∀ a, a ∈ (requestScope index prompt limits).ids ↔ Around index.relationships id a) :
    relevantRelationships index prompt limits = index.relationships.filter fun rel =>
      Around index.relationships id rel.fromId ∧ Around index.relationships id rel.toId := by
  refine List.filter_congr fun rel _ => ?_
  rw [Bool.eq_iff_iff, Bool.and_eq_true, List.contains_iff_mem, List.contains_iff_mem, hmem, hmem,
    decide_eq_true_eq]

theorem perm_relevantRelationships (hperm : index.relationships.Perm rels)
    (hcontains : ∀ a, a ∈ (requestScope (index.reorder rels) prompt limits).ids ↔
      a ∈ (requestScope index prompt limits).ids) :
    (relevantRelationships (index.reorder rels) prompt limits).Perm
      (relevantRelationships index prompt limits) := by
  have hfilter : relevantRelationships (index.reorder rels) prompt limits =
      rels.filter fun rel => (requestScope index prompt limits).ids.contains rel.fromId &&
        (requestScope index prompt limits).ids.contains rel.toId := by
    refine List.filter_congr fun rel _ => ?_
    rw [Bool.eq_iff_iff, Bool.and_eq_true, Bool.and_eq_true, List.contains_iff_mem,
      List.contains_iff_mem, List.contains_iff_mem, List.contains_iff_mem, hcontains, hcontains]
  rw [hfilter]
  exact hperm.symm.filter _

/-- **The first draft of a request** differs only in the order of its relationships. -/
theorem reordered_requestDraft (wf : index.WellFormed)
    (wf' : (index.reorder rels).WellFormed)
    (hlimit : limits.candidates ≠ 0) (hsole : Sole index (termsFor prompt) id)
    (hclosed : Closed index.relationships id) (hperm : index.relationships.Perm rels)
    (hfree : LimitFree index prompt limits) (hfew : FewRelationships index limits id) :
    (requestDraft index prompt limits).Reordered
      (requestDraft (index.reorder rels) prompt limits) := by
  have hmem := mem_requestScope_reorder wf wf' hlimit hsole hclosed hperm hfree
  have hfree' := hfree.reorder wf wf' hlimit hsole hclosed hperm
  have hlength : (requestScope (index.reorder rels) prompt limits).ids.length =
      (requestScope index prompt limits).ids.length := by
    have hnodup : (requestScope index prompt limits).ids.Nodup := by
      rw [requestScope_sole wf hlimit hsole]
      exact nodup_foldl_extend (List.nodup_singleton id)
    have hnodup' : (requestScope (index.reorder rels) prompt limits).ids.Nodup := by
      rw [requestScope_sole wf' hlimit hsole.reorder]
      exact nodup_foldl_extend (List.nodup_singleton id)
    exact ((List.perm_ext_iff_of_nodup hnodup' hnodup).mpr hmem).length_eq
  have hrelevant := perm_relevantRelationships hperm hmem
  have hroom : (relevantRelationships index prompt limits).length ≤
      limits.relationships.toNat := by
    rw [relevantRelationships_around fun a => mem_requestScope wf hlimit hsole hclosed hfree]
    exact hfew
  have hnonempty : (requestDraft index prompt limits).eligible ≠ [] := by
    rw [requestDraft, hsole.eligible_draftOf wf hlimit]
    exact List.cons_ne_nil _ _
  have hsources : sourceTags (index.reorder rels) (termsFor prompt)
      (hasScopePhrase prompt) limits =
      sourceTags index (termsFor prompt) (hasScopePhrase prompt) limits := by
    rw [sourceTags_of_eligible hnonempty]
    exact @sourceTags_of_eligible (index.reorder rels) _ _ _ hnonempty
  have hroles : (requestDraft (index.reorder rels) prompt limits).roleHints =
      (requestDraft index prompt limits).roleHints :=
    congrArg (measurementRoleHints · (termsFor prompt)) hsources
  have htaken : (requestDraft index prompt limits).relationships =
      (relevantRelationships index prompt limits).map compactRelationship :=
    congrArg (List.map compactRelationship) (List.take_of_length_le hroom)
  have htaken' : (requestDraft (index.reorder rels) prompt limits).relationships =
      (relevantRelationships (index.reorder rels) prompt limits).map
        compactRelationship :=
    congrArg (List.map compactRelationship)
      (List.take_of_length_le (hrelevant.length_eq.trans_le hroom))
  have hassets := assets_reorder hmem
  have howners : ∀ scope : Scope, measurementScopeIds (requestDraft index prompt limits).eligible
      scope = (requestDraft index prompt limits).eligible := by
    intro scope
    rw [measurementScopeIds, List.isEmpty_eq_false_iff.mpr hnonempty]
    rfl
  have hraised : (index.alarms.filter fun alarm => (measurementScopeIds
      (requestDraft index prompt limits).eligible (requestScope (index.reorder rels)
        prompt limits)).contains alarm.assetId) =
      index.alarms.filter fun alarm => (measurementScopeIds
        (requestDraft index prompt limits).eligible
        (requestScope index prompt limits)).contains alarm.assetId := by
    rw [howners, howners]
  have hflags : (requestDraft (index.reorder rels) prompt limits).truncated =
      (requestDraft index prompt limits).truncated := by
    have hscope : (requestScope (index.reorder rels) prompt limits).truncated =
        (requestScope index prompt limits).truncated := by
      rw [requestScope_free wf hlimit hsole hfree, requestScope_free wf' hlimit hsole.reorder hfree']
    refine (Truncated.mk.injEq ..).mpr ⟨rfl, ?_, ?_, ?_, ?_, rfl, rfl⟩
    · show ((requestScope (index.reorder rels) prompt limits).truncated ||
        decide ((requestDraft (index.reorder rels) prompt limits).assets.length <
          (requestScope (index.reorder rels) prompt limits).ids.length)) = _
      rw [hscope, hassets, hlength]
      rfl
    · show decide (((relevantRelationships (index.reorder rels) prompt limits).take
        limits.relationships.toNat).length < (relevantRelationships
          (index.reorder rels) prompt limits).length) =
        decide (((relevantRelationships index prompt limits).take
          limits.relationships.toNat).length < (relevantRelationships index prompt limits).length)
      rw [List.length_take, List.length_take, hrelevant.length_eq]
    · show decide (((orderedTags (sourceTags (index.reorder rels) (termsFor prompt)
        (hasScopePhrase prompt) limits) (requestDraft (index.reorder rels) prompt
          limits).roleHints).take limits.tags.toNat).length < (sourceTags
            (index.reorder rels) (termsFor prompt) (hasScopePhrase prompt)
              limits).length) = _
      rw [hsources, hroles]
      rfl
    · exact congrArg (fun l : List Alarm => decide ((l.take limits.alarms.toNat).length < l.length))
        hraised
  refine ⟨?_, ?_⟩
  · refine (Draft.mk.injEq ..).mpr ⟨rfl, congrArg (hintsWith (termsFor prompt)) hroles, hroles,
      congrArg List.length hroles, rfl, rfl, rfl, rfl, rfl, hassets, rfl, ?_, ?_, hflags⟩
    · show ((orderedTags (sourceTags (index.reorder rels) (termsFor prompt)
        (hasScopePhrase prompt) limits) (requestDraft (index.reorder rels) prompt
          limits).roleHints).take limits.tags.toNat).map compactTag = _
      rw [hsources, hroles]
      rfl
    · exact congrArg (fun l : List Alarm => (l.take limits.alarms.toNat).map compactAlarm) hraised
  · rw [htaken, htaken']
    exact hrelevant.map _

end

/-! ### The loop -/

section
variable [Platform] {index : ModelIndex} {limits : RetrievalLimits} {rels : List Relationship}

theorem budgetExceeded_reorder {d d' : Draft} (h : d.Reordered d') {b : Bool}
    (hb : budgetExceeded index limits d = .ok b) :
    budgetExceeded (index.reorder rels) limits d' = .ok b := by
  have hshorter : ∀ e e' : Draft, e' = { e with relationships := e'.relationships } →
      e'.relationships.Perm e.relationships →
      (e'.render index limits).Shorter (e.render index limits) := by
    intro e e' hsame hperm
    rw [hsame]
    refine Json.shorter_object ?_
    refine .cons ⟨rfl, .refl _⟩ (.cons ⟨rfl, .refl _⟩ (.cons ⟨rfl, .refl _⟩ ?_))
    refine .cons ⟨rfl, .refl _⟩ (.cons ⟨rfl, .refl _⟩ (.cons ⟨rfl, .refl _⟩ ?_))
    refine .cons ⟨rfl, .refl _⟩ (.cons ⟨rfl, .refl _⟩ (.cons ⟨rfl, .refl _⟩ ?_))
    refine .cons ⟨rfl, .refl _⟩ (.cons ⟨rfl, .refl _⟩ (.cons ⟨rfl, .refl _⟩ ?_))
    refine .cons ⟨rfl, Json.shorter_object ?_⟩ (.cons ⟨rfl, .refl _⟩ (.cons ⟨rfl, .refl _⟩ .nil))
    exact .cons ⟨rfl, .refl _⟩ (.cons ⟨rfl, Json.shorter_arr_of_perm hperm⟩
      (.cons ⟨rfl, .refl _⟩ (.cons ⟨rfl, .refl _⟩ .nil)))
  have hback : d = { d' with relationships := d.relationships } := by
    rw [h.same]
  simp only [budgetExceeded, withinBudget, map_eq_ok, bind_eq_ok, pure_eq_ok] at hb ⊢
  obtain ⟨_, ⟨t, ht, rfl⟩, rfl⟩ := hb
  obtain ⟨t', ht', hle⟩ := hshorter d d' h.same h.relationships t ht
  obtain ⟨t'', ht'', hge⟩ := hshorter d' d hback h.relationships.symm t' ht'
  rw [ht, Except.ok.injEq] at ht''
  subst ht''
  exact ⟨_, ⟨t', ht', rfl⟩, by rw [le_antisymm hle hge]⟩

omit [Platform] in
theorem shrink_of_dropCandidate {d e : Draft} (h : d.dropCandidate = some e) :
    d.shrink = some e.flagged := by
  rw [Draft.shrink_eq, Draft.dropContext, h]
  rfl

omit [Platform] in
theorem shrink_of_dropAsset {d e : Draft} (hnone : d.dropCandidate = none)
    (h : d.dropAsset = some e) : d.shrink = some e.flagged := by
  rw [Draft.shrink_eq, Draft.dropContext, hnone, h]
  rfl

omit [Platform] in
theorem reordered_turn {d d' e : Draft} (h : d.Reordered d')
    (he : d.dropCandidate = some e ∨ (d.dropCandidate = none ∧ d.dropAsset = some e)) :
    ∃ e', d.shrink = some e.flagged ∧ d'.shrink = some e' ∧ e.flagged.Reordered e' := by
  rcases he with hcandidate | ⟨hnone, hasset⟩
  · have hturn := shrink_of_dropCandidate hcandidate
    obtain ⟨l, hl, rfl⟩ := Option.map_eq_some_iff.mp hcandidate
    have hcandidate' : d'.dropCandidate = some { d' with
        candidates := l
        truncated := { d'.truncated with candidates := true } } := by
      rw [Draft.dropCandidate, h.candidates, hl]
      rfl
    refine ⟨_, hturn, shrink_of_dropCandidate hcandidate', ⟨?_, h.relationships⟩⟩
    rw [h.same]
    rfl
  · have hturn := shrink_of_dropAsset hnone hasset
    obtain ⟨l, hl, rfl⟩ := Option.map_eq_some_iff.mp hasset
    have hnone' : d'.dropCandidate = none := by
      rw [Draft.dropCandidate, Option.map_eq_none_iff] at hnone ⊢
      rw [h.candidates, hnone]
    have hasset' : d'.dropAsset = some { d' with
        assets := l
        truncated := { d'.truncated with assets := true } } := by
      rw [Draft.dropAsset, h.assets, h.eligible, hl]
      rfl
    refine ⟨_, hturn, shrink_of_dropAsset hnone' hasset', ⟨?_, h.relationships⟩⟩
    rw [h.same]
    rfl

omit [Platform] in
theorem stripped_of_shrink {d d' : Draft} (hcount : d.eligibleCount ≤ 1) (h : d.shrink = some d') :
    d'.stripped = d.stripped := by
  have heligible := (Draft.shrink_spec h).below.eligible_kept hcount
  obtain ⟨e, rfl, hcontext | hrest | rfl⟩ := Draft.shrink_cases h
  · exact hcontext.stripped
  · exact hrest.stripped
  · have hsame : ({ d with eligible := d.eligible.dropLast } : Draft) = d := by
      rw [show d.eligible.dropLast = d.eligible from heligible]
    rw [hsame]
    rfl

theorem fitBudget_assets {d u : Draft} (hcount : d.eligibleCount ≤ 1)
    (hall : ∀ asset ∈ d.assets, asset.id ∈ d.eligible) (hu : fitBudget index limits d = .ok u) :
    u.assets.map (·.id) = d.assets.map (·.id) := by
  have hids : ∀ e : Draft, (∀ asset ∈ e.assets, asset.id ∈ e.eligible) →
      e.assets.map (·.id) = e.stripped.assets.map (·.id) := by
    intro e he
    have hfilter : (e.assets.filter fun asset => e.eligible.contains asset.id) = e.assets :=
      List.filter_eq_self.mpr fun asset hasset => by simpa using he asset hasset
    rw [Draft.stripped, hfilter, List.map_map]
    rfl
  have hbelow := (fitBudget_eq_ok hu).1
  have hkept : u.stripped = d.stripped ∧ u.eligibleCount = d.eligibleCount := by
    refine whileLoop_invariant (P := fun s => s.stripped = d.stripped ∧
      s.eligibleCount = d.eligibleCount) ?_ ⟨rfl, rfl⟩ hu
    intro s s' hs _ hturn
    have hshrink := Draft.shrinkOrThrow_eq_ok.mp hturn
    refine ⟨(stripped_of_shrink (hs.2.trans_le hcount) hshrink).trans hs.1, ?_⟩
    exact (Draft.shrink_spec hshrink).below.eligibleCount.trans hs.2
  have hinside : ∀ asset ∈ u.assets, asset.id ∈ u.eligible := by
    intro asset hasset
    rw [hbelow.eligible_kept hcount]
    obtain ⟨other, hother, hid⟩ := List.mem_map.mp (hbelow.assets.subset
      (List.mem_map_of_mem hasset))
    rw [← hid]
    exact hall other hother
  rw [hids u hinside, hids d hall, hkept.1]

/-- **The loop leaves the same assets** in either order of the relationships. -/
theorem fitBudget_reorder {d d' u u' : Draft} (h : d.Reordered d') (hcount : d.eligibleCount ≤ 1)
    (hu : fitBudget index limits d = .ok u)
    (hu' : fitBudget (index.reorder rels) limits d' = .ok u') :
    u.assets.map (·.id) = u'.assets.map (·.id) := by
  induction hw : d.weight using Nat.strong_induction_on generalizing d d' with
  | _ w ih =>
    subst hw
    have hcount' : d'.eligibleCount ≤ 1 := h.eligibleCount.trans_le hcount
    obtain ⟨b, hb⟩ := exists_budgetExceeded hu
    have hb' : budgetExceeded (index.reorder rels) limits d' = .ok b := budgetExceeded_reorder h hb
    by_cases hall : ∀ asset ∈ d.assets, asset.id ∈ d.eligible
    · have hall' : ∀ asset ∈ d'.assets, asset.id ∈ d'.eligible := by
        rw [h.assets, h.eligible]
        exact hall
      rw [fitBudget_assets hcount hall hu, fitBudget_assets hcount' hall' hu', h.assets]
    · rw [fitBudget_eq, hb, ok_bind] at hu
      rw [fitBudget_eq, hb', ok_bind] at hu'
      cases b with
      | false =>
        cases hu
        cases hu'
        rw [h.assets]
      | true =>
        -- As long as an asset can go, a turn takes a candidate or an asset.
        obtain ⟨e, he⟩ : ∃ e, d.dropCandidate = some e ∨
            (d.dropCandidate = none ∧ d.dropAsset = some e) := by
          cases hcandidate : d.dropCandidate with
          | some e => exact ⟨e, .inl rfl⟩
          | none =>
            cases hasset : d.dropAsset with
            | some e => exact ⟨e, .inr ⟨rfl, rfl⟩⟩
            | none =>
              rw [Draft.dropAsset, Option.map_eq_none_iff, removeLast_eq_none] at hasset
              refine absurd (fun asset hmem => ?_) hall
              simpa using hasset asset hmem
        obtain ⟨e', hturn, hturn', hsame⟩ := reordered_turn h he
        rw [if_pos rfl, Draft.shrinkOrThrow_eq_ok.mpr hturn, ok_bind] at hu
        rw [if_pos rfl, Draft.shrinkOrThrow_eq_ok.mpr hturn', ok_bind] at hu'
        have hspec := Draft.shrink_spec hturn
        exact ih _ hspec.weight hsame (hspec.below.eligibleCount.trans_le hcount) hu hu' rfl

end

/-! ### Contexts of one eligible asset -/

section
variable [Platform] {model : Json} {index : ModelIndex} {prompt : Bytes} {limits : RetrievalLimits}
  {id : Bytes}

/-- The scope of a context keeps to the direct relationships, in every order of them. -/
structure Expands (model : Json) (index : ModelIndex) (prompt : Bytes) (limits : RetrievalLimits)
    (id : Bytes) : Prop where
  direct : ∀ retrieved, retrieve model prompt limits = .ok retrieved →
    DirectScope index.relationships id retrieved
  ordered : LimitFree index prompt limits → ∀ model', Reorders model model' →
    ∀ retrieved retrieved', retrieve model prompt limits = .ok retrieved →
      retrieve model' prompt limits = .ok retrieved' →
      ∀ item, item ∈ scopeAssetIds retrieved ↔ item ∈ scopeAssetIds retrieved'

/-- No order of the relationships makes the request reach the asset limit or the budget. -/
structure Roomy (index : ModelIndex) (prompt : Bytes) (limits : RetrievalLimits) : Prop where
  accepted : checkPrompt prompt = .ok () ∧ checkLimits limits = .ok ()
  free : ∀ rels, index.relationships.Perm rels → LimitFree (index.reorder rels) prompt limits
  fits : ∀ rels, index.relationships.Perm rels → budgetExceeded (index.reorder rels) limits
    (requestDraft (index.reorder rels) prompt limits) = .ok false

omit [Platform] in
theorem candidates_ne_zero {u : Unit} (h : checkLimits limits = .ok u) : limits.candidates ≠ 0 := by
  intro hzero
  simp [checkLimits, hzero] at h

theorem directScope_of_around (hindex : indexModel model = .ok index)
    (haround : limits.candidates ≠ 0 →
      ∀ a ∈ (requestScope index prompt limits).ids, Around index.relationships id a)
    {retrieved : Json} (h : retrieve model prompt limits = .ok retrieved) :
    DirectScope index.relationships id retrieved := by
  obtain ⟨other, d, hother, -, hlimits, hbelow, rfl⟩ := retrieve_eq_ok h
  rw [hindex, Except.ok.injEq] at hother
  subst hother
  intro item hitem
  rw [scopeAssetIds_render] at hitem
  obtain ⟨a, ha, rfl⟩ := List.mem_map.mp hitem
  exact ⟨a, rfl, haround (candidates_ne_zero hlimits) a
    (requestDraft_assets_subset (hbelow.assets.subset ha))⟩

theorem directScope_of_closed (hindex : indexModel model = .ok index)
    (hsole : Sole index (termsFor prompt) id) (hclosed : Closed index.relationships id) {retrieved : Json}
    (h : retrieve model prompt limits = .ok retrieved) :
    DirectScope index.relationships id retrieved :=
  directScope_of_around hindex
    (fun hlimit => requestScope_around (indexModel_wellFormed hindex) hlimit hsole hclosed) h

theorem expands_of_one (hindex : indexModel model = .ok index)
    (hsole : Sole index (termsFor prompt) id) (hone : limits.assets = 1) :
    Expands model index prompt limits id := by
  have hscope : limits.candidates ≠ 0 → (requestScope index prompt limits).ids = [id] :=
    fun hlimit => requestScope_of_one (indexModel_wellFormed hindex) hlimit hsole hone
  constructor
  case direct =>
    intro retrieved h
    refine directScope_of_around hindex (fun hlimit a ha => .inl ?_) h
    rw [hscope hlimit] at ha
    exact List.mem_singleton.mp ha
  case ordered =>
    -- The eligible asset alone reaches the limit.
    intro hfree model' _ retrieved _ h _
    obtain ⟨-, -, -, -, hlimits, -⟩ := retrieve_eq_ok h
    unfold LimitFree at hfree
    rw [hscope (candidates_ne_zero hlimits), hone] at hfree
    exact absurd hfree (Nat.lt_irrefl 1)

theorem expands_of_few (hindex : indexModel model = .ok index)
    (hsole : Sole index (termsFor prompt) id) (hclosed : Closed index.relationships id)
    (hfew : FewRelationships index limits id) : Expands model index prompt limits id := by
  refine ⟨fun retrieved => directScope_of_closed hindex hsole hclosed, ?_⟩
  intro hfree model' hreorders retrieved retrieved' h h'
  simp only [retrieve, retrieveTerms, hindex, ok_bind, bind_eq_ok, pure_eq_ok] at h h'
  obtain ⟨_, -, _, hlimits, u, hu, rfl⟩ := h
  obtain ⟨index', hindex', _, -, _, -, u', hu', rfl⟩ := h'
  obtain ⟨hsame, hperm⟩ := index_of_reorders hreorders hindex hindex'
  have wf := indexModel_wellFormed hindex
  have wf' := indexModel_wellFormed hindex'
  rw [hsame] at wf' hu'
  have hdrafts := reordered_requestDraft wf wf' (candidates_ne_zero hlimits) hsole hclosed hperm hfree
    hfew
  have hassets := fitBudget_reorder hdrafts (hsole.eligibleCount wf).le hu hu'
  intro item
  rw [scopeAssetIds_render, scopeAssetIds_render, hassets]

theorem retrieve_of_roomy (hroomy : Roomy index prompt limits) {model' : Json}
    {rels : List Relationship} (hperm : index.relationships.Perm rels)
    (hindex' : indexModel model' = .ok (index.reorder rels)) :
    retrieve model' prompt limits =
      .ok ((requestDraft (index.reorder rels) prompt limits).render (index.reorder rels) limits) := by
  have hfit : fitBudget (index.reorder rels) limits (requestDraft (index.reorder rels) prompt
      limits) = .ok (requestDraft (index.reorder rels) prompt limits) := by
    rw [fitBudget_eq, hroomy.fits rels hperm]
    rfl
  have hdraft : draftOf (index.reorder rels) (termsFor prompt) (hasScopePhrase prompt) limits =
      requestDraft (index.reorder rels) prompt limits := rfl
  rw [retrieve, hindex', ok_bind, hroomy.accepted.1, ok_bind, hroomy.accepted.2, ok_bind,
    retrieveTerms, hdraft, hfit, ok_bind]
  rfl

theorem expands_of_roomy (hindex : indexModel model = .ok index)
    (hsole : Sole index (termsFor prompt) id) (hclosed : Closed index.relationships id)
    (hroomy : Roomy index prompt limits) : Expands model index prompt limits id := by
  refine ⟨fun retrieved => directScope_of_closed hindex hsole hclosed, ?_⟩
  intro hfree model' hreorders retrieved retrieved' h h'
  obtain ⟨index', -, hindex', -⟩ := retrieve_eq_ok h'
  obtain ⟨hsame, hperm⟩ := index_of_reorders hreorders hindex hindex'
  have wf := indexModel_wellFormed hindex
  have wf' := indexModel_wellFormed hindex'
  rw [hsame] at hindex' wf'
  have hmem := mem_requestScope_reorder wf wf' (candidates_ne_zero hroomy.accepted.2) hsole hclosed
    hperm hfree
  have hown := retrieve_of_roomy hroomy (List.Perm.refl _) hindex
  rw [hown, Except.ok.injEq] at h
  rw [retrieve_of_roomy hroomy hperm hindex', Except.ok.injEq] at h'
  subst h
  subst h'
  intro item
  rw [scopeAssetIds_render, scopeAssetIds_render, assets_reorder hmem]

omit [Platform] in
theorem mem_requestDraft_assets (wf : index.WellFormed)
    (hroom : (requestScope index prompt limits).ids.length ≤ limits.assets.toNat) {a : Bytes}
    (hdeclared : a ∈ index.assets.map (·.id))
    (ha : a ∈ (requestScope index prompt limits).ids) :
    a ∈ (requestDraft index prompt limits).assets.map (·.id) := by
  have hnodup : (requestDraft index prompt limits).eligible.Nodup :=
    nodup_eligibleIds wf.assets_nodup
  have hlength : ((orderedScopeIds index (requestDraft index prompt limits).eligible
      (requestScope index prompt limits)).filterMap index.asset?).length ≤ limits.assets.toNat :=
    (List.length_filterMap_le _ _).trans ((length_orderedScopeIds wf.assets_nodup hnodup
      eligible_subset_scopeOf).trans hroom)
  have hordered : a ∈ orderedScopeIds index (requestDraft index prompt limits).eligible
      (requestScope index prompt limits) := by
    by_cases heligible : a ∈ (requestDraft index prompt limits).eligible
    · exact List.mem_append_left _ heligible
    · refine List.mem_append_right _ (List.mem_filter.mpr ⟨hdeclared, ?_⟩)
      simp [ha, heligible]
  obtain ⟨asset, hasset, rfl⟩ := List.mem_map.mp hdeclared
  refine List.mem_map.mpr ⟨asset, ?_, rfl⟩
  show asset ∈ ((orderedScopeIds index (requestDraft index prompt limits).eligible
    (requestScope index prompt limits)).filterMap index.asset?).take limits.assets.toNat
  rw [List.take_of_length_le hlength]
  exact List.mem_filterMap.mpr ⟨asset.id, hordered, wf.asset?_eq_some.mpr ⟨hasset, rfl⟩⟩

omit [Platform] in
theorem around_of_same {rels : List Relationship} {rel : Relationship} {id a b : Bytes}
    (hrel : rel ∈ rels) (hfirst : (rel.fromId = id ∧ rel.toId = a) ∨ (rel.fromId = a ∧ rel.toId = id))
    (hsecond : (rel.fromId = a ∧ rel.toId = b) ∨ (rel.fromId = b ∧ rel.toId = a)) :
    Around rels id b := by
  rcases hfirst with ⟨rfl, rfl⟩ | ⟨rfl, rfl⟩
  · rcases hsecond with ⟨hsame, rfl⟩ | ⟨rfl, -⟩
    · exact .inr ⟨rel, hrel, .inl ⟨rfl, rfl⟩⟩
    · exact .inl rfl
  · rcases hsecond with ⟨-, rfl⟩ | ⟨rfl, hsame⟩
    · exact .inl rfl
    · exact .inr ⟨rel, hrel, .inr ⟨rfl, rfl⟩⟩

theorem closed_of_expands (hindex : indexModel model = .ok index)
    (hsole : Sole index (termsFor prompt) id) (hroomy : Roomy index prompt limits)
    (h : Expands model index prompt limits id) : Closed index.relationships id := by
  have wf := indexModel_wellFormed hindex
  have hlimit := candidates_ne_zero hroomy.accepted.2
  intro a b ⟨first, hfirst, hends⟩ ⟨second, hsecond, hends'⟩
  by_contra hfar
  have hne : second ≠ first := by
    rintro rfl
    exact hfar (around_of_same hfirst hends hends')
  -- The two relationships come first, so the scope takes in the neighbour and what it leads to.
  have hperm : index.relationships.Perm
      (first :: second :: (index.relationships.erase first).erase second) :=
    (List.perm_cons_erase hfirst).trans
      ((List.perm_cons_erase ((List.mem_erase_of_ne hne).mpr hsecond)).cons first)
  generalize hrels : first :: second :: (index.relationships.erase first).erase second = rels at hperm
  obtain ⟨model', hreorders, hindex'⟩ := exists_reordered hindex hperm
  have wf' := indexModel_wellFormed hindex'
  have hscope : b ∈ (requestScope (index.reorder rels) prompt limits).ids := by
    rw [requestScope_free wf' hlimit hsole.reorder (hroomy.free rels hperm)]
    show b ∈ rels.foldl join [id]
    rw [← hrels, List.foldl_cons]
    have hneighbour : a ∈ join [id] first :=
      mem_foldl_join (l := [first]) (List.mem_singleton_self id)
        ⟨first, List.mem_singleton_self first, hends⟩
    exact mem_foldl_join hneighbour ⟨second, List.mem_cons_self, hends'⟩
  have hdeclared : b ∈ index.assets.map (·.id) := by
    have hrel := (wf.relationships second hsecond).declared
    rcases hends' with ⟨-, hto⟩ | ⟨hfrom, -⟩
    · exact hto ▸ hrel.2
    · exact hfrom ▸ hrel.1
  have hassets : b ∈ (requestDraft (index.reorder rels) prompt limits).assets.map (·.id) :=
    mem_requestDraft_assets wf' (hroomy.free rels hperm).le hdeclared hscope
  have hown := retrieve_of_roomy hroomy (List.Perm.refl _) hindex
  have hmoved := retrieve_of_roomy hroomy hperm hindex'
  have hitem : Json.str b ∈ scopeAssetIds ((requestDraft index prompt limits).render index limits) := by
    rw [h.ordered (hroomy.free _ (List.Perm.refl _)) model' hreorders _ _ hown hmoved,
      scopeAssetIds_render]
    exact List.mem_map_of_mem hassets
  obtain ⟨other, hother, haround⟩ := h.direct _ hown _ hitem
  exact hfar (Json.str.inj hother ▸ haround)

/-- **Direct relationships**: where nothing leads further from the neighbours of the eligible asset, or
there is room for no other asset, the context has only these, in every order of the relationships.
With room for everything, only there. -/
theorem expands_directly (hindex : indexModel model = .ok index)
    (hsole : Sole index (termsFor prompt) id) :
    (limits.assets = 1 ∨ (Closed index.relationships id ∧ FewRelationships index limits id) →
      Expands model index prompt limits id) ∧
    (Roomy index prompt limits →
      (Expands model index prompt limits id ↔ Closed index.relationships id)) := by
  refine ⟨?_, fun hroomy => ⟨?_, ?_⟩⟩
  · rintro (hone | ⟨hclosed, hfew⟩)
    · exact expands_of_one hindex hsole hone
    · exact expands_of_few hindex hsole hclosed hfew
  · exact closed_of_expands hindex hsole hroomy
  · exact fun hclosed => expands_of_roomy hindex hsole hclosed hroomy

end

/-! ### A chain of assets -/

section
local instance chainPlatform : Platform := samplePlatform

def chainAsset (id : Bytes) : Json :=
  .object [("id", .str id), ("name", .str id), ("kind", .str "unit")]

def chainLink (id fromId toId : Bytes) : Json :=
  .object [("id", .str id), ("from", .str fromId), ("to", .str toId), ("kind", .str "feeds")]

/-- A tank that feeds a pump, which feeds a valve. -/
def chain : Json := ((samplePlant 1 [] []).setField "assets"
  (.arr [chainAsset "tank", chainAsset "pump", chainAsset "valve"])).setField "relationships"
    (.arr [chainLink "one" "tank" "pump", chainLink "two" "pump" "valve"])

/-- A tank that feeds a pump. -/
def pair : Json := ((samplePlant 1 [] []).setField "assets"
  (.arr [chainAsset "tank", chainAsset "pump"])).setField "relationships"
    (.arr [chainLink "one" "tank" "pump"])

theorem sole_of_scores {index : ModelIndex} {promptTerms : List Bytes} (asset : Asset)
    (hmem : asset ∈ index.assets) (henough : 12 ≤ score promptTerms asset)
    (h : ∀ other ∈ index.assets, score promptTerms other < score promptTerms asset ∨ other = asset) :
    Sole index promptTerms asset.id := by
  refine ⟨⟨asset, ⟨hmem, fun other hother => ?_, henough⟩, rfl⟩, fun other hother => ?_⟩
  · rcases h other hother with hlt | rfl
    · exact hlt.le
    · exact le_rfl
  · rcases h other hother.declared with hlt | rfl
    · exact absurd (hother.best asset hmem) (Nat.not_le.mpr hlt)
    · rfl

theorem expands_directly_sample :
    Expands pair (indexOf pair) "show the tank" {} "tank" := by
  have hindex : indexModel pair = .ok (indexOf pair) := indexModel_eq (by decide +kernel)
  have hsole : Sole (indexOf pair) (termsFor "show the tank") "tank" :=
    sole_of_scores ⟨"tank", "tank", "unit", none⟩ (by decide +kernel) (by decide +kernel)
      (by decide +kernel)
  have hrels : (indexOf pair).relationships = [⟨"one", "tank", "pump", "feeds"⟩] := by decide +kernel
  have hclosed : Closed (indexOf pair).relationships "tank" := by
    intro a b ⟨first, hfirst, hends⟩ ⟨second, hsecond, hends'⟩
    have hsame : second = first := by
      rw [hrels, List.mem_singleton] at hfirst hsecond
      rw [hfirst, hsecond]
    exact around_of_same hfirst hends (hsame ▸ hends')
  exact (expands_directly hindex hsole).1 (.inr ⟨hclosed, by decide +kernel⟩)

/-- The context of the tank has the valve, to which nothing joins the tank. -/
theorem not_expands_chain : Sole (indexOf chain) (termsFor "show the tank") "tank" ∧
    indexModel chain = .ok (indexOf chain) ∧
      ¬ Expands chain (indexOf chain) "show the tank" {} "tank" := by
  refine ⟨?_, indexModel_eq (by decide +kernel), fun h => ?_⟩
  · exact sole_of_scores ⟨"tank", "tank", "unit", none⟩ (by decide +kernel)
      (by decide +kernel) (by decide +kernel)
  · obtain ⟨retrieved, hretrieved, hvalve⟩ := exists_ok_of_any
      (x := retrieve chain "show the tank" {})
      (fun r => (scopeAssetIds r).any fun v => v.eqv (.str "valve")) (by decide +kernel)
    obtain ⟨item, hitem, hequal⟩ := List.any_eq_true.mp hvalve
    obtain ⟨other, rfl, haround⟩ := h.direct retrieved hretrieved item hitem
    have hother : other = "valve" := by simpa [Json.eqv] using hequal
    rw [hother] at haround
    exact absurd haround (by decide +kernel)

end

end ContextHmi.Retrieval
