import ContextHmi.Engine.Rearrangement
import ContextHmi.Retrieval.Honesty
import ContextHmi.Retrieval.Shrinking

/-!
# Eligibility and the order of a model

The candidates of a request are sorted by score and id, so the order in which a model declares its
records plays no part in which of them are eligible. It does in the rest of a context, and with it in
its size; but the loop takes an eligible asset away only from a draft that has nothing else left, and
that one is the same for every order.

* `eligible_rearranged` : rearranged models have the same eligible assets for every request.
-/

namespace ContextHmi.Retrieval

open Outcome

/-! ### Candidates -/

theorem sortUnique_congr {l l' : List Bytes} (h : ∀ t, t ∈ l ↔ t ∈ l') :
    sortUnique l = sortUnique l' := by
  have hperm : l.dedup.Perm l'.dedup := by
    refine (List.perm_ext_iff_of_nodup l.nodup_dedup l'.nodup_dedup).mpr fun t => ?_
    rw [List.mem_dedup, List.mem_dedup]
    exact h t
  have hkeys : (Bytes.sortBy id l.dedup).map id = (Bytes.sortBy id l'.dedup).map id :=
    Bytes.sortBy_keys (hperm.map id)
  rwa [List.map_id, List.map_id] at hkeys

theorem mem_aliases {a b : Asset} (h : SameAsset a b) (name : Bytes) :
    name ∈ a.aliases.getD [] ↔ name ∈ b.aliases.getD [] := by
  have haliases := h.aliases
  revert haliases
  generalize a.aliases = l
  generalize b.aliases = l'
  intro haliases
  cases haliases with
  | none => exact Iff.rfl
  | some hperm => exact hperm.mem_iff

theorem isSome_aliases {a b : Asset} (h : SameAsset a b) : a.aliases.isSome = b.aliases.isSome := by
  have haliases := h.aliases
  revert haliases
  generalize a.aliases = l
  generalize b.aliases = l'
  intro haliases
  cases haliases with
  | none => rfl
  | some => rfl

theorem assetTerms_congr {a b : Asset} (h : SameAsset a b) : assetTerms a = assetTerms b := by
  refine sortUnique_congr fun t => ?_
  simp only [List.mem_append, List.mem_flatMap, h.id, h.name, h.kind, mem_aliases h]

/-- An asset without its aliases. -/
def plainAsset (asset : Asset) : Asset := { asset with aliases := none }

/-- A candidate without the aliases of its asset. -/
def Candidate.plain (item : Candidate) : Candidate := { item with asset := plainAsset item.asset }

theorem plainAsset_congr {a b : Asset} (h : SameAsset a b) : plainAsset a = plainAsset b := by
  rw [plainAsset, plainAsset, h.id, h.name, h.kind]

theorem candidateOf_congr {a b : Asset} (h : SameAsset a b) (promptTerms : List Bytes) :
    (candidateOf promptTerms a).plain = (candidateOf promptTerms b).plain := by
  have hany : ((a.aliases.getD []).any fun name => allPresent promptTerms (termsFor name)) =
      (b.aliases.getD []).any fun name => allPresent promptTerms (termsFor name) := by
    rw [Bool.eq_iff_iff, List.any_eq_true, List.any_eq_true]
    simp only [mem_aliases h]
  simp only [Candidate.plain, candidateOf, numberConflict, evidence, assetTerms_congr h,
    plainAsset_congr h, h.id, h.name, hany]
  rfl

/-- A function that takes the same values on the assets of rearranged models. -/
theorem perm_map_assets {β : Type} {f : Asset → β} {index index' : ModelIndex}
    (h : Rearranged index index') (hf : ∀ a b, SameAsset a b → f a = f b) :
    (index.assets.map f).Perm (index'.assets.map f) := by
  obtain ⟨moved, hperm, hsame⟩ := h.assets
  have hmoved : moved.map f = index'.assets.map f := by
    rw [← List.forall₂_eq_eq_eq, List.forall₂_map_left_iff, List.forall₂_map_right_iff]
    exact hsame.imp hf
  rw [← hmoved]
  exact hperm.map f

theorem before_antisymm {a b : Candidate} (hab : a.before b) (hba : b.before a) : a.id = b.id := by
  rcases hab with hlt | ⟨heq, hab⟩
  · rcases hba with hlt' | ⟨heq', -⟩
    · omega
    · omega
  · rcases hba with hlt' | ⟨-, hba⟩
    · omega
    · exact Bytes.ble_antisymm hab hba

theorem pairwise_scoredAssets (index : ModelIndex) (promptTerms : List Bytes) :
    (scoredAssets index promptTerms).Pairwise Candidate.before := by
  have : Std.Total Candidate.before := ⟨before_total⟩
  have : IsTrans Candidate Candidate.before := ⟨fun _ _ _ => before_trans⟩
  exact List.pairwise_insertionSort _ _

theorem perm_scoredAssets {index index' : ModelIndex} (h : Rearranged index index')
    (promptTerms : List Bytes) : ((scoredAssets index promptTerms).map Candidate.plain).Perm
      ((scoredAssets index' promptTerms).map Candidate.plain) := by
  have hplain : ∀ index : ModelIndex, ((scoredAssets index promptTerms).map Candidate.plain).Perm
      ((index.assets.map fun asset => (candidateOf promptTerms asset).plain).filter
        fun item => 0 < item.score) := by
    intro index
    have hsplit : (index.assets.map fun asset => (candidateOf promptTerms asset).plain) =
        (index.assets.map (candidateOf promptTerms)).map Candidate.plain := by
      rw [List.map_map]
      rfl
    rw [hsplit, List.filter_map]
    exact (List.perm_insertionSort _ _).map _
  refine (hplain index).trans (.trans ?_ (hplain index').symm)
  exact (perm_map_assets h fun _ _ hab => candidateOf_congr hab promptTerms).filter _

/-- **The candidates of rearranged models** are the same, in the same order. -/
theorem scoredAssets_congr {index index' : ModelIndex} (h : Rearranged index index')
    (hassets : (index.assets.map (·.id)).Nodup) (promptTerms : List Bytes) :
    (scoredAssets index promptTerms).map Candidate.plain =
      (scoredAssets index' promptTerms).map Candidate.plain := by
  have hperm := perm_scoredAssets h promptTerms
  have hsorted : ∀ index : ModelIndex,
      ((scoredAssets index promptTerms).map Candidate.plain).Pairwise Candidate.before :=
    fun index => List.pairwise_map.mpr (pairwise_scoredAssets index promptTerms)
  have hnodup : (((scoredAssets index promptTerms).map Candidate.plain).map Candidate.id).Nodup := by
    rw [List.map_map]
    exact nodup_scoredAssets hassets
  refine hperm.eq_of_pairwise ?_ (hsorted index) (hsorted index')
  intro a b ha hb hab hba
  exact List.inj_on_of_nodup_map hnodup ha (hperm.mem_iff.mpr hb) (before_antisymm hab hba)

/-! ### Eligible assets -/

/-- A listed candidate without the aliases of its asset. -/
def Listed.plain (item : Listed) : Listed := { item with candidate := item.candidate.plain }

section
variable (limits : RetrievalLimits) (scored : List Candidate)

theorem eligibilityScore_plain :
    eligibilityScore (scored.map Candidate.plain) = eligibilityScore scored := by
  cases scored with
  | nil => rfl
  | cons item scored => rfl

theorem listCandidates_plain : listCandidates limits (scored.map Candidate.plain) =
    (listCandidates limits scored).map Listed.plain := by
  rw [listCandidates, listCandidates, eligibilityScore_plain, ← List.map_take, List.map_map,
    List.map_map]
  rfl

theorem eligibleIds_plain (listed : List Listed) :
    eligibleIds (listed.map Listed.plain) = eligibleIds listed := by
  rw [eligibleIds, eligibleIds, List.filter_map, List.map_map]
  rfl

theorem allEligibleIds_plain (eligible : List Bytes) :
    allEligibleIds (scored.map Candidate.plain) eligible = allEligibleIds scored eligible := by
  rw [allEligibleIds, allEligibleIds, eligibilityScore_plain, List.foldl_map]
  rfl

end

section
variable {index index' : ModelIndex} {promptTerms : List Bytes} {limits : RetrievalLimits}

theorem listCandidates_congr (h : Rearranged index index')
    (hassets : (index.assets.map (·.id)).Nodup) :
    (listCandidates limits (scoredAssets index promptTerms)).map Listed.plain =
      (listCandidates limits (scoredAssets index' promptTerms)).map Listed.plain := by
  rw [← listCandidates_plain, scoredAssets_congr h hassets, listCandidates_plain]

theorem eligibleIds_congr (h : Rearranged index index')
    (hassets : (index.assets.map (·.id)).Nodup) :
    eligibleIds (listCandidates limits (scoredAssets index promptTerms)) =
      eligibleIds (listCandidates limits (scoredAssets index' promptTerms)) := by
  rw [← eligibleIds_plain, listCandidates_congr h hassets, eligibleIds_plain]

theorem allEligibleIds_congr (h : Rearranged index index')
    (hassets : (index.assets.map (·.id)).Nodup) (eligible : List Bytes) :
    allEligibleIds (scoredAssets index promptTerms) eligible =
      allEligibleIds (scoredAssets index' promptTerms) eligible := by
  rw [← allEligibleIds_plain, scoredAssets_congr h hassets, allEligibleIds_plain]

theorem kindMentioned_congr (h : Rearranged index index') :
    kindMentioned index promptTerms = kindMentioned index' promptTerms := by
  have hkinds := perm_map_assets (f := fun asset => termsFor asset.kind) h
    fun _ _ hab => congrArg termsFor hab.kind
  have hany : ∀ term : Bytes, (index.assets.any fun asset => (termsFor asset.kind).contains term) =
      index'.assets.any fun asset => (termsFor asset.kind).contains term := by
    intro term
    have hsame := hkinds.any_eq (f := fun terms => terms.contains term)
    rwa [List.any_map, List.any_map] at hsame
  simp only [kindMentioned, hany]

theorem specificReference_congr (h : Rearranged index index')
    (hassets : (index.assets.map (·.id)).Nodup) (scopePhrase : Bool) :
    specificReference index promptTerms scopePhrase =
      specificReference index' promptTerms scopePhrase := by
  have hscored := scoredAssets_congr h hassets promptTerms
  have hempty : (scoredAssets index promptTerms).isEmpty =
      (scoredAssets index' promptTerms).isEmpty := by
    have hlength := congrArg List.isEmpty hscored
    rwa [List.isEmpty_map, List.isEmpty_map] at hlength
  have hstrong : ((scoredAssets index promptTerms).any fun item => 80 ≤ item.score) =
      (scoredAssets index' promptTerms).any fun item => 80 ≤ item.score := by
    have hany := congrArg (fun l => l.any fun item : Candidate => 80 ≤ item.score) hscored
    rwa [List.any_map, List.any_map] at hany
  simp only [specificReference, kindMentioned_congr h, hempty, hstrong]

end

/-! ### What surrounds the eligible assets -/

/-- The assets of a context. -/
def contextAssets (index : ModelIndex) (limit : Nat) (eligible : List Bytes) (scope : Scope) :
    List Asset :=
  ((orderedScopeIds index eligible scope).filterMap index.asset?).take limit

theorem sublist_filterMap_asset? (index : ModelIndex) (ids : List Bytes) :
    ((ids.filterMap index.asset?).map (·.id)).Sublist ids := by
  induction ids with
  | nil => exact .refl _
  | cons id ids ih =>
    cases hasset : index.asset? id with
    | none =>
      rw [List.filterMap_cons_none hasset]
      exact ih.cons id
    | some asset =>
      have hid : asset.id = id := by simpa using List.find?_some hasset
      rw [List.filterMap_cons_some hasset, List.map_cons, hid]
      exact ih.cons_cons id

theorem length_filterMap_asset? {index : ModelIndex} {ids : List Bytes}
    (h : ∀ id ∈ ids, (index.asset? id).isSome) :
    (ids.filterMap index.asset?).length = ids.length := by
  induction ids with
  | nil => rfl
  | cons id ids ih =>
    rw [List.forall_mem_cons] at h
    obtain ⟨asset, hasset⟩ := Option.isSome_iff_exists.mp h.1
    rw [List.filterMap_cons_some hasset, List.length_cons, List.length_cons, ih h.2]

section
variable {index : ModelIndex} {limit : Nat} {eligible : List Bytes} {specific : Bool}

theorem orderedScopeIds_eligible :
    orderedScopeIds index eligible ⟨eligible, false⟩ = eligible := by
  have hnone : (index.assets.map (·.id)).filter
      (fun id => eligible.contains id && !eligible.contains id) = [] := by
    rw [List.filter_eq_nil_iff]
    intro id _
    simp
  rw [orderedScopeIds, hnone, List.append_nil]

theorem filter_contextAssets (scope : Scope) :
    ((contextAssets index limit eligible scope).filter fun asset => eligible.contains asset.id) =
      (eligible.filterMap index.asset?).take limit := by
  have hid : ∀ ids : List Bytes, ∀ asset ∈ ids.filterMap index.asset?, asset.id ∈ ids := by
    intro ids asset hasset
    exact (sublist_filterMap_asset? index ids).subset (List.mem_map_of_mem hasset)
  unfold contextAssets orderedScopeIds
  rw [List.filterMap_append, List.take_append, List.filter_append]
  have hlead : ((eligible.filterMap index.asset?).take limit).filter
      (fun asset => eligible.contains asset.id) = (eligible.filterMap index.asset?).take limit := by
    refine List.filter_eq_self.mpr fun asset hasset => ?_
    simpa using hid _ asset (List.mem_of_mem_take hasset)
  have hrest : ∀ (l : List Bytes) (n : Nat), ((l.filter fun id => scope.ids.contains id &&
      !eligible.contains id).filterMap index.asset? |>.take n).filter
        (fun asset => eligible.contains asset.id) = [] := by
    intro l n
    refine List.filter_eq_nil_iff.mpr fun asset hasset => ?_
    have hin := (List.mem_filter.mp (hid _ asset (List.mem_of_mem_take hasset))).2
    rw [Bool.and_eq_true, Bool.not_eq_true'] at hin
    rw [hin.2]
    exact Bool.false_ne_true
  rw [hlead, hrest, List.append_nil]

theorem length_contextAssets_le (wf : index.WellFormed) (hnodup : eligible.Nodup) {scope : Scope}
    (h : ∀ asset ∈ contextAssets index limit eligible scope, asset.id ∈ eligible) :
    (contextAssets index limit eligible scope).length ≤ eligible.length := by
  have hordered : (orderedScopeIds index eligible scope).Nodup := by
    refine List.nodup_append.mpr ⟨hnodup, wf.assets_nodup.filter _, ?_⟩
    rintro id hid _ hrest rfl
    have hnew := (List.mem_filter.mp hrest).2
    simp [hid] at hnew
  have hids : ((contextAssets index limit eligible scope).map (·.id)).Nodup :=
    hordered.sublist (((List.take_sublist _ _).map _).trans (sublist_filterMap_asset? _ _))
  have hsub : (contextAssets index limit eligible scope).map (·.id) ⊆ eligible := by
    intro id hid
    obtain ⟨asset, hasset, rfl⟩ := List.mem_map.mp hid
    exact h asset hasset
  simpa using (List.subperm_of_subset hids hsub).length_le

/-- Assets were left out of the context, or are left out once only the eligible ones stay. -/
def assetsFlag (index : ModelIndex) (limit : Nat) (eligible : List Bytes) (scope : Scope) : Bool :=
  let assets := contextAssets index limit eligible scope
  (scope.truncated || decide (assets.length < scope.ids.length)) ||
    (assets.any fun asset => !eligible.contains asset.id) || assets.any (·.aliases.isSome)

theorem assetsFlag_of_grows (wf : index.WellFormed) (h : Grows index eligible) :
    assetsFlag index limit eligible (scopeOf index limit eligible specific) = true := by
  have hnodup : eligible.Nodup := by
    obtain ⟨id, rfl⟩ := List.length_eq_one_iff.mp h.1
    exact List.nodup_singleton id
  have hdistinct : ∀ rel ∈ index.relationships, rel.fromId ≠ rel.toId :=
    fun rel hrel => (wf.relationships rel hrel).distinct
  rcases scopeOf_of_grows limit specific hdistinct h with ⟨-, rel, hrel, hboth⟩ | ⟨-, hfull⟩
  · generalize hscope : scopeOf index limit eligible specific = scope at hboth
    have hlarge : 1 < scope.ids.length := by
      have hpair : [rel.fromId, rel.toId].Nodup := by
        simp [hdistinct rel hrel]
      have hsub : [rel.fromId, rel.toId] ⊆ scope.ids := by
        intro id hid
        rcases List.mem_pair.mp hid with rfl | rfl
        · exact hboth.1
        · exact hboth.2
      exact (List.subperm_of_subset hpair hsub).length_le
    by_contra hlowered
    simp only [assetsFlag, Bool.not_eq_true, Bool.or_eq_false_iff, decide_eq_false_iff_not, not_lt,
      List.any_eq_false, Bool.not_eq_true', List.contains_iff_mem, Bool.not_eq_false] at hlowered
    obtain ⟨⟨⟨-, hall⟩, hinside⟩, -⟩ := hlowered
    have hfew := length_contextAssets_le wf hnodup hinside
    have hone := h.1
    omega
  · rw [hfull]
    rfl

theorem assetsFlag_iff (wf : index.WellFormed) (hnonempty : eligible ≠ [])
    (hdeclared : ∀ id ∈ eligible, (index.asset? id).isSome) :
    assetsFlag index limit eligible (scopeOf index limit eligible specific) = true ↔
      Grows index eligible ∨ limit < eligible.length ∨
        ((eligible.filterMap index.asset?).take limit).any (·.aliases.isSome) = true := by
  by_cases hgrows : Grows index eligible
  · exact iff_of_true (assetsFlag_of_grows wf hgrows) (.inl hgrows)
  · rw [scopeOf_of_not_grows hnonempty hgrows, or_iff_right hgrows]
    have hassets : contextAssets index limit eligible ⟨eligible, false⟩ =
        (eligible.filterMap index.asset?).take limit := by
      rw [contextAssets, orderedScopeIds_eligible]
    have hinside : ((eligible.filterMap index.asset?).take limit).any
        (fun asset => !eligible.contains asset.id) = false := by
      refine List.any_eq_false.mpr fun asset hasset => ?_
      have hid := (sublist_filterMap_asset? index eligible).subset
        (List.mem_map_of_mem (List.mem_of_mem_take hasset))
      simp [hid]
    have hlength : ((eligible.filterMap index.asset?).take limit).length =
        min limit eligible.length := by
      rw [List.length_take, length_filterMap_asset? hdeclared]
    simp only [assetsFlag, hassets, hinside, hlength, Bool.false_or, Bool.or_false, Bool.or_eq_true,
      decide_eq_true_eq]
    refine or_congr_left ?_
    omega

theorem joined_iff (specific : Bool) (wf : index.WellFormed) (hnonempty : eligible ≠ []) :
    (∃ rel ∈ index.relationships, rel.fromId ∈ (scopeOf index limit eligible specific).ids ∧
        rel.toId ∈ (scopeOf index limit eligible specific).ids) ↔
      (Grows index eligible ∧ 1 < limit) ∨
        ∃ rel ∈ index.relationships, rel.fromId ∈ eligible ∧ rel.toId ∈ eligible := by
  have hinside : eligible ⊆ (scopeOf index limit eligible specific).ids := eligible_subset_scopeOf
  have hkeep : (∃ rel ∈ index.relationships, rel.fromId ∈ eligible ∧ rel.toId ∈ eligible) →
      ∃ rel ∈ index.relationships, rel.fromId ∈ (scopeOf index limit eligible specific).ids ∧
        rel.toId ∈ (scopeOf index limit eligible specific).ids := by
    intro ⟨rel, hrel, hfrom, hto⟩
    exact ⟨rel, hrel, hinside hfrom, hinside hto⟩
  by_cases hgrows : Grows index eligible
  · have hdistinct : ∀ rel ∈ index.relationships, rel.fromId ≠ rel.toId :=
      fun rel hrel => (wf.relationships rel hrel).distinct
    rcases scopeOf_of_grows limit specific hdistinct hgrows with ⟨hroom, hboth⟩ | ⟨hno, hfull⟩
    · exact iff_of_true hboth (.inl ⟨hgrows, hroom⟩)
    · rw [hfull, or_iff_right (fun h => absurd h.2 (Nat.not_lt.mpr hno))]
  · rw [scopeOf_of_not_grows hnonempty hgrows, or_iff_right (fun h => hgrows h.1)]

end

/-! ### Drafts of rearranged models -/

section
variable {index index' : ModelIndex} {eligible : List Bytes}

theorem grows_congr (h : Rearranged index index') :
    Grows index eligible ↔ Grows index' eligible := by
  simp only [Grows, h.relationships.mem_iff]

theorem filterMap_asset?_congr (h : Rearranged index index') (wf : index.WellFormed)
    (wf' : index'.WellFormed) (hdeclared : ∀ id ∈ eligible, (index.asset? id).isSome) :
    List.Forall₂ SameAsset (eligible.filterMap index.asset?)
      (eligible.filterMap index'.asset?) := by
  induction eligible with
  | nil => exact .nil
  | cons id eligible ih =>
    rw [List.forall_mem_cons] at hdeclared
    obtain ⟨a, ha⟩ := Option.isSome_iff_exists.mp hdeclared.1
    obtain ⟨b, hb, hab⟩ := asset?_congr h wf wf' ha
    rw [List.filterMap_cons_some ha, List.filterMap_cons_some hb]
    exact .cons hab (ih hdeclared.2)

theorem any_aliases_congr {l l' : List Asset} (h : List.Forall₂ SameAsset l l') :
    l.any (·.aliases.isSome) = l'.any (·.aliases.isSome) := by
  induction h with
  | nil => rfl
  | cons hab _ ih => rw [List.any_cons, List.any_cons, isSome_aliases hab, ih]

theorem map_plainAsset_congr {l l' : List Asset} (h : List.Forall₂ SameAsset l l') :
    l.map plainAsset = l'.map plainAsset := by
  rw [← List.forall₂_eq_eq_eq, List.forall₂_map_left_iff, List.forall₂_map_right_iff]
  exact h.imp fun _ _ => plainAsset_congr

end

/-- A draft without the aliases of its candidates, which no context shows. -/
def Draft.plain (d : Draft) : Draft := { d with candidates := d.candidates.map Listed.plain }

/-- Two drafts of which the same is left once only eligible assets stay. -/
structure Draft.SameRest (d d' : Draft) : Prop where
  taskHints : d.taskHints = d'.taskHints
  roleHints : d.roleHints = d'.roleHints
  requestedRoles : d.requestedRoles = d'.requestedRoles
  specific : d.specific = d'.specific
  requiresClarification : d.requiresClarification = d'.requiresClarification
  eligible : d.eligible = d'.eligible
  eligibleCount : d.eligibleCount = d'.eligibleCount
  candidates : d.candidates.map Listed.plain = d'.candidates.map Listed.plain
  assets : (d.assets.filter fun asset => d.eligible.contains asset.id).map plainAsset =
    (d'.assets.filter fun asset => d'.eligible.contains asset.id).map plainAsset
  flags : d.stripped.truncated = d'.stripped.truncated

theorem Draft.SameRest.stripped {d d' : Draft} (h : d.SameRest d') :
    d.stripped.plain = d'.stripped.plain := by
  have hcandidates : (d.candidates.filter (·.eligible)).map Listed.plain =
      (d'.candidates.filter (·.eligible)).map Listed.plain := by
    have hfilter := congrArg (List.filter (·.eligible)) h.candidates
    rwa [List.filter_map, List.filter_map] at hfilter
  have hassets : d.stripped.assets = d'.stripped.assets := h.assets
  have hflags := h.flags
  unfold Draft.plain
  rw [hassets, hflags]
  unfold Draft.stripped
  rw [h.taskHints, h.roleHints, h.requestedRoles, h.specific, h.requiresClarification, h.eligible,
    h.eligibleCount]
  dsimp only
  rw [hcandidates]

section
variable {index index' : ModelIndex} {promptTerms : List Bytes} {scopePhrase : Bool}
  {limits : RetrievalLimits}

theorem draftOf_declared (promptTerms : List Bytes) (scopePhrase : Bool) (limits : RetrievalLimits)
    (wf : index.WellFormed) : ∀ id ∈ (draftOf index promptTerms scopePhrase limits).eligible,
      (index.asset? id).isSome := by
  intro id h
  obtain ⟨asset, htop, rfl⟩ := draftOf_eligible h
  rw [wf.asset?_eq_some.mpr ⟨htop.declared, rfl⟩]
  rfl

theorem eligible_congr (h : Rearranged index index') (wf : index.WellFormed) :
    (draftOf index promptTerms scopePhrase limits).eligible =
      (draftOf index' promptTerms scopePhrase limits).eligible :=
  eligibleIds_congr h wf.assets_nodup

theorem eligibleCount_congr (h : Rearranged index index') (wf : index.WellFormed) :
    (draftOf index promptTerms scopePhrase limits).eligibleCount =
      (draftOf index' promptTerms scopePhrase limits).eligibleCount := by
  have heligible : eligibleIds (listCandidates limits (scoredAssets index promptTerms)) =
      eligibleIds (listCandidates limits (scoredAssets index' promptTerms)) :=
    eligibleIds_congr h wf.assets_nodup
  show (allEligibleIds _ _).length = (allEligibleIds _ _).length
  rw [← heligible, allEligibleIds_congr h wf.assets_nodup]

theorem specific_congr (h : Rearranged index index') (wf : index.WellFormed) :
    (draftOf index promptTerms scopePhrase limits).specific =
      (draftOf index' promptTerms scopePhrase limits).specific :=
  specificReference_congr h wf.assets_nodup scopePhrase

theorem sourceTags_of_eligible
    (hnonempty : (draftOf index promptTerms scopePhrase limits).eligible ≠ []) :
    sourceTags index promptTerms scopePhrase limits = index.tags.filter fun tag =>
      (draftOf index promptTerms scopePhrase limits).eligible.contains tag.assetId := by
  have hsome : (draftOf index promptTerms scopePhrase limits).eligible.isEmpty = false :=
    List.isEmpty_eq_false_iff.mpr hnonempty
  show (index.tags.filter fun tag => (measurementScopeIds
    (draftOf index promptTerms scopePhrase limits).eligible _).contains tag.assetId) = _
  rw [measurementScopeIds, hsome]
  rfl

theorem roleHints_congr (h : Rearranged index index') (wf : index.WellFormed)
    (hnonempty : (draftOf index promptTerms scopePhrase limits).eligible ≠ []) :
    (draftOf index promptTerms scopePhrase limits).roleHints =
      (draftOf index' promptTerms scopePhrase limits).roleHints := by
  have hnonempty' := hnonempty
  rw [eligible_congr h wf] at hnonempty'
  have hperm : (sourceTags index promptTerms scopePhrase limits).Perm
      (sourceTags index' promptTerms scopePhrase limits) := by
    rw [sourceTags_of_eligible hnonempty, sourceTags_of_eligible hnonempty', eligible_congr h wf]
    exact h.tags.filter _
  rw [draftOf_roleHints, draftOf_roleHints, measurementRoleHints, measurementRoleHints]
  exact sortUnique_congr fun role => ((hperm.filter _).map _).mem_iff

/-! ### The flags that are left -/

/-- A list that is cut and then emptied leaves a flag, unless it was empty. -/
theorem cut_or_emptied {α β γ : Type} {f : α → γ} {kept : List α} {l : List β}
    (h : kept.length ≤ l.length) :
    (decide (kept.length < l.length) || !(kept.map f).isEmpty) = true ↔ ∃ b, b ∈ l := by
  rw [Bool.or_eq_true, decide_eq_true_eq, Bool.not_eq_true', List.isEmpty_eq_false_iff,
    ← List.length_pos_iff_exists_mem, ← List.length_pos_iff, List.length_map]
  omega

theorem candidates_flag_congr (h : Rearranged index index') (wf : index.WellFormed) :
    (draftOf index promptTerms scopePhrase limits).stripped.truncated.candidates =
      (draftOf index' promptTerms scopePhrase limits).stripped.truncated.candidates := by
  have hflag : ∀ index : ModelIndex,
      (draftOf index promptTerms scopePhrase limits).stripped.truncated.candidates =
        (decide (((listCandidates limits (scoredAssets index promptTerms)).map Listed.plain).length <
            ((scoredAssets index promptTerms).map Candidate.plain).length) ||
          decide ((draftOf index promptTerms scopePhrase limits).eligible.length <
            (draftOf index promptTerms scopePhrase limits).eligibleCount) ||
          ((listCandidates limits (scoredAssets index promptTerms)).map Listed.plain).any
            (!·.eligible)) := by
    intro index
    rw [List.length_map, List.length_map, List.any_map]
    rfl
  rw [hflag index, hflag index', eligible_congr h wf, eligibleCount_congr h wf,
    listCandidates_congr h wf.assets_nodup, scoredAssets_congr h wf.assets_nodup]

theorem assets_flag_congr (h : Rearranged index index') (wf : index.WellFormed)
    (wf' : index'.WellFormed)
    (hnonempty : (draftOf index promptTerms scopePhrase limits).eligible ≠ []) :
    (draftOf index promptTerms scopePhrase limits).stripped.truncated.assets =
      (draftOf index' promptTerms scopePhrase limits).stripped.truncated.assets := by
  have hnonempty' := hnonempty
  rw [eligible_congr h wf] at hnonempty'
  have hflag : ∀ {index : ModelIndex}, index.WellFormed →
      (draftOf index promptTerms scopePhrase limits).eligible ≠ [] →
      ((draftOf index promptTerms scopePhrase limits).stripped.truncated.assets = true ↔
        Grows index (draftOf index promptTerms scopePhrase limits).eligible ∨
        limits.assets.toNat < (draftOf index promptTerms scopePhrase limits).eligible.length ∨
          (((draftOf index promptTerms scopePhrase limits).eligible.filterMap index.asset?).take
            limits.assets.toNat).any (·.aliases.isSome) = true) := by
    intro index wf hnonempty
    exact assetsFlag_iff wf hnonempty (draftOf_declared promptTerms scopePhrase limits wf)
  have hsame := any_aliases_congr (List.forall₂_take limits.assets.toNat
    (filterMap_asset?_congr h wf wf' (draftOf_declared promptTerms scopePhrase limits wf)))
  rw [Bool.eq_iff_iff, hflag wf hnonempty, hflag wf' hnonempty', hsame, eligible_congr h wf,
    grows_congr h]

theorem relationships_flag_congr (h : Rearranged index index') (wf : index.WellFormed)
    (wf' : index'.WellFormed)
    (hnonempty : (draftOf index promptTerms scopePhrase limits).eligible ≠ []) :
    (draftOf index promptTerms scopePhrase limits).stripped.truncated.relationships =
      (draftOf index' promptTerms scopePhrase limits).stripped.truncated.relationships := by
  have hnonempty' := hnonempty
  rw [eligible_congr h wf] at hnonempty'
  have hflag : ∀ {index : ModelIndex}, index.WellFormed →
      (draftOf index promptTerms scopePhrase limits).eligible ≠ [] →
      ((draftOf index promptTerms scopePhrase limits).stripped.truncated.relationships = true ↔
        (Grows index (draftOf index promptTerms scopePhrase limits).eligible ∧
          1 < limits.assets.toNat) ∨
        ∃ rel ∈ index.relationships,
          rel.fromId ∈ (draftOf index promptTerms scopePhrase limits).eligible ∧
            rel.toId ∈ (draftOf index promptTerms scopePhrase limits).eligible) := by
    intro index wf hnonempty
    rw [← joined_iff (specificReference index promptTerms scopePhrase) wf hnonempty]
    refine (cut_or_emptied (List.length_take_le' _ _)).trans ?_
    simp only [List.mem_filter, Bool.and_eq_true, List.contains_iff_mem]
    rfl
  rw [Bool.eq_iff_iff, hflag wf hnonempty, hflag wf' hnonempty', eligible_congr h wf,
    grows_congr h]
  simp only [h.relationships.mem_iff]

theorem tags_flag_congr (h : Rearranged index index') (wf : index.WellFormed)
    (hnonempty : (draftOf index promptTerms scopePhrase limits).eligible ≠ []) :
    (draftOf index promptTerms scopePhrase limits).stripped.truncated.tags =
      (draftOf index' promptTerms scopePhrase limits).stripped.truncated.tags := by
  have hnonempty' := hnonempty
  rw [eligible_congr h wf] at hnonempty'
  have hflag : ∀ {index : ModelIndex},
      (draftOf index promptTerms scopePhrase limits).eligible ≠ [] →
      ((draftOf index promptTerms scopePhrase limits).stripped.truncated.tags = true ↔
        ∃ tag ∈ index.tags,
          tag.assetId ∈ (draftOf index promptTerms scopePhrase limits).eligible) := by
    intro index hnonempty
    have hlength : ((orderedTags (sourceTags index promptTerms scopePhrase limits)
        (draftOf index promptTerms scopePhrase limits).roleHints).take limits.tags.toNat).length ≤
        (sourceTags index promptTerms scopePhrase limits).length :=
      (List.length_take_le' _ _).trans (length_orderedTags_le _ _)
    refine (cut_or_emptied hlength).trans ?_
    rw [sourceTags_of_eligible hnonempty]
    simp only [List.mem_filter, List.contains_iff_mem]
  rw [Bool.eq_iff_iff, hflag hnonempty, hflag hnonempty', eligible_congr h wf]
  simp only [h.tags.mem_iff]

theorem alarms_flag_congr (h : Rearranged index index') (wf : index.WellFormed)
    (hnonempty : (draftOf index promptTerms scopePhrase limits).eligible ≠ []) :
    (draftOf index promptTerms scopePhrase limits).stripped.truncated.alarms =
      (draftOf index' promptTerms scopePhrase limits).stripped.truncated.alarms := by
  have hnonempty' := hnonempty
  rw [eligible_congr h wf] at hnonempty'
  have hflag : ∀ {index : ModelIndex},
      (draftOf index promptTerms scopePhrase limits).eligible ≠ [] →
      ((draftOf index promptTerms scopePhrase limits).stripped.truncated.alarms = true ↔
        ∃ alarm ∈ index.alarms,
          alarm.assetId ∈ (draftOf index promptTerms scopePhrase limits).eligible) := by
    intro index hnonempty
    have hsome : (draftOf index promptTerms scopePhrase limits).eligible.isEmpty = false :=
      List.isEmpty_eq_false_iff.mpr hnonempty
    refine (cut_or_emptied (List.length_take_le' _ _)).trans ?_
    simp only [List.mem_filter, List.contains_iff_mem]
    show (∃ alarm, alarm ∈ index.alarms ∧ alarm.assetId ∈ measurementScopeIds
      (draftOf index promptTerms scopePhrase limits).eligible _) ↔ _
    rw [measurementScopeIds, hsome]
    rfl
  rw [Bool.eq_iff_iff, hflag hnonempty, hflag hnonempty', eligible_congr h wf]
  simp only [h.alarms.mem_iff]

/-- **What is left of the first drafts** of rearranged models is the same. -/
theorem sameRest_draftOf (h : Rearranged index index') (wf : index.WellFormed)
    (wf' : index'.WellFormed)
    (hnonempty : (draftOf index promptTerms scopePhrase limits).eligible ≠ []) :
    (draftOf index promptTerms scopePhrase limits).SameRest
      (draftOf index' promptTerms scopePhrase limits) := by
  have hroles := roleHints_congr h wf hnonempty
  have hassets := map_plainAsset_congr (List.forall₂_take limits.assets.toNat
    (filterMap_asset?_congr h wf wf' (draftOf_declared promptTerms scopePhrase limits wf)))
  constructor
  case taskHints => rw [draftOf_taskHints, draftOf_taskHints, hroles]
  case roleHints => exact hroles
  case requestedRoles => exact congrArg List.length hroles
  case specific => exact specific_congr h wf
  case requiresClarification =>
    rw [draftOf_clarification, draftOf_clarification, eligibleCount_congr h wf,
      specific_congr h wf, eligible_congr h wf]
  case eligible => exact eligible_congr h wf
  case eligibleCount => exact eligibleCount_congr h wf
  case candidates => exact listCandidates_congr h wf.assets_nodup
  case assets =>
    refine (congrArg (List.map plainAsset) (filter_contextAssets _)).trans (hassets.trans ?_)
    rw [eligible_congr h wf]
    exact (congrArg (List.map plainAsset) (filter_contextAssets _)).symm
  case flags =>
    refine (Truncated.mk.injEq ..).mpr ⟨candidates_flag_congr h wf,
      assets_flag_congr h wf wf' hnonempty, relationships_flag_congr h wf wf' hnonempty,
      tags_flag_congr h wf hnonempty, alarms_flag_congr h wf hnonempty, ?_, rfl⟩
    rw [hroles]
    rfl

end

/-! ### The loop -/

theorem removeLast_map {α β : Type} {p : β → Bool} {q : α → Bool} {f : α → β}
    (h : ∀ a, p (f a) = q a) (l : List α) :
    removeLast p (l.map f) = (removeLast q l).map (List.map f) := by
  induction l with
  | nil => rfl
  | cons a l ih =>
    rw [List.map_cons, removeLast, removeLast, ih, h]
    cases removeLast q l with
    | some l' => rfl
    | none =>
      by_cases hq : q a = true
      · rw [if_pos hq, if_pos hq]
        rfl
      · rw [if_neg hq, if_neg hq]
        rfl

namespace Draft

theorem render_plain (index : ModelIndex) (limits : RetrievalLimits) (d : Draft) :
    d.plain.render index limits = d.render index limits := by
  have hcandidates : d.plain.candidates.map Listed.toJson = d.candidates.map Listed.toJson := by
    rw [Draft.plain, List.map_map]
    rfl
  unfold Draft.render
  rw [hcandidates]
  rfl

theorem dropCandidate_plain (d : Draft) : d.plain.dropCandidate = d.dropCandidate.map plain := by
  have hlast : removeLast (fun item => !item.eligible) d.plain.candidates =
      (removeLast (fun item => !item.eligible) d.candidates).map (List.map Listed.plain) :=
    removeLast_map (fun _ => rfl) _
  rw [dropCandidate, dropCandidate, hlast, Option.map_map, Option.map_map]
  rfl

theorem shrink_plain (d : Draft) : d.plain.shrink = d.shrink.map plain := by
  have hasset : d.plain.dropAsset = d.dropAsset.map plain := by
    rw [dropAsset, dropAsset, Option.map_map]
    rfl
  have haliases : d.plain.dropAliases = d.dropAliases.map plain := by
    rw [dropAliases, dropAliases, Option.map_map]
    rfl
  have htag : d.plain.dropTag = d.dropTag.map plain := by
    rw [dropTag, dropTag, apply_ite (Option.map plain)]
    rfl
  have hrelationship : d.plain.dropRelationship = d.dropRelationship.map plain := by
    rw [dropRelationship, dropRelationship, apply_ite (Option.map plain)]
    rfl
  have halarm : d.plain.dropAlarm = d.dropAlarm.map plain := by
    rw [dropAlarm, dropAlarm, apply_ite (Option.map plain)]
    rfl
  have hrole : d.plain.dropRole = d.dropRole.map plain := by
    rw [dropRole, dropRole, apply_ite (Option.map plain)]
    rfl
  have hterm : d.plain.dropTerm = d.dropTerm.map plain := by
    rw [dropTerm, dropTerm, apply_ite (Option.map plain)]
    rfl
  have heligible : d.plain.dropEligible = d.dropEligible.map plain := by
    rw [dropEligible, dropEligible, apply_ite (Option.map plain)]
    rfl
  simp only [shrink, dropCandidate_plain, hasset, hrelationship, halarm, htag, hrole, haliases, hterm,
    heligible, Option.orElse_eq_orElse, Option.orElse_eq_or, ← Option.map_or, Option.map_map]
  rfl

theorem shrinkOrThrow_plain (d : Draft) : d.plain.shrinkOrThrow = plain <$> d.shrinkOrThrow := by
  unfold shrinkOrThrow
  rw [shrink_plain]
  cases d.shrink with
  | none => rfl
  | some d' => rfl

end Draft

section
variable [Platform] {index index' : ModelIndex} {limits : RetrievalLimits}

theorem budgetExceeded_plain (d : Draft) :
    budgetExceeded index limits d.plain = budgetExceeded index limits d := by
  rw [budgetExceeded, budgetExceeded, Draft.render_plain]

theorem fitBudget_plain (d : Draft) :
    fitBudget index limits d.plain = Draft.plain <$> fitBudget index limits d := by
  have hweight : d.plain.weight = d.weight := by
    simp only [Draft.weight, Draft.plain, List.length_map]
  rw [fitBudget, hweight]
  exact whileLoop_map budgetExceeded_plain Draft.shrinkOrThrow_plain _ d

omit [Platform] in
theorem render_congr (h : Rearranged index index') (d : Draft) :
    d.render index limits = d.render index' limits := by
  rw [Draft.render, Draft.render, h.modelId, h.revision]

theorem budgetExceeded_congr (h : Rearranged index index') :
    budgetExceeded index limits = budgetExceeded index' limits := by
  funext d
  rw [budgetExceeded, budgetExceeded, render_congr h]

theorem fitBudget_congr (h : Rearranged index index') :
    fitBudget index limits = fitBudget index' limits := by
  funext d
  rw [fitBudget, fitBudget, budgetExceeded_congr h]

theorem eligible_of_stripped (h : Rearranged index index') {d d' t t' : Draft}
    (hsame : d.stripped.plain = d'.stripped.plain)
    (ht : fitBudget index limits d.stripped = .ok t)
    (ht' : fitBudget index' limits d'.stripped = .ok t') : t.eligible = t'.eligible := by
  have hplain : fitBudget index limits d.stripped.plain = .ok t.plain := by
    rw [fitBudget_plain, ht]
    rfl
  have hplain' : fitBudget index' limits d'.stripped.plain = .ok t'.plain := by
    rw [fitBudget_plain, ht']
    rfl
  rw [hsame, fitBudget_congr h, hplain', Except.ok.injEq] at hplain
  exact (congrArg Draft.eligible hplain).symm

omit [Platform] in
theorem eligible_of_between {d u : Draft} (hfirst : Leads Draft.shrinkOrThrow d u)
    (hrest : Leads Draft.shrinkOrThrow u d.stripped) : u.eligible = d.eligible := by
  have hcut : u.eligible <+: d.eligible := (leads_below hfirst).eligible
  have hkept : d.eligible <+: u.eligible := (leads_below hrest).eligible
  exact hcut.eq_of_length (le_antisymm hcut.length_le hkept.length_le)

theorem exists_budgetExceeded {d u : Draft} (h : fitBudget index limits d = .ok u) :
    ∃ b, budgetExceeded index limits d = .ok b := by
  rw [fitBudget_eq, bind_eq_ok] at h
  obtain ⟨b, hb, -⟩ := h
  exact ⟨b, hb⟩

/-- **The loop takes the same eligible assets** from drafts of which the same is left. -/
theorem fitBudget_eligible (h : Rearranged index index') {d d' u u' : Draft} (hsame : d.SameRest d')
    (hd : d.dropInessential.isSome) (hd' : d'.dropInessential.isSome)
    (hu : fitBudget index limits d = .ok u) (hu' : fitBudget index' limits d' = .ok u') :
    u.eligible = u'.eligible := by
  obtain ⟨b, hb⟩ := exists_budgetExceeded hu
  obtain ⟨b', hb'⟩ := exists_budgetExceeded hu'
  have hexceeded : budgetExceeded index limits d.stripped =
      budgetExceeded index' limits d'.stripped := by
    rw [← budgetExceeded_plain d.stripped, ← budgetExceeded_plain d'.stripped, hsame.stripped,
      budgetExceeded_congr h]
  rcases fitBudget_skip _ _ (Draft.leads_stripped (.inr hd)) hb with
    ⟨hgoes, hskip⟩ | ⟨hstops, v, hfirst, hrest, hv⟩
  · rcases fitBudget_skip _ _ (Draft.leads_stripped (.inr hd')) hb' with
      ⟨-, hskip'⟩ | ⟨hstops', -⟩
    · rw [hskip] at hu
      rw [hskip'] at hu'
      exact eligible_of_stripped h hsame.stripped hu hu'
    · rw [← hexceeded, hgoes] at hstops'
      cases hstops'
  · rcases fitBudget_skip _ _ (Draft.leads_stripped (.inr hd')) hb' with
      ⟨hgoes', -⟩ | ⟨-, v', hfirst', hrest', hv'⟩
    · rw [← hexceeded, hstops] at hgoes'
      cases hgoes'
    · rw [hu, Except.ok.injEq] at hv
      rw [hu', Except.ok.injEq] at hv'
      rw [hv, hv', eligible_of_between hfirst hrest, eligible_of_between hfirst' hrest',
        hsame.eligible]

end

/-! ### Requests -/

section
variable {index index' : ModelIndex} {promptTerms : List Bytes} {scopePhrase : Bool}
  {limits : RetrievalLimits}

theorem score_nil (asset : Asset) : score [] asset = 0 := by
  have hpresent : ∀ terms : List Bytes, allPresent [] terms = false := by
    intro terms
    cases terms with
    | nil => rfl
    | cons term terms => rfl
  have hcontains : ([] : List Bytes).contains = fun _ => false := rfl
  simp [score, candidateOf, evidence, numberConflict, numericTerms, hpresent, hcontains]

/-- A request that has eligible assets has terms, so the loop takes them before it takes assets. -/
theorem dropInessential_draftOf
    (h : (draftOf index promptTerms scopePhrase limits).eligibleCount ≠ 0) :
    (draftOf index promptTerms scopePhrase limits).dropInessential.isSome := by
  have hterms : promptTerms ≠ [] := by
    rintro rfl
    have hpos : 0 < (allEligibleIds (scoredAssets index []) (eligibleIds (listCandidates limits
      (scoredAssets index [])))).length := Nat.pos_of_ne_zero h
    obtain ⟨id, hid⟩ := List.exists_mem_of_length_pos hpos
    obtain ⟨asset, htop, -⟩ := mem_allEligibleIds.mp hid
    have henough := htop.enough
    rw [score_nil] at henough
    omega
  have hterm : (draftOf index promptTerms scopePhrase limits).dropTerm.isSome := by
    have hsome : promptTerms.isEmpty = false := List.isEmpty_eq_false_iff.mpr hterms
    show (if promptTerms.isEmpty = true then none else some _).isSome = true
    rw [hsome]
    rfl
  rw [Draft.dropInessential, Draft.dropRest]
  simp only [Option.orElse_eq_orElse, Option.orElse_eq_or, Option.isSome_or, hterm, Bool.or_true]

/-- The best candidate is listed, so some eligible asset is where there is one. -/
theorem eligibleCount_of_nil (hlimit : limits.candidates ≠ 0)
    (h : (draftOf index promptTerms scopePhrase limits).eligible = []) :
    (draftOf index promptTerms scopePhrase limits).eligibleCount = 0 := by
  by_contra hcount
  have hpos : 0 < (allEligibleIds (scoredAssets index promptTerms) (eligibleIds (listCandidates
    limits (scoredAssets index promptTerms)))).length := Nat.pos_of_ne_zero hcount
  obtain ⟨id, hid⟩ := List.exists_mem_of_length_pos hpos
  obtain ⟨asset, htop, -⟩ := mem_allEligibleIds.mp hid
  have hscore := (topScoring_iff.mp htop).2.1
  have hnone : eligibleIds (listCandidates limits (scoredAssets index promptTerms)) = [] := h
  cases hscored : scoredAssets index promptTerms with
  | nil =>
    rw [hscored] at hscore
    exact absurd hscore (Nat.lt_irrefl 0)
  | cons head rest =>
    rw [hscored] at hscore hnone
    have hhead : head.score = eligibilityScore (head :: rest) := by
      revert hscore
      show 0 < (if head.score < 12 then 0 else head.score) →
        head.score = if head.score < 12 then 0 else head.score
      split_ifs
      · exact fun hzero => absurd hzero (Nat.lt_irrefl 0)
      · exact fun _ => rfl
    obtain ⟨n, hn⟩ : ∃ n, limits.candidates.toNat = n + 1 :=
      Nat.exists_eq_succ_of_ne_zero fun hzero => hlimit (UInt64.toNat_inj.mp hzero)
    have hlisted : (⟨head, true⟩ : Listed) ∈ listCandidates limits (head :: rest) := by
      rw [listCandidates, hn, List.take_succ_cons, List.map_cons, ← hhead]
      have htrue : (decide (0 < head.score) && decide (head.score = head.score)) = true := by
        simp [hhead ▸ hscore]
      rw [htrue]
      exact List.mem_cons_self
    rw [eligibleIds, List.map_eq_nil_iff, List.filter_eq_nil_iff] at hnone
    exact hnone _ hlisted rfl

end

section
variable [Platform] {model model' retrieved retrieved' : Json} {prompt : Bytes}
  {limits : RetrievalLimits}

/-- **Eligibility does not depend on the order of a model**: rearranged models have the same eligible
assets for every request, in the same order. -/
theorem eligible_rearranged (h : PermutesModel model model')
    (hretrieve : retrieve model prompt limits = .ok retrieved)
    (hretrieve' : retrieve model' prompt limits = .ok retrieved') :
    retrieved.find? "eligible_asset_ids" = retrieved'.find? "eligible_asset_ids" ∧
      retrieved.find? "eligible_asset_count" = retrieved'.find? "eligible_asset_count" ∧
      retrieved.find? "specific_asset_reference" =
        retrieved'.find? "specific_asset_reference" := by
  simp only [retrieve, retrieveTerms, bind_eq_ok, pure_eq_ok] at hretrieve hretrieve'
  obtain ⟨index, hindex, _, -, _, hlimits, u, hu, rfl⟩ := hretrieve
  obtain ⟨index', hindex', _, -, _, -, u', hu', rfl⟩ := hretrieve'
  have hmoved := rearranged_of_permutes h hindex hindex'
  have wf := indexModel_wellFormed hindex
  have wf' := indexModel_wellFormed hindex'
  have hbelow := (fitBudget_eq_ok hu).1
  have hbelow' := (fitBudget_eq_ok hu').1
  have hcount : (requestDraft index prompt limits).eligibleCount =
      (requestDraft index' prompt limits).eligibleCount := eligibleCount_congr hmoved wf
  have hfirst : (requestDraft index prompt limits).eligible =
      (requestDraft index' prompt limits).eligible := eligible_congr hmoved wf
  have hspecific : u.specific = u'.specific := by
    rw [hbelow.specific, hbelow'.specific, specific_congr hmoved wf]
  have hsame : u.eligible = u'.eligible := by
    by_cases hsole : (requestDraft index prompt limits).eligibleCount ≤ 1
    · exact (hbelow.eligible_kept hsole).trans
        (hfirst.trans (hbelow'.eligible_kept (hcount ▸ hsole)).symm)
    · have hlimit : limits.candidates ≠ 0 := by
        intro hzero
        simp [checkLimits, hzero] at hlimits
      have hnonempty : (requestDraft index prompt limits).eligible ≠ [] := by
        intro hnil
        exact hsole ((eligibleCount_of_nil hlimit hnil).le.trans (Nat.zero_le 1))
      refine fitBudget_eligible hmoved (sameRest_draftOf hmoved wf wf' hnonempty) ?_ ?_ hu hu'
      · refine dropInessential_draftOf fun hzero => hsole ?_
        exact (hzero : (requestDraft index prompt limits).eligibleCount = 0).le.trans (Nat.zero_le 1)
      · refine dropInessential_draftOf fun hzero => hsole ?_
        rw [hcount]
        exact (hzero : (requestDraft index' prompt limits).eligibleCount = 0).le.trans
          (Nat.zero_le 1)
  rw [find?_render_eligible, find?_render_eligible, find?_render_count, find?_render_count,
    find?_render_specific, find?_render_specific, hsame, hspecific, hbelow.eligibleCount,
    hbelow'.eligibleCount]
  exact ⟨rfl, congrArg (fun n => some (count n)) hcount, rfl⟩

end

/-! ### Two tanks -/

section
local instance orderPlatform : Platform := samplePlatform

/-- A plant with the given assets. -/
def plantOf (assets : List Json) : Json := (samplePlant 1 [] []).setField "assets" (.arr assets)

/-- A tank that goes by several names. -/
def namedTank (names : List Bytes) : Json :=
  (Json.object [("id", .str "tank-1"), ("name", .str "Tank 1"), ("kind", .str "vessel")]).setField
    "aliases" (Json.strings names)

def otherTank : Json :=
  .object [("id", .str "tank-2"), ("name", .str "Tank 2"), ("kind", .str "vessel")]

theorem permutesMember_refl {R : Json → Json → Prop} (hR : ∀ j, R j j) {model model' : Json}
    {key : Bytes} {items : List Json} (h : model.find? key = some (.arr items))
    (h' : model'.find? key = some (.arr items)) : permutesMember R model model' key :=
  ⟨items, items, items, h, h', .refl _, List.forall₂_same.mpr fun j _ => hR j⟩

theorem permutesModel_sample : PermutesModel (plantOf [namedTank ["vat", "drum"], otherTank])
    (plantOf [otherTank, namedTank ["drum", "vat"]]) := by
  have hother : ∀ (assets : List Json) (k : Bytes), k ≠ "assets" →
      (plantOf assets).find? k = (samplePlant 1 [] []).find? k :=
    fun assets k hk => Json.find?_setField_ne _ hk.symm _
  have hmember : ∀ (assets : List Json) (k : Bytes), k ∈ [bytes "relationships", "tags", "alarms"] →
      (plantOf assets).find? k = some (.arr []) := by
    intro assets k hk
    simp only [List.mem_cons, List.not_mem_nil, or_false] at hk
    rcases hk with rfl | rfl | rfl
    all_goals
      rw [hother assets _ (by decide)]
      rfl
  have hnamed : PermutesAsset (namedTank ["vat", "drum"]) (namedTank ["drum", "vat"]) := by
    constructor
    · intro k hk
      rw [namedTank, namedTank, Json.find?_setField_ne _ hk.symm, Json.find?_setField_ne _ hk.symm]
    · exact .inr ⟨_, _, rfl, rfl, List.Perm.swap _ _ _⟩
  have hsame : PermutesAsset otherTank otherTank := ⟨fun _ _ => rfl, .inl ⟨rfl, rfl⟩⟩
  constructor
  · intro k hk
    have hassets : k ≠ "assets" := by
      rintro rfl
      simp at hk
    rw [hother _ k hassets, hother _ k hassets]
  · exact ⟨_, _, _, rfl, rfl, List.Perm.swap _ _ _, .cons hsame (.cons hnamed .nil)⟩
  all_goals exact permutesMember_refl (fun _ => rfl) (hmember _ _ (by simp)) (hmember _ _ (by simp))

theorem eligible_rearranged_sample : ∃ retrieved retrieved',
    retrieve (plantOf [namedTank ["vat", "drum"], otherTank]) "show the tank" {} = .ok retrieved ∧
    retrieve (plantOf [otherTank, namedTank ["drum", "vat"]]) "show the tank" {} = .ok retrieved' ∧
      retrieved.find? "eligible_asset_ids" = retrieved'.find? "eligible_asset_ids" ∧
      retrieved.find? "eligible_asset_count" = retrieved'.find? "eligible_asset_count" ∧
      retrieved.find? "specific_asset_reference" =
        retrieved'.find? "specific_asset_reference" := by
  have hretrieve : retrieve (plantOf [namedTank ["vat", "drum"], otherTank]) "show the tank" {} =
      .ok _ := eq_ok_of_isSome (by decide +kernel) .null
  have hretrieve' : retrieve (plantOf [otherTank, namedTank ["drum", "vat"]]) "show the tank" {} =
      .ok _ := eq_ok_of_isSome (by decide +kernel) .null
  exact ⟨_, _, hretrieve, hretrieve', eligible_rearranged permutesModel_sample hretrieve hretrieve'⟩

end

end ContextHmi.Retrieval
