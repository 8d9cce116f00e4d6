import ContextHmi.Retrieval.Scope
import ContextHmi.Retrieval.Scoring

/-!
# What a context promises

A context that asks for no clarification can be answered from itself: it names one eligible asset or
the request means none, and it holds a tag of every measurement it hints at.

* `orderedTags_roles`  : the tags of the hinted roles come first;
* `Draft.Answerable`   : what holds of a draft without a need for clarification;
* `answerable`         : it holds of every draft below the first one of a request.
-/

namespace ContextHmi.Retrieval

/-! ### The tags of the hinted roles -/

section
variable {tags : List Tag}

theorem leadTag_role {ordered : List Tag} (hnodup : (tags.map (·.id)).Nodup)
    (hsub : ∀ tag ∈ ordered, tag ∈ tags) {role : Bytes} (hnew : role ∉ ordered.map (·.role))
    (hrole : role ∈ tags.map (·.role)) :
    ∃ tag ∈ tags, leadTag tags ordered role = ordered ++ [tag] ∧ tag.role = role := by
  obtain ⟨tag, htag, rfl⟩ := List.mem_map.mp hrole
  have hfresh : ∀ other ∈ ordered, other.id ≠ tag.id := by
    intro other hother hid
    obtain rfl := List.inj_on_of_nodup_map hnodup (hsub other hother) htag hid
    exact hnew (List.mem_map_of_mem hother)
  unfold leadTag
  cases hfind : tags.find? fun t => t.role = tag.role && !ordered.any (·.id = t.id) with
  | none =>
    rw [List.find?_eq_none] at hfind
    have hnot := hfind tag htag
    simp only [decide_true, Bool.true_and, Bool.not_eq_true', Bool.not_eq_false, List.any_eq_true,
      decide_eq_true_eq] at hnot
    obtain ⟨other, hother, hid⟩ := hnot
    exact absurd hid (hfresh other hother)
  | some found =>
    have hrole := List.find?_some hfind
    simp only [Bool.and_eq_true, decide_eq_true_eq] at hrole
    exact ⟨found, List.mem_of_find?_eq_some hfind, rfl, hrole.1⟩

theorem foldl_leadTag (hnodup : (tags.map (·.id)).Nodup) {roles : List Bytes} {ordered : List Tag}
    (hsub : ∀ tag ∈ ordered, tag ∈ tags) (hnew : (ordered.map (·.role) ++ roles).Nodup)
    (hroles : ∀ role ∈ roles, role ∈ tags.map (·.role)) :
    (roles.foldl (leadTag tags) ordered).map (·.role) = ordered.map (·.role) ++ roles := by
  induction roles generalizing ordered with
  | nil => simp
  | cons role roles ih =>
    have hfresh : role ∉ ordered.map (·.role) := by
      intro hin
      exact (List.nodup_append.mp hnew).2.2 role hin role List.mem_cons_self rfl
    obtain ⟨tag, htag, hlead, hrole⟩ := leadTag_role hnodup hsub hfresh
      (hroles role List.mem_cons_self)
    have hstep : (ordered ++ [tag]).map (·.role) = ordered.map (·.role) ++ [role] := by
      simp [hrole]
    rw [List.foldl_cons, hlead, ih, hstep, List.append_assoc, List.singleton_append]
    · intro other hother
      rcases List.mem_append.mp hother with hother | hother
      · exact hsub other hother
      · exact List.mem_singleton.mp hother ▸ htag
    · rw [hstep, List.append_assoc, List.singleton_append]
      exact hnew
    · exact fun r hr => hroles r (List.mem_cons_of_mem role hr)

theorem prefix_foldl_pushTag (rest ordered : List Tag) : ordered <+: rest.foldl pushTag ordered := by
  induction rest generalizing ordered with
  | nil => exact List.prefix_rfl
  | cons tag rest ih =>
    refine List.IsPrefix.trans ?_ (ih _)
    unfold pushTag
    split
    · exact List.prefix_rfl
    · exact List.prefix_append _ _

/-- **One tag of each hinted role comes first**, in the order of the hints. -/
theorem orderedTags_roles (hnodup : (tags.map (·.id)).Nodup) {roles : List Bytes}
    (hroles : ∀ role ∈ roles, role ∈ tags.map (·.role)) (hdistinct : roles.Nodup) :
    roles <+: (orderedTags tags roles).map (·.role) := by
  have hlead : (roles.foldl (leadTag tags) []).map (·.role) = roles :=
    foldl_leadTag hnodup (by simp) (by simpa using hdistinct) hroles
  have hprefix := (prefix_foldl_pushTag tags (roles.foldl (leadTag tags) [])).map (·.role)
  rw [hlead] at hprefix
  exact hprefix

theorem mem_leadTags {roles : List Bytes} {ordered : List Tag}
    (hordered : ∀ tag ∈ ordered, tag ∈ tags) :
    ∀ tag ∈ roles.foldl (leadTag tags) ordered, tag ∈ tags := by
  induction roles generalizing ordered with
  | nil => exact hordered
  | cons role roles ih =>
    refine ih ?_
    unfold leadTag
    split
    · rename_i tag hfind
      exact List.forall_mem_append.mpr
        ⟨hordered, List.forall_mem_singleton.mpr (List.mem_of_find?_eq_some hfind)⟩
    · exact hordered

theorem mem_pushTags {rest ordered : List Tag} (hordered : ∀ tag ∈ ordered, tag ∈ tags)
    (hrest : ∀ tag ∈ rest, tag ∈ tags) : ∀ tag ∈ rest.foldl pushTag ordered, tag ∈ tags := by
  induction rest generalizing ordered with
  | nil => exact hordered
  | cons tag rest ih =>
    rw [List.forall_mem_cons] at hrest
    refine ih ?_ hrest.2
    unfold pushTag
    split
    · exact hordered
    · exact List.forall_mem_append.mpr ⟨hordered, List.forall_mem_singleton.mpr hrest.1⟩

theorem mem_of_mem_orderedTags {roles : List Bytes} {tag : Tag}
    (h : tag ∈ orderedTags tags roles) : tag ∈ tags :=
  mem_pushTags (mem_leadTags (List.forall_mem_nil _)) (fun _ h => h) tag h

theorem nodup_append_tag {ordered : List Tag} {tag : Tag} (h : (ordered.map (·.id)).Nodup)
    (hnew : ¬ ordered.any (·.id = tag.id)) : ((ordered ++ [tag]).map (·.id)).Nodup := by
  rw [List.map_append, List.map_singleton]
  refine List.nodup_append.mpr ⟨h, List.nodup_singleton _, ?_⟩
  intro id hid other hother
  rw [List.mem_singleton] at hother
  subst hother
  rintro rfl
  obtain ⟨found, hfound, hsame⟩ := List.mem_map.mp hid
  exact hnew (List.any_eq_true.mpr ⟨found, hfound, by simpa using hsame⟩)

theorem nodup_leadTags {roles : List Bytes} {ordered : List Tag}
    (h : (ordered.map (·.id)).Nodup) : ((roles.foldl (leadTag tags) ordered).map (·.id)).Nodup := by
  induction roles generalizing ordered with
  | nil => exact h
  | cons role roles ih =>
    refine ih ?_
    unfold leadTag
    split
    · rename_i tag hfind
      have hnew := List.find?_some hfind
      rw [Bool.and_eq_true, Bool.not_eq_true'] at hnew
      exact nodup_append_tag h (by simp [hnew.2])
    · exact h

theorem nodup_pushTags {rest ordered : List Tag} (h : (ordered.map (·.id)).Nodup) :
    ((rest.foldl pushTag ordered).map (·.id)).Nodup := by
  induction rest generalizing ordered with
  | nil => exact h
  | cons tag rest ih =>
    refine ih ?_
    unfold pushTag
    split
    · exact h
    · rename_i hnew
      exact nodup_append_tag h hnew

theorem length_orderedTags_le (tags : List Tag) (roles : List Bytes) :
    (orderedTags tags roles).length ≤ tags.length := by
  have hnodup : ((orderedTags tags roles).map (·.id)).Nodup :=
    nodup_pushTags (nodup_leadTags List.nodup_nil)
  have hsub : (orderedTags tags roles).map (·.id) ⊆ tags.map (·.id) :=
    List.map_subset _ fun _ => mem_of_mem_orderedTags
  simpa using (List.subperm_of_subset hnodup hsub).length_le

end

/-! ### Drafts that need no clarification -/

/-- The draft can be answered from itself. -/
structure Draft.Answerable (index : ModelIndex) (limits : RetrievalLimits) (d : Draft) : Prop where
  eligible : d.eligible.length ≤ 1
  declared : ∀ id ∈ d.eligible, (index.asset? id).isSome
  unspecific : d.eligible = [] → d.specific = false
  hints : d.taskHints.length ≤ 1
  kind : ∀ hint ∈ d.taskHints, hint = "overview" ∨ hint = "alarms"
  roles : d.roleHints.Nodup
  role : ∀ role ∈ d.roleHints, role ≠ [] ∧ role.length ≤ kMaxString
  /-- Every hinted role is that of a tag of the context, if the tag limit lets it in. -/
  available : d.roleHints.length ≤ limits.tags.toNat →
    ∃ tags : List Tag, d.tags = tags.map compactTag ∧ ∀ role ∈ d.roleHints, role ∈ tags.map (·.role)

section
variable {index : ModelIndex} {promptTerms : List Bytes} {scopePhrase : Bool}
  {limits : RetrievalLimits}

/-- The tags a draft takes its measurements from. -/
def sourceTags (index : ModelIndex) (promptTerms : List Bytes) (scopePhrase : Bool)
    (limits : RetrievalLimits) : List Tag :=
  let eligible := eligibleIds (listCandidates limits (scoredAssets index promptTerms))
  let scope := scopeOf index limits.assets.toNat eligible
    (specificReference index promptTerms scopePhrase)
  index.tags.filter fun tag => (measurementScopeIds eligible scope).contains tag.assetId

theorem draftOf_roleHints : (draftOf index promptTerms scopePhrase limits).roleHints =
    measurementRoleHints (sourceTags index promptTerms scopePhrase limits) promptTerms := rfl

theorem draftOf_tags : (draftOf index promptTerms scopePhrase limits).tags =
    ((orderedTags (sourceTags index promptTerms scopePhrase limits)
      (draftOf index promptTerms scopePhrase limits).roleHints).take limits.tags.toNat).map
      compactTag := rfl

theorem draftOf_taskHints : (draftOf index promptTerms scopePhrase limits).taskHints =
    hintsWith promptTerms (draftOf index promptTerms scopePhrase limits).roleHints := rfl

theorem draftOf_clarification : (draftOf index promptTerms scopePhrase limits).requiresClarification =
    (decide (1 < (draftOf index promptTerms scopePhrase limits).eligibleCount) ||
      ((draftOf index promptTerms scopePhrase limits).specific &&
        (draftOf index promptTerms scopePhrase limits).eligible.isEmpty)) := rfl

theorem length_eligible_le :
    (draftOf index promptTerms scopePhrase limits).eligible.length ≤
      (draftOf index promptTerms scopePhrase limits).eligibleCount := by
  have hgrows : ∀ (l : List Candidate) (ids : List Bytes), ids.length ≤
      (l.foldl (fun ids item => if item.score =
        eligibilityScore (scoredAssets index promptTerms) ∧ item.id ∉ ids then ids ++ [item.id]
        else ids) ids).length := by
    intro l
    induction l with
    | nil => exact fun _ => le_rfl
    | cons item l ih =>
      intro ids
      refine le_trans ?_ (ih _)
      dsimp only
      split
      · simp
      · exact le_rfl
  exact hgrows _ _

theorem mem_hintsWith {roleHints : List Bytes} {hint : Bytes}
    (h : hint ∈ hintsWith promptTerms roleHints) : hint = "overview" ∨ hint = "alarms" := by
  unfold hintsWith at h
  split_ifs at h
  · exact .inl (by simpa using h)
  · exact mem_taskHints h

theorem length_hintsWith_le (roleHints : List Bytes) :
    (hintsWith promptTerms roleHints).length ≤ 1 := by
  unfold hintsWith
  split_ifs
  · simp
  · exact length_taskHints_le promptTerms

/-- **A context without a need for clarification can be answered.** -/
theorem answerable (wf : index.WellFormed) {d : Draft}
    (hbelow : d.Below (draftOf index promptTerms scopePhrase limits))
    (hclear : d.requiresClarification = false) : d.Answerable index limits := by
  have hroles : d.roleHints = (draftOf index promptTerms scopePhrase limits).roleHints := by
    rcases hbelow.clarification with htrue | ⟨-, hroles⟩
    · rw [hclear] at htrue
      cases htrue
    · exact hroles
  have hfirst : (draftOf index promptTerms scopePhrase limits).requiresClarification = false := by
    by_contra h
    have hraised := hbelow.clarification_kept (Bool.not_eq_false _ ▸ h)
    rw [hclear] at hraised
    cases hraised
  rw [draftOf_clarification, Bool.or_eq_false_iff, decide_eq_false_iff_not, not_lt] at hfirst
  have heligible := hbelow.eligible_kept hfirst.1
  have hsources : ∀ tag ∈ sourceTags index promptTerms scopePhrase limits, tag ∈ index.tags :=
    fun tag htag => (List.mem_filter.mp htag).1
  have hhinted : ∀ role ∈ d.roleHints,
      ∃ tag ∈ sourceTags index promptTerms scopePhrase limits, tag.role = role := by
    intro role hrole
    rw [hroles, draftOf_roleHints] at hrole
    exact mem_measurementRoleHints hrole
  constructor
  case eligible =>
    rw [heligible]
    exact length_eligible_le.trans hfirst.1
  case declared =>
    intro id hid
    obtain ⟨asset, htop, rfl⟩ := draftOf_eligible (hbelow.eligible.subset hid)
    rw [wf.asset?_eq_some.mpr ⟨htop.declared, rfl⟩]
    rfl
  case unspecific =>
    intro hnil
    rw [heligible] at hnil
    rw [hbelow.specific]
    simpa [hnil] using hfirst.2
  case hints =>
    rw [hbelow.taskHints, draftOf_taskHints]
    exact length_hintsWith_le _
  case kind =>
    intro hint hhint
    rw [hbelow.taskHints, draftOf_taskHints] at hhint
    exact mem_hintsWith hhint
  case roles =>
    rw [hroles, draftOf_roleHints]
    exact nodup_sortUnique _
  case role =>
    intro role hrole
    obtain ⟨tag, htag, rfl⟩ := hhinted role hrole
    have htext := isText_iff.mp (wf.tags tag (hsources tag htag)).role
    exact ⟨htext.1, htext.2.1⟩
  case available =>
    intro hlimit
    let sources := sourceTags index promptTerms scopePhrase limits
    have hlead : d.roleHints <+: (orderedTags sources d.roleHints).map (·.role) := by
      refine orderedTags_roles ?_ ?_ ?_
      · exact wf.tags_nodup.sublist (List.filter_sublist.map _)
      · intro role hrole
        obtain ⟨tag, htag, hrole⟩ := hhinted role hrole
        exact List.mem_map.mpr ⟨tag, htag, hrole⟩
      · rw [hroles, draftOf_roleHints]
        exact nodup_sortUnique _
    have htags : d.tags =
        (((orderedTags sources d.roleHints).take limits.tags.toNat).take d.tags.length).map
          compactTag := by
      rw [List.map_take, hroles, ← draftOf_tags]
      exact List.prefix_iff_eq_take.mp hbelow.tags
    -- As many tags are left as there are hints, so the first of each is among them.
    have hleft : d.roleHints.length ≤ d.tags.length := by
      rcases hbelow.tags_kept with hle | heq
      · exact hle
      · rw [heq, draftOf_tags, ← hroles, List.length_map, List.length_take]
        have hlen := hlead.length_le
        rw [List.length_map] at hlen
        exact le_min hlimit hlen
    refine ⟨_, htags, fun role hrole => ?_⟩
    rw [List.take_take, List.map_take]
    refine List.IsPrefix.subset (List.prefix_take_iff.mpr ⟨hlead, ?_⟩) hrole
    exact le_min hleft hlimit

end

end ContextHmi.Retrieval
