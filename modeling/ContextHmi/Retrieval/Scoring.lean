import ContextHmi.Retrieval.Budget

/-!
# The assets a request is about

The eligible assets of a request are those with the best score, if that is at least 12. The ids a
first draft calls eligible are ids of such assets, and its count of them counts every one.

* `topScoring_iff`       : the eligibility score is the best score;
* `mem_allEligibleIds`   : the ids counted are those of the top scoring assets;
* `topScoring_unique`    : a draft that asks for no clarification has at most one.
-/

namespace ContextHmi.Retrieval

/-- The points the terms of a request give an asset. -/
def score (promptTerms : List Bytes) (asset : Asset) : Nat := (candidateOf promptTerms asset).score

/-- The asset attains the eligible top score. -/
structure TopScoring (index : ModelIndex) (promptTerms : List Bytes) (asset : Asset) : Prop where
  declared : asset ∈ index.assets
  best : ∀ other ∈ index.assets, score promptTerms other ≤ score promptTerms asset
  enough : 12 ≤ score promptTerms asset

section
variable {index : ModelIndex} {promptTerms : List Bytes}

/-! ### Sorted candidates -/

theorem mem_scoredAssets {item : Candidate} :
    item ∈ scoredAssets index promptTerms ↔
      ∃ asset ∈ index.assets, candidateOf promptTerms asset = item ∧ 0 < item.score := by
  rw [scoredAssets, (List.perm_insertionSort _ _).mem_iff, List.mem_filter, List.mem_map,
    decide_eq_true_iff]
  constructor
  · rintro ⟨⟨asset, hasset, hitem⟩, hpos⟩
    exact ⟨asset, hasset, hitem, hpos⟩
  · rintro ⟨asset, hasset, hitem, hpos⟩
    exact ⟨⟨asset, hasset, hitem⟩, hpos⟩

theorem candidateOf_score (asset : Asset) :
    (candidateOf promptTerms asset).score = score promptTerms asset := rfl

theorem before_total (left right : Candidate) : left.before right ∨ right.before left := by
  rcases Nat.lt_trichotomy left.score right.score with hlt | heq | hgt
  · exact .inr (.inl hlt)
  · rcases Bytes.ble_total left.id right.id with h | h
    · exact .inl (.inr ⟨heq, h⟩)
    · exact .inr (.inr ⟨heq.symm, h⟩)
  · exact .inl (.inl hgt)

theorem before_trans {a b c : Candidate} (hab : a.before b) (hbc : b.before c) : a.before c := by
  rcases hab with hlt | ⟨heq, hab⟩
  · rcases hbc with hlt' | ⟨heq', -⟩
    · exact .inl (hlt'.trans hlt)
    · exact .inl (heq' ▸ hlt)
  · rcases hbc with hlt' | ⟨heq', hbc⟩
    · exact .inl (heq ▸ hlt')
    · exact .inr ⟨heq.trans heq', Bytes.ble_trans hab hbc⟩

theorem score_le_head {head item : Candidate} {rest : List Candidate}
    (h : scoredAssets index promptTerms = head :: rest)
    (hitem : item ∈ scoredAssets index promptTerms) : item.score ≤ head.score := by
  have : Std.Total Candidate.before := ⟨before_total⟩
  have : IsTrans Candidate Candidate.before := ⟨fun _ _ _ => before_trans⟩
  have hsorted : (scoredAssets index promptTerms).Pairwise Candidate.before :=
    List.pairwise_insertionSort _ _
  rw [h] at hsorted hitem
  rcases List.mem_cons.mp hitem with rfl | hrest
  · exact le_rfl
  · rcases (List.pairwise_cons.mp hsorted).1 item hrest with hlt | ⟨heq, -⟩
    · exact hlt.le
    · exact heq.ge

/-! ### The eligible score -/

theorem topScoring_iff {asset : Asset} :
    TopScoring index promptTerms asset ↔ asset ∈ index.assets ∧
      0 < eligibilityScore (scoredAssets index promptTerms) ∧
      score promptTerms asset = eligibilityScore (scoredAssets index promptTerms) := by
  have hmem : ∀ other ∈ index.assets, 0 < score promptTerms other →
      candidateOf promptTerms other ∈ scoredAssets index promptTerms :=
    fun other hother hpos => mem_scoredAssets.mpr ⟨other, hother, rfl, hpos⟩
  cases hscored : scoredAssets index promptTerms with
  | nil =>
    have hvalue : eligibilityScore [] = 0 := rfl
    rw [hvalue]
    constructor
    · rintro ⟨hdeclared, -, henough⟩
      have hin := hmem asset hdeclared (by omega)
      rw [hscored] at hin
      cases hin
    · rintro ⟨-, hpos, -⟩
      omega
  | cons head rest =>
    have hhead : head ∈ scoredAssets index promptTerms := hscored ▸ List.mem_cons_self
    obtain ⟨top, htop, rfl, -⟩ := mem_scoredAssets.mp hhead
    have hbest : ∀ other ∈ index.assets, score promptTerms other ≤ score promptTerms top := by
      intro other hother
      rcases Nat.eq_zero_or_pos (score promptTerms other) with hzero | hpos
      · exact hzero ▸ Nat.zero_le _
      · exact score_le_head hscored (hmem other hother hpos)
    have hvalue : eligibilityScore (candidateOf promptTerms top :: rest) =
        if score promptTerms top < 12 then 0 else score promptTerms top := rfl
    rw [hvalue]
    constructor
    · rintro ⟨hdeclared, hbest', henough⟩
      have heq := le_antisymm (hbest asset hdeclared) (hbest' top htop)
      rw [if_neg (by omega)]
      exact ⟨hdeclared, by omega, heq⟩
    · rintro ⟨hdeclared, hpos, heq⟩
      split_ifs at hpos heq with hlow
      · omega
      · exact ⟨hdeclared, fun other hother => heq ▸ hbest other hother, by omega⟩

theorem topScoring_of_candidate {item : Candidate} (h : item ∈ scoredAssets index promptTerms)
    (hscore : item.score = eligibilityScore (scoredAssets index promptTerms)) :
    TopScoring index promptTerms item.asset := by
  obtain ⟨asset, hasset, rfl, hpos⟩ := mem_scoredAssets.mp h
  exact topScoring_iff.mpr ⟨hasset, hscore ▸ hpos, hscore⟩

theorem mem_eligibleIds {limits : RetrievalLimits} {id : Bytes}
    (h : id ∈ eligibleIds (listCandidates limits (scoredAssets index promptTerms))) :
    ∃ asset, TopScoring index promptTerms asset ∧ asset.id = id := by
  obtain ⟨listed, hlisted, rfl⟩ := List.mem_map.mp h
  obtain ⟨hmem, heligible⟩ := List.mem_filter.mp hlisted
  obtain ⟨item, hitem, rfl⟩ := List.mem_map.mp hmem
  simp only [Bool.and_eq_true, decide_eq_true_eq] at heligible
  exact ⟨item.asset, topScoring_of_candidate (List.mem_of_mem_take hitem) heligible.2, rfl⟩

theorem mem_foldl_eligible {p : Candidate → Prop} [DecidablePred p] {l : List Candidate}
    {ids : List Bytes} {id : Bytes} :
    id ∈ l.foldl (fun ids item => if p item ∧ item.id ∉ ids then ids ++ [item.id] else ids) ids ↔
      id ∈ ids ∨ ∃ item ∈ l, p item ∧ item.id = id := by
  induction l generalizing ids with
  | nil => simp
  | cons item l ih =>
    rw [List.foldl_cons, ih, List.exists_mem_cons_iff]
    by_cases hp : p item
    · by_cases hin : item.id ∈ ids
      · simp only [hp, hin, not_true_eq_false, and_false, if_false, true_and]
        constructor
        · rintro (h | h)
          · exact .inl h
          · exact .inr (.inr h)
        · rintro (h | rfl | h)
          · exact .inl h
          · exact .inl hin
          · exact .inr h
      · simp only [hp, hin, not_false_eq_true, and_self, if_true, true_and, List.mem_append,
          List.mem_singleton, or_assoc, eq_comm]
    · simp [hp]

theorem mem_allEligibleIds {limits : RetrievalLimits} {id : Bytes} :
    id ∈ allEligibleIds (scoredAssets index promptTerms)
        (eligibleIds (listCandidates limits (scoredAssets index promptTerms))) ↔
      ∃ asset, TopScoring index promptTerms asset ∧ asset.id = id := by
  rw [allEligibleIds, mem_foldl_eligible]
  constructor
  · rintro (h | ⟨item, hitem, hscore, rfl⟩)
    · exact mem_eligibleIds h
    · exact ⟨item.asset, topScoring_of_candidate hitem hscore, rfl⟩
  · rintro ⟨asset, htop, rfl⟩
    obtain ⟨hasset, hpos, heq⟩ := topScoring_iff.mp htop
    have hscored : 0 < score promptTerms asset := heq ▸ hpos
    exact .inr ⟨candidateOf promptTerms asset, mem_scoredAssets.mpr ⟨asset, hasset, rfl, hscored⟩,
      heq, rfl⟩

end

/-! ### First drafts -/

theorem eq_of_length_le_one {α : Type} {l : List α} (h : l.length ≤ 1) {a b : α} (ha : a ∈ l)
    (hb : b ∈ l) : a = b := by
  obtain ⟨i, hi, rfl⟩ := List.getElem_of_mem ha
  obtain ⟨j, hj, rfl⟩ := List.getElem_of_mem hb
  congr 1
  omega

section
variable {index : ModelIndex} {promptTerms : List Bytes} {scopePhrase : Bool}
  {limits : RetrievalLimits}

theorem draftOf_eligible {id : Bytes}
    (h : id ∈ (draftOf index promptTerms scopePhrase limits).eligible) :
    ∃ asset, TopScoring index promptTerms asset ∧ asset.id = id := mem_eligibleIds h

/-- **A tie asks for clarification**: without it there is at most one top scoring asset. -/
theorem topScoring_unique (hnodup : (index.assets.map (·.id)).Nodup)
    (h : (draftOf index promptTerms scopePhrase limits).requiresClarification = false)
    {a b : Asset} (ha : TopScoring index promptTerms a) (hb : TopScoring index promptTerms b) :
    a = b := by
  simp only [draftOf, Bool.or_eq_false_iff, decide_eq_false_iff_not, not_lt] at h
  have hid : a.id = b.id :=
    eq_of_length_le_one h.1 (mem_allEligibleIds.mpr ⟨a, ha, rfl⟩)
      (mem_allEligibleIds.mpr ⟨b, hb, rfl⟩)
  exact List.inj_on_of_nodup_map hnodup ha.declared hb.declared hid

end

end ContextHmi.Retrieval
