import ContextHmi.Retrieval.Shrinking
import ContextHmi.Runtime.Budget

/-!
# Asking for clarification

A request with a scope phrase for which no asset is eligible is one the retriever cannot place. It
asks for clarification where the request names a kind or a number, or shares no term with any asset.
A single short term in common is enough that it does not.

* `unplaced_spec` : the first draft of a request that no asset is eligible for;
* `asks_iff`      : when such a request asks for clarification.
-/

namespace ContextHmi.Runtime

open Outcome Retrieval

/-! ### Requests without an eligible asset -/

/-- No asset scores enough to be eligible. -/
def Unplaced (index : ModelIndex) (promptTerms : List Bytes) : Prop :=
  ∀ asset ∈ index.assets, score promptTerms asset < 12

section
variable {index : ModelIndex} {promptTerms : List Bytes} {scopePhrase : Bool}
  {limits : RetrievalLimits}

theorem Unplaced.not_topScoring (h : Unplaced index promptTerms) {asset : Asset} :
    ¬ TopScoring index promptTerms asset := by
  intro htop
  have hweak := h asset htop.declared
  have henough := htop.enough
  omega

theorem Unplaced.eligible (h : Unplaced index promptTerms) :
    (draftOf index promptTerms scopePhrase limits).eligible = [] := by
  rw [List.eq_nil_iff_forall_not_mem]
  intro id hid
  obtain ⟨asset, htop, -⟩ := draftOf_eligible hid
  exact h.not_topScoring htop

theorem Unplaced.eligibleCount (h : Unplaced index promptTerms) :
    (draftOf index promptTerms scopePhrase limits).eligibleCount = 0 := by
  have hnone : allEligibleIds (scoredAssets index promptTerms)
      (eligibleIds (listCandidates limits (scoredAssets index promptTerms))) = [] := by
    rw [List.eq_nil_iff_forall_not_mem]
    intro id hid
    obtain ⟨asset, htop, -⟩ := mem_allEligibleIds.mp hid
    exact h.not_topScoring htop
  exact congrArg List.length hnone

theorem Unplaced.clarification (h : Unplaced index promptTerms) :
    (draftOf index promptTerms scopePhrase limits).requiresClarification =
      specificReference index promptTerms scopePhrase := by
  rw [draftOf_clarification, h.eligibleCount, h.eligible]
  simp only [Nat.not_lt_zero, decide_false, Bool.false_or, List.isEmpty_nil, Bool.and_true]
  rfl

/-- What such a request has to have, with a scope phrase, to mean one asset. -/
def Points (index : ModelIndex) (promptTerms : List Bytes) : Prop :=
  kindMentioned index promptTerms = true ∨ numericTerms promptTerms ≠ [] ∨
    ∀ asset ∈ index.assets, score promptTerms asset = 0

theorem scoredAssets_eq_nil_iff :
    scoredAssets index promptTerms = [] ↔ ∀ asset ∈ index.assets, score promptTerms asset = 0 := by
  rw [List.eq_nil_iff_forall_not_mem]
  constructor
  · intro h asset hasset
    by_contra hne
    exact h _ (mem_scoredAssets.mpr ⟨asset, hasset, rfl, Nat.pos_of_ne_zero hne⟩)
  · intro h item hitem
    obtain ⟨asset, hasset, rfl, hpos⟩ := mem_scoredAssets.mp hitem
    rw [candidateOf_score, h asset hasset] at hpos
    exact absurd hpos (Nat.lt_irrefl 0)

theorem Unplaced.specific_iff (h : Unplaced index promptTerms) :
    specificReference index promptTerms true = true ↔ Points index promptTerms := by
  have hstrong : (scoredAssets index promptTerms).any (fun item => 80 ≤ item.score) = false := by
    rw [List.any_eq_false]
    intro item hitem hscore
    obtain ⟨asset, hasset, rfl, -⟩ := mem_scoredAssets.mp hitem
    have hweak := h asset hasset
    rw [decide_eq_true_eq, candidateOf_score] at hscore
    omega
  unfold specificReference Points
  dsimp only
  rw [hstrong]
  simp only [Bool.or_eq_true, Bool.not_eq_true', List.isEmpty_eq_false_iff, Bool.and_true,
    List.isEmpty_iff, scoredAssets_eq_nil_iff, Bool.false_eq_true, or_false, or_assoc]

theorem Unplaced.dropContext (h : Unplaced index promptTerms) (hlimit : limits.candidates ≠ 0)
    (hscored : scoredAssets index promptTerms ≠ []) :
    (draftOf index promptTerms scopePhrase limits).dropContext.isSome := by
  rw [Option.isSome_iff_ne_none]
  intro hnone
  have hkept : (draftOf index promptTerms scopePhrase limits).candidates.filter (·.eligible) =
      (draftOf index promptTerms scopePhrase limits).candidates :=
    congrArg Draft.candidates (Draft.bare_of_dropContext hnone)
  have heligible : (draftOf index promptTerms scopePhrase limits).eligible = [] := h.eligible
  have hempty : (draftOf index promptTerms scopePhrase limits).candidates.filter (·.eligible) = [] :=
    List.map_eq_nil_iff.mp heligible
  rw [hkept] at hempty
  rcases List.take_eq_nil_iff.mp (List.map_eq_nil_iff.mp hempty) with hzero | hnil
  · exact hlimit (UInt64.toNat_inj.mp hzero)
  · exact hscored hnil

end

/-! ### Asking -/

/-- The least the loop makes of a draft while it keeps the requested roles. -/
def least (d : Draft) : Draft := if d.roleHints.isEmpty then d.stripped else d.bare

theorem leads_least {d : Draft} (hdrop : d.dropContext.isSome) :
    Leads Draft.shrinkOrThrow d (least d) := by
  unfold least
  split_ifs
  · refine Draft.leads_stripped (.inr ?_)
    rw [Draft.dropInessential, Option.orElse_eq_orElse, Option.orElse_eq_or, Option.isSome_or, hdrop]
    rfl
  · exact Draft.leads_bare (.inr hdrop)

theorem least_clarification (d : Draft) :
    (least d).requiresClarification = d.requiresClarification := by
  unfold least
  split_ifs with hroles
  · show (d.requiresClarification || !d.roleHints.isEmpty) = _
    rw [hroles, Bool.not_true, Bool.or_false]
  · rfl

theorem shrink_least {d d' : Draft} (heligible : d.eligible = []) (h : (least d).shrink = some d') :
    d'.requiresClarification = true := by
  unfold least at h
  split_ifs at h with hroles
  · have hnone : d.stripped.dropEligible = none := by
      unfold Draft.dropEligible
      rw [if_pos]
      show (d.eligible.isEmpty || _) = true
      rw [heligible]
      rfl
    have hrest := Draft.dropInessential_stripped d
    rw [Draft.dropInessential, Option.orElse_eq_orElse, Option.orElse_eq_or,
      Option.or_eq_none_iff] at hrest
    rw [Draft.shrink_eq, hrest.1, hrest.2, hnone] at h
    cases h
  · have hrole : d.bare.dropRole = some _ := if_neg hroles
    rw [Draft.shrink_eq, Draft.dropContext_bare, Draft.dropRest, hrole] at h
    cases h
    rfl

section
variable [Platform]

/-- A context is only returned with a question. -/
def Asks (model : Json) (prompt : Bytes) (limits : RetrievalLimits) : Prop :=
  ∀ retrieved, retrieve model prompt limits = .ok retrieved →
    retrieved.find? "requires_clarification" = some (.bool true)

variable {prompt : Bytes} {limits : RetrievalLimits}

theorem asks_of_clarification {model : AcceptedModel} (h : (requestDraft model.index prompt
    limits).requiresClarification = true) : Asks model.json prompt limits := by
  intro retrieved hretrieved
  obtain ⟨index, d, hindex, -, -, hbelow, rfl⟩ := retrieve_eq_ok hretrieved
  rw [model.accepted] at hindex
  cases hindex
  rw [find?_render_clarification, hbelow.clarification_kept h]

theorem budgetExceeded_eq_false_iff {index : ModelIndex} {d : Draft} :
    budgetExceeded index limits d = .ok false ↔ Fits limits (d.render index limits) := by
  constructor
  · intro h
    obtain ⟨within, hwithin, hnot⟩ := map_eq_ok.mp h
    rw [Bool.not_eq_false'] at hnot
    exact fits_of_withinBudget (hnot ▸ hwithin)
  · intro ⟨text, htext, hbytes, htokens⟩
    simp [budgetExceeded, withinBudget, htext, hbytes, htokens]

theorem asks_of_exceeded {model : AcceptedModel} (hprompt : checkPrompt prompt = .ok ())
    (hlimits : checkLimits limits = .ok ())
    (heligible : (requestDraft model.index prompt limits).eligible = [])
    (hdrop : (requestDraft model.index prompt limits).dropContext.isSome)
    (h : ¬ Fits limits ((least (requestDraft model.index prompt limits)).render model.index limits)) :
    Asks model.json prompt limits := by
  intro retrieved hretrieved
  rw [retrieve_eq_fit model hprompt hlimits] at hretrieved
  simp only [bind_eq_ok, pure_eq_ok] at hretrieved
  obtain ⟨d, hfit, rfl⟩ := hretrieved
  obtain ⟨b, hb⟩ := (rendered_requestDraft model prompt limits).budgetExceeded model limits
  rcases fitBudget_skip _ _ (leads_least hdrop) hb with ⟨hgoes, hsame⟩ | ⟨hstops, -⟩
  · rw [hsame, fitBudget_eq, hgoes, ok_bind, if_pos rfl, bind_eq_ok] at hfit
    obtain ⟨d', hturn, hfit⟩ := hfit
    have hraised := shrink_least heligible (Draft.shrinkOrThrow_eq_ok.mp hturn)
    rw [find?_render_clarification, (fitBudget_eq_ok hfit).1.clarification_kept hraised]
  · exact absurd (budgetExceeded_eq_false_iff.mp hstops) h

theorem not_asks_of_fits {model : AcceptedModel} (hprompt : checkPrompt prompt = .ok ())
    (hlimits : checkLimits limits = .ok ())
    (hclear : (requestDraft model.index prompt limits).requiresClarification = false)
    (hdrop : (requestDraft model.index prompt limits).dropContext.isSome)
    (h : Fits limits ((least (requestDraft model.index prompt limits)).render model.index limits)) :
    ¬ Asks model.json prompt limits := by
  intro hasks
  obtain ⟨b, hb⟩ := (rendered_requestDraft model prompt limits).budgetExceeded model limits
  rcases fitBudget_skip _ _ (leads_least hdrop) hb with ⟨hgoes, -⟩ | ⟨-, d, -, hrest, hfit⟩
  · rw [budgetExceeded_eq_false_iff.mpr h] at hgoes
    cases hgoes
  · have hretrieved : retrieve model.json prompt limits = .ok (d.render model.index limits) := by
      rw [retrieve_eq_fit model hprompt hlimits, hfit]
      rfl
    have hraised := hasks _ hretrieved
    rw [find?_render_clarification, Option.some.injEq, Json.bool.injEq] at hraised
    have hbelow : (least (requestDraft model.index prompt limits)).Below d :=
      leads_below hrest
    have hkept := hbelow.clarification_kept hraised
    rw [least_clarification, hclear] at hkept
    cases hkept

/-- **A request that cannot be placed asks for clarification** exactly where it names a kind or a
number, has no term in common with an asset, or its least context is too large. -/
theorem asks_iff (model : AcceptedModel) (hprompt : checkPrompt prompt = .ok ())
    (hlimits : checkLimits limits = .ok ()) (hphrase : hasScopePhrase prompt = true)
    (hunplaced : Unplaced model.index (termsFor prompt)) :
    Asks model.json prompt limits ↔ Points model.index (termsFor prompt) ∨
      ¬ Fits limits ((least (requestDraft model.index prompt limits)).render model.index limits) := by
  have hclarification : (requestDraft model.index prompt limits).requiresClarification =
      specificReference model.index (termsFor prompt) true := by
    rw [← hphrase]
    exact hunplaced.clarification
  by_cases hpoints : Points model.index (termsFor prompt)
  · refine iff_of_true (asks_of_clarification ?_) (.inl hpoints)
    rw [hclarification]
    exact hunplaced.specific_iff.mpr hpoints
  · have hclear : (requestDraft model.index prompt limits).requiresClarification = false := by
      rw [hclarification, ← Bool.not_eq_true, hunplaced.specific_iff]
      exact hpoints
    have hscored : scoredAssets model.index (termsFor prompt) ≠ [] := by
      intro hnil
      exact hpoints (.inr (.inr (scoredAssets_eq_nil_iff.mp hnil)))
    have hlimit : limits.candidates ≠ 0 := by
      intro hzero
      simp [checkLimits, hzero] at hlimits
    have hdrop : (requestDraft model.index prompt limits).dropContext.isSome :=
      hunplaced.dropContext hlimit hscored
    rw [or_iff_right hpoints]
    constructor
    · intro hasks hfits
      exact not_asks_of_fits hprompt hlimits hclear hdrop hfits hasks
    · exact asks_of_exceeded hprompt hlimits hunplaced.eligible hdrop

end

/-! ### A term in common -/

section
local instance unplacedPlatform : Platform := samplePlatform

/-- A plant with one tank, `at-tank`. -/
def atTank : Json := (samplePlant 1 [] []).setField "assets"
  (.arr [.object [("id", .str "at-tank"), ("name", .str "Tank"), ("kind", .str "vessel")]])

def acceptedAtTank : AcceptedModel where
  json := atTank
  index := indexOf atTank
  accepted := indexModel_eq (by decide +kernel)
  isText := isText_of_isSome (by decide +kernel)

theorem asks_iff_sample : Asks acceptedAtTank.json "readings for an unlisted reactor" {} := by
  have hzero : ∀ asset ∈ acceptedAtTank.index.assets,
      score (termsFor "readings for an unlisted reactor") asset = 0 := by
    decide +kernel
  have hunplaced : Unplaced acceptedAtTank.index (termsFor "readings for an unlisted reactor") := by
    intro asset hasset
    rw [hzero asset hasset]
    decide
  exact (asks_iff acceptedAtTank rfl rfl (by decide) hunplaced).mpr (.inl (.inr (.inr hzero)))

/-- The only term the request shares with the plant is `at`. -/
theorem not_asks_at : hasScopePhrase "readings at noon" = true ∧
    (∀ asset ∈ acceptedAtTank.index.assets, score (termsFor "readings at noon") asset < 12) ∧
      ∃ retrieved, retrieve acceptedAtTank.json "readings at noon" {} = .ok retrieved ∧
        retrieved.find? "requires_clarification" = some (.bool false) := by
  refine ⟨by decide, by decide +kernel, ?_⟩
  obtain ⟨retrieved, hretrieved, hclear⟩ := exists_ok_of_any
    (x := retrieve acceptedAtTank.json "readings at noon" {})
    (fun r => (r.find? "requires_clarification").any fun v => v.eqv (.bool false)) (by decide +kernel)
  obtain ⟨flag, hfind, hequal⟩ := (Option.any_eq_true _ _).mp hclear
  refine ⟨retrieved, hretrieved, ?_⟩
  cases flag with
  | bool b =>
    have hb : b = false := by simpa [Json.eqv] using hequal
    rw [hfind, hb]
  | _ => cases hequal

end

end ContextHmi.Runtime
