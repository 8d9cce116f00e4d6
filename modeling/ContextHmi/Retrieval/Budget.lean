import ContextHmi.Retrieval.Retrieve
import ContextHmi.Engine.Validation

/-!
# What the budget loop takes away

Every turn of the loop leaves a draft below the one it had: lists are cut, flags are raised, and the
facts the request was given stay. In particular a turn can raise `requires_clarification` and never
lowers it, and it takes an eligible asset only from several.

* `Draft.shrink_spec`      : one turn;
* `fitBudget_eq_ok`        : the whole loop;
* `retrieve_eq_ok`         : the context of a request is a draft below its first one.
-/

namespace ContextHmi.Retrieval

open Outcome

/-! ### Removing an element -/

theorem removeLast_eq_some {α : Type} {p : α → Bool} {l l' : List α} (h : removeLast p l = some l') :
    ∃ a, l'.Sublist l ∧ l.length = l'.length + 1 ∧ a ∈ l ∧ p a = true ∧
      ∀ b ∈ l, p b = false → b ∈ l' := by
  induction l generalizing l' with
  | nil => cases h
  | cons c l ih =>
    cases hl : removeLast p l with
    | some rest =>
      simp only [removeLast, hl, Option.some.injEq] at h
      subst h
      obtain ⟨a, hsub, hlen, ha, hpa, hkeep⟩ := ih hl
      refine ⟨a, hsub.cons_cons c, congrArg (· + 1) hlen, List.mem_cons_of_mem c ha, hpa, ?_⟩
      intro b hb hpb
      rcases List.mem_cons.mp hb with rfl | hb
      · exact List.mem_cons_self
      · exact List.mem_cons_of_mem c (hkeep b hb hpb)
    | none =>
      simp only [removeLast, hl, Option.ite_none_right_eq_some, Option.some.injEq] at h
      obtain ⟨hpc, rfl⟩ := h
      refine ⟨c, List.sublist_cons_self c l, rfl, List.mem_cons_self, hpc, ?_⟩
      intro b hb hpb
      rcases List.mem_cons.mp hb with rfl | hb
      · rw [hpc] at hpb
        cases hpb
      · exact hb

theorem eraseAliases_eq_some {l l' : List Asset} (h : eraseAliases l = some l') :
    l'.map (·.id) = l.map (·.id) ∧
      (l.filter (·.aliases.isSome)).length = (l'.filter (·.aliases.isSome)).length + 1 := by
  induction l generalizing l' with
  | nil => cases h
  | cons asset l ih =>
    unfold eraseAliases at h
    split at h
    · rename_i hsome
      cases h
      simp [hsome]
    · rename_i hnone
      obtain ⟨rest, hrest, rfl⟩ := Option.map_eq_some_iff.mp h
      obtain ⟨hids, hlen⟩ := ih hrest
      simp only [Bool.not_eq_true] at hnone
      simp [hids, hnone, hlen]

theorem length_filter_aliases_le {l l' : List Asset} (h : l'.Sublist l) :
    (l'.filter (·.aliases.isSome)).length ≤ (l.filter (·.aliases.isSome)).length :=
  (h.filter _).length_le

/-! ### One turn -/

namespace Draft

/-- `d` is `d₀` with some of it taken away. -/
structure Below (d d₀ : Draft) : Prop where
  taskHints : d.taskHints = d₀.taskHints
  requestedRoles : d.requestedRoles = d₀.requestedRoles
  specific : d.specific = d₀.specific
  eligibleCount : d.eligibleCount = d₀.eligibleCount
  promptTerms : d.promptTerms <+: d₀.promptTerms
  roleHints : d.roleHints <+: d₀.roleHints
  eligible : d.eligible <+: d₀.eligible
  /-- A sole eligible asset stays. -/
  eligible_kept : d₀.eligibleCount ≤ 1 → d.eligible = d₀.eligible
  candidates : d.candidates.Sublist d₀.candidates
  assets : (d.assets.map (·.id)).Sublist (d₀.assets.map (·.id))
  relationships : d.relationships <+: d₀.relationships
  tags : d.tags <+: d₀.tags
  alarms : d.alarms <+: d₀.alarms
  /-- The first tags, one for each requested role, go last. -/
  tags_kept : d.roleHints.length ≤ d.tags.length ∨ d.tags = d₀.tags
  /-- Clarification is only ever asked for, and a role goes only with it. -/
  clarification : d.requiresClarification = true ∨
    d.requiresClarification = d₀.requiresClarification ∧ d.roleHints = d₀.roleHints
  clarification_kept : d₀.requiresClarification = true → d.requiresClarification = true

theorem Below.refl (d : Draft) : d.Below d where
  taskHints := rfl
  requestedRoles := rfl
  specific := rfl
  eligibleCount := rfl
  promptTerms := List.prefix_rfl
  roleHints := List.prefix_rfl
  eligible := List.prefix_rfl
  eligible_kept _ := rfl
  candidates := .refl _
  assets := .refl _
  relationships := List.prefix_rfl
  tags := List.prefix_rfl
  alarms := List.prefix_rfl
  tags_kept := .inr rfl
  clarification := .inr ⟨rfl, rfl⟩
  clarification_kept h := h

theorem Below.trans {d d₁ d₀ : Draft} (h : d.Below d₁) (h₁ : d₁.Below d₀) : d.Below d₀ where
  taskHints := h.taskHints.trans h₁.taskHints
  requestedRoles := h.requestedRoles.trans h₁.requestedRoles
  specific := h.specific.trans h₁.specific
  eligibleCount := h.eligibleCount.trans h₁.eligibleCount
  promptTerms := h.promptTerms.trans h₁.promptTerms
  roleHints := h.roleHints.trans h₁.roleHints
  eligible := h.eligible.trans h₁.eligible
  eligible_kept hle := (h.eligible_kept (h₁.eligibleCount ▸ hle)).trans (h₁.eligible_kept hle)
  candidates := h.candidates.trans h₁.candidates
  assets := h.assets.trans h₁.assets
  relationships := h.relationships.trans h₁.relationships
  tags := h.tags.trans h₁.tags
  alarms := h.alarms.trans h₁.alarms
  tags_kept := by
    rcases h.tags_kept with hle | heq
    · exact .inl hle
    · rcases h₁.tags_kept with hle₁ | heq₁
      · exact .inl (heq ▸ h.roleHints.length_le.trans hle₁)
      · exact .inr (heq.trans heq₁)
  clarification := by
    rcases h.clarification with htrue | ⟨heq, hroles⟩
    · exact .inl htrue
    · rcases h₁.clarification with htrue₁ | ⟨heq₁, hroles₁⟩
      · exact .inl (heq.trans htrue₁)
      · exact .inr ⟨heq.trans heq₁, hroles.trans hroles₁⟩
  clarification_kept h₀ := h.clarification_kept (h₁.clarification_kept h₀)

/-- A turn: a draft below, and less of it. -/
structure Turn (d d' : Draft) : Prop where
  below : d'.Below d
  weight : d'.weight < d.weight

variable {d d' : Draft}

theorem dropCandidate_turn (h : d.dropCandidate = some d') : d.Turn d' := by
  obtain ⟨candidates, hl, rfl⟩ := Option.map_eq_some_iff.mp h
  obtain ⟨_, hsub, hlen, -⟩ := removeLast_eq_some hl
  refine ⟨{ Below.refl d with candidates := hsub }, ?_⟩
  simp only [weight]
  omega

theorem dropAsset_turn (h : d.dropAsset = some d') : d.Turn d' := by
  obtain ⟨assets, hl, rfl⟩ := Option.map_eq_some_iff.mp h
  obtain ⟨_, hsub, hlen, -⟩ := removeLast_eq_some hl
  refine ⟨{ Below.refl d with assets := hsub.map _ }, ?_⟩
  have haliases := length_filter_aliases_le hsub
  simp only [weight]
  omega

theorem length_dropLast_lt {α : Type} {l : List α} (h : l.isEmpty = false) :
    l.dropLast.length < l.length := by
  cases l with
  | nil => cases h
  | cons a l => simp

theorem dropRelationship_turn (h : d.dropRelationship = some d') : d.Turn d' := by
  unfold dropRelationship at h
  split at h
  · cases h
  · rename_i hne
    cases h
    have hlt := length_dropLast_lt (Bool.eq_false_iff.mpr hne)
    refine ⟨{ Below.refl d with relationships := List.dropLast_prefix _ }, ?_⟩
    simp only [weight]
    omega

theorem dropAlarm_turn (h : d.dropAlarm = some d') : d.Turn d' := by
  unfold dropAlarm at h
  split at h
  · cases h
  · rename_i hne
    cases h
    have hlt := length_dropLast_lt (Bool.eq_false_iff.mpr hne)
    refine ⟨{ Below.refl d with alarms := List.dropLast_prefix _ }, ?_⟩
    simp only [weight]
    omega

theorem dropTag_turn (h : d.dropTag = some d') : d.Turn d' := by
  unfold dropTag at h
  split at h
  · rename_i hlt
    cases h
    have hlen : d.tags.dropLast.length = d.tags.length - 1 := List.length_dropLast
    refine ⟨{ Below.refl d with
      tags := List.dropLast_prefix _
      tags_kept := .inl (by simp only [hlen]; omega) }, ?_⟩
    simp only [weight, hlen]
    omega
  · cases h

theorem dropRole_turn (h : d.dropRole = some d') : d.Turn d' := by
  unfold dropRole at h
  split at h
  · cases h
  · rename_i hne
    cases h
    have hlt := length_dropLast_lt (Bool.eq_false_iff.mpr hne)
    refine ⟨{ Below.refl d with
      roleHints := List.dropLast_prefix _
      tags_kept := .inr rfl
      clarification := .inl rfl
      clarification_kept := fun _ => rfl }, ?_⟩
    simp only [weight]
    omega

theorem dropAliases_turn (h : d.dropAliases = some d') : d.Turn d' := by
  obtain ⟨assets, hl, rfl⟩ := Option.map_eq_some_iff.mp h
  obtain ⟨hids, hlen⟩ := eraseAliases_eq_some hl
  refine ⟨{ Below.refl d with assets := hids ▸ .refl _ }, ?_⟩
  have hlength := congrArg List.length hids
  simp only [List.length_map] at hlength
  simp only [weight]
  omega

theorem dropTerm_turn (h : d.dropTerm = some d') : d.Turn d' := by
  unfold dropTerm at h
  split at h
  · cases h
  · rename_i hne
    cases h
    have hlt := length_dropLast_lt (Bool.eq_false_iff.mpr hne)
    refine ⟨{ Below.refl d with promptTerms := List.dropLast_prefix _ }, ?_⟩
    simp only [weight]
    omega

theorem dropEligible_turn (h : d.dropEligible = some d') : d.Turn d' := by
  unfold dropEligible at h
  split at h
  · cases h
  · rename_i hne
    cases h
    simp only [Bool.or_eq_true, decide_eq_true_eq, not_or, Bool.not_eq_true] at hne
    have hlt := length_dropLast_lt hne.1
    refine ⟨{ Below.refl d with
      eligible := List.dropLast_prefix _
      eligible_kept := fun hle => absurd hle hne.2 }, ?_⟩
    simp only [weight]
    omega

theorem Turn.flagged (h : d.Turn d') :
    d.Turn { d' with truncated := { d'.truncated with budget := true } } :=
  ⟨{ h.below with }, h.weight⟩

theorem shrink_spec (h : d.shrink = some d') : d.Turn d' := by
  obtain ⟨e, he, rfl⟩ := Option.map_eq_some_iff.mp h
  refine Turn.flagged ?_
  simp only [Option.orElse_eq_orElse, Option.orElse_eq_or, Option.or_eq_some_iff] at he
  rcases he with he | ⟨-, he | ⟨-, he | ⟨-, he | ⟨-, he | ⟨-, he | ⟨-, he | ⟨-, he | ⟨-, he⟩⟩⟩⟩⟩⟩⟩⟩
  · exact dropCandidate_turn he
  · exact dropAsset_turn he
  · exact dropRelationship_turn he
  · exact dropAlarm_turn he
  · exact dropTag_turn he
  · exact dropRole_turn he
  · exact dropAliases_turn he
  · exact dropTerm_turn he
  · exact dropEligible_turn he

theorem shrinkOrThrow_eq_ok : d.shrinkOrThrow = .ok d' ↔ d.shrink = some d' := by
  unfold shrinkOrThrow
  cases d.shrink <;> simp

end Draft

/-! ### The loop -/

variable [Platform] {index : ModelIndex} {limits : RetrievalLimits}

/-- **The loop takes turns until the context fits**: what it returns is below what it started from,
and its serialization is within the budget. -/
theorem fitBudget_eq_ok {d d' : Draft} (h : fitBudget index limits d = .ok d') :
    d'.Below d ∧ withinBudget (d'.render index limits) limits = .ok true := by
  have hturn : ∀ s s', budgetExceeded index limits s = .ok true → s.shrinkOrThrow = .ok s' →
      s'.weight < s.weight :=
    fun s s' _ hs => (Draft.shrink_spec (Draft.shrinkOrThrow_eq_ok.mp hs)).weight
  obtain ⟨hbelow, hstop⟩ := whileLoop_rule (P := fun s => s.Below d) hturn
    (fun s s' hP _ hs => (Draft.shrink_spec (Draft.shrinkOrThrow_eq_ok.mp hs)).below.trans hP)
    (Draft.Below.refl d) h
  obtain ⟨within, hwithin, hnot⟩ := map_eq_ok.mp hstop
  rw [Bool.not_eq_false'] at hnot
  exact ⟨hbelow, hnot ▸ hwithin⟩

theorem fitBudget_eq (d : Draft) :
    fitBudget index limits d = do
      let exceeded ← budgetExceeded index limits d
      if exceeded then d.shrinkOrThrow >>= fitBudget index limits else return d :=
  whileLoop_eq (fun _ _ _ hs => (Draft.shrink_spec (Draft.shrinkOrThrow_eq_ok.mp hs)).weight) d

/-- The draft a request starts from. -/
def requestDraft (index : ModelIndex) (prompt : Bytes) (limits : RetrievalLimits) : Draft :=
  draftOf index (termsFor prompt) (hasScopePhrase prompt) limits

/-- **A retrieved context** is a draft below the one its request starts from. -/
theorem retrieve_eq_ok {model retrieved : Json} {prompt : Bytes}
    (h : retrieve model prompt limits = .ok retrieved) :
    ∃ (index : ModelIndex) (d : Draft), indexModel model = .ok index ∧
      checkPrompt prompt = .ok () ∧ checkLimits limits = .ok () ∧ d.Below (requestDraft index prompt limits) ∧
      retrieved = d.render index limits := by
  simp only [retrieve, retrieveTerms, bind_eq_ok, pure_eq_ok] at h
  obtain ⟨index, hindex, _, hprompt, _, hlimits, d, hfit, rfl⟩ := h
  exact ⟨index, d, hindex, hprompt, hlimits, (fitBudget_eq_ok hfit).1, rfl⟩

/-- A retrieved context can be serialized: the budget was measured on it. -/
theorem retrieve_dump {model retrieved : Json} {prompt : Bytes}
    (h : retrieve model prompt limits = .ok retrieved) : ∃ text, retrieved.dump = .ok text := by
  simp only [retrieve, retrieveTerms, bind_eq_ok, pure_eq_ok] at h
  obtain ⟨index, hindex, _, hprompt, _, hlimits, d, hfit, rfl⟩ := h
  have hwithin := (fitBudget_eq_ok hfit).2
  rw [withinBudget, bind_eq_ok] at hwithin
  obtain ⟨text, htext, -⟩ := hwithin
  exact ⟨text, htext⟩

end ContextHmi.Retrieval
