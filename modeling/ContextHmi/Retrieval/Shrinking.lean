import ContextHmi.Json.Length
import ContextHmi.Retrieval.Hints

/-!
# The budget loop as a descent

No turn of the loop makes the serialized context longer, so a context that fits stays one that fits.
Before the loop takes a requested role away it has taken everything else but terms and eligible
assets, and before it takes an eligible asset away it has taken everything else. Where that leads is
decided by the draft it started from.

* `Draft.shrink_leaner`  : a turn does not make the context longer;
* `Draft.leads_bare`     : the draft the loop is at before it takes a role away;
* `Draft.leads_stripped` : the draft the loop is at before it takes an eligible asset away.
-/

namespace ContextHmi.Retrieval

open Outcome

/-! ### Shorter contexts -/

/-- Every flag that is raised in the one is raised in the other. -/
structure Raises (t' t : Truncated) : Prop where
  candidates : t.candidates = true → t'.candidates = true
  assets : t.assets = true → t'.assets = true
  relationships : t.relationships = true → t'.relationships = true
  tags : t.tags = true → t'.tags = true
  alarms : t.alarms = true → t'.alarms = true
  measurementRoles : t.measurementRoles = true → t'.measurementRoles = true
  budget : t.budget = true → t'.budget = true

theorem Raises.refl (t : Truncated) : Raises t t := ⟨id, id, id, id, id, id, id⟩

/-- The same asset, with its aliases or without. -/
def SameOrBare (asset' asset : Asset) : Prop :=
  asset' = asset ∨ asset' = { asset with aliases := none }

/-- A draft of which the context is no longer. -/
structure Draft.Leaner (d' d : Draft) : Prop where
  below : d'.Below d
  assets : d'.assets.SublistForall₂ SameOrBare d.assets
  flags : Raises d'.truncated d.truncated

theorem sublistForall₂_of_sublist {l' l : List Asset} (h : l'.Sublist l) :
    l'.SublistForall₂ SameOrBare l := by
  have : Std.Refl SameOrBare := ⟨fun _ => .inl rfl⟩
  exact h.sublistForall₂

theorem Draft.Leaner.refl (d : Draft) : d.Leaner d :=
  ⟨.refl d, sublistForall₂_of_sublist (.refl _), .refl _⟩

theorem eraseAliases_sameOrBare {l l' : List Asset} (h : eraseAliases l = some l') :
    l'.SublistForall₂ SameOrBare l := by
  induction l generalizing l' with
  | nil => cases h
  | cons asset l ih =>
    unfold eraseAliases at h
    split at h
    · cases h
      exact .cons (.inr rfl) (sublistForall₂_of_sublist (.refl l))
    · obtain ⟨rest, hrest, rfl⟩ := Option.map_eq_some_iff.mp h
      exact .cons (.inl rfl) (ih hrest)

section
variable [Platform]

theorem shorter_compactAsset {asset' asset : Asset} (h : SameOrBare asset' asset) :
    (compactAsset asset').Shorter (compactAsset asset) := by
  rcases h with rfl | rfl
  · exact .refl _
  · cases haliases : asset.aliases with
    | none =>
      have hsame : { asset with aliases := none } = asset := by rw [← haliases]
      rw [hsame]
      exact .refl _
    | some names =>
      have hbare : compactAsset { asset with aliases := none } =
          .obj [("id", .str asset.id), ("kind", .str asset.kind), ("name", .str asset.name)] := rfl
      have hfull : compactAsset asset = .obj [("aliases", Json.strings names),
          ("id", .str asset.id), ("kind", .str asset.kind), ("name", .str asset.name)] := by
        rw [compactAsset, haliases]
        rfl
      rw [hbare, hfull]
      have : Std.Refl Json.ShorterField := ⟨fun _ => ⟨rfl, .refl _⟩⟩
      exact Json.shorter_obj (List.sublist_cons_self _ _).sublistForall₂

theorem shorter_truncated {t' t : Truncated} (h : Raises t' t) : t'.toJson.Shorter t.toJson := by
  refine Json.shorter_object ?_
  exact .cons ⟨rfl, Json.shorter_bool h.candidates⟩ <| .cons ⟨rfl, Json.shorter_bool h.assets⟩ <|
    .cons ⟨rfl, Json.shorter_bool h.relationships⟩ <| .cons ⟨rfl, Json.shorter_bool h.tags⟩ <|
    .cons ⟨rfl, Json.shorter_bool h.alarms⟩ <| .cons ⟨rfl, Json.shorter_bool h.measurementRoles⟩ <|
    .cons ⟨rfl, Json.shorter_bool h.budget⟩ <| .cons ⟨rfl, Json.shorter_bool h.budget⟩ .nil

/-- **A leaner draft has a context that is no longer.** -/
theorem Draft.Leaner.shorter {d' d : Draft} (h : d'.Leaner d) (index : ModelIndex)
    (limits : RetrievalLimits) : (d'.render index limits).Shorter (d.render index limits) := by
  have hclarification : d.requiresClarification = true → d'.requiresClarification = true :=
    h.below.clarification_kept
  have hscope : (Json.object [("assets", .arr (d'.assets.map compactAsset)),
      ("relationships", .arr d'.relationships), ("tags", .arr d'.tags),
      ("alarms", .arr d'.alarms)]).Shorter (Json.object
      [("assets", .arr (d.assets.map compactAsset)), ("relationships", .arr d.relationships),
        ("tags", .arr d.tags), ("alarms", .arr d.alarms)]) := by
    have hassets : (d'.assets.map compactAsset).SublistForall₂ Json.Shorter
        (d.assets.map compactAsset) := by
      rw [List.sublistForall₂_map_left_iff, List.sublistForall₂_map_right_iff]
      obtain ⟨l, hl, hsub⟩ := List.sublistForall₂_iff.mp h.assets
      exact List.sublistForall₂_iff.mpr ⟨l, hl.imp fun _ _ => shorter_compactAsset, hsub⟩
    exact Json.shorter_object <| .cons ⟨rfl, Json.shorter_arr hassets⟩ <|
      .cons ⟨rfl, Json.shorter_arr_of_sublist h.below.relationships.sublist⟩ <|
      .cons ⟨rfl, Json.shorter_arr_of_sublist h.below.tags.sublist⟩ <|
      .cons ⟨rfl, Json.shorter_arr_of_sublist h.below.alarms.sublist⟩ .nil
  unfold Draft.render
  rw [h.below.taskHints, h.below.requestedRoles, h.below.specific, h.below.eligibleCount]
  refine Json.shorter_object ?_
  refine .cons ⟨rfl, .refl _⟩ (.cons ⟨rfl, .refl _⟩ (.cons ⟨rfl, .refl _⟩ ?_))
  refine .cons ⟨rfl, Json.shorter_strings h.below.promptTerms.sublist⟩ (.cons ⟨rfl, .refl _⟩ ?_)
  refine .cons ⟨rfl, Json.shorter_strings h.below.roleHints.sublist⟩ (.cons ⟨rfl, .refl _⟩ ?_)
  refine .cons ⟨rfl, .refl _⟩ (.cons ⟨rfl, Json.shorter_bool hclarification⟩ ?_)
  refine .cons ⟨rfl, Json.shorter_strings h.below.eligible.sublist⟩ (.cons ⟨rfl, .refl _⟩ ?_)
  refine .cons ⟨rfl, Json.shorter_arr_of_sublist (h.below.candidates.map _)⟩ ?_
  refine .cons ⟨rfl, hscope⟩ (.cons ⟨rfl, .refl _⟩ ?_)
  exact .cons ⟨rfl, shorter_truncated h.flags⟩ .nil

end

/-! ### What a turn takes -/

namespace Draft

variable {d d' : Draft}

/-- Something of the context that no one asked for. -/
inductive TakesContext (d : Draft) : Draft → Prop where
  | candidate {l : List Listed} : removeLast (fun item => !item.eligible) d.candidates = some l →
      TakesContext d { d with
        candidates := l
        truncated := { d.truncated with candidates := true } }
  | asset {l : List Asset} :
      removeLast (fun asset => !d.eligible.contains asset.id) d.assets = some l →
      TakesContext d { d with
        assets := l
        truncated := { d.truncated with assets := true } }
  | relationship : d.relationships.isEmpty = false →
      TakesContext d { d with
        relationships := d.relationships.dropLast
        truncated := { d.truncated with relationships := true } }
  | alarm : d.alarms.isEmpty = false →
      TakesContext d { d with
        alarms := d.alarms.dropLast
        truncated := { d.truncated with alarms := true } }
  | tag : d.roleHints.length < d.tags.length →
      TakesContext d { d with
        tags := d.tags.dropLast
        truncated := { d.truncated with tags := true } }

/-- A role, the aliases of an asset, or a term. -/
inductive TakesRest (d : Draft) : Draft → Prop where
  | role : d.roleHints.isEmpty = false →
      TakesRest d { d with
        roleHints := d.roleHints.dropLast
        requiresClarification := true
        truncated := { d.truncated with measurementRoles := true } }
  | aliases {l : List Asset} : eraseAliases d.assets = some l →
      TakesRest d { d with
        assets := l
        truncated := { d.truncated with assets := true } }
  | term : d.promptTerms.isEmpty = false →
      TakesRest d { d with promptTerms := d.promptTerms.dropLast }

/-- The turn is marked. -/
def flagged (d : Draft) : Draft := { d with truncated := { d.truncated with budget := true } }

def dropContext (d : Draft) : Option Draft :=
  d.dropCandidate <|> d.dropAsset <|> d.dropRelationship <|> d.dropAlarm <|> d.dropTag

def dropRest (d : Draft) : Option Draft := d.dropRole <|> d.dropAliases <|> d.dropTerm

theorem shrink_eq (d : Draft) :
    d.shrink = (d.dropContext <|> d.dropRest <|> d.dropEligible).map flagged := by
  simp only [shrink, dropContext, dropRest, Option.orElse_eq_orElse, Option.orElse_eq_or,
    Option.or_assoc]
  rfl

theorem dropContext_takes (h : d.dropContext = some d') : d.TakesContext d' := by
  simp only [dropContext, Option.orElse_eq_orElse, Option.orElse_eq_or, Option.or_eq_some_iff] at h
  rcases h with h | ⟨-, h | ⟨-, h | ⟨-, h | ⟨-, h⟩⟩⟩⟩
  · obtain ⟨l, hl, rfl⟩ := Option.map_eq_some_iff.mp h
    exact .candidate hl
  · obtain ⟨l, hl, rfl⟩ := Option.map_eq_some_iff.mp h
    exact .asset hl
  · obtain ⟨hne, hd⟩ := Option.ite_none_left_eq_some.mp h
    cases hd
    exact .relationship (Bool.eq_false_iff.mpr hne)
  · obtain ⟨hne, hd⟩ := Option.ite_none_left_eq_some.mp h
    cases hd
    exact .alarm (Bool.eq_false_iff.mpr hne)
  · obtain ⟨hlt, hd⟩ := Option.ite_none_right_eq_some.mp h
    cases hd
    exact .tag hlt

theorem dropRest_takes (h : d.dropRest = some d') : d.TakesRest d' := by
  simp only [dropRest, Option.orElse_eq_orElse, Option.orElse_eq_or, Option.or_eq_some_iff] at h
  rcases h with h | ⟨-, h | ⟨-, h⟩⟩
  · obtain ⟨hne, hd⟩ := Option.ite_none_left_eq_some.mp h
    cases hd
    exact .role (Bool.eq_false_iff.mpr hne)
  · obtain ⟨l, hl, rfl⟩ := Option.map_eq_some_iff.mp h
    exact .aliases hl
  · obtain ⟨hne, hd⟩ := Option.ite_none_left_eq_some.mp h
    cases hd
    exact .term (Bool.eq_false_iff.mpr hne)

/-- **What a turn takes**: context, then what was asked for, then eligible assets. -/
theorem shrink_cases (h : d.shrink = some d') : ∃ e, d' = e.flagged ∧
    (d.TakesContext e ∨ d.TakesRest e ∨ e = { d with eligible := d.eligible.dropLast }) := by
  rw [shrink_eq] at h
  obtain ⟨e, he, rfl⟩ := Option.map_eq_some_iff.mp h
  refine ⟨e, rfl, ?_⟩
  simp only [Option.orElse_eq_orElse, Option.orElse_eq_or, Option.or_eq_some_iff] at he
  rcases he with he | ⟨-, he | ⟨-, he⟩⟩
  · exact .inl (dropContext_takes he)
  · exact .inr (.inl (dropRest_takes he))
  · exact .inr (.inr (Option.some.inj (Option.ite_none_left_eq_some.mp he).2).symm)

theorem TakesContext.raises (h : d.TakesContext d') : Raises d'.truncated d.truncated := by
  cases h with
  | candidate => exact { Raises.refl d.truncated with candidates := fun _ => rfl }
  | asset => exact { Raises.refl d.truncated with assets := fun _ => rfl }
  | relationship => exact { Raises.refl d.truncated with relationships := fun _ => rfl }
  | alarm => exact { Raises.refl d.truncated with alarms := fun _ => rfl }
  | tag => exact { Raises.refl d.truncated with tags := fun _ => rfl }

theorem TakesRest.raises (h : d.TakesRest d') : Raises d'.truncated d.truncated := by
  cases h with
  | role => exact { Raises.refl d.truncated with measurementRoles := fun _ => rfl }
  | aliases => exact { Raises.refl d.truncated with assets := fun _ => rfl }
  | term => exact Raises.refl d.truncated

theorem flagged_raises {t : Truncated} (h : Raises d.truncated t) : Raises d.flagged.truncated t :=
  { h with budget := fun _ => rfl }

/-- **A turn does not make the context longer.** -/
theorem shrink_leaner (h : d.shrink = some d') : d'.Leaner d := by
  refine ⟨(shrink_spec h).below, ?_, ?_⟩
  · have hsame := sublistForall₂_of_sublist (.refl d.assets)
    obtain ⟨e, rfl, hcontext | hrest | rfl⟩ := shrink_cases h
    · cases hcontext with
      | asset hl =>
        obtain ⟨_, hsub, -⟩ := removeLast_eq_some hl
        exact sublistForall₂_of_sublist hsub
      | candidate | relationship | alarm | tag => exact hsame
    · cases hrest with
      | aliases hl => exact eraseAliases_sameOrBare hl
      | role | term => exact hsame
    · exact hsame
  · obtain ⟨e, rfl, hcontext | hrest | rfl⟩ := shrink_cases h
    · exact flagged_raises hcontext.raises
    · exact flagged_raises hrest.raises
    · exact flagged_raises (Raises.refl d.truncated)

end Draft

section
variable [Platform] (index : ModelIndex) (limits : RetrievalLimits)

/-- **A context that fits keeps fitting.** -/
theorem antitone_budget : Antitone (budgetExceeded index limits) Draft.shrinkOrThrow := by
  intro d d' b hturn hb
  have hleaner := Draft.shrink_leaner (Draft.shrinkOrThrow_eq_ok.mp hturn)
  simp only [budgetExceeded, withinBudget, map_eq_ok, bind_eq_ok, pure_eq_ok] at hb ⊢
  obtain ⟨_, ⟨t, ht, rfl⟩, rfl⟩ := hb
  obtain ⟨t', ht', hle⟩ := hleaner.shorter index limits t ht
  refine ⟨_, ⟨_, ⟨t', ht', rfl⟩, rfl⟩, ?_⟩
  have htokens : estimatedTokens t'.length ≤ estimatedTokens t.length :=
    Nat.div_le_div_right (Nat.add_le_add_right hle 3)
  simp only [Bool.not_eq_true', Bool.and_eq_false_iff, decide_eq_false_iff_not, not_le]
  intro hexceeded
  rcases hexceeded with hbytes | hcount
  · exact .inl (hbytes.trans_le hle)
  · exact .inr (hcount.trans_le htokens)

omit [Platform] in
theorem leads_below {d d' : Draft} (h : Leads Draft.shrinkOrThrow d d') : d'.Below d :=
  h.invariant (P := fun e => e.Below d)
    (fun _ _ he hturn => (Draft.shrink_spec (Draft.shrinkOrThrow_eq_ok.mp hturn)).below.trans he)
    (.refl d)

/-- **The loop and a draft its turns lead to.** -/
theorem fitBudget_skip {d t : Draft} (h : Leads Draft.shrinkOrThrow d t) {b : Bool}
    (hb : budgetExceeded index limits d = .ok b) :
    (budgetExceeded index limits t = .ok true ∧
      fitBudget index limits d = fitBudget index limits t) ∨
    (budgetExceeded index limits t = .ok false ∧ ∃ u, Leads Draft.shrinkOrThrow d u ∧
      Leads Draft.shrinkOrThrow u t ∧ fitBudget index limits d = .ok u) :=
  whileLoop_skip (antitone_budget index limits)
    (fun _ _ _ hs => (Draft.shrink_spec (Draft.shrinkOrThrow_eq_ok.mp hs)).weight) h hb

end

/-! ### The draft before a role is taken away -/

theorem removeLast_eq_none {α : Type} {p : α → Bool} {l : List α} :
    removeLast p l = none ↔ ∀ a ∈ l, p a = false := by
  induction l with
  | nil => exact iff_of_true rfl (List.forall_mem_nil _)
  | cons a l ih =>
    rw [List.forall_mem_cons, ← ih, removeLast]
    cases hl : removeLast p l with
    | some l' => simp
    | none => simp

theorem filter_removeLast {α : Type} {p : α → Bool} {l l' : List α} (h : removeLast p l = some l') :
    (l'.filter fun a => !p a) = l.filter fun a => !p a := by
  induction l generalizing l' with
  | nil => cases h
  | cons a l ih =>
    unfold removeLast at h
    cases hl : removeLast p l with
    | some rest =>
      simp only [hl, Option.some.injEq] at h
      subst h
      rw [List.filter_cons, List.filter_cons, ih hl]
    | none =>
      simp only [hl, Option.ite_none_right_eq_some, Option.some.injEq] at h
      obtain ⟨hpa, rfl⟩ := h
      simp [hpa]

theorem any_of_removeLast {α : Type} {p : α → Bool} {l l' : List α} (h : removeLast p l = some l') :
    l.any p = true := by
  obtain ⟨a, -, -, ha, hpa, -⟩ := removeLast_eq_some h
  exact List.any_eq_true.mpr ⟨a, ha, hpa⟩

namespace Draft

variable {d d' : Draft}

/-- The draft with nothing in it that was not asked for. -/
def bare (d : Draft) : Draft :=
  { d with
    candidates := d.candidates.filter (·.eligible)
    assets := d.assets.filter fun asset => d.eligible.contains asset.id
    relationships := []
    alarms := []
    tags := d.tags.take d.roleHints.length
    truncated := {
      candidates := d.truncated.candidates || d.candidates.any (!·.eligible)
      assets := d.truncated.assets || d.assets.any fun asset => !d.eligible.contains asset.id
      relationships := d.truncated.relationships || !d.relationships.isEmpty
      tags := d.truncated.tags || decide (d.roleHints.length < d.tags.length)
      alarms := d.truncated.alarms || !d.alarms.isEmpty
      measurementRoles := d.truncated.measurementRoles
      budget := true } }

theorem take_dropLast {α : Type} {l : List α} {n : Nat} (h : n < l.length) :
    l.dropLast.take n = l.take n := by
  rw [List.dropLast_eq_take, List.take_take, min_eq_left (by omega)]

theorem TakesContext.bare (h : d.TakesContext d') : d'.flagged.bare = d.bare := by
  cases h with
  | candidate hl =>
    have hfilter := filter_removeLast hl
    simp only [Bool.not_not] at hfilter
    simp only [Draft.bare, flagged, hfilter, any_of_removeLast hl, Bool.true_or, Bool.or_true]
    rfl
  | asset hl =>
    have hfilter := filter_removeLast hl
    simp only [Bool.not_not] at hfilter
    simp only [Draft.bare, flagged, hfilter, any_of_removeLast hl, Bool.true_or, Bool.or_true]
    rfl
  | relationship hne =>
    simp only [Draft.bare, flagged, hne, Bool.not_false, Bool.true_or, Bool.or_true]
    rfl
  | alarm hne =>
    simp only [Draft.bare, flagged, hne, Bool.not_false, Bool.true_or, Bool.or_true]
    rfl
  | tag hlt =>
    simp only [Draft.bare, flagged, take_dropLast hlt, hlt, decide_true, Bool.true_or, Bool.or_true]

theorem filter_eq_self_of_removeLast {α : Type} {p : α → Bool} {l : List α}
    (h : removeLast p l = none) : (l.filter fun a => !p a) = l := by
  refine List.filter_eq_self.mpr fun a ha => ?_
  rw [removeLast_eq_none.mp h a ha]
  rfl

theorem any_eq_false_of_removeLast {α : Type} {p : α → Bool} {l : List α}
    (h : removeLast p l = none) : l.any p = false :=
  List.any_eq_false.mpr fun a ha => Bool.eq_false_iff.mp (removeLast_eq_none.mp h a ha)

theorem bare_of_dropContext (h : d.dropContext = none) : d.bare = d.flagged := by
  simp only [dropContext, Option.orElse_eq_orElse, Option.orElse_eq_or, Option.or_eq_none_iff,
    dropCandidate, dropAsset, dropRelationship, dropAlarm, dropTag, Option.map_eq_none_iff,
    ite_eq_left_iff, ite_eq_right_iff, reduceCtorEq, imp_false, not_not, not_lt,
    List.isEmpty_iff] at h
  obtain ⟨hcandidates, hassets, hrelationships, halarms, htags⟩ := h
  have hkeepCandidates := filter_eq_self_of_removeLast hcandidates
  have hkeepAssets := filter_eq_self_of_removeLast hassets
  simp only [Bool.not_not] at hkeepCandidates hkeepAssets
  simp only [bare, flagged, hkeepCandidates, hkeepAssets, any_eq_false_of_removeLast hcandidates,
    any_eq_false_of_removeLast hassets, hrelationships, halarms, List.take_of_length_le htags,
    decide_eq_false (Nat.not_lt.mpr htags), List.isEmpty_nil, Bool.not_true, Bool.or_false]

theorem leads_of_turns (drop : Draft → Option Draft) (goal : Draft → Draft)
    (hshrink : ∀ d d', drop d = some d' → d.shrink = some d'.flagged)
    (hgoal : ∀ d d', drop d = some d' → goal d'.flagged = goal d)
    (hdone : ∀ d, drop d = none → goal d = d.flagged) {d : Draft}
    (hd : d.truncated.budget = true ∨ (drop d).isSome) : Leads shrinkOrThrow d (goal d) := by
  induction hw : d.weight using Nat.strong_induction_on generalizing d with
  | _ w ih =>
    subst hw
    cases hdrop : drop d with
    | none =>
      rcases hd with hflag | hsome
      · have hsame : d.flagged = d := by
          unfold flagged
          rw [← hflag]
        rw [hdone d hdrop, hsame]
        exact .stay d
      · rw [hdrop] at hsome
        cases hsome
    | some d' =>
      have hturn := hshrink d d' hdrop
      have hrest := ih d'.flagged.weight (shrink_spec hturn).weight (.inl rfl) rfl
      rw [hgoal d d' hdrop] at hrest
      exact .turn (shrinkOrThrow_eq_ok.mpr hturn) hrest

/-- **The loop takes all the context** before it takes anything that was asked for. -/
theorem leads_bare (h : d.truncated.budget = true ∨ d.dropContext.isSome) :
    Leads shrinkOrThrow d d.bare := by
  refine leads_of_turns dropContext bare ?_ ?_ ?_ h
  · intro d d' hdrop
    rw [shrink_eq, hdrop]
    rfl
  · exact fun d d' hdrop => (dropContext_takes hdrop).bare
  · exact fun d hdrop => bare_of_dropContext hdrop

theorem dropContext_bare (d : Draft) : d.bare.dropContext = none := by
  have hcandidates : d.bare.dropCandidate = none := by
    rw [dropCandidate, Option.map_eq_none_iff, removeLast_eq_none]
    intro item hitem
    rw [(List.mem_filter.mp hitem).2]
    rfl
  have hassets : d.bare.dropAsset = none := by
    rw [dropAsset, Option.map_eq_none_iff, removeLast_eq_none]
    intro asset hasset
    show (!d.eligible.contains asset.id) = false
    rw [(List.mem_filter.mp hasset).2]
    rfl
  have htags : d.bare.dropTag = none := if_neg (Nat.not_lt.mpr (List.length_take_le _ _))
  have hrelationships : d.bare.dropRelationship = none := rfl
  have halarms : d.bare.dropAlarm = none := rfl
  rw [dropContext, hcandidates, hassets, hrelationships, halarms, htags]
  rfl

/-! ### The draft before an eligible asset is taken away -/

/-- The draft with nothing in it but its eligible assets. -/
def stripped (d : Draft) : Draft :=
  { d with
    promptTerms := []
    roleHints := []
    requiresClarification := d.requiresClarification || !d.roleHints.isEmpty
    candidates := d.candidates.filter (·.eligible)
    assets := (d.assets.filter fun asset => d.eligible.contains asset.id).map fun asset =>
      { asset with aliases := none }
    relationships := []
    tags := []
    alarms := []
    truncated := {
      candidates := d.truncated.candidates || d.candidates.any (!·.eligible)
      assets := d.truncated.assets || (d.assets.any fun asset => !d.eligible.contains asset.id) ||
        d.assets.any (·.aliases.isSome)
      relationships := d.truncated.relationships || !d.relationships.isEmpty
      tags := d.truncated.tags || !d.tags.isEmpty
      alarms := d.truncated.alarms || !d.alarms.isEmpty
      measurementRoles := d.truncated.measurementRoles || !d.roleHints.isEmpty
      budget := true } }

theorem TakesContext.stripped (h : d.TakesContext d') : d'.flagged.stripped = d.stripped := by
  cases h with
  | candidate hl =>
    have hfilter := filter_removeLast hl
    simp only [Bool.not_not] at hfilter
    simp only [Draft.stripped, flagged, hfilter, any_of_removeLast hl, Bool.true_or, Bool.or_true]
  | asset hl =>
    have hfilter := filter_removeLast hl
    simp only [Bool.not_not] at hfilter
    simp only [Draft.stripped, flagged, hfilter, any_of_removeLast hl, Bool.true_or, Bool.or_true]
  | relationship hne =>
    simp only [Draft.stripped, flagged, hne, Bool.not_false, Bool.true_or, Bool.or_true]
  | alarm hne =>
    simp only [Draft.stripped, flagged, hne, Bool.not_false, Bool.true_or, Bool.or_true]
  | tag hlt =>
    have hne : d.tags.isEmpty = false := by
      cases htags : d.tags with
      | nil => simp [htags] at hlt
      | cons tag tags => rfl
    simp only [Draft.stripped, flagged, hne, Bool.not_false, Bool.true_or, Bool.or_true]

theorem map_eraseAliases {p : Bytes → Bool} {l l' : List Asset} (h : eraseAliases l = some l') :
    (l'.filter fun asset => p asset.id).map (fun asset => { asset with aliases := none }) =
      (l.filter fun asset => p asset.id).map fun asset => { asset with aliases := none } := by
  induction l generalizing l' with
  | nil => cases h
  | cons asset l ih =>
    unfold eraseAliases at h
    split at h
    · cases h
      cases hp : p asset.id
      · simp [hp]
      · simp [hp]
    · obtain ⟨rest, hrest, rfl⟩ := Option.map_eq_some_iff.mp h
      cases hp : p asset.id
      · simp [hp, ih hrest]
      · simp [hp, ih hrest]

theorem any_of_eraseAliases {l l' : List Asset} (h : eraseAliases l = some l') :
    l.any (·.aliases.isSome) = true := by
  obtain ⟨-, hlength⟩ := eraseAliases_eq_some h
  obtain ⟨asset, hasset⟩ := List.exists_mem_of_length_pos
    (l := l.filter (·.aliases.isSome)) (by omega)
  exact List.any_eq_true.mpr ⟨asset, List.mem_filter.mp hasset⟩

theorem TakesRest.stripped (h : d.TakesRest d') : d'.flagged.stripped = d.stripped := by
  cases h with
  | role hne =>
    simp only [Draft.stripped, flagged, hne, Bool.not_false, Bool.true_or, Bool.or_true]
  | aliases hl =>
    simp only [Draft.stripped, flagged, map_eraseAliases hl, any_of_eraseAliases hl, Bool.true_or,
      Bool.or_true]
  | term hne => rfl

theorem eraseAliases_eq_none {l : List Asset} (h : eraseAliases l = none) :
    ∀ asset ∈ l, asset.aliases = none := by
  induction l with
  | nil => exact List.forall_mem_nil _
  | cons asset l ih =>
    unfold eraseAliases at h
    split at h
    · cases h
    · rename_i hnone
      rw [Option.map_eq_none_iff] at h
      exact List.forall_mem_cons.mpr ⟨by simpa using hnone, ih h⟩

/-- What is taken away before an eligible asset. -/
def dropInessential (d : Draft) : Option Draft := d.dropContext <|> d.dropRest

theorem stripped_of_dropInessential (h : d.dropInessential = none) : d.stripped = d.flagged := by
  rw [dropInessential, Option.orElse_eq_orElse, Option.orElse_eq_or, Option.or_eq_none_iff] at h
  obtain ⟨hcontext, hrest⟩ := h
  have hbare := bare_of_dropContext hcontext
  simp only [dropRest, Option.orElse_eq_orElse, Option.orElse_eq_or, Option.or_eq_none_iff,
    dropRole, dropAliases, dropTerm, Option.map_eq_none_iff, ite_eq_left_iff, reduceCtorEq,
    imp_false, not_not, List.isEmpty_iff] at hrest
  obtain ⟨hroles, haliases, hterms⟩ := hrest
  have hcandidates : d.candidates.filter (·.eligible) = d.candidates :=
    congrArg Draft.candidates hbare
  have hassets : (d.assets.filter fun asset => d.eligible.contains asset.id) = d.assets :=
    congrArg Draft.assets hbare
  have hrelationships : [] = d.relationships := congrArg Draft.relationships hbare
  have halarms : [] = d.alarms := congrArg Draft.alarms hbare
  have htags : d.tags.take d.roleHints.length = d.tags := congrArg Draft.tags hbare
  rw [hroles, List.length_nil, List.take_zero] at htags
  have hcandidateFlag : (d.truncated.candidates || d.candidates.any (!·.eligible)) =
      d.truncated.candidates := congrArg (·.truncated.candidates) hbare
  have hassetFlag : (d.truncated.assets || d.assets.any fun asset =>
      !d.eligible.contains asset.id) = d.truncated.assets := congrArg (·.truncated.assets) hbare
  have hnone := eraseAliases_eq_none haliases
  have hsame : (d.assets.map fun asset => { asset with aliases := none }) = d.assets := by
    refine (List.map_congr_left fun asset hasset => ?_).trans (List.map_id d.assets)
    rw [← hnone asset hasset]
    rfl
  have hany : d.assets.any (·.aliases.isSome) = false :=
    List.any_eq_false.mpr fun asset hasset => by simp [hnone asset hasset]
  simp only [stripped, flagged, hcandidates, hassets, hsame, ← hrelationships, ← halarms, ← htags,
    hroles, hterms, hcandidateFlag, hassetFlag, hany, List.isEmpty_nil, Bool.not_true,
    Bool.or_false]

theorem eraseAliases_bare (l : List Asset) :
    eraseAliases (l.map fun asset => { asset with aliases := none }) = none := by
  induction l with
  | nil => rfl
  | cons asset l ih => simp [eraseAliases, ih]

theorem dropInessential_stripped (d : Draft) : d.stripped.dropInessential = none := by
  have hcandidates : d.stripped.dropCandidate = none := by
    rw [dropCandidate, Option.map_eq_none_iff, removeLast_eq_none]
    intro item hitem
    rw [(List.mem_filter.mp hitem).2]
    rfl
  have hassets : d.stripped.dropAsset = none := by
    rw [dropAsset, Option.map_eq_none_iff, removeLast_eq_none]
    intro asset hasset
    obtain ⟨kept, hkept, rfl⟩ := List.mem_map.mp hasset
    show (!d.eligible.contains kept.id) = false
    rw [(List.mem_filter.mp hkept).2]
    rfl
  have hcontext : d.stripped.dropContext = none := by
    have hrelationships : d.stripped.dropRelationship = none := rfl
    have halarms : d.stripped.dropAlarm = none := rfl
    have htags : d.stripped.dropTag = none := rfl
    rw [dropContext, hcandidates, hassets, hrelationships, halarms, htags]
    rfl
  have hroles : d.stripped.dropRole = none := rfl
  have haliases : d.stripped.dropAliases = none := by
    rw [dropAliases, Option.map_eq_none_iff]
    exact eraseAliases_bare _
  have hterms : d.stripped.dropTerm = none := rfl
  rw [dropInessential, hcontext, dropRest, hroles, haliases, hterms]
  rfl

/-- **The loop takes everything else** before it takes an eligible asset. -/
theorem leads_stripped (h : d.truncated.budget = true ∨ d.dropInessential.isSome) :
    Leads shrinkOrThrow d d.stripped := by
  refine leads_of_turns dropInessential stripped ?_ ?_ ?_ h
  · intro d d' hdrop
    rw [dropInessential, Option.orElse_eq_orElse, Option.orElse_eq_or] at hdrop
    simp only [shrink_eq, Option.orElse_eq_orElse, Option.orElse_eq_or, ← Option.or_assoc, hdrop]
    rfl
  · intro d d' hdrop
    rw [dropInessential, Option.orElse_eq_orElse, Option.orElse_eq_or, Option.or_eq_some_iff] at hdrop
    rcases hdrop with hcontext | ⟨-, hrest⟩
    · exact (dropContext_takes hcontext).stripped
    · exact (dropRest_takes hrest).stripped
  · exact fun d hdrop => stripped_of_dropInessential hdrop

end Draft

end ContextHmi.Retrieval
