import ContextHmi.Engine.Validation
import ContextHmi.Retrieval.Retrieve

/-!
# What a context gives away

A retrieved context goes to a provider. It is a function of the visible part of the model: source
addresses, alarm operators and thresholds, metadata and the descriptive members of the model decide
nothing in it, not even how much of it the budget loop leaves.

* `draftOf_redact`             : the first draft of a model without its hidden parts is the same;
* `redact_eq_of_visible`       : documents with one visible part have one index but for hidden parts;
* `retrieve_noninterference`   : and one context for every request.
-/

namespace ContextHmi

/-! ### Hidden parts of an index -/

def Tag.redact (tag : Tag) : Tag := { tag with source := ⟨[], [], []⟩ }

def Alarm.redact (alarm : Alarm) : Alarm := { alarm with operator := [], threshold := .null }

/-- The index without source addresses, operators and thresholds. -/
def ModelIndex.redact (index : ModelIndex) : ModelIndex :=
  { index with tags := index.tags.map Tag.redact, alarms := index.alarms.map Alarm.redact }

namespace Retrieval

open Outcome

section
variable {promptTerms : List Bytes}

theorem measurementRoleHints_redact (tags : List Tag) :
    measurementRoleHints (tags.map Tag.redact) promptTerms =
      measurementRoleHints tags promptTerms := by
  rw [measurementRoleHints, measurementRoleHints, List.filter_map, List.map_map]
  rfl

theorem leadTag_redact (tags ordered : List Tag) (role : Bytes) :
    leadTag (tags.map Tag.redact) (ordered.map Tag.redact) role =
      (leadTag tags ordered role).map Tag.redact := by
  have htest : ((fun tag : Tag => tag.role = role && !(ordered.map Tag.redact).any (·.id = tag.id)) ∘
      Tag.redact) = fun tag => tag.role = role && !ordered.any (·.id = tag.id) := by
    funext tag
    simp only [Function.comp_apply, List.any_map]
    rfl
  rw [leadTag, leadTag, List.find?_map, htest]
  cases tags.find? _ <;> simp

theorem pushTag_redact (ordered : List Tag) (tag : Tag) :
    pushTag (ordered.map Tag.redact) tag.redact = (pushTag ordered tag).map Tag.redact := by
  have htest : (ordered.map Tag.redact).any (fun t => t.id = tag.redact.id) =
      ordered.any (fun t => t.id = tag.id) := by
    rw [List.any_map]
    rfl
  rw [pushTag, pushTag, htest]
  split <;> simp

theorem orderedTags_redact (tags : List Tag) (roles : List Bytes) :
    orderedTags (tags.map Tag.redact) roles = (orderedTags tags roles).map Tag.redact := by
  have hlead : ∀ ordered : List Tag, roles.foldl (leadTag (tags.map Tag.redact))
      (ordered.map Tag.redact) = (roles.foldl (leadTag tags) ordered).map Tag.redact := by
    induction roles with
    | nil => exact fun _ => rfl
    | cons role roles ih =>
      intro ordered
      rw [List.foldl_cons, List.foldl_cons, leadTag_redact, ih]
  have hpush : ∀ rest ordered : List Tag, (rest.map Tag.redact).foldl pushTag
      (ordered.map Tag.redact) = (rest.foldl pushTag ordered).map Tag.redact := by
    intro rest
    induction rest with
    | nil => exact fun _ => rfl
    | cons tag rest ih =>
      intro ordered
      rw [List.map_cons, List.foldl_cons, List.foldl_cons, pushTag_redact, ih]
  rw [orderedTags, orderedTags, ← hpush, ← hlead]
  rfl

theorem filter_redact_tags (tags : List Tag) (owners : List Bytes) :
    (tags.map Tag.redact).filter (fun tag => owners.contains tag.assetId) =
      (tags.filter fun tag => owners.contains tag.assetId).map Tag.redact := by
  rw [List.filter_map]
  rfl

theorem filter_redact_alarms (alarms : List Alarm) (owners : List Bytes) :
    (alarms.map Alarm.redact).filter (fun alarm => owners.contains alarm.assetId) =
      (alarms.filter fun alarm => owners.contains alarm.assetId).map Alarm.redact := by
  rw [List.filter_map]
  rfl

theorem compactTag_redact : compactTag ∘ Tag.redact = compactTag := rfl

theorem compactAlarm_redact : compactAlarm ∘ Alarm.redact = compactAlarm := rfl

/-- **The hidden parts decide nothing of a draft.** -/
theorem draftOf_redact (index : ModelIndex) (scopePhrase : Bool) (limits : RetrievalLimits) :
    draftOf index.redact promptTerms scopePhrase limits =
      draftOf index promptTerms scopePhrase limits := by
  have hscored : scoredAssets index.redact promptTerms = scoredAssets index promptTerms := rfl
  have hspecific : specificReference index.redact promptTerms scopePhrase =
    specificReference index promptTerms scopePhrase := rfl
  have hscope : ∀ limit eligible specific, scopeOf index.redact limit eligible specific =
    scopeOf index limit eligible specific := fun _ _ _ => rfl
  have hordered : ∀ eligible scope, orderedScopeIds index.redact eligible scope =
    orderedScopeIds index eligible scope := fun _ _ => rfl
  have hasset : index.redact.asset? = index.asset? := rfl
  have hrelationships : index.redact.relationships = index.relationships := rfl
  have htags : index.redact.tags = index.tags.map Tag.redact := rfl
  have halarms : index.redact.alarms = index.alarms.map Alarm.redact := rfl
  simp only [draftOf, hscored, hspecific, hscope, hordered, hasset, hrelationships, htags, halarms,
    filter_redact_tags, filter_redact_alarms, measurementRoleHints_redact, orderedTags_redact,
    List.length_map, List.map_map, ← List.map_take, compactTag_redact, compactAlarm_redact]

theorem retrieveTerms_redact [Platform] (index : ModelIndex) (scopePhrase : Bool)
    (limits : RetrievalLimits) :
    retrieveTerms index.redact promptTerms scopePhrase limits =
      retrieveTerms index promptTerms scopePhrase limits := by
  rw [retrieveTerms, retrieveTerms, draftOf_redact]
  rfl

end

/-! ### Hidden parts of a document -/

/-- The object without the members of some keys. -/
def hideMembers (keys : List Bytes) (j : Json) : Json :=
  match j with
  | .obj fields => .obj (fields.filter fun item => !keys.contains item.1)
  | j => j

/-- The object with the elements of one of its arrays replaced. -/
def mapElements (key : Bytes) (f : Json → Json) (j : Json) : Json :=
  match j.find? key with
  | some (.arr items) => j.setField key (.arr (items.map f))
  | _ => j

def hiddenMembers : List Bytes := ["name", "description", "scenario_name", "metadata"]

/-- The part of a document its contexts may depend on. -/
def visible (model : Json) : Json :=
  mapElements "assets" (hideMembers ["metadata"]) <|
  mapElements "relationships" (hideMembers ["metadata"]) <|
  mapElements "tags" (hideMembers ["metadata", "source"]) <|
  mapElements "alarms" (hideMembers ["metadata", "operator", "threshold"]) <|
  hideMembers hiddenMembers model

theorem find?_hideMembers (keys : List Bytes) (j : Json) (k : Bytes) :
    (hideMembers keys j).find? k = if k ∈ keys then none else j.find? k := by
  cases j with
  | obj fields =>
    simp only [hideMembers, Json.find?_obj]
    induction fields with
    | nil => simp [Assoc.find?]
    | cons item fields ih =>
      obtain ⟨key, v⟩ := item
      by_cases hkey : key ∈ keys
      · rw [List.filter_cons_of_neg (by simpa using hkey), ih, Assoc.find?_cons]
        by_cases hk : k ∈ keys
        · simp [hk]
        · have hne : key ≠ k := fun h => hk (h ▸ hkey)
          simp [hk, hne]
      · rw [List.filter_cons_of_pos (by simpa using hkey), Assoc.find?_cons, ih, Assoc.find?_cons]
        by_cases hk : key = k
        · subst hk
          simp [hkey]
        · simp [hk]
  | _ => simp [hideMembers, Json.find?]

theorem find?_mapElements_ne {key k : Bytes} (h : k ≠ key) (f : Json → Json) (j : Json) :
    (mapElements key f j).find? k = j.find? k := by
  unfold mapElements
  split
  · rename_i items hitems
    rw [Json.find?_setField (Json.isObject_of_find? hitems), if_neg (Ne.symm h)]
  · rfl

theorem find?_mapElements {key : Bytes} {j : Json} {items : List Json}
    (h : j.find? key = some (.arr items)) (f : Json → Json) :
    (mapElements key f j).find? key = some (.arr (items.map f)) := by
  rw [mapElements, h]
  simp only
  rw [Json.find?_setField (Json.isObject_of_find? h), if_pos rfl]

/-- What is left of a document's members. -/
structure Shows (shown model : Json) : Prop where
  modelId : shown.find? "model_id" = model.find? "model_id"
  revision : shown.find? "revision" = model.find? "revision"
  assets : ∀ items, model.find? "assets" = some (.arr items) →
    shown.find? "assets" = some (.arr (items.map (hideMembers ["metadata"])))
  relationships : ∀ items, model.find? "relationships" = some (.arr items) →
    shown.find? "relationships" = some (.arr (items.map (hideMembers ["metadata"])))
  tags : ∀ items, model.find? "tags" = some (.arr items) →
    shown.find? "tags" = some (.arr (items.map (hideMembers ["metadata", "source"])))
  alarms : ∀ items, model.find? "alarms" = some (.arr items) → shown.find? "alarms" =
    some (.arr (items.map (hideMembers ["metadata", "operator", "threshold"])))

theorem visible_shows (model : Json) : Shows (visible model) model := by
  unfold visible
  constructor
  case modelId => simp [find?_mapElements_ne, find?_hideMembers, hiddenMembers]
  case revision => simp [find?_mapElements_ne, find?_hideMembers, hiddenMembers]
  case assets =>
    intro items h
    exact find?_mapElements (by simp [find?_mapElements_ne, find?_hideMembers, hiddenMembers, h]) _
  case relationships =>
    intro items h
    rw [find?_mapElements_ne (by simp)]
    exact find?_mapElements (by simp [find?_mapElements_ne, find?_hideMembers, hiddenMembers, h]) _
  case tags =>
    intro items h
    rw [find?_mapElements_ne (by simp), find?_mapElements_ne (by simp)]
    exact find?_mapElements (by simp [find?_mapElements_ne, find?_hideMembers, hiddenMembers, h]) _
  case alarms =>
    intro items h
    rw [find?_mapElements_ne (by simp), find?_mapElements_ne (by simp),
      find?_mapElements_ne (by simp)]
    exact find?_mapElements (by simp [find?_hideMembers, hiddenMembers, h]) _

/-! ### Documents with one visible part -/

theorem map_eq_of_encoded {α β : Type} {R : α → Json → Prop} {f : Json → Json} {g : α → β}
    (hone : ∀ a b j j', R a j → R b j' → f j = f j' → g a = g b) {l l' : List α}
    {items items' : List Json} (h : List.Forall₂ R l items) (h' : List.Forall₂ R l' items')
    (heq : items.map f = items'.map f) : l.map g = l'.map g := by
  induction h generalizing l' items' with
  | nil =>
    cases h' with
    | nil => rfl
    | cons _ _ => cases heq
  | cons hR _ ih =>
    cases h' with
    | nil => cases heq
    | cons hR' h' =>
      rw [List.map_cons, List.map_cons, List.cons.injEq] at heq
      rw [List.map_cons, List.map_cons, hone _ _ _ _ hR hR' heq.1, ih h' heq.2]

theorem find?_eq_of_hidden {keys : List Bytes} {j j' : Json}
    (h : hideMembers keys j = hideMembers keys j') {k : Bytes} (hk : k ∉ keys) :
    j.find? k = j'.find? k := by
  have hfind := congrArg (Json.find? · k) h
  simpa only [find?_hideMembers, if_neg hk] using hfind

theorem string_eq_of_hidden {keys : List Bytes} {j j' : Json}
    (h : hideMembers keys j = hideMembers keys j') {k a b : Bytes} (hk : k ∉ keys)
    (ha : j.find? k = some (.str a)) (hb : j'.find? k = some (.str b)) : a = b := by
  rw [find?_eq_of_hidden h hk, hb] at ha
  simpa using ha.symm

theorem asset_eq_of_hidden [Platform] (a b : Asset) (j j' : Json) (ha : a.EncodedBy j)
    (hb : b.EncodedBy j') (h : hideMembers ["metadata"] j = hideMembers ["metadata"] j') :
    a = b := by
  have haliases : a.aliases = b.aliases := by
    have heq := find?_eq_of_hidden h (k := "aliases") (by simp)
    rw [ha.aliases, hb.aliases] at heq
    exact Option.map_injective Json.strings_injective heq
  obtain ⟨_, _, _, _⟩ := a
  obtain ⟨_, _, _, _⟩ := b
  simp only [Asset.mk.injEq]
  exact ⟨string_eq_of_hidden h (by simp) ha.id hb.id, string_eq_of_hidden h (by simp) ha.name hb.name,
    string_eq_of_hidden h (by simp) ha.kind hb.kind, haliases⟩

theorem relationship_eq_of_hidden (a b : Relationship) (j j' : Json) (ha : a.EncodedBy j)
    (hb : b.EncodedBy j') (h : hideMembers ["metadata"] j = hideMembers ["metadata"] j') :
    a = b := by
  obtain ⟨_, _, _, _⟩ := a
  obtain ⟨_, _, _, _⟩ := b
  simp only [Relationship.mk.injEq]
  exact ⟨string_eq_of_hidden h (by simp) ha.id hb.id,
    string_eq_of_hidden h (by simp) ha.fromId hb.fromId,
    string_eq_of_hidden h (by simp) ha.toId hb.toId,
    string_eq_of_hidden h (by simp) ha.kind hb.kind⟩

theorem tag_redact_eq_of_hidden (a b : Tag) (j j' : Json) (ha : a.EncodedBy j) (hb : b.EncodedBy j')
    (h : hideMembers ["metadata", "source"] j = hideMembers ["metadata", "source"] j') :
    a.redact = b.redact := by
  obtain ⟨_, _, _, _, _, _, _⟩ := a
  obtain ⟨_, _, _, _, _, _, _⟩ := b
  simp only [Tag.redact, Tag.mk.injEq, and_true]
  exact ⟨string_eq_of_hidden h (by simp) ha.id hb.id,
    string_eq_of_hidden h (by simp) ha.assetId hb.assetId,
    string_eq_of_hidden h (by simp) ha.name hb.name,
    string_eq_of_hidden h (by simp) ha.role hb.role,
    string_eq_of_hidden h (by simp) ha.dataType hb.dataType,
    string_eq_of_hidden h (by simp) ha.unit hb.unit⟩

theorem alarm_redact_eq_of_hidden (a b : Alarm) (j j' : Json) (ha : a.EncodedBy j)
    (hb : b.EncodedBy j') (h : hideMembers ["metadata", "operator", "threshold"] j =
      hideMembers ["metadata", "operator", "threshold"] j') : a.redact = b.redact := by
  obtain ⟨_, _, _, _, _, _, _⟩ := a
  obtain ⟨_, _, _, _, _, _, _⟩ := b
  simp only [Alarm.redact, Alarm.mk.injEq, true_and]
  exact ⟨string_eq_of_hidden h (by simp) ha.id hb.id,
    string_eq_of_hidden h (by simp) ha.assetId hb.assetId,
    string_eq_of_hidden h (by simp) ha.name hb.name,
    string_eq_of_hidden h (by simp) ha.tagId hb.tagId,
    string_eq_of_hidden h (by simp) ha.severity hb.severity⟩

section
variable [Platform] {model model' : Json} {index index' : ModelIndex}

omit [Platform] in
theorem map_eq_of_shown {α β : Type} {R : α → Json → Prop} {keys : List Bytes} {key : Bytes}
    {g : α → β} (hone : ∀ a b j j', R a j → R b j' → hideMembers keys j = hideMembers keys j' →
      g a = g b) {l l' : List α} {shown : Json}
    (hl : encodesAll R l model key) (hl' : encodesAll R l' model' key)
    (hs : ∀ items, model.find? key = some (.arr items) →
      shown.find? key = some (.arr (items.map (hideMembers keys))))
    (hs' : ∀ items, model'.find? key = some (.arr items) →
      shown.find? key = some (.arr (items.map (hideMembers keys)))) : l.map g = l'.map g := by
  obtain ⟨items, hitems, hR⟩ := hl
  obtain ⟨items', hitems', hR'⟩ := hl'
  have heq := (hs items hitems).symm.trans (hs' items' hitems')
  rw [Option.some.injEq, Json.arr.injEq] at heq
  exact map_eq_of_encoded hone hR hR' heq

/-- **Accepted documents with one visible part** have indexes that differ in hidden parts only. -/
theorem redact_eq_of_visible (hvisible : visible model = visible model')
    (h : index.EncodedBy model) (h' : index'.EncodedBy model') : index.redact = index'.redact := by
  have hs : Shows (visible model') model := hvisible ▸ visible_shows model
  have hs' := visible_shows model'
  have hmodelId : index.modelId = index'.modelId := by
    have heq := hs.modelId.symm.trans hs'.modelId
    rw [h.modelId, h'.modelId] at heq
    simpa using heq
  have hrevision : index.revision = index'.revision := by
    have heq := hs.revision.symm.trans hs'.revision
    rw [h.revision, h'.revision] at heq
    exact Option.some.inj heq
  have hassets := map_eq_of_shown (g := id) asset_eq_of_hidden h.assets h'.assets hs.assets hs'.assets
  have hrelationships := map_eq_of_shown (g := id) relationship_eq_of_hidden h.relationships
    h'.relationships hs.relationships hs'.relationships
  have htags := map_eq_of_shown tag_redact_eq_of_hidden h.tags h'.tags hs.tags hs'.tags
  have halarms := map_eq_of_shown alarm_redact_eq_of_hidden h.alarms h'.alarms hs.alarms hs'.alarms
  rw [List.map_id, List.map_id] at hassets hrelationships
  rw [ModelIndex.redact, ModelIndex.redact, hmodelId, hrevision, hassets, hrelationships, htags,
    halarms]

/-- **Contexts do not interfere with hidden data**: accepted models that differ in tag sources, alarm
operators and thresholds, metadata and descriptive members only give one outcome for every request. -/
theorem retrieve_noninterference (h : indexModel model = .ok index)
    (h' : indexModel model' = .ok index') (hvisible : visible model = visible model')
    (prompt : Bytes) (limits : RetrievalLimits) :
    retrieve model prompt limits = retrieve model' prompt limits := by
  have hredact := redact_eq_of_visible hvisible (indexModel_eq_ok.mp h).1 (indexModel_eq_ok.mp h').1
  have hterms : retrieveTerms index (termsFor prompt) (hasScopePhrase prompt) limits =
      retrieveTerms index' (termsFor prompt) (hasScopePhrase prompt) limits := by
    rw [← retrieveTerms_redact index, hredact, retrieveTerms_redact]
  simp only [retrieve, h, h', ok_bind, hterms]

end

/-! ### A tank on another server -/

section samples

local instance : Platform := samplePlatform

def nearModel : Json := sampleModel 1 (.int 80)

/-- The tank of the near model, read from another server and alarmed at another level. -/
def farModel : Json :=
  mapElements "tags" (fun tag => tag.setField "source" (.object [("server", .str "remote"),
    ("namespace_uri", .str "urn:remote"), ("identifier", .str "7")])) (sampleModel 1 (.int 90))

theorem retrieve_noninterference_far :
    retrieve nearModel "show the tank level" {} = retrieve farModel "show the tank level" {} := by
  have hnear := eq_ok_of_isSome
    (show (indexModel nearModel).toOption.isSome = true by decide +kernel) ⟨[], .null, [], [], [], []⟩
  have hfar := eq_ok_of_isSome
    (show (indexModel farModel).toOption.isSome = true by decide +kernel) ⟨[], .null, [], [], [], []⟩
  have hvisible : visible nearModel = visible farModel := by rfl
  exact retrieve_noninterference hnear hfar hvisible "show the tank level" {}

end samples

end Retrieval

end ContextHmi
