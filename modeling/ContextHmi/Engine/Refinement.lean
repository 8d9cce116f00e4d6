import ContextHmi.Engine.Documents
import ContextHmi.Engine.Comparison

/-!
# Reading the documents

The composer over documents against the composer over records: every map holds the documents of the
records under their ids, whatever order it is iterated in.

* `indexModel_matches` : the maps hold the documents of the records;
* `resolveTask_eq`     : both compose the same view, and throw the same exceptions.
-/

namespace ContextHmi.Documents

open Outcome

/-! ### Maps of documents -/

section
variable {α : Type} {E : α → Json → Prop} {key : α → Bytes} {l : List α}
  {map : List (Bytes × Json)}

/-- The entry of a record. -/
def Entry (E : α → Json → Prop) (key : α → Bytes) (a : α) (entry : Bytes × Json) : Prop :=
  entry.1 = key a ∧ E a entry.2

/-- A map that holds the documents of the records under their ids. -/
abbrev Holds (E : α → Json → Prop) (key : α → Bytes) (l : List α) (map : List (Bytes × Json)) :
    Prop := List.Forall₂ (Entry E key) l map

theorem Holds.keys (h : Holds E key l map) : map.map Prod.fst = l.map key :=
  (forall₂_map_eq (fun _ _ hentry => hentry.1.symm) h).symm

theorem Holds.declares (h : Holds E key l map) (id : Bytes) :
    Documents.declares map id = true ↔ id ∈ l.map key := by
  rw [Documents.declares, ← h.keys, ← not_iff_not, Option.not_isSome_iff_eq_none]
  exact Assoc.find?_eq_none_iff

theorem Holds.find? (h : Holds E key l map) (id : Bytes) :
    Option.Rel E (l.find? fun a => key a = id) (Assoc.find? id map) := by
  induction h with
  | nil => exact .none
  | @cons a entry _ _ hentry _ ih =>
    obtain ⟨k, document⟩ := entry
    obtain ⟨rfl, hE⟩ := hentry
    rw [Assoc.find?_cons, List.find?_cons]
    by_cases hk : key a = id
    · rw [if_pos hk, decide_eq_true hk]
      exact .some hE
    · rw [if_neg hk, decide_eq_false hk]
      exact ih

theorem Holds.lookup (h : Holds E key l map) {id : Bytes} {a : α}
    (ha : l.find? (fun a => key a = id) = some a) : ∃ j, Documents.lookup map id = .ok j ∧ E a j := by
  have hfind := h.find? id
  rw [ha] at hfind
  cases hj : Assoc.find? id map with
  | none =>
    rw [hj] at hfind
    cases hfind
  | some j =>
    rw [hj] at hfind
    cases hfind with
    | some hE => exact ⟨j, by rw [Documents.lookup, hj], hE⟩

theorem Holds.bucketed [Platform] (h : Holds E key l map) (hnodup : (l.map key).Nodup) :
    ∃ moved, l.Perm moved ∧ Holds E key moved (bucketed map) := by
  have hkeys : (map.map Prod.fst).Nodup := h.keys ▸ hnodup
  have horder := (Platform.bucketOrder_perm (map.map Prod.fst)).nodup_iff.mpr hkeys
  have hentries : ((ContextHmi.bucketed map).map Prod.fst).Nodup := by
    have hmap : (ContextHmi.bucketed map).map Prod.fst =
        (Platform.bucketOrder (map.map Prod.fst)).filter fun k => (Assoc.find? k map).isSome := by
      rw [ContextHmi.bucketed, List.map_filterMap]
      rw [← List.filterMap_eq_filter]
      refine List.filterMap_congr fun k _ => ?_
      cases hfind : Assoc.find? k map <;> simp [Option.guard, hfind]
    rw [hmap]
    exact horder.filter _
  have hperm : map.Perm (ContextHmi.bucketed map) := by
    rw [List.perm_ext_iff_of_nodup hkeys.of_map hentries.of_map]
    intro entry
    rw [← Assoc.find?_eq_some_iff hkeys, mem_bucketed]
  have hcomp : Relation.Comp List.Perm (List.Forall₂ (Entry E key)) l (ContextHmi.bucketed map) := by
    rw [← List.forall₂_comp_perm_eq_perm_comp_forall₂]
    exact ⟨map, h, hperm⟩
  obtain ⟨moved, hmoved, hforall⟩ := hcomp
  exact ⟨moved, hmoved, hforall⟩

theorem Holds.documents (h : Holds E key l map) : List.Forall₂ E l (map.map Prod.snd) :=
  List.forall₂_map_right_iff.mpr (h.imp fun _ _ hentry => hentry.2)

end

/-! ### Reading members -/

theorem atKey_of_find? {j v : Json} {k : Bytes} (h : j.find? k = some v) : j.atKey k = .ok v := by
  cases j with
  | obj fields =>
    rw [Json.find?_obj] at h
    simp only [Json.atKey, h]
  | _ => cases h

theorem stringAt_of_find? {j : Json} {k s : Bytes} (h : j.find? k = some (.str s)) :
    stringAt j k = .ok s := by
  rw [stringAt, atKey_of_find? h]
  rfl

/-! ### Documents of tags -/

theorem find?_of_hasOnly {j : Json} {names : List Bytes} (h : hasOnly j names) {k : Bytes}
    (hk : k ∉ names) : j.find? k = none := by
  cases hfind : j.find? k with
  | none => rfl
  | some v =>
    cases j with
    | obj fields => exact absurd (h.2 _ (Assoc.find?_mem hfind)) hk
    | _ => cases hfind

theorem eq_toJson {source : Source} {j : Json} (h : source.EncodedBy j) (hj : j.Canonical) :
    j = source.toJson := by
  refine Json.ext_of_find? h.only.1 rfl hj.ordered (Json.ordered_object _) fun k => ?_
  rw [Source.toJson, Json.find?_object]
  by_cases hserver : k = "server"
  · rw [hserver, h.server]
    rfl
  · by_cases huri : k = "namespace_uri"
    · rw [huri, h.namespaceUri]
      rfl
    · by_cases hid : k = "identifier"
      · rw [hid, h.identifier]
        rfl
      · have hnone : j.find? k = none := find?_of_hasOnly h.only (by simp [hserver, huri, hid])
        simp [hnone, Ne.symm hserver, Ne.symm huri, Ne.symm hid]

/-- The document of a tag, with its source as the composer copies it. -/
structure TagDocument (tag : Tag) (j : Json) : Prop where
  encoded : tag.EncodedBy j
  source : j.find? "source" = some tag.source.toJson

theorem tagDocument_of_canonical {tag : Tag} {j : Json} (h : tag.EncodedBy j) (hj : j.Canonical) :
    TagDocument tag j := by
  obtain ⟨source, hsource, henc⟩ := h.source
  refine ⟨h, ?_⟩
  rw [hsource, eq_toJson henc (hj.find? hsource)]

/-! ### `index_model` -/

theorem checkAsset_matches [Platform] (place : Bytes) (j : Json) :
    Matches (fun id (asset : Asset) => id = asset.id) (checkAsset place j) (readAsset place j) := by
  unfold checkAsset readAsset
  refine matches_bind_self fun _ _ => matches_bind_self fun _ _ => matches_bind_self fun _ _ => ?_
  refine matches_bind_self fun _ _ => matches_bind_self fun _ _ => matches_bind_self fun _ _ => ?_
  exact matches_pure rfl

section
variable {assets : List Asset} {tags : List Tag} {assetMap tagMap : List (Bytes × Json)}

theorem checkRelationship_matches {E : Asset → Json → Prop} (hassets : Holds E Asset.id assets assetMap)
    (place : Bytes) (j : Json) : Matches (fun id (rel : Relationship) => id = rel.id)
      (checkRelationship assetMap place j) (readRelationship assets place j) := by
  unfold checkRelationship readRelationship
  refine matches_bind_self fun _ _ => matches_bind_self fun _ _ => matches_bind_self fun _ _ => ?_
  refine matches_bind_self fun _ _ => matches_bind_self fun _ _ => ?_
  simp only [hassets.declares]
  refine matches_bind_self fun _ _ => matches_bind_self fun _ _ => ?_
  exact matches_pure rfl

theorem checkTag_matches {E : Asset → Json → Prop} (hassets : Holds E Asset.id assets assetMap)
    (place : Bytes) (j : Json) : Matches (fun id (tag : Tag) => id = tag.id)
      (checkTag assetMap place j) (readTag assets place j) := by
  unfold checkTag readTag
  refine matches_bind_self fun _ _ => matches_bind_self fun _ _ => matches_bind_self fun _ _ => ?_
  refine matches_bind_self fun _ _ => matches_bind_self fun role hrole => ?_
  refine matches_bind_self fun _ _ => matches_bind_self fun _ _ => matches_bind_self fun _ _ => ?_
  rw [stringAt_of_find? (stringField_eq_ok.mp hrole).1, ok_bind]
  simp only [hassets.declares]
  refine matches_bind_self fun _ _ => matches_bind_self fun _ _ => matches_bind_self fun _ _ => ?_
  exact matches_pure rfl

theorem checkAlarm_matches {E : Asset → Json → Prop} (hassets : Holds E Asset.id assets assetMap)
    (htags : Holds TagDocument Tag.id tags tagMap) (place : Bytes) (j : Json) :
    Matches (fun id (alarm : Alarm) => id = alarm.id) (checkAlarm assetMap tagMap place j)
      (readAlarm assets tags place j) := by
  unfold checkAlarm readAlarm
  refine matches_bind_self fun _ _ => matches_bind_self fun _ _ => matches_bind_self fun _ _ => ?_
  refine matches_bind_self fun tagId _ => matches_bind_self fun _ _ => ?_
  refine matches_bind_self fun _ _ => matches_bind_self fun _ _ => matches_bind_self fun _ _ => ?_
  simp only [hassets.declares]
  refine matches_bind_self fun _ _ => matches_bind_self fun _ _ => ?_
  cases htag : tags.find? fun tag => decide (tag.id = tagId) with
  | none =>
    have hunknown : ¬ declares tagMap tagId = true := by
      rw [htags.declares, List.mem_map]
      intro h
      obtain ⟨tag, hmem, hid⟩ := h
      exact List.find?_eq_none.mp htag tag hmem (decide_eq_true hid)
    rw [throwIf_of _ hunknown]
    exact .error _
  | some tag =>
    have hknown : declares tagMap tagId = true := by
      rw [htags.declares]
      have hid : tag.id = tagId := by simpa using List.find?_some htag
      exact hid ▸ List.mem_map_of_mem (List.mem_of_find?_eq_some htag)
    obtain ⟨document, hdocument, ⟨henc, -⟩⟩ := htags.lookup htag
    rw [throwIf_of_not _ (not_not.mpr hknown), ok_bind, hdocument, ok_bind,
      stringAt_of_find? henc.assetId, ok_bind]
    refine matches_bind_self fun _ _ => ?_
    rw [ok_bind, stringAt_of_find? henc.dataType, ok_bind]
    refine matches_bind_self fun _ _ => matches_bind_self fun _ _ => matches_bind_self fun _ _ => ?_
    exact matches_pure rfl

end

theorem emplaceAll_matches {α : Type} {E : α → Json → Prop} {id : α → Bytes} {key noun : Bytes}
    {check : Bytes → Json → Result Bytes} {read : Bytes → Json → Result α}
    (hcheck : ∀ p j, Matches (fun i a => i = id a) (check p j) (read p j))
    {js : List Json} (hread : ∀ j ∈ js, ∀ p a, read p j = .ok a → E a j) {acc : List α}
    {map : List (Bytes × Json)} (hacc : Holds E id acc map) :
    Matches (fun map l => Holds E id l map) (emplaceAll key noun check map js)
      (indexAll key noun read id acc js) := by
  induction js generalizing acc map with
  | nil => exact .ok hacc
  | cons j js ih =>
    rw [emplaceAll, indexAll, hacc.length_eq]
    refine matches_bind (hcheck _ j) fun i a hi ha => ?_
    subst hi
    simp only [hacc.declares]
    refine matches_bind_self fun _ _ => ?_
    obtain ⟨hj, hjs⟩ := List.forall_mem_cons.mp hread
    exact ih hjs (List.rel_append hacc (.cons ⟨rfl, hj _ a ha⟩ .nil))

/-- What the index of the documents holds. -/
structure Of [Platform] (docs : Documents) (index : ModelIndex) : Prop where
  modelId : docs.model.find? "model_id" = some (.str index.modelId)
  revision : docs.model.find? "revision" = some index.revision
  assets : Holds Asset.EncodedBy Asset.id index.assets docs.assets
  relationships : Holds Relationship.EncodedBy Relationship.id index.relationships
    docs.relationships
  tags : Holds TagDocument Tag.id index.tags docs.tags
  alarms : Holds Alarm.EncodedBy Alarm.id index.alarms docs.alarms

/-- **The maps of an accepted model hold the documents of its records**, and the same models are
refused with the same exceptions. -/
theorem indexModel_matches [Platform] {model : Json} (hmodel : model.Canonical) :
    Matches (fun docs index => docs.model = model ∧ docs.Of index) (indexModel model)
      (ContextHmi.indexModel model) := by
  unfold indexModel ContextHmi.indexModel
  refine matches_bind_self fun _ _ => matches_bind_self fun modelId hmodelId => ?_
  refine matches_bind_self fun revision hrevision => matches_bind_self fun _ _ => ?_
  refine matches_bind_self fun _ _ => matches_bind_self fun _ _ => matches_bind_self fun _ _ => ?_
  refine matches_bind_self fun _ _ => matches_bind_self fun _ _ => ?_
  refine matches_bind_self fun tagItems htagItems => matches_bind_self fun _ _ => ?_
  have hcanonical : ∀ j ∈ tagItems, j.Canonical :=
    (hmodel.find? (boundedArray_eq_ok.mp htagItems).1).items
  refine matches_bind (emplaceAll_matches (E := Asset.EncodedBy) checkAsset_matches
    (fun _ _ _ _ h => (readAsset_eq_ok.mp h).1) .nil) fun assetMap assets hassets _ => ?_
  refine matches_bind (emplaceAll_matches (checkRelationship_matches hassets)
    (fun _ _ _ _ h => (readRelationship_eq_ok.mp h).1) .nil) fun relMap rels hrels _ => ?_
  refine matches_bind (emplaceAll_matches (checkTag_matches hassets)
    (fun j hj _ _ h => tagDocument_of_canonical (readTag_eq_ok.mp h).1 (hcanonical j hj)) .nil)
    fun tagMap tags htags _ => ?_
  refine matches_bind (emplaceAll_matches (checkAlarm_matches hassets htags)
    (fun _ _ _ _ h => (readAlarm_eq_ok.mp h).1) .nil) fun alarmMap alarms halarms _ => ?_
  exact matches_pure ⟨rfl, (identityField_eq_ok.mp hmodelId).1, (revisionField_eq_ok.mp hrevision).1,
    hassets, hrels, htags, halarms⟩

/-! ### One tag, one alarm -/

section
variable [Platform] {tag : Tag} {alarm : Alarm} {j t : Json}

omit [Platform] in
theorem tagBindingSnapshot_eq (h : TagDocument tag j) :
    tagBindingSnapshot j = .ok (ContextHmi.tagBindingSnapshot tag) := by
  simp only [tagBindingSnapshot, atKey_of_find? h.encoded.assetId, atKey_of_find? h.encoded.role,
    atKey_of_find? h.encoded.dataType, atKey_of_find? h.encoded.unit, atKey_of_find? h.source,
    ok_bind]
  rfl

theorem tagFingerprint_eq (h : TagDocument tag j) :
    tagFingerprint j = ContextHmi.tagFingerprint tag := by
  rw [tagFingerprint, tagBindingSnapshot_eq h, ok_bind, ContextHmi.tagFingerprint]

theorem dependencyFor_eq (h : TagDocument tag j) :
    dependencyFor j = ContextHmi.dependencyFor tag := by
  simp only [dependencyFor, tagBindingSnapshot_eq h, tagFingerprint_eq h, ContextHmi.dependencyFor,
    atKey_of_find? h.encoded.id, atKey_of_find? h.encoded.assetId, atKey_of_find? h.encoded.role,
    atKey_of_find? h.encoded.dataType, atKey_of_find? h.encoded.unit, atKey_of_find? h.source,
    ok_bind]

theorem componentFor_eq (h : TagDocument tag j) (kind label reason : Bytes) :
    componentFor j kind label reason = ContextHmi.componentFor tag kind label reason := by
  simp only [componentFor, tagFingerprint_eq h, ContextHmi.componentFor,
    atKey_of_find? h.encoded.id, atKey_of_find? h.encoded.assetId, atKey_of_find? h.encoded.role,
    atKey_of_find? h.encoded.unit, ok_bind]

omit [Platform] in
theorem alarmDefinitionSnapshot_eq (h : alarm.EncodedBy j) :
    alarmDefinitionSnapshot j = .ok (ContextHmi.alarmDefinitionSnapshot alarm) := by
  simp only [alarmDefinitionSnapshot, atKey_of_find? h.assetId, atKey_of_find? h.name,
    atKey_of_find? h.tagId, atKey_of_find? h.operator, atKey_of_find? h.threshold,
    atKey_of_find? h.severity, ok_bind]
  rfl

theorem alarmDefinitionFingerprint_eq (h : alarm.EncodedBy j) :
    alarmDefinitionFingerprint j = ContextHmi.alarmDefinitionFingerprint alarm := by
  rw [alarmDefinitionFingerprint, alarmDefinitionSnapshot_eq h, ok_bind,
    ContextHmi.alarmDefinitionFingerprint]

theorem dependencyForAlarm_eq (h : alarm.EncodedBy j) (ht : TagDocument tag t) :
    dependencyForAlarm j t = ContextHmi.dependencyForAlarm alarm tag := by
  simp only [dependencyForAlarm, dependencyFor_eq ht, alarmDefinitionSnapshot_eq h,
    alarmDefinitionFingerprint_eq h, ContextHmi.dependencyForAlarm, atKey_of_find? h.id,
    atKey_of_find? h.assetId, atKey_of_find? h.name, atKey_of_find? h.operator,
    atKey_of_find? h.threshold, atKey_of_find? h.severity, ok_bind]

theorem alarmComponentFor_eq (h : alarm.EncodedBy j) (ht : TagDocument tag t) :
    alarmComponentFor j t = ContextHmi.alarmComponentFor alarm tag := by
  simp only [alarmComponentFor, tagFingerprint_eq ht, alarmDefinitionFingerprint_eq h,
    ContextHmi.alarmComponentFor, atKey_of_find? h.id, atKey_of_find? h.name,
    atKey_of_find? h.assetId, atKey_of_find? h.tagId, atKey_of_find? ht.encoded.role,
    atKey_of_find? ht.encoded.unit, ok_bind]

omit [Platform] in
theorem wantsTag_eq (h : TagDocument tag j) (roles : List Bytes) :
    wantsTag roles j = .ok (wants roles tag.role) := by
  unfold wantsTag wants
  cases roles.isEmpty with
  | true => rfl
  | false =>
    rw [stringAt_of_find? h.encoded.role]
    rfl

end

theorem sortById_eq {α : Type} {E : α → Json → Prop} {id : α → Bytes}
    (hid : ∀ a j, E a j → j.find? "id" = some (.str (id a))) {l : List α} {documents : List Json}
    (h : List.Forall₂ E l documents) :
    ∃ sorted, sortById documents = .ok sorted ∧ List.Forall₂ E (Bytes.sortBy id l) sorted := by
  have hkeyed : ∃ keyed, (documents.mapM fun document => (fun id => (id, document)) <$>
      stringAt document "id") = .ok keyed ∧
        List.Forall₂ (fun a (p : Bytes × Json) => p.1 = id a ∧ E a p.2) l keyed := by
    induction h with
    | nil => exact ⟨[], rfl, .nil⟩
    | @cons a j _ _ hE _ ih =>
      obtain ⟨keyed, hkeyed, hforall⟩ := ih
      refine ⟨(id a, j) :: keyed, ?_, .cons ⟨rfl, hE⟩ hforall⟩
      rw [List.mapM_cons, hkeyed, stringAt_of_find? (hid a j hE)]
      rfl
  obtain ⟨keyed, hkeyed, hforall⟩ := hkeyed
  refine ⟨_, by rw [sortById, hkeyed]; rfl, ?_⟩
  have hsorted := @Bytes.sortBy_forall₂ _ _ _ id Prod.fst _ _ hforall fun _ _ hp => hp.1
  exact List.forall₂_map_right_iff.mpr (hsorted.imp fun _ _ hp => hp.2)

/-! ### Views -/

section
variable [Platform] {docs : Documents} {index : ModelIndex} (h : docs.Of index)
include h

theorem assetName_eq {id : Bytes} (hid : (index.asset? id).isSome = true) :
    docs.assetName id = ContextHmi.assetName index id := by
  obtain ⟨asset, hasset⟩ := Option.isSome_iff_exists.mp hid
  obtain ⟨j, hj, henc⟩ := h.assets.lookup hasset
  rw [Documents.assetName, ContextHmi.assetName, hj, ok_bind, stringAt_of_find? henc.name, hasset]

theorem viewNames_eq {anchor : Bytes} (hid : anchor ≠ [] → (index.asset? anchor).isSome = true)
    (slug word : Bytes) :
    docs.viewNames anchor slug word = ContextHmi.viewNames index anchor slug word := by
  unfold Documents.viewNames ContextHmi.viewNames
  by_cases hanchor : anchor = []
  · simp [hanchor]
  · rw [assetName_eq h (hid hanchor)]

theorem composeView_eq (viewId title : Bytes) (task : Json) (bound : List (Json × Json))
    (nothing : Json) : docs.composeView viewId title task bound nothing =
      .ok (ContextHmi.composeView index viewId title task bound nothing) := by
  rw [Documents.composeView, atKey_of_find? h.modelId, atKey_of_find? h.revision]
  rfl

variable (wf : index.WellFormed)
include wf

omit [Platform] h in
theorem asset?_of_tag {tag : Tag} (htag : tag ∈ index.tags) :
    (index.asset? tag.assetId).isSome = true := by
  obtain ⟨asset, hasset, hid⟩ := List.mem_map.mp (wf.tags tag htag).declared
  rw [wf.asset?_eq_some.mpr ⟨hasset, hid⟩]
  rfl

/-- The tags of an asset, in the order of their ids. -/
def tagsOf (index : ModelIndex) (roles : List Bytes) (asset : Bytes) : List Tag :=
  Bytes.sortBy Tag.id (index.tags.filter fun tag => tag.assetId = asset && wants roles tag.role)

theorem overviewTags_eq (roles : List Bytes) (asset : Bytes) :
    ∃ documents, docs.overviewTags roles asset = .ok documents ∧
      List.Forall₂ TagDocument (tagsOf index roles asset) documents := by
  obtain ⟨moved, hmoved, hholds⟩ := h.tags.bucketed wf.tags_nodup
  have hcheck : ∀ tag ∈ moved, ∀ j, TagDocument tag j → (do
      let owner ← j.atKey "asset_id"
      if owner.eqv (.str asset) then wantsTag roles j else return false) =
        (.ok (tag.assetId = asset && wants roles tag.role) : Result Bool) := by
    intro tag _ j hj
    rw [atKey_of_find? hj.encoded.assetId, ok_bind]
    by_cases howner : tag.assetId = asset
    · simp [howner, Json.eqv, wantsTag_eq hj]
    · simp [howner, Json.eqv, pure, Except.pure]
  obtain ⟨kept, hkept, hforall⟩ := keepM_forall₂ hholds.documents hcheck
  obtain ⟨sorted, hsorted, hdocuments⟩ := sortById_eq (fun _ _ hj => hj.encoded.id) hforall
  refine ⟨sorted, by rw [Documents.overviewTags, hkept, ok_bind, hsorted], ?_⟩
  have horder : Bytes.sortBy Tag.id (moved.filter fun tag =>
      tag.assetId = asset && wants roles tag.role) = tagsOf index roles asset :=
    Bytes.sortBy_eq_of_perm (hmoved.symm.filter _)
      (((hmoved.map _).nodup_iff.mp wf.tags_nodup).sublist (List.filter_sublist.map _))
  exact horder ▸ hdocuments

theorem sortedAssets_eq : Bytes.sortBy id ((bucketed docs.assets).map Prod.fst) =
    Bytes.sortBy id (index.assets.map (·.id)) := by
  obtain ⟨moved, hmoved, hholds⟩ := h.assets.bucketed wf.assets_nodup
  rw [hholds.keys]
  refine Bytes.sortBy_eq_of_perm (hmoved.symm.map _) ?_
  rw [List.map_id]
  exact (hmoved.map _).nodup_iff.mp wf.assets_nodup

theorem resolveOverview_eq {task : Json}
    (hanchor : ∀ anchor, taskAnchor task = .ok anchor → anchor ≠ [] →
      (index.asset? anchor).isSome = true) :
    docs.resolveOverview task = ContextHmi.resolveOverview index task := by
  unfold Documents.resolveOverview ContextHmi.resolveOverview
  refine bind_congr_ok fun anchor htask => ?_
  rw [viewNames_eq h (hanchor anchor htask)]
  refine bind_congr_ok fun names _ => bind_congr_ok fun roles _ => ?_
  have hassets : Bytes.sortBy id
      (if anchor.isEmpty then (bucketed docs.assets).map Prod.fst else [anchor]) =
        Bytes.sortBy id (if anchor.isEmpty then index.assets.map (·.id) else [anchor]) := by
    split
    · exact sortedAssets_eq h wf
    · rfl
  simp only [ContextHmi.overviewTags, hassets]
  rw [mapM_flatMap, bind_map_left]
  have hsame : List.Forall₂ Eq
      (Bytes.sortBy id (if anchor.isEmpty then index.assets.map (·.id) else [anchor]))
      (Bytes.sortBy id (if anchor.isEmpty then index.assets.map (·.id) else [anchor])) :=
    List.forall₂_same.mpr fun _ _ => rfl
  refine congrArg₂ _ (mapM_forall₂ hsame fun asset _ _ hasset => ?_) (funext fun bound => ?_)
  · subst hasset
    obtain ⟨documents, hdocuments, hforall⟩ := overviewTags_eq h wf roles asset
    rw [hdocuments, ok_bind]
    refine mapM_forall₂ hforall fun tag htag j hj => ?_
    have hmem := List.mem_filter.mp (Bytes.mem_sortBy.mp htag)
    have howner : tag.assetId = asset := by
      have hboth := hmem.2
      rw [Bool.and_eq_true, decide_eq_true_eq] at hboth
      exact hboth.1
    rw [stringAt_of_find? hj.encoded.role, ok_bind, ← howner,
      assetName_eq h (asset?_of_tag wf hmem.1)]
    refine bind_congr_ok fun owner _ => ?_
    rw [stringAt_of_find? hj.encoded.name, ok_bind, componentFor_eq hj, dependencyFor_eq hj]
  · exact composeView_eq h _ _ _ _ _

/-! ### Alarms -/

omit [Platform] h in
theorem tag_of_alarm {alarm : Alarm} (halarm : alarm ∈ index.alarms) :
    ∃ tag, index.tag? alarm.tagId = some tag := by
  obtain ⟨tag, htag, -⟩ := wf.alarm_tag halarm
  exact ⟨tag, htag⟩

/-- An alarm view shows the alarm. -/
def showsAlarm (index : ModelIndex) (roles : List Bytes) (anchor : Bytes) (alarm : Alarm) : Bool :=
  (anchor.isEmpty || alarm.assetId = anchor) &&
    (index.tag? alarm.tagId).any fun tag => wants roles tag.role

theorem shownAlarms_eq (roles : List Bytes) (anchor : Bytes) :
    ∃ documents, docs.shownAlarms roles anchor = .ok documents ∧ List.Forall₂ Alarm.EncodedBy
      (Bytes.sortBy Alarm.id (index.alarms.filter (showsAlarm index roles anchor))) documents := by
  obtain ⟨moved, hmoved, hholds⟩ := h.alarms.bucketed wf.alarms_nodup
  have hcheck : ∀ alarm ∈ moved, ∀ j, Alarm.EncodedBy alarm j → (do
      if ← isElsewhere anchor j then return false
      else do
        let tagId ← stringAt j "tag_id"
        let tag ← lookup docs.tags tagId
        wantsTag roles tag) = (.ok (showsAlarm index roles anchor alarm) : Result Bool) := by
    intro alarm halarm j hj
    have helsewhere : isElsewhere anchor j =
        .ok (! (anchor.isEmpty || alarm.assetId = anchor)) := by
      rw [isElsewhere, stringAt_of_find? hj.assetId]
      cases anchor.isEmpty with
      | true => rfl
      | false => simp
    obtain ⟨tag, htag⟩ := tag_of_alarm wf (hmoved.mem_iff.mpr halarm)
    obtain ⟨t, ht, hdocument⟩ := h.tags.lookup htag
    rw [helsewhere, ok_bind, showsAlarm, htag]
    cases anchor.isEmpty || decide (alarm.assetId = anchor) with
    | false => rfl
    | true =>
      show (do
        let tagId ← stringAt j "tag_id"
        let tag ← lookup docs.tags tagId
        wantsTag roles tag) = _
      rw [stringAt_of_find? hj.tagId, ok_bind, ht, ok_bind, wantsTag_eq hdocument]
      rfl
  obtain ⟨kept, hkept, hforall⟩ := keepM_forall₂ hholds.documents hcheck
  obtain ⟨sorted, hsorted, hdocuments⟩ := sortById_eq (fun _ _ hj => hj.id) hforall
  refine ⟨sorted, by rw [Documents.shownAlarms, hkept, ok_bind, hsorted], ?_⟩
  have horder : Bytes.sortBy Alarm.id (moved.filter (showsAlarm index roles anchor)) =
      Bytes.sortBy Alarm.id (index.alarms.filter (showsAlarm index roles anchor)) :=
    Bytes.sortBy_eq_of_perm (hmoved.symm.filter _)
      (((hmoved.map _).nodup_iff.mp wf.alarms_nodup).sublist (List.filter_sublist.map _))
  exact horder ▸ hdocuments

omit h [Platform] in
theorem alarmRows_eq (roles : List Bytes) (anchor : Bytes) :
    ∃ tagOf : Alarm → Tag, (∀ alarm ∈ index.alarms, index.tag? alarm.tagId = some (tagOf alarm)) ∧
      alarmRows index roles anchor = .ok ((Bytes.sortBy Alarm.id
        (index.alarms.filter (showsAlarm index roles anchor))).map
          fun alarm => (alarm, tagOf alarm)) := by
  refine ⟨fun alarm => (index.tag? alarm.tagId).getD ⟨[], [], [], [], [], [], ⟨[], [], []⟩⟩, ?_, ?_⟩
  · intro alarm halarm
    obtain ⟨tag, htag⟩ := tag_of_alarm wf halarm
    simp only [htag, Option.getD_some]
  · have hrows := mapM_eq_map
      (f := fun alarm => (fun tag => (alarm, tag)) <$> alarmTag index alarm)
      (g := fun alarm => (alarm, (index.tag? alarm.tagId).getD
        ⟨[], [], [], [], [], [], ⟨[], [], []⟩⟩))
      (l := index.alarms.filter fun alarm => anchor.isEmpty || alarm.assetId = anchor)
      fun alarm halarm => by
        obtain ⟨tag, htag⟩ := tag_of_alarm wf (List.mem_filter.mp halarm).1
        rw [alarmTag, htag, ok_map, Option.getD_some]
    rw [alarmRows, hrows, ok_bind, List.filter_map, List.filter_filter]
    refine congrArg Except.ok ?_
    refine (Bytes.sortBy_map fun _ _ => rfl).trans ?_
    refine congrArg (fun l => List.map _ (Bytes.sortBy Alarm.id l)) ?_
    refine List.filter_congr fun alarm halarm => ?_
    obtain ⟨tag, htag⟩ := tag_of_alarm wf halarm
    rw [showsAlarm, Function.comp_apply, htag, Option.any_some, Option.getD_some, Bool.and_comm]

theorem resolveAlarms_eq {task : Json}
    (hanchor : ∀ anchor, taskAnchor task = .ok anchor → anchor ≠ [] →
      (index.asset? anchor).isSome = true) :
    docs.resolveAlarms task = ContextHmi.resolveAlarms index task := by
  unfold Documents.resolveAlarms ContextHmi.resolveAlarms
  refine bind_congr_ok fun anchor htask => ?_
  rw [viewNames_eq h (hanchor anchor htask)]
  refine bind_congr_ok fun names _ => bind_congr_ok fun roles _ => ?_
  obtain ⟨documents, hdocuments, hforall⟩ := shownAlarms_eq h wf roles anchor
  obtain ⟨tagOf, htagOf, hrows⟩ := alarmRows_eq wf roles anchor
  rw [hdocuments, ok_bind, hrows, ok_bind, List.mapM_map]
  refine congrArg₂ _ (mapM_forall₂ hforall fun alarm halarm j hj => ?_)
    (funext fun bound => composeView_eq h _ _ _ _ _)
  have hmem := (List.mem_filter.mp (Bytes.mem_sortBy.mp halarm)).1
  obtain ⟨t, ht, hdocument⟩ := h.tags.lookup (htagOf alarm hmem)
  rw [stringAt_of_find? hj.tagId, ok_bind, ht, ok_bind, alarmComponentFor_eq hj hdocument,
    dependencyForAlarm_eq hj hdocument]
  rfl

end

/-! ### Tasks -/

section
variable [Platform] {docs : Documents} {index : ModelIndex} (h : docs.Of index)
include h

theorem checkTask_eq (task : Json) : docs.checkTask task = ContextHmi.checkTask index task := by
  have hrevision : docs.checkTaskRevision task = ContextHmi.checkTaskRevision index task := by
    unfold Documents.checkTaskRevision ContextHmi.checkTaskRevision
    rw [atKey_of_find? h.revision]
    rfl
  have hmodelId : docs.checkTaskModelId task = ContextHmi.checkTaskModelId index task := by
    unfold Documents.checkTaskModelId ContextHmi.checkTaskModelId
    rw [atKey_of_find? h.modelId]
    cases task.find? "model_id" with
    | none => rfl
    | some modelId =>
      cases modelId with
      | str s => rfl
      | _ => rfl
  have hanchor : docs.checkTaskAnchor task = ContextHmi.checkTaskAnchor index task := by
    unfold Documents.checkTaskAnchor ContextHmi.checkTaskAnchor
    cases task.find? "anchor_asset_id" with
    | none => rfl
    | some v =>
      cases v with
      | str anchor =>
        refine bind_congr_ok fun _ _ => ?_
        have hdeclared : (¬ declares docs.assets anchor = true) ↔
            (index.asset? anchor).isNone = true := by
          rw [h.assets.declares, ← Assoc.findKey_isSome_iff Asset.id,
            Option.not_isSome_iff_eq_none, Option.isNone_iff_eq_none]
          rfl
        simp only [hdeclared]
      | _ => rfl
  rw [Documents.checkTask, ContextHmi.checkTask, hrevision, hmodelId, hanchor]

theorem effectiveTask_eq (task : Json) :
    docs.effectiveTask task = .ok (ContextHmi.effectiveTask index task) := by
  unfold Documents.effectiveTask ContextHmi.effectiveTask
  rw [atKey_of_find? h.modelId]
  split <;> rfl

omit h [Platform] in
theorem isSome_of_checkTask {task : Json} {kind anchor : Bytes}
    (hkind : ContextHmi.checkTask index task = .ok kind)
    (hanchor : taskAnchor (ContextHmi.effectiveTask index task) = .ok anchor) (hne : anchor ≠ []) :
    (index.asset? anchor).isSome = true := by
  have hobj := (checkTask_eq_ok hkind).1
  rw [taskAnchor, effectiveTask_find? hobj (by simp)] at hanchor
  simp only [ContextHmi.checkTask, bind_eq_ok, pure_eq_ok] at hkind
  obtain ⟨_, -, _, -, _, -, _, -, _, -, _, -, _, hcheck, -⟩ := hkind
  unfold ContextHmi.checkTaskAnchor at hcheck
  cases hfind : task.find? "anchor_asset_id" with
  | none =>
    rw [hfind] at hanchor
    exact absurd (Except.ok.inj hanchor).symm hne
  | some v =>
    rw [hfind] at hanchor hcheck
    cases v with
    | str s =>
      obtain rfl : s = anchor := Except.ok.inj hanchor
      simp only [bind_eq_ok, throwIf_eq_ok] at hcheck
      obtain ⟨_, -, hsome⟩ := hcheck
      simpa [Option.isSome_iff_ne_none] using hsome
    | _ => cases hcheck

theorem resolveTaskImpl_eq (wf : index.WellFormed) (task : Json) :
    docs.resolveTaskImpl task = ContextHmi.resolveTaskImpl index task := by
  unfold Documents.resolveTaskImpl ContextHmi.resolveTaskImpl
  rw [checkTask_eq h]
  refine bind_congr_ok fun kind hkind => ?_
  rw [effectiveTask_eq h, ok_bind, Documents.resolveKind, ContextHmi.resolveKind,
    resolveOverview_eq h wf fun _ => isSome_of_checkTask hkind,
    resolveAlarms_eq h wf fun _ => isSome_of_checkTask hkind]

end

theorem validateModel_eq [Platform] {model : Json} (hmodel : model.Canonical) :
    Documents.validateModel model = ContextHmi.validateModel model := by
  rw [← matches_eq, Documents.validateModel, ContextHmi.validateModel]
  refine matches_bind (indexModel_matches hmodel) fun docs index hdocs _ => ?_
  obtain ⟨rfl, h⟩ := hdocs
  rw [atKey_of_find? h.modelId, ok_bind, atKey_of_find? h.revision, ok_bind, ← h.assets.length_eq,
    ← h.relationships.length_eq, ← h.tags.length_eq, ← h.alarms.length_eq]
  exact matches_pure rfl

/-- **Reading the documents composes the view of the records**, whatever order the maps are iterated
in, and throws the same exceptions. -/
theorem resolveTask_eq [Platform] {model : Json} (hmodel : model.Canonical) (task : Json) :
    Documents.resolveTask model task = ContextHmi.resolveTask model task := by
  rw [← matches_eq, Documents.resolveTask, ContextHmi.resolveTask]
  refine matches_bind (indexModel_matches hmodel) fun docs index hdocs hindex => ?_
  rw [matches_eq]
  exact resolveTaskImpl_eq hdocs.2 (indexModel_wellFormed hindex) task

end ContextHmi.Documents
