import ContextHmi.Engine.Validation
import ContextHmi.Json.Permuted

/-!
# Models in another order

A model is rearranged by permuting its arrays and the aliases of its assets. Accepted models of which
one rearranges the other have indexes with the same records in another order.

* `rearranged_of_permutes` : the indexes of rearranged models;
* `exists_reordered`       : the relationships of a model can stand in any order;
* `indexModel_permuted`    : a model whose arrays are permuted is accepted as well.
-/

namespace ContextHmi

open Outcome

/-! ### Documents -/

/-- An array member with its elements in another order, each of them replaced by a related one. -/
def permutesMember (R : Json → Json → Prop) (model model' : Json) (key : Bytes) : Prop :=
  ∃ items moved items', model.find? key = some (.arr items) ∧
    model'.find? key = some (.arr items') ∧ items.Perm moved ∧ List.Forall₂ R moved items'

/-- An asset with its aliases in another order. -/
structure PermutesAsset (j j' : Json) : Prop where
  others : ∀ k : Bytes, k ≠ "aliases" → j'.find? k = j.find? k
  aliases : (j.find? "aliases" = none ∧ j'.find? "aliases" = none) ∨
    ∃ l l', j.find? "aliases" = some (.arr l) ∧ j'.find? "aliases" = some (.arr l') ∧ l.Perm l'

/-- A model with its arrays in another order. -/
structure PermutesModel (model model' : Json) : Prop where
  others : ∀ k, k ∉ [bytes "assets", "relationships", "tags", "alarms"] →
    model'.find? k = model.find? k
  assets : permutesMember PermutesAsset model model' "assets"
  relationships : permutesMember Eq model model' "relationships"
  tags : permutesMember Eq model model' "tags"
  alarms : permutesMember Eq model model' "alarms"

/-- A model with its relationships in another order. -/
structure Reorders (model model' : Json) : Prop where
  others : ∀ k : Bytes, k ≠ "relationships" → model'.find? k = model.find? k
  relationships : permutesMember Eq model model' "relationships"

/-! ### Indexes -/

/-- The same asset with its aliases in another order. -/
structure SameAsset (a b : Asset) : Prop where
  id : a.id = b.id
  name : a.name = b.name
  kind : a.kind = b.kind
  aliases : Option.Rel List.Perm a.aliases b.aliases

/-- The same records in another order. -/
structure Rearranged (index index' : ModelIndex) : Prop where
  modelId : index.modelId = index'.modelId
  revision : index.revision = index'.revision
  assets : ∃ moved, index.assets.Perm moved ∧ List.Forall₂ SameAsset moved index'.assets
  relationships : index.relationships.Perm index'.relationships
  tags : index.tags.Perm index'.tags
  alarms : index.alarms.Perm index'.alarms

/-- The same records, with the relationships as listed. -/
abbrev ModelIndex.reorder (index : ModelIndex) (rels : List Relationship) : ModelIndex :=
  { index with relationships := rels }

theorem asset?_congr {index index' : ModelIndex} (h : Rearranged index index')
    (wf : index.WellFormed) (wf' : index'.WellFormed) {id : Bytes} {a : Asset} (ha : index.asset? id = some a) :
    ∃ b, index'.asset? id = some b ∧ SameAsset a b := by
  obtain ⟨hmem, rfl⟩ := wf.asset?_eq_some.mp ha
  obtain ⟨moved, hperm, hsame⟩ := h.assets
  obtain ⟨b, hb, hab⟩ := forall₂_mem_left hsame (hperm.mem_iff.mp hmem)
  exact ⟨b, wf'.asset?_eq_some.mpr ⟨hb, hab.id.symm⟩, hab⟩

theorem forall₂_of_encoded {α : Type} {E : α → Json → Prop} {R : Json → Json → Prop}
    {S : α → α → Prop} (hone : ∀ a b j j', E a j → E b j' → R j j' → S a b) {l l' : List α}
    {items items' : List Json} (hl : List.Forall₂ E l items) (hl' : List.Forall₂ E l' items')
    (h : List.Forall₂ R items items') : List.Forall₂ S l l' := by
  induction h generalizing l l' with
  | nil =>
    cases hl
    cases hl'
    exact .nil
  | cons hR _ ih =>
    cases hl with
    | cons hE hl =>
      cases hl' with
      | cons hE' hl' => exact .cons (hone _ _ _ _ hE hE' hR) (ih hl hl')

theorem perm_of_encoded {α : Type} {E : α → Json → Prop} {R : Json → Json → Prop} {S : α → α → Prop}
    (hone : ∀ a b j j', E a j → E b j' → R j j' → S a b) {l l' : List α} {model model' : Json}
    {key : Bytes} (hl : encodesAll E l model key) (hl' : encodesAll E l' model' key)
    (h : permutesMember R model model' key) : ∃ moved, l.Perm moved ∧ List.Forall₂ S moved l' := by
  obtain ⟨items, hitems, hE⟩ := hl
  obtain ⟨items', hitems', hE'⟩ := hl'
  obtain ⟨source, moved, target, hsource, htarget, hperm, hR⟩ := h
  obtain rfl : items = source := Json.arr.inj (Option.some.inj (hitems.symm.trans hsource))
  obtain rfl : items' = target := Json.arr.inj (Option.some.inj (hitems'.symm.trans htarget))
  have hcomp : Relation.Comp List.Perm (List.Forall₂ E) l moved := by
    rw [← List.forall₂_comp_perm_eq_perm_comp_forall₂]
    exact ⟨items, hE, hperm⟩
  obtain ⟨records, hrecords, hmoved⟩ := hcomp
  exact ⟨records, hrecords, forall₂_of_encoded hone hmoved hE' hR⟩

theorem perm_of_encoded_eq {α : Type} {E : α → Json → Prop} (hone : ∀ a b j, E a j → E b j → a = b)
    {l l' : List α} {model model' : Json} {key : Bytes} (hl : encodesAll E l model key)
    (hl' : encodesAll E l' model' key) (h : permutesMember Eq model model' key) : l.Perm l' := by
  have hsame : ∀ a b j j', E a j → E b j' → j = j' → a = b := by
    intro a b j j' ha hb hj
    subst hj
    exact hone a b j ha hb
  obtain ⟨moved, hperm, hmoved⟩ := perm_of_encoded hsame hl hl' h
  rw [List.forall₂_eq_eq_eq] at hmoved
  exact hmoved ▸ hperm

/-! ### Encodings -/

theorem string_unique {j : Json} {k a b : Bytes} (ha : j.find? k = some (.str a))
    (hb : j.find? k = some (.str b)) : a = b := by
  rw [ha] at hb
  simpa using hb

theorem Source.EncodedBy.unique {a b : Source} {j : Json} (ha : a.EncodedBy j)
    (hb : b.EncodedBy j) : a = b := by
  cases a
  cases b
  rw [Source.mk.injEq]
  exact ⟨string_unique ha.server hb.server, string_unique ha.namespaceUri hb.namespaceUri,
    string_unique ha.identifier hb.identifier⟩

theorem Relationship.EncodedBy.unique (a b : Relationship) (j : Json) (ha : a.EncodedBy j)
    (hb : b.EncodedBy j) : a = b := by
  cases a
  cases b
  rw [Relationship.mk.injEq]
  exact ⟨string_unique ha.id hb.id, string_unique ha.fromId hb.fromId,
    string_unique ha.toId hb.toId, string_unique ha.kind hb.kind⟩

theorem Tag.EncodedBy.unique (a b : Tag) (j : Json) (ha : a.EncodedBy j) (hb : b.EncodedBy j) :
    a = b := by
  obtain ⟨s, hs, hsource⟩ := ha.source
  obtain ⟨s', hs', hsource'⟩ := hb.source
  obtain rfl : s = s' := Option.some.inj (hs.symm.trans hs')
  cases a
  cases b
  rw [Tag.mk.injEq]
  exact ⟨string_unique ha.id hb.id, string_unique ha.assetId hb.assetId,
    string_unique ha.name hb.name, string_unique ha.role hb.role,
    string_unique ha.dataType hb.dataType, string_unique ha.unit hb.unit, hsource.unique hsource'⟩

theorem Alarm.EncodedBy.unique (a b : Alarm) (j : Json) (ha : a.EncodedBy j) (hb : b.EncodedBy j) :
    a = b := by
  have hthreshold := Option.some.inj (ha.threshold.symm.trans hb.threshold)
  cases a
  cases b
  rw [Alarm.mk.injEq]
  exact ⟨string_unique ha.id hb.id, string_unique ha.assetId hb.assetId,
    string_unique ha.name hb.name, string_unique ha.tagId hb.tagId,
    string_unique ha.operator hb.operator, hthreshold, string_unique ha.severity hb.severity⟩

section
variable [Platform]

theorem sameAsset_of_permutes (a b : Asset) (j j' : Json) (ha : a.EncodedBy j) (hb : b.EncodedBy j')
    (h : PermutesAsset j j') : SameAsset a b := by
  have hid := hb.id
  have hname := hb.name
  have hkind := hb.kind
  rw [h.others _ (by simp)] at hid hname hkind
  refine ⟨string_unique ha.id hid, string_unique ha.name hname, string_unique ha.kind hkind, ?_⟩
  have haliases := ha.aliases
  have haliases' := hb.aliases
  rcases h.aliases with ⟨hnone, hnone'⟩ | ⟨l, l', hl, hl', hperm⟩
  · rw [hnone, eq_comm, Option.map_eq_none_iff] at haliases
    rw [hnone', eq_comm, Option.map_eq_none_iff] at haliases'
    rw [haliases, haliases']
    exact .none
  · rw [hl, eq_comm, Option.map_eq_some_iff] at haliases
    rw [hl', eq_comm, Option.map_eq_some_iff] at haliases'
    obtain ⟨names, hnames, hstrings⟩ := haliases
    obtain ⟨names', hnames', hstrings'⟩ := haliases'
    rw [Json.strings, Json.arr.injEq] at hstrings hstrings'
    rw [hnames, hnames']
    rw [← hstrings, ← hstrings', List.map_perm_map_iff] at hperm
    · exact .some hperm
    · exact fun _ _ => Json.str.inj

/-- **The indexes of rearranged models** are rearranged. -/
theorem rearranged_of_permutes {model model' : Json} {index index' : ModelIndex}
    (h : PermutesModel model model') (hindex : indexModel model = .ok index)
    (hindex' : indexModel model' = .ok index') : Rearranged index index' := by
  have henc := (indexModel_eq_ok.mp hindex).1
  have henc' := (indexModel_eq_ok.mp hindex').1
  have hmodelId := henc'.modelId
  have hrevision := henc'.revision
  rw [h.others _ (by simp)] at hmodelId hrevision
  rw [henc.revision] at hrevision
  exact {
    modelId := string_unique henc.modelId hmodelId
    revision := Option.some.inj hrevision
    assets := perm_of_encoded sameAsset_of_permutes henc.assets henc'.assets h.assets
    relationships := perm_of_encoded_eq Relationship.EncodedBy.unique henc.relationships
      henc'.relationships h.relationships
    tags := perm_of_encoded_eq Tag.EncodedBy.unique henc.tags henc'.tags h.tags
    alarms := perm_of_encoded_eq Alarm.EncodedBy.unique henc.alarms henc'.alarms h.alarms }

/-! ### Relationships in another order -/

theorem Asset.EncodedBy.unique (a b : Asset) (j : Json) (ha : a.EncodedBy j) (hb : b.EncodedBy j) :
    a = b := by
  have haliases := ha.aliases
  rw [hb.aliases] at haliases
  have hsame : a.aliases = b.aliases := by
    revert haliases
    generalize a.aliases = l
    generalize b.aliases = l'
    intro haliases
    cases l with
    | none =>
      cases l' with
      | none => rfl
      | some names => cases haliases
    | some names =>
      cases l' with
      | none => cases haliases
      | some names' =>
        rw [Option.map_some, Option.map_some, Option.some.injEq, Json.strings, Json.strings,
          Json.arr.injEq] at haliases
        rw [List.map_injective_iff.mpr (fun _ _ => Json.str.inj) haliases]
  cases a
  cases b
  rw [Asset.mk.injEq]
  exact ⟨string_unique ha.id hb.id, string_unique ha.name hb.name, string_unique ha.kind hb.kind,
    hsame⟩

omit [Platform] in
theorem eq_of_encoded {α : Type} {E : α → Json → Prop} (hone : ∀ a b j, E a j → E b j → a = b)
    {l l' : List α} {model model' : Json} {key : Bytes} (hl : encodesAll E l model key)
    (hl' : encodesAll E l' model' key) (h : model'.find? key = model.find? key) : l = l' := by
  obtain ⟨items, hitems, hE⟩ := hl
  obtain ⟨items', hitems', hE'⟩ := hl'
  rw [h, hitems, Option.some.injEq, Json.arr.injEq] at hitems'
  subst hitems'
  rw [← List.forall₂_eq_eq_eq]
  refine forall₂_of_encoded ?_ hE hE' (List.forall₂_same.mpr fun j _ => rfl)
  intro a b j j' ha hb hj
  subst hj
  exact hone a b j ha hb

variable {model model' : Json} {index index' : ModelIndex}

/-- The index of a model with its relationships in another order. -/
theorem index_of_reorders (h : Reorders model model') (hindex : indexModel model = .ok index)
    (hindex' : indexModel model' = .ok index') :
    index' = index.reorder index'.relationships ∧
      index.relationships.Perm index'.relationships := by
  have henc := (indexModel_eq_ok.mp hindex).1
  have henc' := (indexModel_eq_ok.mp hindex').1
  have hmodelId : index.modelId = index'.modelId := by
    have hfind := henc'.modelId
    rw [h.others _ (by simp)] at hfind
    exact string_unique henc.modelId hfind
  have hrevision : index.revision = index'.revision := by
    have hfind := henc'.revision
    rw [h.others _ (by simp), henc.revision] at hfind
    exact Option.some.inj hfind
  have hassets : index.assets = index'.assets :=
    eq_of_encoded Asset.EncodedBy.unique henc.assets henc'.assets (h.others _ (by simp))
  have htags : index.tags = index'.tags :=
    eq_of_encoded Tag.EncodedBy.unique henc.tags henc'.tags (h.others _ (by simp))
  have halarms : index.alarms = index'.alarms :=
    eq_of_encoded Alarm.EncodedBy.unique henc.alarms henc'.alarms (h.others _ (by simp))
  refine ⟨?_, perm_of_encoded_eq Relationship.EncodedBy.unique henc.relationships
    henc'.relationships h.relationships⟩
  rw [ModelIndex.reorder, hmodelId, hrevision, hassets, htags, halarms]

/-- Every order of the relationships is that of a model. -/
theorem exists_reordered (hindex : indexModel model = .ok index) {rels : List Relationship}
    (h : index.relationships.Perm rels) : ∃ model', Reorders model model' ∧
      indexModel model' = .ok (index.reorder rels) := by
  obtain ⟨henc, wf⟩ := indexModel_eq_ok.mp hindex
  obtain ⟨items, hitems, hE⟩ := henc.relationships
  have hcomp : Relation.Comp (List.Forall₂ fun j rel => Relationship.EncodedBy rel j) List.Perm
      items rels := ⟨index.relationships, hE.flip, h⟩
  rw [List.forall₂_comp_perm_eq_perm_comp_forall₂] at hcomp
  obtain ⟨items', hperm, hE'⟩ := hcomp
  have hobj := henc.only.1
  have hothers : ∀ k : Bytes, k ≠ "relationships" →
      (model.setField "relationships" (.arr items')).find? k = model.find? k :=
    fun k hk => Json.find?_setField_ne _ hk.symm _
  have hmember : (model.setField "relationships" (.arr items')).find? "relationships" =
      some (.arr items') := by
    rw [Json.find?_setField hobj, if_pos rfl]
  refine ⟨model.setField "relationships" (.arr items'), ⟨hothers, items, items', items', hitems,
    hmember, hperm, List.forall₂_same.mpr fun _ _ => rfl⟩, indexModel_eq_ok.mpr ⟨?_, ?_⟩⟩
  · constructor
    case only =>
      refine ⟨Json.isObject_setField hobj _ _, fun f hf => ?_⟩
      rcases Json.mem_keys_setField hobj (List.mem_map_of_mem hf) with hkey | hkey
      · rw [hkey]
        simp
      · obtain ⟨f', hf', hsame⟩ := List.mem_map.mp hkey
        rw [← hsame]
        exact henc.only.2 f' hf'
    case modelId =>
      rw [hothers _ (by simp)]
      exact henc.modelId
    case revision =>
      rw [hothers _ (by simp)]
      exact henc.revision
    case name =>
      rw [hothers _ (by simp)]
      exact henc.name
    case scenarioName =>
      rw [hothers _ (by simp)]
      exact henc.scenarioName
    case description =>
      rw [hothers _ (by simp)]
      exact henc.description
    case metadata =>
      intro metadata hmetadata
      rw [hothers _ (by simp)] at hmetadata
      exact henc.metadata metadata hmetadata
    case assets =>
      obtain ⟨l, hfind, hl⟩ := henc.assets
      exact ⟨l, (hothers _ (by simp)).trans hfind, hl⟩
    case relationships => exact ⟨items', hmember, hE'.flip⟩
    case tags =>
      obtain ⟨l, hfind, hl⟩ := henc.tags
      exact ⟨l, (hothers _ (by simp)).trans hfind, hl⟩
    case alarms =>
      obtain ⟨l, hfind, hl⟩ := henc.alarms
      exact ⟨l, (hothers _ (by simp)).trans hfind, hl⟩
  · exact { wf with
      relationships_length := h.length_eq ▸ wf.relationships_length
      relationships := fun rel hrel => wf.relationships rel (h.mem_iff.mpr hrel)
      relationships_nodup := (h.map _).nodup_iff.mp wf.relationships_nodup }

/-! ### Arrays in any order -/

omit [Platform] in
theorem hasOnly_permuted {j j' : Json} {names : List Bytes} (h : j.Permuted j')
    (hj : hasOnly j names) : hasOnly j' names := by
  refine ⟨h.isObject.trans hj.1, fun f hf => ?_⟩
  have hkey : f.1 ∈ j.keys := h.keys ▸ List.mem_map_of_mem (f := Prod.fst) hf
  obtain ⟨f', hf', hsame⟩ := List.mem_map.mp hkey
  exact hsame ▸ hj.2 f' hf'

theorem hasMetadata_permuted {j j' : Json} {max : Nat} (h : j.Permuted j')
    (hj : hasMetadata j max) : hasMetadata j' max := by
  intro metadata' hmetadata'
  obtain ⟨metadata, hmetadata, hperm⟩ := h.find?_of_some hmetadata'
  obtain ⟨hobj, text, htext, hlength⟩ := hj metadata hmetadata
  obtain ⟨text', htext', hle⟩ := hperm.shorter text htext
  exact ⟨hperm.isObject.trans hobj, text', htext', hle.trans hlength⟩

omit [Platform] in
theorem Source.EncodedBy.permuted {source : Source} {j j' : Json} (hj : source.EncodedBy j)
    (h : j.Permuted j') : source.EncodedBy j' :=
  ⟨hasOnly_permuted h hj.only, h.find?_str hj.server, h.find?_str hj.namespaceUri,
    h.find?_str hj.identifier⟩

omit [Platform] in
theorem Relationship.EncodedBy.permuted {rel : Relationship} {j j' : Json} (hj : rel.EncodedBy j)
    (h : j.Permuted j') : rel.EncodedBy j' :=
  ⟨hasOnly_permuted h hj.only, h.find?_str hj.id, h.find?_str hj.fromId, h.find?_str hj.toId,
    h.find?_str hj.kind⟩

omit [Platform] in
theorem Tag.EncodedBy.permuted {tag : Tag} {j j' : Json} (hj : tag.EncodedBy j)
    (h : j.Permuted j') : tag.EncodedBy j' := by
  obtain ⟨source, hsource, henc⟩ := hj.source
  obtain ⟨source', hsource', hperm⟩ := h.find?_some hsource
  exact ⟨hasOnly_permuted h hj.only, h.find?_str hj.id, h.find?_str hj.assetId,
    h.find?_str hj.name, h.find?_str hj.role, h.find?_str hj.dataType, h.find?_str hj.unit,
    source', hsource', henc.permuted hperm⟩

omit [Platform] in
theorem Alarm.EncodedBy.permuted {alarm : Alarm} {j j' : Json} (hj : alarm.EncodedBy j)
    (hthreshold : isFiniteNumber alarm.threshold = true) (h : j.Permuted j') :
    alarm.EncodedBy j' := by
  obtain ⟨threshold, hfind, hperm⟩ := h.find?_some hj.threshold
  have hnumber : alarm.threshold.isNumber = true := by
    revert hthreshold
    cases alarm.threshold <;> simp [isFiniteNumber, Json.isNumber]
  rw [hperm.eq_of_number hnumber] at hfind
  exact ⟨hasOnly_permuted h hj.only, h.find?_str hj.id, h.find?_str hj.assetId,
    h.find?_str hj.name, h.find?_str hj.tagId, h.find?_str hj.operator, hfind,
    h.find?_str hj.severity⟩

omit [Platform] in
theorem strings_permuted {l : List Bytes} {j' : Json} (h : (Json.strings l).Permuted j') :
    ∃ l', j' = Json.strings l' ∧ l.Perm l' := by
  obtain ⟨moved, items, rfl, hperm, hitems⟩ := h.of_arr
  have hcomp : Relation.Comp List.Perm (List.Forall₂ fun s j => j = Json.str s) l moved := by
    rw [← List.forall₂_comp_perm_eq_perm_comp_forall₂]
    exact ⟨l.map .str, List.forall₂_map_right_iff.mpr (List.forall₂_same.mpr fun _ _ => rfl), hperm⟩
  obtain ⟨l', hl', hmoved⟩ := hcomp
  refine ⟨l', ?_, hl'⟩
  have hstrings : List.Forall₂ (fun s j => j = Json.str s) l' items := by
    clear hperm hl' h
    induction hitems generalizing l' with
    | nil =>
      cases hmoved
      exact .nil
    | cons hj _ ih =>
      cases hmoved with
      | cons hs hrest =>
        subst hs
        exact .cons hj.eq_str (ih _ hrest)
  have hmap : l'.map Json.str = items.map id := forall₂_map_eq (fun _ _ h => h.symm) hstrings
  rw [Json.strings, hmap, List.map_id]

theorem Asset.EncodedBy.permuted {asset : Asset} {j j' : Json} (hj : asset.EncodedBy j)
    (h : j.Permuted j') : ∃ asset', Asset.EncodedBy asset' j' ∧ SameAsset asset asset' := by
  have haliases : ∃ aliases, j'.find? "aliases" = aliases.map Json.strings ∧
      Option.Rel List.Perm asset.aliases aliases := by
    have hfind := hj.aliases
    cases hnames : asset.aliases with
    | none =>
      rw [hnames, Option.map_none] at hfind
      have hrel := h.find? "aliases"
      rw [hfind] at hrel
      refine ⟨none, ?_, .none⟩
      cases hfind' : j'.find? "aliases" with
      | none => rfl
      | some v =>
        rw [hfind'] at hrel
        cases hrel
    | some names =>
      rw [hnames, Option.map_some] at hfind
      obtain ⟨v, hv, hperm⟩ := h.find?_some hfind
      obtain ⟨names', rfl, hnames'⟩ := strings_permuted hperm
      exact ⟨some names', hv, .some hnames'⟩
  obtain ⟨aliases, hfind, hrel⟩ := haliases
  exact ⟨⟨asset.id, asset.name, asset.kind, aliases⟩,
    ⟨hasOnly_permuted h hj.only, h.find?_str hj.id, h.find?_str hj.name, h.find?_str hj.kind, hfind,
      hasMetadata_permuted h hj.metadata⟩, rfl, rfl, rfl, hrel⟩

omit [Platform] in
theorem encodesAll_permuted {α : Type} {E : α → Json → Prop} {S : α → α → Prop} {l : List α}
    {key : Bytes} (hone : ∀ a ∈ l, ∀ j j', E a j → Json.Permuted j j' → ∃ a', E a' j' ∧ S a a')
    (hl : encodesAll E l model key) (h : model.Permuted model') :
    ∃ moved l', l.Perm moved ∧ List.Forall₂ S moved l' ∧ encodesAll E l' model' key := by
  obtain ⟨items, hitems, hE⟩ := hl
  obtain ⟨v, hv, hperm⟩ := h.find?_some hitems
  obtain ⟨shuffled, items', rfl, hshuffled, hitems'⟩ := hperm.of_arr
  have hcomp : Relation.Comp List.Perm (List.Forall₂ E) l shuffled := by
    rw [← List.forall₂_comp_perm_eq_perm_comp_forall₂]
    exact ⟨items, hE, hshuffled⟩
  obtain ⟨moved, hmoved, hforall⟩ := hcomp
  have hall : ∀ a ∈ moved, ∀ j j', E a j → Json.Permuted j j' → ∃ a', E a' j' ∧ S a a' :=
    fun a ha => hone a (hmoved.mem_iff.mpr ha)
  obtain ⟨l', hl', hS⟩ : ∃ l', List.Forall₂ E l' items' ∧ List.Forall₂ S moved l' := by
    clear hmoved hv hitems hshuffled hE hperm
    induction hforall generalizing items' with
    | nil =>
      cases hitems'
      exact ⟨[], .nil, .nil⟩
    | cons hE _ ih =>
      cases hitems' with
      | cons hj hrest =>
        obtain ⟨ha, hrestAll⟩ := List.forall_mem_cons.mp hall
        obtain ⟨a', ha', hSa⟩ := ha _ _ hE hj
        obtain ⟨l', hl', hSl⟩ := ih _ hrest hrestAll
        exact ⟨a' :: l', .cons ha' hl', .cons hSa hSl⟩
  exact ⟨moved, l', hmoved, hS, items', hv, hl'⟩

omit [Platform] in
theorem encodesAll_permuted_eq {α : Type} {E : α → Json → Prop} {l : List α} {key : Bytes}
    (hone : ∀ a ∈ l, ∀ j j', E a j → Json.Permuted j j' → E a j') (hl : encodesAll E l model key)
    (h : model.Permuted model') : ∃ l', l.Perm l' ∧ encodesAll E l' model' key := by
  obtain ⟨moved, l', hmoved, hsame, hl'⟩ := encodesAll_permuted (S := Eq)
    (fun a ha j j' hE hj => ⟨a, hone a ha j j' hE hj, rfl⟩) hl h
  rw [List.forall₂_eq_eq_eq] at hsame
  exact ⟨l', hsame ▸ hmoved, hl'⟩

omit [Platform] in
theorem Rearranged.wellFormed (h : Rearranged index index') (wf : index.WellFormed) :
    index'.WellFormed := by
  obtain ⟨moved, hmoved, hsame⟩ := h.assets
  have hids : (index.assets.map (·.id)).Perm (index'.assets.map (·.id)) := by
    have hmap : moved.map (·.id) = index'.assets.map (·.id) :=
      forall₂_map_eq (fun _ _ hab => hab.id) hsame
    exact hmap ▸ hmoved.map _
  have htags := (h.tags.map (·.id)).nodup_iff.mp wf.tags_nodup
  exact {
    modelId := h.modelId ▸ wf.modelId
    revision := h.revision ▸ wf.revision
    assets_length := by
      rw [← hsame.length_eq, ← hmoved.length_eq]
      exact wf.assets_length
    relationships_length := h.relationships.length_eq ▸ wf.relationships_length
    tags_length := h.tags.length_eq ▸ wf.tags_length
    alarms_length := h.alarms.length_eq ▸ wf.alarms_length
    assets := by
      intro b hb
      obtain ⟨a, ha, hab⟩ := forall₂_mem_right hsame hb
      have hvalid := wf.assets a (hmoved.mem_iff.mpr ha)
      refine ⟨hab.id ▸ hvalid.id, hab.name ▸ hvalid.name, hab.kind ▸ hvalid.kind, fun l hl => ?_⟩
      have haliases := hab.aliases
      rw [hl] at haliases
      cases hnames : a.aliases with
      | none =>
        rw [hnames] at haliases
        cases haliases
      | some names =>
        rw [hnames] at haliases
        cases haliases with
        | some hperm =>
          obtain ⟨hlength, htext⟩ := hvalid.aliases names hnames
          exact ⟨hperm.length_eq ▸ hlength, fun s hs => htext s (hperm.mem_iff.mpr hs)⟩
    relationships := by
      intro rel hrel
      have hvalid := wf.relationships rel (h.relationships.mem_iff.mpr hrel)
      exact { hvalid with declared :=
        ⟨hids.mem_iff.mp hvalid.declared.1, hids.mem_iff.mp hvalid.declared.2⟩ }
    tags := by
      intro tag htag
      have hvalid := wf.tags tag (h.tags.mem_iff.mpr htag)
      exact { hvalid with declared := hids.mem_iff.mp hvalid.declared }
    alarms := by
      intro alarm halarm
      have hvalid := wf.alarms alarm (h.alarms.mem_iff.mpr halarm)
      obtain ⟨tag, htag, hrest⟩ := hvalid.tag
      obtain ⟨hmem, hid⟩ := (Assoc.findKey_eq_some_iff Tag.id wf.tags_nodup).mp htag
      have htag' : index'.tags.find? (fun t => t.id = alarm.tagId) = some tag :=
        (Assoc.findKey_eq_some_iff Tag.id htags).mpr ⟨h.tags.mem_iff.mp hmem, hid⟩
      exact { hvalid with declared := hids.mem_iff.mp hvalid.declared, tag := ⟨tag, htag', hrest⟩ }
    assets_nodup := hids.nodup_iff.mp wf.assets_nodup
    relationships_nodup := (h.relationships.map _).nodup_iff.mp wf.relationships_nodup
    tags_nodup := htags
    alarms_nodup := (h.alarms.map _).nodup_iff.mp wf.alarms_nodup }

omit [Platform] in
theorem optional_permuted {j j' : Json} {k : Bytes} {max : Nat} (h : j.Permuted j')
    (hj : ∀ v, j.find? k = some v → ∃ s, v = .str s ∧ isText max s = true) (v' : Json)
    (hv' : j'.find? k = some v') : ∃ s, v' = .str s ∧ isText max s = true := by
  obtain ⟨v, hv, hperm⟩ := h.find?_of_some hv'
  obtain ⟨s, rfl, hs⟩ := hj v hv
  exact ⟨s, hperm.eq_str, hs⟩

/-- **A model is accepted in any order of its arrays**, with the same records. -/
theorem indexModel_permuted (h : model.Permuted model') (hindex : indexModel model = .ok index) :
    ∃ index', indexModel model' = .ok index' ∧ Rearranged index index' := by
  obtain ⟨henc, wf⟩ := indexModel_eq_ok.mp hindex
  obtain ⟨moved, assets, hmoved, hsame, hassets⟩ :=
    encodesAll_permuted (fun _ _ _ _ hE hj => hE.permuted hj) henc.assets h
  obtain ⟨rels, hrelsPerm, hrels⟩ :=
    encodesAll_permuted_eq (fun _ _ _ _ hE hj => hE.permuted hj) henc.relationships h
  obtain ⟨tags, htagsPerm, htags⟩ :=
    encodesAll_permuted_eq (fun _ _ _ _ hE hj => hE.permuted hj) henc.tags h
  obtain ⟨alarms, halarmsPerm, halarms⟩ := encodesAll_permuted_eq
    (fun a ha _ _ hE hj => hE.permuted (wf.alarms a ha).threshold hj) henc.alarms h
  obtain ⟨revision, hrevision, hrevisionPerm⟩ := h.find?_some henc.revision
  have hnumber : index.revision.isNumber = true := by
    have hinteger := wf.revision.1
    revert hinteger
    cases index.revision <;> simp [isNonnegativeInteger, Json.isNumber]
  rw [hrevisionPerm.eq_of_number hnumber] at hrevision
  obtain ⟨name, hname, hnameText⟩ := henc.name
  have hrearranged : Rearranged index ⟨index.modelId, index.revision, assets, rels, tags, alarms⟩ :=
    ⟨rfl, rfl, ⟨moved, hmoved, hsame⟩, hrelsPerm, htagsPerm, halarmsPerm⟩
  refine ⟨_, indexModel_eq_ok.mpr ⟨?_, hrearranged.wellFormed wf⟩, hrearranged⟩
  exact {
    only := hasOnly_permuted h henc.only
    modelId := h.find?_str henc.modelId
    revision := hrevision
    name := ⟨name, h.find?_str hname, hnameText⟩
    scenarioName := optional_permuted h henc.scenarioName
    description := optional_permuted h henc.description
    metadata := hasMetadata_permuted h henc.metadata
    assets := hassets
    relationships := hrels
    tags := htags
    alarms := halarms }

end

end ContextHmi
