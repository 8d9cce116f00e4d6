import ContextHmi.Engine.Model

/-!
# What the validator accepts

Each field and record check as an equivalence: it returns a value exactly when the document holds
that value and the value is valid, whatever place the check names in its errors.

* `indexModel_eq_ok` : the validator accepts exactly the documents that encode a well-formed index;
* `ModelIndex.WellFormed` : what every accepted index satisfies;
* `tag?_eq_some`, `alarm?_eq_some` : in a well-formed index an id determines its record.
-/

namespace ContextHmi

open Outcome

/-! ### What the field checks accept -/

theorem isText_iff {max : Nat} {s : Bytes} :
    isText max s = true ↔ s ≠ [] ∧ s.length ≤ max ∧ s.any Bytes.isCntrl = false := by
  simp [isText, and_assoc]

theorem required_eq_ok {j v : Json} {k p : Bytes} : required j k p = .ok v ↔ j.find? k = some v := by
  unfold required
  cases j.find? k <;> simp

theorem stringField_eq_ok {j : Json} {k p s : Bytes} {max : Nat} :
    stringField j k p max = .ok s ↔ j.find? k = some (.str s) ∧ isText max s = true := by
  simp only [stringField, bind_eq_ok, required_eq_ok, isText_iff]
  constructor
  · rintro ⟨v, hv, h⟩
    cases v with
    | str t =>
      simp only [bind_eq_ok, throwIf_eq_ok, pure_eq_ok, exists_const] at h
      obtain ⟨hlen, hctl, rfl⟩ := h
      exact ⟨hv, by simpa [and_assoc] using And.intro hlen hctl⟩
    | _ => simp at h
  · rintro ⟨hv, hne, hlen, hctl⟩
    refine ⟨_, hv, ?_⟩
    simp only [bind_eq_ok, throwIf_eq_ok, pure_eq_ok, exists_const, and_true]
    exact ⟨by simp [hne, hlen], by simp [hctl]⟩

theorem identityField_eq_ok {j : Json} {k p s : Bytes} :
    identityField j k p = .ok s ↔
      j.find? k = some (.str s) ∧ isText kMaxString s = true ∧ validIdentity s = true := by
  simp only [identityField, bind_eq_ok, throwIf_eq_ok, pure_eq_ok, stringField_eq_ok, exists_const,
    not_not]
  constructor
  · rintro ⟨t, ⟨hv, ht⟩, hid, rfl⟩
    exact ⟨hv, ht, hid⟩
  · rintro ⟨hv, ht, hid⟩
    exact ⟨s, ⟨hv, ht⟩, hid, rfl⟩

/-- A string the unit check lets through. -/
def isUnit (s : Bytes) : Bool := s.length ≤ kMaxString && !s.any Bytes.isCntrl

theorem unitField_eq_ok {j : Json} {k p s : Bytes} :
    unitField j k p = .ok s ↔ j.find? k = some (.str s) ∧ isUnit s = true := by
  simp only [unitField, bind_eq_ok, required_eq_ok]
  constructor
  · rintro ⟨v, hv, h⟩
    cases v with
    | str t =>
      simp only [bind_eq_ok, throwIf_eq_ok, pure_eq_ok, exists_const] at h
      obtain ⟨hlen, hctl, rfl⟩ := h
      exact ⟨hv, by simpa [isUnit] using And.intro hlen hctl⟩
    | _ => simp at h
  · rintro ⟨hv, ht⟩
    refine ⟨_, hv, ?_⟩
    simpa [isUnit, bind_eq_ok, map_eq_ok] using ht

/-- An object with no member outside `names`. -/
def hasOnly (j : Json) (names : List Bytes) : Prop :=
  j.isObject = true ∧ ∀ f ∈ j.fields, f.1 ∈ names

theorem allowOnly_eq_ok {j : Json} {names : List Bytes} {p : Bytes} {u : Unit} :
    allowOnly j names p = .ok u ↔ hasOnly j names := by
  simp only [allowOnly, bind_eq_ok, throwIf_eq_ok, exists_const, not_not, hasOnly]
  refine and_congr_right fun _ => ?_
  cases h : j.fields.find? fun item => decide (item.1 ∉ names) with
  | none => simpa using List.find?_eq_none.mp h
  | some f =>
    have hf := List.find?_some h
    have hmem := List.mem_of_find?_eq_some h
    simp only [reduceCtorEq, false_iff, not_forall]
    exact ⟨f, hmem, by simpa using hf⟩

/-- No metadata, or an object whose text is bounded. -/
def hasMetadata [Platform] (j : Json) (max : Nat) : Prop :=
  ∀ metadata, j.find? "metadata" = some metadata →
    metadata.isObject = true ∧ ∃ text, metadata.dump = .ok text ∧ text.length ≤ max

theorem checkMetadata_eq_ok [Platform] {j : Json} {max : Nat} {details : Bytes} {u : Unit} :
    checkMetadata j max details = .ok u ↔ hasMetadata j max := by
  unfold checkMetadata hasMetadata
  cases j.find? "metadata" with
  | none => simp
  | some metadata =>
    simp [bind_eq_ok, throwIf_eq_ok]

theorem boundedArray_eq_ok {j : Json} {k p : Bytes} {max : Nat} {items : List Json} :
    boundedArray j k p max = .ok items ↔ j.find? k = some (.arr items) ∧ items.length ≤ max := by
  simp only [boundedArray, bind_eq_ok, throwIf_eq_ok, pure_eq_ok, required_eq_ok, exists_const]
  constructor
  · rintro ⟨v, hv, hok, rfl⟩
    cases v with
    | arr items => exact ⟨hv, by simpa [Json.isArray, Json.size, Json.items] using hok⟩
    | _ => simp [Json.isArray] at hok
  · rintro ⟨hv, hlen⟩
    exact ⟨_, hv, by simpa [Json.isArray, Json.size] using hlen, rfl⟩

theorem optionalField_eq_ok {j : Json} {k p : Bytes} {max : Nat} {u : Unit} :
    optionalField j k p max = .ok u ↔
      ∀ v, j.find? k = some v → ∃ s, v = .str s ∧ isText max s = true := by
  unfold optionalField
  by_cases h : j.contains k = true
  · obtain ⟨v, hv⟩ := Json.contains_eq_true.mp h
    simp only [if_pos h, map_eq_ok, stringField_eq_ok, hv]
    simp
  · rw [if_neg h]
    have hnone := Json.contains_eq_false.mp (by simpa using h)
    simp [hnone]

/-! ### What the record checks accept -/

structure Source.EncodedBy (source : Source) (j : Json) : Prop where
  only : hasOnly j ["server", "namespace_uri", "identifier"]
  server : j.find? "server" = some (.str source.server)
  namespaceUri : j.find? "namespace_uri" = some (.str source.namespaceUri)
  identifier : j.find? "identifier" = some (.str source.identifier)

structure Source.Valid (source : Source) : Prop where
  server : isText kMaxString source.server = true
  namespaceUri : isText kMaxString source.namespaceUri = true
  identifier : isText kMaxString source.identifier = true

theorem sourceField_eq_ok {j : Json} {p : Bytes} {source : Source} :
    sourceField j p = .ok source ↔
      (∃ s, j.find? "source" = some s ∧ source.EncodedBy s) ∧ source.Valid := by
  simp only [sourceField, bind_eq_ok, required_eq_ok, allowOnly_eq_ok, stringField_eq_ok,
    pure_eq_ok, exists_const]
  constructor
  · rintro ⟨s, hs, honly, a, ⟨ha, hta⟩, b, ⟨hb, htb⟩, c, ⟨hc, htc⟩, rfl⟩
    exact ⟨⟨s, hs, honly, ha, hb, hc⟩, hta, htb, htc⟩
  · rintro ⟨⟨s, hs, honly, ha, hb, hc⟩, hta, htb, htc⟩
    exact ⟨s, hs, honly, _, ⟨ha, hta⟩, _, ⟨hb, htb⟩, _, ⟨hc, htc⟩, rfl⟩

/-- An identifier field's value. -/
def isIdentity (s : Bytes) : Bool := isText kMaxString s && validIdentity s

theorem identityField_iff {j : Json} {k p s : Bytes} :
    identityField j k p = .ok s ↔ j.find? k = some (.str s) ∧ isIdentity s = true := by
  rw [identityField_eq_ok, isIdentity, Bool.and_eq_true]

theorem aliasesFrom_eq_ok {p : Bytes} {i : Nat} {js : List Json} {out : List Bytes} :
    aliasesFrom p i js = .ok out ↔ js = out.map .str ∧ ∀ s ∈ out, isText kMaxString s = true := by
  induction js generalizing i out with
  | nil =>
    simp only [aliasesFrom, Except.ok.injEq]
    constructor
    · rintro rfl
      simp
    · rintro ⟨h, -⟩
      exact (List.map_eq_nil_iff.mp h.symm).symm
  | cons j js ih =>
    cases j with
    | str s =>
      simp only [aliasesFrom, bind_eq_ok, throwIf_eq_ok, pure_eq_ok, exists_const, ih, not_not]
      constructor
      · rintro ⟨hs, rest, ⟨rfl, hrest⟩, rfl⟩
        exact ⟨rfl, by simpa using And.intro hs hrest⟩
      · rintro ⟨h, hout⟩
        cases out with
        | nil => cases h
        | cons t out =>
          simp only [List.map_cons, List.cons.injEq, Json.str.injEq] at h
          obtain ⟨rfl, rfl⟩ := h
          simp only [List.mem_cons, forall_eq_or_imp] at hout
          exact ⟨hout.1, out, ⟨rfl, hout.2⟩, rfl⟩
    | _ =>
      simp only [aliasesFrom, reduceCtorEq, false_iff, not_and]
      intro h
      cases out <;> simp at h

structure Asset.EncodedBy [Platform] (asset : Asset) (j : Json) : Prop where
  only : hasOnly j ["id", "name", "kind", "aliases", "metadata"]
  id : j.find? "id" = some (.str asset.id)
  name : j.find? "name" = some (.str asset.name)
  kind : j.find? "kind" = some (.str asset.kind)
  aliases : j.find? "aliases" = asset.aliases.map Json.strings
  metadata : hasMetadata j 4096

structure Asset.Valid (asset : Asset) : Prop where
  id : isIdentity asset.id = true
  name : isText kMaxString asset.name = true
  kind : isText kMaxString asset.kind = true
  aliases : ∀ l, asset.aliases = some l →
    l.length ≤ kMaxAliases ∧ ∀ s ∈ l, isText kMaxString s = true

theorem aliasesField_eq_ok {j : Json} {p : Bytes} {out : Option (List Bytes)} :
    aliasesField j p = .ok out ↔ j.find? "aliases" = out.map Json.strings ∧
      ∀ l, out = some l → l.length ≤ kMaxAliases ∧ ∀ s ∈ l, isText kMaxString s = true := by
  unfold aliasesField
  cases h : j.find? "aliases" with
  | none => cases out <;> simp
  | some v =>
    simp only [bind_eq_ok, throwIf_eq_ok, exists_const, map_eq_ok, aliasesFrom_eq_ok]
    constructor
    · rintro ⟨hok, l, ⟨hl, htext⟩, rfl⟩
      cases v with
      | arr items =>
        simp only [Json.items] at hl
        subst hl
        refine ⟨rfl, fun l' e => ?_⟩
        obtain rfl := Option.some.inj e
        exact ⟨by simpa [Json.isArray, Json.size] using hok, htext⟩
      | _ => simp [Json.isArray] at hok
    · rintro ⟨hv, hout⟩
      cases out with
      | none => cases hv
      | some l =>
        obtain rfl := Option.some.inj hv
        obtain ⟨hlen, htext⟩ := hout l rfl
        exact ⟨by simpa [Json.strings, Json.isArray, Json.size] using hlen, l, ⟨rfl, htext⟩, rfl⟩

theorem readAsset_eq_ok [Platform] {p : Bytes} {j : Json} {asset : Asset} :
    readAsset p j = .ok asset ↔ asset.EncodedBy j ∧ asset.Valid := by
  simp only [readAsset, bind_eq_ok, allowOnly_eq_ok, identityField_iff, stringField_eq_ok,
    aliasesField_eq_ok, checkMetadata_eq_ok, pure_eq_ok, exists_const]
  constructor
  · rintro ⟨honly, i, ⟨hi, hti⟩, n, ⟨hn, htn⟩, k, ⟨hk, htk⟩, al, ⟨hal, htal⟩, hmeta, rfl⟩
    exact ⟨⟨honly, hi, hn, hk, hal, hmeta⟩, hti, htn, htk, htal⟩
  · rintro ⟨⟨honly, hi, hn, hk, hal, hmeta⟩, hti, htn, htk, htal⟩
    exact ⟨honly, _, ⟨hi, hti⟩, _, ⟨hn, htn⟩, _, ⟨hk, htk⟩, _, ⟨hal, htal⟩, hmeta, rfl⟩

structure Relationship.EncodedBy (rel : Relationship) (j : Json) : Prop where
  only : hasOnly j ["id", "from", "to", "kind", "metadata"]
  id : j.find? "id" = some (.str rel.id)
  fromId : j.find? "from" = some (.str rel.fromId)
  toId : j.find? "to" = some (.str rel.toId)
  kind : j.find? "kind" = some (.str rel.kind)

structure Relationship.Valid (assets : List Asset) (rel : Relationship) : Prop where
  id : isIdentity rel.id = true
  fromId : isIdentity rel.fromId = true
  toId : isIdentity rel.toId = true
  kind : isText kMaxString rel.kind = true
  declared : rel.fromId ∈ assets.map (·.id) ∧ rel.toId ∈ assets.map (·.id)
  distinct : rel.fromId ≠ rel.toId

theorem readRelationship_eq_ok {assets : List Asset} {p : Bytes} {j : Json} {rel : Relationship} :
    readRelationship assets p j = .ok rel ↔ rel.EncodedBy j ∧ rel.Valid assets := by
  simp only [readRelationship, bind_eq_ok, allowOnly_eq_ok, identityField_iff, stringField_eq_ok,
    throwIf_eq_ok, pure_eq_ok, exists_const, not_or, not_not]
  constructor
  · rintro ⟨honly, i, ⟨hi, hti⟩, f, ⟨hf, htf⟩, t, ⟨ht, htt⟩, k, ⟨hk, htk⟩, hdecl, hne, rfl⟩
    exact ⟨⟨honly, hi, hf, ht, hk⟩, hti, htf, htt, htk, hdecl, hne⟩
  · rintro ⟨⟨honly, hi, hf, ht, hk⟩, hti, htf, htt, htk, hdecl, hne⟩
    exact ⟨honly, _, ⟨hi, hti⟩, _, ⟨hf, htf⟩, _, ⟨ht, htt⟩, _, ⟨hk, htk⟩, hdecl, hne, rfl⟩

structure Tag.EncodedBy (tag : Tag) (j : Json) : Prop where
  only : hasOnly j
    ["id", "asset_id", "name", "role", "data_type", "unit", "source", "metadata"]
  id : j.find? "id" = some (.str tag.id)
  assetId : j.find? "asset_id" = some (.str tag.assetId)
  name : j.find? "name" = some (.str tag.name)
  role : j.find? "role" = some (.str tag.role)
  dataType : j.find? "data_type" = some (.str tag.dataType)
  unit : j.find? "unit" = some (.str tag.unit)
  source : ∃ s, j.find? "source" = some s ∧ tag.source.EncodedBy s

structure Tag.Valid (assets : List Asset) (tag : Tag) : Prop where
  id : isIdentity tag.id = true
  assetId : isIdentity tag.assetId = true
  name : isText kMaxString tag.name = true
  role : isText kMaxString tag.role = true
  dataType : isText kMaxString tag.dataType = true
  supported : Bytes.lower tag.dataType ∈ dataTypes
  unit : isUnit tag.unit = true
  measured : isMeasured tag.role → Bytes.lower tag.dataType ∈ numericTypes
  source : tag.source.Valid
  declared : tag.assetId ∈ assets.map (·.id)

theorem readTag_eq_ok {assets : List Asset} {p : Bytes} {j : Json} {tag : Tag} :
    readTag assets p j = .ok tag ↔ tag.EncodedBy j ∧ tag.Valid assets := by
  simp only [readTag, bind_eq_ok, allowOnly_eq_ok, identityField_iff, stringField_eq_ok,
    unitField_eq_ok, sourceField_eq_ok, throwIf_eq_ok, pure_eq_ok, exists_const, not_not, not_and]
  constructor
  · rintro ⟨honly, i, ⟨hi, hti⟩, o, ⟨ho, hto⟩, n, ⟨hn, htn⟩, r, ⟨hr, htr⟩, d, ⟨hd, htd⟩, hsup,
      u, ⟨hu, htu⟩, hmeas, s, ⟨hs, hts⟩, hdecl, rfl⟩
    exact ⟨⟨honly, hi, ho, hn, hr, hd, hu, hs⟩, hti, hto, htn, htr, htd, hsup, htu, hmeas, hts,
      hdecl⟩
  · rintro ⟨⟨honly, hi, ho, hn, hr, hd, hu, hs⟩, hti, hto, htn, htr, htd, hsup, htu, hmeas, hts,
      hdecl⟩
    exact ⟨honly, _, ⟨hi, hti⟩, _, ⟨ho, hto⟩, _, ⟨hn, htn⟩, _, ⟨hr, htr⟩, _, ⟨hd, htd⟩, hsup,
      _, ⟨hu, htu⟩, hmeas, _, ⟨hs, hts⟩, hdecl, rfl⟩

structure Alarm.EncodedBy (alarm : Alarm) (j : Json) : Prop where
  only : hasOnly j
    ["id", "asset_id", "name", "tag_id", "operator", "threshold", "severity", "metadata"]
  id : j.find? "id" = some (.str alarm.id)
  assetId : j.find? "asset_id" = some (.str alarm.assetId)
  name : j.find? "name" = some (.str alarm.name)
  tagId : j.find? "tag_id" = some (.str alarm.tagId)
  operator : j.find? "operator" = some (.str alarm.operator)
  threshold : j.find? "threshold" = some alarm.threshold
  severity : j.find? "severity" = some (.str alarm.severity)

structure Alarm.Valid (assets : List Asset) (tags : List Tag) (alarm : Alarm) : Prop where
  id : isIdentity alarm.id = true
  assetId : isIdentity alarm.assetId = true
  name : isText kMaxString alarm.name = true
  tagId : isIdentity alarm.tagId = true
  operator : isText 8 alarm.operator = true
  supported : alarm.operator ∈ operators
  threshold : isFiniteNumber alarm.threshold = true
  severity : isText 16 alarm.severity = true
  ranked : Bytes.lower alarm.severity ∈ severities
  declared : alarm.assetId ∈ assets.map (·.id)
  tag : ∃ tag, tags.find? (·.id = alarm.tagId) = some tag ∧ tag.assetId = alarm.assetId ∧
    Bytes.lower tag.dataType ∈ numericTypes

theorem readAlarm_eq_ok {assets : List Asset} {tags : List Tag} {p : Bytes} {j : Json}
    {alarm : Alarm} :
    readAlarm assets tags p j = .ok alarm ↔ alarm.EncodedBy j ∧ alarm.Valid assets tags := by
  simp only [readAlarm, bind_eq_ok, allowOnly_eq_ok, identityField_iff, stringField_eq_ok,
    required_eq_ok, throwIf_eq_ok, exists_const, not_not]
  constructor
  · rintro ⟨honly, i, ⟨hi, hti⟩, o, ⟨ho, hto⟩, t, ⟨ht, htt⟩, op, ⟨hop, htop⟩, sv, ⟨hsv, htsv⟩,
      n, ⟨hn, htn⟩, th, hth, hfin, hdecl, h⟩
    cases hfind : tags.find? fun x => decide (x.id = t) with
    | none => simp [hfind] at h
    | some tag =>
      simp only [hfind, bind_eq_ok, throwIf_eq_ok, pure_eq_ok, exists_const, not_not, ne_eq] at h
      obtain ⟨howner, hnum, hsup, hrank, rfl⟩ := h
      exact ⟨⟨honly, hi, ho, hn, ht, hop, hth, hsv⟩, hti, hto, htn, htt, htop, hsup, hfin, htsv,
        hrank, hdecl, tag, hfind, howner, hnum⟩
  · rintro ⟨⟨honly, hi, ho, hn, ht, hop, hth, hsv⟩, hti, hto, htn, htt, htop, hsup, hfin, htsv,
        hrank, hdecl, tag, hfind, howner, hnum⟩
    refine ⟨honly, _, ⟨hi, hti⟩, _, ⟨ho, hto⟩, _, ⟨ht, htt⟩, _, ⟨hop, htop⟩, _, ⟨hsv, htsv⟩,
      _, ⟨hn, htn⟩, _, hth, hfin, hdecl, ?_⟩
    simp only [hfind, bind_eq_ok, throwIf_eq_ok, pure_eq_ok, exists_const, not_not, ne_eq]
    exact ⟨howner, hnum, hsup, hrank, trivial⟩

/-! ### What the validator accepts -/

theorem indexAll_onto {α : Type} {key noun : Bytes} {read : Bytes → Json → Result α}
    {id : α → Bytes} {R : α → Json → Prop} {P : α → Prop}
    (hread : ∀ p j a, read p j = .ok a ↔ R a j ∧ P a) {acc out : List α} {js : List Json}
    (hacc : (acc.map id).Nodup) :
    indexAll key noun read id acc js = .ok out ↔
      ∃ as, out = acc ++ as ∧ List.Forall₂ R as js ∧ (∀ a ∈ as, P a) ∧ (out.map id).Nodup := by
  induction js generalizing acc with
  | nil =>
    simp only [indexAll, Except.ok.injEq, List.forall₂_nil_right_iff]
    constructor
    · rintro rfl
      exact ⟨[], by simp, rfl, by simp, hacc⟩
    · rintro ⟨_, rfl, rfl, -, -⟩
      simp
  | cons j js ih =>
    simp only [indexAll, bind_eq_ok, throwIf_eq_ok, exists_const, hread]
    constructor
    · rintro ⟨a, ⟨hR, hP⟩, hnew, h⟩
      have hacc' : ((acc ++ [a]).map id).Nodup := by
        rw [List.map_append, List.nodup_append]
        exact ⟨hacc, by simp, fun x hx y hy e => hnew (by simp_all)⟩
      obtain ⟨as, rfl, hRs, hPs, hnodup⟩ := (ih hacc').mp h
      exact ⟨a :: as, by simp, .cons hR hRs, by simpa using And.intro hP hPs, hnodup⟩
    · rintro ⟨as, rfl, hRs, hPs, hnodup⟩
      obtain ⟨a, as, hR, hRs', rfl⟩ := List.forall₂_cons_right_iff.mp hRs
      simp only [List.mem_cons, forall_eq_or_imp] at hPs
      have happ : acc ++ a :: as = acc ++ [a] ++ as := by simp
      have hnodup' : ((acc ++ [a]).map id).Nodup := by
        rw [happ, List.map_append] at hnodup
        exact (List.nodup_append.mp hnodup).1
      refine ⟨a, ⟨hR, hPs.1⟩, fun hmem => ?_, (ih hnodup').mpr ⟨as, happ, hRs', hPs.2, hnodup⟩⟩
      rw [List.map_append, List.nodup_append] at hnodup'
      exact hnodup'.2.2 _ hmem _ (by simp) rfl

theorem indexAll_eq_ok {α : Type} {key noun : Bytes} {read : Bytes → Json → Result α}
    {id : α → Bytes} {R : α → Json → Prop} {P : α → Prop}
    (hread : ∀ p j a, read p j = .ok a ↔ R a j ∧ P a) {out : List α} {js : List Json} :
    indexAll key noun read id [] js = .ok out ↔
      List.Forall₂ R out js ∧ (∀ a ∈ out, P a) ∧ (out.map id).Nodup := by
  rw [indexAll_onto hread (by simp)]
  simp

theorem indexAssets_eq_ok [Platform] {key noun : Bytes} {js : List Json} {out : List Asset} :
    indexAll key noun readAsset Asset.id [] js = .ok out ↔ List.Forall₂ Asset.EncodedBy out js ∧
      (∀ asset ∈ out, asset.Valid) ∧ (out.map (·.id)).Nodup :=
  indexAll_eq_ok (R := Asset.EncodedBy) fun _ _ _ => readAsset_eq_ok

theorem indexRelationships_eq_ok {assets : List Asset} {key noun : Bytes} {js : List Json}
    {out : List Relationship} :
    indexAll key noun (readRelationship assets) Relationship.id [] js = .ok out ↔
      List.Forall₂ Relationship.EncodedBy out js ∧ (∀ rel ∈ out, rel.Valid assets) ∧
      (out.map (·.id)).Nodup :=
  indexAll_eq_ok (R := Relationship.EncodedBy) fun _ _ _ => readRelationship_eq_ok

theorem indexTags_eq_ok {assets : List Asset} {key noun : Bytes} {js : List Json}
    {out : List Tag} :
    indexAll key noun (readTag assets) Tag.id [] js = .ok out ↔ List.Forall₂ Tag.EncodedBy out js ∧
      (∀ tag ∈ out, tag.Valid assets) ∧ (out.map (·.id)).Nodup :=
  indexAll_eq_ok (R := Tag.EncodedBy) fun _ _ _ => readTag_eq_ok

theorem indexAlarms_eq_ok {assets : List Asset} {tags : List Tag} {key noun : Bytes}
    {js : List Json} {out : List Alarm} :
    indexAll key noun (readAlarm assets tags) Alarm.id [] js = .ok out ↔
      List.Forall₂ Alarm.EncodedBy out js ∧ (∀ alarm ∈ out, alarm.Valid assets tags) ∧
      (out.map (·.id)).Nodup :=
  indexAll_eq_ok (R := Alarm.EncodedBy) fun _ _ _ => readAlarm_eq_ok

/-- A revision the validator lets through. -/
def isRevision (j : Json) : Prop :=
  isNonnegativeInteger j = true ∧ ∃ n, j.getUInt64 = .ok n ∧ n.toNat ≤ 2 ^ 32 - 1

theorem revisionField_eq_ok {j v : Json} :
    revisionField j = .ok v ↔ j.find? "revision" = some v ∧ isRevision v := by
  simp only [revisionField, bind_eq_ok, required_eq_ok, throwIf_eq_ok, pure_eq_ok, exists_const,
    not_not, not_lt, isRevision]
  constructor
  · rintro ⟨v, hv, hint, n, hn, hle, rfl⟩
    exact ⟨hv, hint, n, hn, hle⟩
  · rintro ⟨hv, hint, n, hn, hle⟩
    exact ⟨v, hv, hint, n, hn, hle, rfl⟩

/-- An index whose records are valid, with distinct ids and references that resolve. -/
structure ModelIndex.WellFormed (index : ModelIndex) : Prop where
  modelId : isIdentity index.modelId = true
  revision : isRevision index.revision
  assets_length : index.assets.length ≤ kMaxAssets
  relationships_length : index.relationships.length ≤ kMaxRelationships
  tags_length : index.tags.length ≤ kMaxTags
  alarms_length : index.alarms.length ≤ kMaxAlarms
  assets : ∀ asset ∈ index.assets, asset.Valid
  relationships : ∀ rel ∈ index.relationships, rel.Valid index.assets
  tags : ∀ tag ∈ index.tags, tag.Valid index.assets
  alarms : ∀ alarm ∈ index.alarms, alarm.Valid index.assets index.tags
  assets_nodup : (index.assets.map (·.id)).Nodup
  relationships_nodup : (index.relationships.map (·.id)).Nodup
  tags_nodup : (index.tags.map (·.id)).Nodup
  alarms_nodup : (index.alarms.map (·.id)).Nodup

/-- The member of a key is an array whose elements encode the records. -/
def encodesAll {α : Type} (R : α → Json → Prop) (records : List α) (j : Json) (key : Bytes) : Prop :=
  ∃ items, j.find? key = some (.arr items) ∧ List.Forall₂ R records items

/-- The document of an index, with the members the index does not keep as they must be. -/
structure ModelIndex.EncodedBy [Platform] (index : ModelIndex) (j : Json) : Prop where
  only : hasOnly j ["model_id", "revision", "name", "assets", "relationships", "tags", "alarms",
    "scenario_name", "description", "metadata"]
  modelId : j.find? "model_id" = some (.str index.modelId)
  revision : j.find? "revision" = some index.revision
  name : ∃ s, j.find? "name" = some (.str s) ∧ isText kMaxString s = true
  scenarioName : ∀ v, j.find? "scenario_name" = some v →
    ∃ s, v = .str s ∧ isText kMaxString s = true
  description : ∀ v, j.find? "description" = some v → ∃ s, v = .str s ∧ isText 2048 s = true
  metadata : hasMetadata j (16 * 1024)
  assets : encodesAll Asset.EncodedBy index.assets j "assets"
  relationships : encodesAll Relationship.EncodedBy index.relationships j "relationships"
  tags : encodesAll Tag.EncodedBy index.tags j "tags"
  alarms : encodesAll Alarm.EncodedBy index.alarms j "alarms"

/-- **The validator accepts exactly the documents that encode a well-formed index**, and returns
that index. -/
theorem indexModel_eq_ok [Platform] {j : Json} {index : ModelIndex} :
    indexModel j = .ok index ↔ index.EncodedBy j ∧ index.WellFormed := by
  simp only [indexModel, bind_eq_ok, allowOnly_eq_ok, identityField_iff, stringField_eq_ok,
    revisionField_eq_ok, optionalField_eq_ok, checkMetadata_eq_ok, boundedArray_eq_ok, pure_eq_ok,
    exists_const, indexAssets_eq_ok, indexRelationships_eq_ok, indexTags_eq_ok,
    indexAlarms_eq_ok]
  constructor
  · rintro ⟨honly, mid, ⟨hmid, htmid⟩, rev, ⟨hrev, htrev⟩, nm, hname, hscn, hdesc, hmeta,
      ja, ⟨hja, hla⟩, jr, ⟨hjr, hlr⟩, jt, ⟨hjt, hlt⟩, jl, ⟨hjl, hll⟩,
      as, ⟨has, hva, hda⟩, rs, ⟨hrs, hvr, hdr⟩, ts, ⟨hts, hvt, hdt⟩, ls, ⟨hls, hvl, hdl⟩, rfl⟩
    exact ⟨⟨honly, hmid, hrev, ⟨nm, hname⟩, hscn, hdesc, hmeta, ⟨ja, hja, has⟩, ⟨jr, hjr, hrs⟩,
        ⟨jt, hjt, hts⟩, ⟨jl, hjl, hls⟩⟩,
      htmid, htrev, has.length_eq.trans_le hla, hrs.length_eq.trans_le hlr,
      hts.length_eq.trans_le hlt, hls.length_eq.trans_le hll, hva, hvr, hvt, hvl, hda, hdr, hdt,
      hdl⟩
  · rintro ⟨⟨honly, hmid, hrev, ⟨nm, hname⟩, hscn, hdesc, hmeta, ⟨ja, hja, has⟩, ⟨jr, hjr, hrs⟩,
        ⟨jt, hjt, hts⟩, ⟨jl, hjl, hls⟩⟩,
      htmid, htrev, hla, hlr, hlt, hll, hva, hvr, hvt, hvl, hda, hdr, hdt, hdl⟩
    exact ⟨honly, _, ⟨hmid, htmid⟩, _, ⟨hrev, htrev⟩, nm, hname, hscn, hdesc, hmeta,
      ja, ⟨hja, has.length_eq.symm.trans_le hla⟩, jr, ⟨hjr, hrs.length_eq.symm.trans_le hlr⟩,
      jt, ⟨hjt, hts.length_eq.symm.trans_le hlt⟩, jl, ⟨hjl, hls.length_eq.symm.trans_le hll⟩,
      _, ⟨has, hva, hda⟩, _, ⟨hrs, hvr, hdr⟩, _, ⟨hts, hvt, hdt⟩, _, ⟨hls, hvl, hdl⟩, rfl⟩

theorem indexModel_wellFormed [Platform] {j : Json} {index : ModelIndex}
    (h : indexModel j = .ok index) : index.WellFormed := (indexModel_eq_ok.mp h).2

namespace ModelIndex.WellFormed

variable {index : ModelIndex} (wf : index.WellFormed)
include wf

theorem asset?_eq_some {id : Bytes} {asset : Asset} :
    index.asset? id = some asset ↔ asset ∈ index.assets ∧ asset.id = id :=
  Assoc.findKey_eq_some_iff Asset.id wf.assets_nodup

theorem tag?_eq_some {id : Bytes} {tag : Tag} :
    index.tag? id = some tag ↔ tag ∈ index.tags ∧ tag.id = id :=
  Assoc.findKey_eq_some_iff Tag.id wf.tags_nodup

theorem alarm?_eq_some {id : Bytes} {alarm : Alarm} :
    index.alarm? id = some alarm ↔ alarm ∈ index.alarms ∧ alarm.id = id :=
  Assoc.findKey_eq_some_iff Alarm.id wf.alarms_nodup

theorem alarm_tag {alarm : Alarm} (h : alarm ∈ index.alarms) :
    ∃ tag, index.tag? alarm.tagId = some tag ∧ tag.assetId = alarm.assetId ∧
      Bytes.lower tag.dataType ∈ numericTypes := (wf.alarms alarm h).tag

end ModelIndex.WellFormed

theorem validateModel_isOk [Platform] {j : Json} :
    (∃ summary, validateModel j = .ok summary) ↔ ∃ index, indexModel j = .ok index := by
  simp only [validateModel, bind_eq_ok, pure_eq_ok]
  constructor
  · rintro ⟨_, index, h, -⟩
    exact ⟨index, h⟩
  · rintro ⟨index, h⟩
    exact ⟨_, index, h, rfl⟩

end ContextHmi
