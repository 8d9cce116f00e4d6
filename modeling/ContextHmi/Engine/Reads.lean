import ContextHmi.Engine.Bounds
import ContextHmi.Runtime.Loading

/-!
# What reconciling reads of a view

Behind the checks on entry, `reconcile_view` reads the elements of the previous view with
`value(key, "")`, which throws a JSON type error where the element is no object or the member no
string. Whatever else it throws is a `DomainError`.

* `compareView_isOk_iff`  : when the comparison reads everything it looks at;
* `reconcile_refuses_iff` : reconciling a view only refuses it exactly when all of it can be read.
-/

namespace ContextHmi

open Outcome

/-! ### Reading members -/

/-- `value(key, "")` returns for each of these keys. -/
def Strings (j : Json) (keys : List Bytes) : Prop :=
  j.isObject = true ∧ ∀ k ∈ keys, ∀ v, j.find? k = some v → v.isString = true

/-- `value(key, "")` returns for these keys in turn, until one differs from what it is compared
with; behind the last one `P` counts. -/
def StringsUntil (j : Json) (P : Prop) : List (Bytes × Bytes) → Prop
  | [] => P
  | (k, current) :: rest => Strings j [k] ∧ (fieldOf j k = current → StringsUntil j P rest)

/-- No `DomainError` is thrown. -/
abbrev Faults {α : Type} (x : Result α) : Prop := Throws (fun e => ¬ Error.IsDomain e) x

theorem valueString_isOk_iff {j : Json} {k d : Bytes} :
    (∃ s, j.valueString k d = .ok s) ↔ Strings j [k] := by
  cases j with
  | obj fields =>
    simp only [Json.valueString, Strings, Json.isObject, List.mem_singleton, forall_eq, true_and,
      Json.find?_obj]
    cases Assoc.find? k fields with
    | none => simp
    | some v => cases v <;> simp [Json.getString, Json.isString]
  | _ => simp [Json.valueString, Strings, Json.isObject]

theorem getString_faults (j : Json) : Faults j.getString := by
  unfold Json.getString
  split
  · exact throws_ok _
  · exact throws_error not_false

theorem valueString_faults (j : Json) (k d : Bytes) : Faults (j.valueString k d) := by
  unfold Json.valueString
  split
  · split
    · exact getString_faults _
    · exact throws_ok d
  · exact throws_error not_false

theorem summaryDiffers_isOk_iff {j : Json} {k : Bytes} (current : Bytes) :
    (∃ b, summaryDiffers j k current = .ok b) ↔ Strings j [k] := by
  rw [← valueString_isOk_iff (d := [])]
  simp only [summaryDiffers, bind_eq_ok, pure_eq_ok]
  constructor
  · rintro ⟨_, s, hs, -⟩
    exact ⟨s, hs⟩
  · rintro ⟨s, hs⟩
    exact ⟨_, s, hs, rfl⟩

theorem summaryDiffers_faults (j : Json) (k current : Bytes) :
    Faults (summaryDiffers j k current) :=
  throws_bind (valueString_faults j k []) fun _ _ => throws_pure _

theorem orElse_faults {a b : Result Bool} (ha : Faults a) (hb : Faults b) : Faults (orElse a b) := by
  refine throws_bind ha fun c _ => ?_
  cases c with
  | true => exact throws_pure _
  | false => exact hb

theorem orElse_isOk_iff {j : Json} {k current : Bytes} {rest : Result Bool} {P : Prop}
    (hrest : (∃ b, rest = .ok b) ↔ P) :
    (∃ b, orElse (summaryDiffers j k current) rest = .ok b) ↔
      Strings j [k] ∧ (fieldOf j k = current → P) := by
  rw [← hrest, ← valueString_isOk_iff (d := [])]
  simp only [orElse, summaryDiffers, bind_eq_ok, pure_eq_ok]
  constructor
  · rintro ⟨b, _, ⟨s, hs, rfl⟩, h⟩
    refine ⟨⟨s, hs⟩, fun hsame => ⟨b, ?_⟩⟩
    rw [fieldOf_of_valueString hs] at hsame
    simpa [hsame] using h
  · rintro ⟨⟨s, hs⟩, h⟩
    by_cases hsame : s = current
    · obtain ⟨b, hb⟩ := h ((fieldOf_of_valueString hs).trans hsame)
      exact ⟨b, _, ⟨s, hs, rfl⟩, by simpa [hsame] using hb⟩
    · exact ⟨true, _, ⟨s, hs, rfl⟩, by simp [hsame]⟩

/-! ### What the comparison reads -/

/-- What comparing a dependency with the alarm it is on reads. -/
def DefinitionReads (d : Json) (alarm : Alarm) : Prop :=
  d.find? "alarm_definition" = none → StringsUntil d
    (((d.find? "threshold").getD .null).eqv alarm.threshold = true → Strings d ["severity"])
    [("alarm_owner", alarm.assetId), ("alarm_name", alarm.name), ("tag_id", alarm.tagId),
      ("operator", alarm.operator)]

/-- What comparing a component with the relationship it was drawn from reads. -/
def RelationshipReads (c : Json) (rel : Relationship) : Prop :=
  StringsUntil c (Strings c ["relationship_to"])
    [("relationship_kind", rel.kind), ("relationship_from", rel.fromId)]

theorem definitionDiffers_isOk_iff {d : Json} {alarm : Alarm} :
    (∃ b, definitionDiffers d alarm = .ok b) ↔ DefinitionReads d alarm := by
  unfold definitionDiffers DefinitionReads
  cases hdefinition : d.find? "alarm_definition" with
  | some definition => simp
  | none =>
    have hlast : (∃ b, orElse
        (.ok (! ((d.find? "threshold").getD .null).eqv alarm.threshold))
        (summaryDiffers d "severity" alarm.severity) = .ok b) ↔
        (((d.find? "threshold").getD .null).eqv alarm.threshold = true → Strings d ["severity"]) := by
      rw [← summaryDiffers_isOk_iff alarm.severity]
      cases ((d.find? "threshold").getD .null).eqv alarm.threshold <;> simp [orElse]
    simp only [StringsUntil, forall_const]
    exact orElse_isOk_iff (orElse_isOk_iff (orElse_isOk_iff (orElse_isOk_iff hlast)))

theorem definitionDiffers_faults (d : Json) (alarm : Alarm) : Faults (definitionDiffers d alarm) := by
  unfold definitionDiffers
  split
  · exact throws_ok _
  · refine orElse_faults (summaryDiffers_faults _ _ _) (orElse_faults (summaryDiffers_faults _ _ _)
      (orElse_faults (summaryDiffers_faults _ _ _) (orElse_faults (summaryDiffers_faults _ _ _)
        (orElse_faults (throws_ok _) (summaryDiffers_faults _ _ _)))))

theorem relationshipDiffers_isOk_iff {c : Json} {rel : Relationship} :
    (∃ b, relationshipDiffers c rel = .ok b) ↔ RelationshipReads c rel :=
  orElse_isOk_iff (orElse_isOk_iff (summaryDiffers_isOk_iff _))

theorem relationshipDiffers_faults (c : Json) (rel : Relationship) :
    Faults (relationshipDiffers c rel) :=
  orElse_faults (summaryDiffers_faults _ _ _)
    (orElse_faults (summaryDiffers_faults _ _ _) (summaryDiffers_faults _ _ _))

section
variable [Platform] {index : ModelIndex} (wf : index.WellFormed) (htext : index.IsText)

include wf htext in
theorem checkTagDependency_faults (entry : Bytes × Json) (f : Findings) :
    Faults (checkTagDependency index f entry) := by
  unfold checkTagDependency
  simp only
  split
  · exact throws_pure _
  · rename_i tag htag
    have hfingerprint : ∃ f, tagFingerprint tag = .ok f :=
      tagFingerprint_isOk_iff.mpr (htext.tags tag (wf.tag?_eq_some.mp htag).1)
    split
    · refine throws_bind (valueString_faults _ _ _) fun _ _ => ?_
      exact throws_bind (throws_of_ok hfingerprint) fun _ _ => throws_pure _
    · exact throws_pure _

include wf htext in
theorem checkTagDependency_isOk_iff {x : Bytes} {d : Json} (f : Findings) :
    (∃ f', checkTagDependency index f (x, d) = .ok f') ↔
      ∀ tag, index.tag? x = some tag → bindingDiffers d tag = true → Strings d ["fingerprint"] := by
  simp only [checkTagDependency]
  cases htag : index.tag? x with
  | none => simp
  | some tag =>
    simp only [Option.some.injEq, forall_eq']
    by_cases hdiffers : bindingDiffers d tag = true
    · obtain ⟨fingerprint, hfingerprint⟩ :=
        tagFingerprint_isOk_iff.mpr (htext.tags tag (wf.tag?_eq_some.mp htag).1)
      simp only [hdiffers, if_true, bind_eq_ok, pure_eq_ok, forall_const,
        ← valueString_isOk_iff (d := [])]
      constructor
      · rintro ⟨_, s, hs, -⟩
        exact ⟨s, hs⟩
      · rintro ⟨s, hs⟩
        exact ⟨_, s, hs, fingerprint, hfingerprint, rfl⟩
    · simp [hdiffers]

omit [Platform] in
theorem checkAlarmDependency_faults (entry : Bytes × Json) (f : Findings) :
    Faults (checkAlarmDependency index f entry) := by
  unfold checkAlarmDependency
  simp only
  split
  · exact throws_pure _
  · refine throws_bind (definitionDiffers_faults _ _) fun differs _ => ?_
    cases differs <;> exact throws_pure _

omit [Platform] in
theorem checkAlarmDependency_isOk_iff {x : Bytes} {d : Json} (f : Findings) :
    (∃ f', checkAlarmDependency index f (x, d) = .ok f') ↔
      ∀ alarm, index.alarm? x = some alarm → DefinitionReads d alarm := by
  simp only [checkAlarmDependency]
  cases halarm : index.alarm? x with
  | none => simp
  | some alarm =>
    simp only [Option.some.injEq, forall_eq', ← definitionDiffers_isOk_iff, bind_eq_ok]
    constructor
    · rintro ⟨_, b, hb, -⟩
      exact ⟨b, hb⟩
    · rintro ⟨b, hb⟩
      cases b with
      | true => exact ⟨_, true, hb, rfl⟩
      | false => exact ⟨_, false, hb, rfl⟩

omit [Platform] in
theorem checkRelationship_faults (c : Json) (f : Findings) : Faults (checkRelationship index f c) := by
  unfold checkRelationship
  split
  · split
    · exact throws_pure _
    · refine throws_bind (relationshipDiffers_faults _ _) fun differs _ => ?_
      cases differs <;> exact throws_pure _
  · exact throws_ok f

omit [Platform] in
theorem checkRelationship_isOk_iff {c : Json} (f : Findings) :
    (∃ f', checkRelationship index f c = .ok f') ↔ ∀ x rel,
      c.find? "relationship_id" = some (.str x) → index.relationship? x = some rel →
        RelationshipReads c rel := by
  unfold checkRelationship
  split
  · rename_i x hx
    rw [hx]
    simp only [Option.some.injEq, Json.str.injEq]
    cases hrel : index.relationship? x with
    | none =>
      refine iff_of_true ⟨_, rfl⟩ ?_
      rintro _ rel rfl hrel'
      cases hrel.symm.trans hrel'
    | some rel =>
      have hread : (∃ b, relationshipDiffers c rel = .ok b) ↔ ∀ x' rel', x = x' →
          index.relationship? x' = some rel' → RelationshipReads c rel' := by
        rw [relationshipDiffers_isOk_iff]
        constructor
        · rintro h _ rel' rfl hrel'
          exact Option.some.inj (hrel.symm.trans hrel') ▸ h
        · exact fun h => h x rel rfl hrel
      rw [← hread]
      simp only [bind_eq_ok]
      constructor
      · rintro ⟨_, b, hb, -⟩
        exact ⟨b, hb⟩
      · rintro ⟨b, hb⟩
        cases b with
        | true => exact ⟨_, true, hb, rfl⟩
        | false => exact ⟨_, false, hb, rfl⟩
  · rename_i hnone
    simp only [Except.ok.injEq, exists_eq', true_iff]
    exact fun x rel hx => absurd hx (hnone x)

/-- What comparing components and dependencies with a model reads. -/
structure ComparisonReads (index : ModelIndex) (components dependencies : List Json) : Prop where
  tags : ∀ x d tag, Assoc.find? x (oldDependencies dependencies).tags = some d →
    index.tag? x = some tag → bindingDiffers d tag = true → Strings d ["fingerprint"]
  alarms : ∀ x d alarm, Assoc.find? x (oldDependencies dependencies).alarms = some d →
    index.alarm? x = some alarm → DefinitionReads d alarm
  relationships : ∀ c ∈ components, ∀ x rel, c.find? "relationship_id" = some (.str x) →
    index.relationship? x = some rel → RelationshipReads c rel

include wf htext in
theorem compareView_faults (changes issues components dependencies : List Json) :
    Faults (compareView index changes issues components dependencies) := by
  unfold compareView
  refine throws_bind (throws_foldlM (fun entry _ f =>
    checkTagDependency_faults wf htext entry f) _) fun _ _ => ?_
  refine throws_bind (throws_foldlM (fun entry _ f => checkAlarmDependency_faults entry f) _)
    fun _ _ => ?_
  exact throws_foldlM (fun c _ f => checkRelationship_faults c f) _

include wf htext in
/-- **A comparison fails only on what it reads.** -/
theorem compareView_isOk_iff {changes issues components dependencies : List Json} :
    (∃ f, compareView index changes issues components dependencies = .ok f) ↔
      ComparisonReads index components dependencies := by
  have htags := fun f => foldlM_isOk_iff
    (l := bucketed (oldDependencies dependencies).tags) (f := checkTagDependency index)
    (fun entry _ f => checkTagDependency_isOk_iff wf htext (x := entry.1) (d := entry.2) f) f
  have halarms := fun f => foldlM_isOk_iff
    (l := bucketed (oldDependencies dependencies).alarms) (f := checkAlarmDependency index)
    (fun entry _ f => checkAlarmDependency_isOk_iff (x := entry.1) (d := entry.2) f) f
  have hrelationships := fun f => foldlM_isOk_iff (l := components) (f := checkRelationship index)
    (fun c _ f => checkRelationship_isOk_iff f) f
  simp only [Prod.forall, mem_bucketed] at htags halarms
  simp only [compareView, bind_eq_ok]
  constructor
  · rintro ⟨f, f₁, h₁, f₂, h₂, h₃⟩
    exact ⟨fun x d tag hd => (htags _).mp ⟨f₁, h₁⟩ x d hd tag,
      fun x d alarm hd => (halarms _).mp ⟨f₂, h₂⟩ x d hd alarm, (hrelationships _).mp ⟨f, h₃⟩⟩
  · intro h
    obtain ⟨f₁, h₁⟩ := (htags _).mpr fun x d hd tag => h.tags x d tag hd
    obtain ⟨f₂, h₂⟩ := (halarms f₁).mpr fun x d hd alarm => h.alarms x d alarm hd
    obtain ⟨f, h₃⟩ := (hrelationships f₂).mpr h.relationships
    exact ⟨f, f₁, h₁, f₂, h₂, h₃⟩

end

/-! ### What the merge reads -/

theorem mergeComponent_faults (f : Findings) (fresh : List Json) (c : Json) :
    Faults (mergeComponent f fresh c) := by
  unfold mergeComponent
  split
  · refine throws_bind (valueString_faults _ _ _) fun _ _ => ?_
    refine throws_bind (valueString_faults _ _ _) fun _ _ => ?_
    refine throws_bind (valueString_faults _ _ _) fun _ _ => ?_
    exact throws_bind (valueString_faults _ _ _) fun _ _ => throws_pure _
  · exact throws_ok none

theorem mergeComponent_isOk_iff (f : Findings) (fresh : List Json) {c : Json} :
    (∃ r, mergeComponent f fresh c = .ok r) ↔ ∀ x, c.find? "id" = some (.str x) →
      Strings c ["tag_id", "alarm_id", "relationship_id", "status"] := by
  unfold mergeComponent
  split
  · rename_i x hx
    have hread : Strings c ["tag_id", "alarm_id", "relationship_id", "status"] ↔
        Strings c ["tag_id"] ∧ Strings c ["alarm_id"] ∧ Strings c ["relationship_id"] ∧
          Strings c ["status"] := by
      simp only [Strings, List.forall_mem_cons, List.not_mem_nil, false_implies, implies_true,
        and_true]
      tauto
    simp only [hx, Option.some.injEq, Json.str.injEq, forall_eq', hread, bind_eq_ok, pure_eq_ok,
      ← valueString_isOk_iff (d := [])]
    constructor
    · rintro ⟨_, t, ht, a, ha, r, hr, st, hst, -⟩
      exact ⟨⟨t, ht⟩, ⟨a, ha⟩, ⟨r, hr⟩, st, hst⟩
    · rintro ⟨⟨t, ht⟩, ⟨a, ha⟩, ⟨r, hr⟩, st, hst⟩
      exact ⟨_, t, ht, a, ha, r, hr, st, hst, rfl⟩
  · rename_i hnone
    exact iff_of_true ⟨_, rfl⟩ fun x hx => absurd hx (hnone x)

theorem mergeComponents_faults (f : Findings) (fresh old : List Json) :
    Faults (mergeComponents f fresh old) :=
  throws_bind (throws_mapM fun c _ => mergeComponent_faults f fresh c) fun _ _ => throws_pure _

theorem mergeComponents_isOk_iff {f : Findings} {fresh old : List Json} :
    (∃ out, mergeComponents f fresh old = .ok out) ↔ ∀ c ∈ old, ∀ x,
      c.find? "id" = some (.str x) →
        Strings c ["tag_id", "alarm_id", "relationship_id", "status"] := by
  simp only [← mergeComponent_isOk_iff f fresh, ← mapM_isOk_iff, mergeComponents,
    bind_eq_ok, pure_eq_ok]
  constructor
  · rintro ⟨_, kept, hkept, -⟩
    exact ⟨kept, hkept⟩
  · rintro ⟨kept, hkept⟩
    exact ⟨_, kept, hkept, rfl⟩

theorem mergeDependency_faults (f : Findings) (fresh : List Json) (d : Json) :
    Faults (mergeDependency f fresh d) := by
  unfold mergeDependency
  split
  · exact throws_bind (valueString_faults _ _ _) fun _ _ => throws_pure _
  · exact throws_ok none

theorem mergeDependency_isOk_iff (f : Findings) (fresh : List Json) {d : Json} :
    (∃ r, mergeDependency f fresh d = .ok r) ↔ ∀ x, d.find? "tag_id" = some (.str x) →
      Strings d ["alarm_id"] := by
  unfold mergeDependency
  split
  · rename_i x hx
    simp only [hx, Option.some.injEq, Json.str.injEq, forall_eq', bind_eq_ok, pure_eq_ok,
      ← valueString_isOk_iff (d := [])]
    constructor
    · rintro ⟨_, a, ha, -⟩
      exact ⟨a, ha⟩
    · rintro ⟨a, ha⟩
      exact ⟨_, a, ha, rfl⟩
  · rename_i hnone
    exact iff_of_true ⟨_, rfl⟩ fun x hx => absurd hx (hnone x)

theorem mergedDependencies_faults (f : Findings) (fresh : List Json) (old : Option (List Json)) :
    Faults (mergedDependencies f fresh old) := by
  cases old with
  | none => exact throws_ok fresh
  | some old =>
    exact throws_bind (throws_mapM fun d _ => mergeDependency_faults f fresh d) fun _ _ =>
      throws_pure _

theorem mergedDependencies_isOk_iff {f : Findings} {fresh : List Json} {old : Option (List Json)} :
    (∃ out, mergedDependencies f fresh old = .ok out) ↔ ∀ d ∈ old.getD [], ∀ x,
      d.find? "tag_id" = some (.str x) → Strings d ["alarm_id"] := by
  cases old with
  | none => exact iff_of_true ⟨fresh, rfl⟩ (List.forall_mem_nil _)
  | some old =>
    simp only [← mergeDependency_isOk_iff f fresh, Option.getD_some, ← mapM_isOk_iff,
      mergedDependencies, mergeDependencies, bind_eq_ok, pure_eq_ok]
    constructor
    · rintro ⟨_, kept, hkept, -⟩
      exact ⟨kept, hkept⟩
    · rintro ⟨kept, hkept⟩
      exact ⟨_, kept, hkept, rfl⟩

/-! ### What the status reads -/

theorem hasConflictStatus_faults (j : Json) : Faults (hasConflictStatus j) :=
  throws_bind (valueString_faults _ _ _) fun _ _ => throws_pure _

theorem hasConflictStatus_isOk_iff {j : Json} :
    (∃ b, hasConflictStatus j = .ok b) ↔ Strings j ["status"] := by
  simp only [hasConflictStatus, ← valueString_isOk_iff (d := []), bind_eq_ok, pure_eq_ok]
  exact ⟨fun ⟨_, s, hs, _⟩ => ⟨s, hs⟩, fun ⟨s, hs⟩ => ⟨_, s, hs, rfl⟩⟩

theorem isConflictChange_faults (j : Json) : Faults (isConflictChange j) :=
  throws_bind (valueString_faults _ _ _) fun _ _ => throws_pure _

theorem isConflictChange_isOk_iff {j : Json} :
    (∃ b, isConflictChange j = .ok b) ↔ Strings j ["kind"] := by
  simp only [isConflictChange, ← valueString_isOk_iff (d := []), bind_eq_ok, pure_eq_ok]
  exact ⟨fun ⟨_, s, hs, _⟩ => ⟨s, hs⟩, fun ⟨s, hs⟩ => ⟨_, s, hs, rfl⟩⟩

theorem priorConflict_faults (view : Json) (previous : Previous) :
    Faults (priorConflict view previous) := by
  unfold priorConflict
  refine throws_bind (hasConflictStatus_faults view) fun _ _ => ?_
  refine throws_bind (throws_mapM fun change _ => isConflictChange_faults change) fun _ _ => ?_
  exact throws_bind (throws_mapM fun c _ => hasConflictStatus_faults c) fun _ _ => throws_pure _

theorem priorConflict_isOk_iff {view : Json} {previous : Previous} :
    (∃ b, priorConflict view previous = .ok b) ↔ Strings view ["status"] ∧
      (∀ change ∈ previous.changes.getD [], Strings change ["kind"]) ∧
      ∀ c ∈ previous.components, Strings c ["status"] := by
  simp only [← hasConflictStatus_isOk_iff, ← isConflictChange_isOk_iff, ← mapM_isOk_iff,
    priorConflict, bind_eq_ok, pure_eq_ok]
  constructor
  · rintro ⟨_, b, hb, changes, hchanges, components, hcomponents, -⟩
    exact ⟨⟨b, hb⟩, ⟨changes, hchanges⟩, components, hcomponents⟩
  · rintro ⟨⟨b, hb⟩, ⟨changes, hchanges⟩, components, hcomponents⟩
    exact ⟨_, b, hb, changes, hchanges, components, hcomponents, rfl⟩

/-! ### What is read at all -/

/-- The id an old component is kept under. -/
def recordedId (c : Json) : Option Bytes :=
  match c.find? "id" with
  | some (.str x) => some x
  | _ => none

theorem mergeComponent_id {f : Findings} {fresh : List Json} {c : Json}
    {r : Option (Bytes × Json)} (h : mergeComponent f fresh c = .ok r) :
    r.map (·.1) = recordedId c := by
  unfold mergeComponent at h
  split at h
  · rename_i x hx
    simp only [bind_eq_ok, pure_eq_ok] at h
    obtain ⟨_, -, _, -, _, -, _, -, rfl⟩ := h
    rw [recordedId, hx]
    rfl
  · rename_i hnone
    obtain rfl := Except.ok.inj h
    unfold recordedId
    split
    · rename_i x hx
      exact absurd hx (hnone x)
    · rfl

theorem length_mergeComponents {f : Findings} {fresh old out : List Json}
    (h : mergeComponents f fresh old = .ok out) :
    out.length = (old.filterMap recordedId).length +
      (fresh.filter fun current => fieldOf current "id" ∉ old.filterMap recordedId).length := by
  simp only [mergeComponents, bind_eq_ok, pure_eq_ok] at h
  obtain ⟨kept, hkept, rfl⟩ := h
  have hids : (kept.filterMap id).map (·.1) = old.filterMap recordedId :=
    kept_keys (fun _ _ => mergeComponent_id) hkept
  have hlength : (kept.filterMap id).length = (old.filterMap recordedId).length := by
    rw [← hids, List.length_map]
  rw [List.length_append, List.length_map, hlength, hids]

/-- What is read once the components have been counted. -/
structure StatusReads (view : Json) : Prop where
  dependencies : ∀ d ∈ SavedParts.itemsOf view "dependencies", ∀ x,
    d.find? "tag_id" = some (.str x) → Strings d ["alarm_id"]
  status : Strings view ["status"]
  changes : ∀ change ∈ SavedParts.itemsOf view "changes", Strings change ["kind"]
  components : ∀ c ∈ SavedParts.itemsOf view "components", Strings c ["status"]

/-- Everything that reconciling a view reads can be read. -/
structure Readable (index : ModelIndex) (view : Json) : Prop where
  comparison : ComparisonReads index (SavedParts.itemsOf view "components")
    (SavedParts.itemsOf view "dependencies")
  components : ∀ c ∈ SavedParts.itemsOf view "components", ∀ x, c.find? "id" = some (.str x) →
    Strings c ["tag_id", "alarm_id", "relationship_id", "status"]
  status : ∀ task, view.find? "task" = some task →
    ((SavedParts.itemsOf view "components").filterMap recordedId).length +
      {s : Subject | Selects index task s ∧
        s.id ∉ (SavedParts.itemsOf view "components").filterMap recordedId}.ncard ≤ kMaxComponents →
    StatusReads view

section
variable [Platform]

/-- The view passes the checks on entry, and its task resolves against the model. -/
def Reaches (index : ModelIndex) (view : Json) : Prop :=
  ∃ previous, readPrevious view = .ok previous ∧
    (∀ v, view.find? "model_id" = some v → v.eqv (.str index.modelId) = true) ∧
    (∀ v, previous.task.find? "model_id" = some v → v.eqv (.str index.modelId) = true) ∧
    ∃ fresh, resolveTaskImpl index (previous.task.setFields
      [("model_id", .str index.modelId), ("model_revision", index.revision)]) = .ok fresh

variable {index : ModelIndex} (wf : index.WellFormed) (htext : index.IsText)
include wf htext

omit htext in
theorem length_merged {task task' : Json} {c : Composed} (hc : c.Of index task)
    (hscope : taskScope task = taskScope task') {f : Findings} {old out : List Json}
    (h : mergeComponents f c.components old = .ok out) :
    out.length = (old.filterMap recordedId).length +
      {s : Subject | Selects index task' s ∧ s.id ∉ old.filterMap recordedId}.ncard := by
  rw [length_mergeComponents h]
  exact congrArg _ (length_fresh wf hc hscope hc.components_ids _)

/-- **Reconciling only refuses a view exactly when what it reads of it can be read.** -/
theorem reconcileViewImpl_refuses_iff {view : Json} :
    Refuses (reconcileViewImpl index view) ↔ (Reaches index view → Readable index view) := by
  unfold reconcileViewImpl
  refine (throws_bind_iff (readPrevious_refuses view)).trans ⟨fun h hreaches => ?_,
    fun h previous hprevious => ?_⟩
  · obtain ⟨previous, hprevious, hmodel, htaskModel, fresh, hfresh⟩ := hreaches
    obtain ⟨htask, hobj, hcomps, hdeps, -, hchanges⟩ := readPrevious_parts hprevious
    have hread := (throws_bind_iff (sameModel_refuses _ _ _)).mp (h previous hprevious) ()
      (sameModel_eq_ok.mpr hmodel)
    have hread := (throws_bind_iff (sameModel_refuses _ _ _)).mp hread ()
      (sameModel_eq_ok.mpr htaskModel)
    have hread := (throws_bind_iff (resolveTaskImpl_refuses wf htext _)).mp hread fresh hfresh
    obtain ⟨f, hf, hread⟩ := (throws_bind_iff_of_not (compareView_faults wf htext _ _ _ _)).mp hread
    obtain ⟨out, hout, hread⟩ := (throws_bind_iff_of_not (mergeComponents_faults _ _ _)).mp hread
    have hcomparison := (compareView_isOk_iff wf htext).mp ⟨f, hf⟩
    have hcomponents := mergeComponents_isOk_iff.mp ⟨out, hout⟩
    rw [hcomps, hdeps] at hcomparison
    rw [hcomps] at hcomponents
    refine ⟨hcomparison, hcomponents, fun task ht hfits => ?_⟩
    obtain rfl := Option.some.inj (htask.symm.trans ht)
    obtain ⟨c, hc, rfl⟩ := resolveTaskImpl_eq_ok.mp hfresh
    have hscope := taskScope_setFields hobj (.str index.modelId) index.revision
    have hitems := itemsOf_eq (hc.saved wf).components
    simp only [SavedParts.itemsOf] at hitems
    simp only [hitems, hcomps] at hout
    have hlength := length_merged wf hc hscope hout
    have hfew : ¬ kMaxComponents < out.length := not_lt.mpr (hlength ▸ hfits)
    have hread := (throws_bind_iff (throws_throwIf trivial)).mp hread () (throwIf_of_not _ hfew)
    obtain ⟨deps, hmerged, hread⟩ := (throws_bind_iff_of_not (mergedDependencies_faults _ _ _)).mp hread
    obtain ⟨prior, hprior, hread⟩ := (throws_bind_iff_of_not (priorConflict_faults _ _)).mp hread
    have hdependencies := mergedDependencies_isOk_iff.mp ⟨deps, hmerged⟩
    obtain ⟨hstatus, hkinds, hstatuses⟩ := priorConflict_isOk_iff.mp ⟨prior, hprior⟩
    rw [hdeps] at hdependencies
    rw [hchanges] at hkinds
    rw [hcomps] at hstatuses
    exact ⟨hdependencies, hstatus, hkinds, hstatuses⟩
  · refine throws_bind (sameModel_refuses _ _ _) fun _ hmodel => ?_
    refine throws_bind (sameModel_refuses _ _ _) fun _ htaskModel => ?_
    refine throws_bind (resolveTaskImpl_refuses wf htext _) fun fresh hfresh => ?_
    obtain ⟨htask, hobj, hcomps, hdeps, -, hchanges⟩ := readPrevious_parts hprevious
    have hreadable := h ⟨previous, hprevious, sameModel_eq_ok.mp hmodel, sameModel_eq_ok.mp htaskModel,
      fresh, hfresh⟩
    obtain ⟨c, hc, rfl⟩ := resolveTaskImpl_eq_ok.mp hfresh
    have hscope := taskScope_setFields hobj (.str index.modelId) index.revision
    have hitems := itemsOf_eq (hc.saved wf).components
    simp only [SavedParts.itemsOf] at hitems
    refine throws_bind (throws_of_ok ((compareView_isOk_iff wf htext).mpr ?_)) fun f _ => ?_
    · rw [hcomps, hdeps]
      exact hreadable.comparison
    refine throws_bind (throws_of_ok (mergeComponents_isOk_iff.mpr ?_)) fun out hout => ?_
    · rw [hcomps]
      exact hreadable.components
    refine throws_bind (throws_throwIf trivial) fun _ hfew => ?_
    simp only [hitems, hcomps] at hout
    have hfits := not_lt.mp (throwIf_eq_ok.mp hfew)
    rw [length_merged wf hc hscope hout] at hfits
    have hstatus := hreadable.status _ htask hfits
    refine throws_bind (throws_of_ok (mergedDependencies_isOk_iff.mpr ?_)) fun _ _ => ?_
    · rw [hdeps]
      exact hstatus.dependencies
    refine throws_bind (throws_of_ok (priorConflict_isOk_iff.mpr ⟨hstatus.status, ?_, ?_⟩))
      fun _ _ => ?_
    · rw [hchanges]
      exact hstatus.changes
    · rw [hcomps]
      exact hstatus.components
    exact throws_bind (throws_of_ok (valueString_isOk_iff.mpr hstatus.status)) fun _ _ => throws_pure _

end

/-- **A view is reconciled or refused exactly when what is read of it can be read**: wherever it
passes the checks on entry and its task resolves. -/
theorem reconcile_refuses_iff [Platform] (model : Runtime.AcceptedModel) (view : Json) :
    Refuses (reconcileView model.json view) ↔ (Reaches model.index view → Readable model.index view) := by
  have htext : model.index.IsText := ⟨fun _ => model.tag_isText, fun _ => model.alarm_isText⟩
  rw [reconcileView, model.accepted, ok_bind]
  exact reconcileViewImpl_refuses_iff model.wellFormed htext

/-! ### A view that is not refused -/

section samples

local instance readsPlatform : Platform := samplePlatform

/-- The first model of the steady chain. -/
def steadyAccepted : Runtime.AcceptedModel where
  json := steadyModels 0
  index := indexOf (steadyModels 0)
  accepted := indexModel_eq (by decide +kernel)
  isText := Json.dump_isOk_iff.mp ⟨_, eq_ok_of_isSome (by decide +kernel) []⟩

/-- A view with a change that is no object. -/
def oddView : Json :=
  .object [("task", alarmsTask), ("components", .arr []), ("changes", .arr [.uint 0])]

/-- A change that is no object is read as one. -/
theorem reconcile_faults : reconcileView steadyAccepted.json oddView = .error (.json .type) ∧
    ¬ Refuses (reconcileView steadyAccepted.json oddView) := by
  have hfault : reconcileView steadyAccepted.json oddView = .error (.json .type) :=
    eq_error_of_throwsWith (by decide +kernel)
  exact ⟨hfault, fun h => h _ hfault⟩

end samples

end ContextHmi
