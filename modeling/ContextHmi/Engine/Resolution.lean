import ContextHmi.Engine.Composition
import ContextHmi.Json.Serialize

/-!
# When a task resolves

Composing a view can only fail on what it serializes: once the checks of a task have passed, the
view is composed exactly when the bindings and definitions of what it shows are UTF-8. Text read from
JSON always is.

* `Subject.bind_isOk_iff`       : one subject;
* `resolveTaskImpl_isOk_iff`    : the view of a checked task.
-/

namespace ContextHmi

open Outcome

/-! ### Text in bindings -/

/-- The strings of a tag's binding are UTF-8. -/
def Tag.IsText (tag : Tag) : Prop :=
  ∀ s ∈ [tag.assetId, tag.role, tag.dataType, tag.unit, tag.source.server, tag.source.namespaceUri,
    tag.source.identifier], Utf8.Text s

/-- The strings of an alarm's definition are UTF-8. -/
def Alarm.IsText (alarm : Alarm) : Prop :=
  ∀ s ∈ [alarm.assetId, alarm.name, alarm.tagId, alarm.operator, alarm.severity], Utf8.Text s

def Subject.IsText (s : Subject) : Prop :=
  s.tag.IsText ∧ ∀ alarm, s.alarm = some alarm → alarm.IsText

theorem tagBindingSnapshot_isText {tag : Tag} : (tagBindingSnapshot tag).IsText ↔ tag.IsText := by
  have hkeys : ∀ s ∈ ["owner", "role", "data_type", "unit", "source", "server", "namespace_uri",
      "identifier"], Utf8.Text (bytes s) := by
    intro s hs
    refine Utf8.text_bytes ?_
    revert s
    decide
  simp only [List.forall_mem_cons, List.not_mem_nil, false_implies, implies_true, and_true] at hkeys
  obtain ⟨howner, hrole, htype, hunit, hsource, hserver, huri, hid⟩ := hkeys
  simp only [tagBindingSnapshot_eq, Source.toJson_eq, Json.isText_obj, List.forall_mem_cons,
    Json.isText_str, howner, hrole, htype, hunit, hsource, hserver, huri, hid, true_and,
    List.not_mem_nil, false_implies, implies_true, and_true, Tag.IsText]
  tauto

theorem alarmDefinitionSnapshot_isText {alarm : Alarm} (h : isFiniteNumber alarm.threshold = true) :
    (alarmDefinitionSnapshot alarm).IsText ↔ alarm.IsText := by
  have hkeys : ∀ s ∈ ["name", "operator", "owner", "severity", "tag_id", "threshold"],
      Utf8.Text (bytes s) := by
    intro s hs
    refine Utf8.text_bytes ?_
    revert s
    decide
  have hthreshold : alarm.threshold.IsText := by
    cases hnumber : alarm.threshold with
    | int i => exact .int i
    | uint n => exact .uint n
    | float x => exact .float x
    | _ => simp [hnumber, isFiniteNumber] at h
  simp only [List.forall_mem_cons, List.not_mem_nil, false_implies, implies_true, and_true] at hkeys
  obtain ⟨hname, hop, howner, hseverity, htag, hkey⟩ := hkeys
  simp only [alarmDefinitionSnapshot_eq, Json.isText_obj, List.forall_mem_cons, Json.isText_str,
    hname, hop, howner, hseverity, htag, hkey, hthreshold, true_and, List.not_mem_nil,
    false_implies, implies_true, and_true, Alarm.IsText]
  tauto

section
variable [Platform]

theorem tagFingerprint_isOk_iff {tag : Tag} : (∃ f, tagFingerprint tag = .ok f) ↔ tag.IsText := by
  rw [← tagBindingSnapshot_isText, ← Json.dump_isOk_iff, tagFingerprint]
  constructor
  · rintro ⟨f, h⟩
    obtain ⟨text, htext, -⟩ := map_eq_ok.mp h
    exact ⟨text, htext⟩
  · rintro ⟨text, htext⟩
    exact ⟨_, map_eq_ok.mpr ⟨text, htext, rfl⟩⟩

theorem alarmDefinitionFingerprint_isOk_iff {alarm : Alarm}
    (h : isFiniteNumber alarm.threshold = true) :
    (∃ f, alarmDefinitionFingerprint alarm = .ok f) ↔ alarm.IsText := by
  rw [← alarmDefinitionSnapshot_isText h, ← Json.dump_isOk_iff, alarmDefinitionFingerprint]
  constructor
  · rintro ⟨f, h⟩
    obtain ⟨text, htext, -⟩ := map_eq_ok.mp h
    exact ⟨text, htext⟩
  · rintro ⟨text, htext⟩
    exact ⟨_, map_eq_ok.mpr ⟨text, htext, rfl⟩⟩

/-- **A subject is shown exactly when its binding and definition are UTF-8.** -/
theorem Subject.bind_isOk_iff {index : ModelIndex} (wf : index.WellFormed) {kind anchor : Bytes}
    {roles : List Bytes} {s : Subject} (hs : s.Selected index kind anchor roles) :
    (∃ b, s.bind index = .ok b) ↔ s.IsText := by
  obtain ⟨tag, alarm⟩ := s
  cases alarm with
  | none =>
    obtain ⟨owner, howner⟩ : ∃ owner, assetName index tag.assetId = .ok owner := by
      obtain ⟨asset, hasset, hid⟩ := List.mem_map.mp (wf.tags tag hs.tag).declared
      exact ⟨asset.name, by rw [assetName, wf.asset?_eq_some.mpr ⟨hasset, hid⟩]⟩
    rw [IsText, ← tagFingerprint_isOk_iff]
    simp only [Subject.bind, component, dependency, componentFor, dependencyFor, howner, ok_bind,
      Outcome.bind_eq_ok, pure_eq_ok]
    constructor
    · rintro ⟨_, _, ⟨f, hf, -⟩, -⟩
      exact ⟨⟨f, hf⟩, fun _ h => by cases h⟩
    · rintro ⟨⟨f, hf⟩, -⟩
      exact ⟨_, _, ⟨f, hf, rfl⟩, _, ⟨f, hf, rfl⟩, rfl⟩
  | some alarm =>
    have hthreshold := (wf.alarms alarm (hs.alarm alarm rfl).1).threshold
    rw [IsText, ← tagFingerprint_isOk_iff]
    simp only [Option.some.injEq, forall_eq', ← alarmDefinitionFingerprint_isOk_iff hthreshold]
    simp only [Subject.bind, component, dependency, alarmComponentFor, dependencyForAlarm,
      dependencyFor, Outcome.bind_eq_ok, pure_eq_ok]
    constructor
    · rintro ⟨_, _, ⟨f, hf, g, hg, -⟩, -⟩
      exact ⟨⟨f, hf⟩, g, hg⟩
    · rintro ⟨⟨f, hf⟩, g, hg⟩
      exact ⟨_, _, ⟨f, hf, g, hg, rfl⟩, _, ⟨_, ⟨f, hf, rfl⟩, g, hg, rfl⟩, rfl⟩

/-! ### Checked tasks -/

section
omit [Platform]
variable {index : ModelIndex} {task : Json}

theorem checkTaskFields_eq_ok {u : Unit} : checkTaskFields task = .ok u ↔
    task.isObject = true ∧ ∀ item ∈ task.fields, item.1 ∈ taskFields := by
  unfold checkTaskFields
  simp only [bind_eq_ok, throwIf_eq_ok, not_not, exists_const]
  refine and_congr_right fun _ => ?_
  cases hfind : task.fields.find? fun item => decide (item.1 ∉ taskFields) with
  | none => simpa using List.find?_eq_none.mp hfind
  | some item =>
    have hmem := List.mem_of_find?_eq_some hfind
    have hbad : item.1 ∉ taskFields := by simpa using List.find?_some hfind
    simp only [reduceCtorEq, false_iff, not_forall]
    exact ⟨item, hmem, hbad⟩

theorem taskString_of_find? {k p s : Bytes} {max : Nat} (h : task.find? k = some (.str s))
    (hne : s ≠ []) (hlen : s.length ≤ max) : taskString task k p max = .ok s := by
  have hbad : ¬ (s.isEmpty = true ∨ max < s.length) := by
    rw [List.isEmpty_iff, not_or]
    exact ⟨hne, by omega⟩
  simp only [taskString, h, hbad, if_false]

theorem checkTaskRevision_eq_ok {u : Unit} :
    checkTaskRevision index task = .ok u ↔ ∃ v, task.find? "model_revision" = some v ∧
      isNonnegativeInteger v = true ∧ v.eqv index.revision = true := by
  unfold checkTaskRevision
  cases task.find? "model_revision" with
  | none => simp
  | some v => simp [bind_eq_ok]

theorem checkTaskModelId_eq_ok {u : Unit} :
    checkTaskModelId index task = .ok u ↔
      ∀ v, task.find? "model_id" = some v → v.eqv (.str index.modelId) = true := by
  unfold checkTaskModelId
  cases task.find? "model_id" with
  | none => simp
  | some v => simp

theorem isObject_effectiveTask (h : task.isObject = true) :
    (effectiveTask index task).isObject = true := by
  unfold effectiveTask
  split
  · exact h
  · exact Json.isObject_setField h _ _

theorem effectiveTask_modelId {kind : Bytes} (hkind : checkTask index task = .ok kind) {v : Json}
    (hv : (effectiveTask index task).find? "model_id" = some v) :
    v.eqv (.str index.modelId) = true := by
  have hobj := (checkTask_eq_ok hkind).1
  simp only [checkTask, bind_eq_ok, pure_eq_ok] at hkind
  obtain ⟨_, -, _, -, _, -, _, -, _, hmodel, -⟩ := hkind
  unfold effectiveTask at hv
  split at hv
  · exact checkTaskModelId_eq_ok.mp hmodel v hv
  · rw [Json.find?_setField hobj, if_pos rfl] at hv
    simp [← Option.some.inj hv, Json.eqv]

theorem responsiveLayout_congr {t t' : Json} (h : t.find? "client" = t'.find? "client") :
    responsiveLayout t = responsiveLayout t' := by
  rw [responsiveLayout, responsiveLayout, h]

theorem eqv_revision (wf : index.WellFormed) : index.revision.eqv index.revision = true := by
  have hnonneg := wf.revision.1
  cases hrevision : index.revision with
  | int i => simp [Json.eqv, Json.numberEqv]
  | uint n => simp [Json.eqv, Json.numberEqv]
  | _ => simp [hrevision, isNonnegativeInteger] at hnonneg

end

omit [Platform] in
theorem selection_isOk {index : ModelIndex} (wf : index.WellFormed) (kind anchor : Bytes)
    (roles : List Bytes) : ∃ subjects, selection index kind anchor roles = .ok subjects := by
  unfold selection
  split
  · exact ⟨_, rfl⟩
  · have htag : ∀ alarm ∈ index.alarms.filter fun alarm => anchor.isEmpty || alarm.assetId = anchor,
        ∃ row, ((fun tag => (alarm, tag)) <$> alarmTag index alarm) = .ok row := by
      intro alarm halarm
      obtain ⟨tag, htag, -⟩ := wf.alarm_tag (List.mem_filter.mp halarm).1
      exact ⟨(alarm, tag), by rw [alarmTag, htag, ok_map]⟩
    obtain ⟨rows, hrows⟩ := exists_mapM htag
    exact ⟨_, by rw [alarmRows, hrows]; rfl⟩

/-- **A checked task resolves exactly when what it shows is UTF-8.** -/
theorem resolveTaskImpl_isOk_iff {index : ModelIndex} (wf : index.WellFormed) {task : Json}
    {kind anchor : Bytes} {roles : List Bytes} {layout : Json}
    (hkind : checkTask index task = .ok kind)
    (hanchor : taskAnchor (effectiveTask index task) = .ok anchor)
    (hdeclared : anchor ≠ [] → (index.asset? anchor).isSome)
    (hroles : requestedRoles (effectiveTask index task) = .ok roles)
    (hlayout : responsiveLayout (effectiveTask index task) = .ok layout) :
    (∃ view, resolveTaskImpl index task = .ok view) ↔
      ∀ s : Subject, s.Selected index kind anchor roles → s.IsText := by
  obtain ⟨subjects, hsubjects⟩ := selection_isOk wf kind anchor roles
  constructor
  · rintro ⟨view, hview⟩ s hs
    obtain ⟨c, hc, -⟩ := resolveTaskImpl_eq_ok.mp hview
    obtain rfl : c.kind = kind := Except.ok.inj (hc.kind.symm.trans hkind)
    obtain rfl : c.anchor = anchor := Except.ok.inj (hc.anchor.symm.trans hanchor)
    obtain rfl : c.roles = roles := Except.ok.inj (hc.roles.symm.trans hroles)
    obtain ⟨b, -, hb⟩ := forall₂_mem_left hc.bound ((mem_selection wf hc.subjects).mpr hs)
    exact (Subject.bind_isOk_iff wf hs).mp ⟨b, hb⟩
  · intro htext
    obtain ⟨bound, hbound⟩ := exists_mapM (f := Subject.bind index) (l := subjects)
      fun s hs => (Subject.bind_isOk_iff wf ((mem_selection wf hsubjects).mp hs)).mpr
        (htext s ((mem_selection wf hsubjects).mp hs))
    obtain ⟨names, hnames⟩ : ∃ names, viewNames index anchor (viewKind kind).slug
        (viewKind kind).word = .ok names := by
      unfold viewNames
      split
      · exact ⟨_, rfl⟩
      · rename_i hne
        obtain ⟨asset, hasset⟩ := Option.isSome_iff_exists.mp (hdeclared (by simpa using hne))
        exact ⟨_, by simp [assetName, hasset, pure, Except.pure]; rfl⟩
    exact ⟨_, resolveTaskImpl_eq_ok.mpr ⟨⟨kind, anchor, names, roles, subjects, bound, layout⟩,
      ⟨hkind, hanchor, hnames, hroles, hsubjects, mapM_eq_ok.mp hbound, hlayout⟩, rfl⟩⟩

end

end ContextHmi
