import ContextHmi.Engine.Composer
import ContextHmi.Engine.Validation

/-!
# What a composed view shows

A component of a view shows a subject: a declared tag, or a declared alarm with its tag. A task
selects subjects by kind, anchor and roles, and the view has one component and one dependency for
each subject selected.

* `resolveTaskImpl_view` : the view of an accepted task, subject by subject;
* `Subject.selected_of_same` : a subject that keeps its binding and definition stays selected.
-/

namespace ContextHmi

open Outcome

/-! ### Subjects -/

structure Subject where
  tag : Tag
  alarm : Option Alarm

namespace Subject

def id (s : Subject) : Bytes := match s.alarm with
  | some alarm => alarm.id
  | none => s.tag.id

def alarmId (s : Subject) : Bytes := match s.alarm with
  | some alarm => alarm.id
  | none => []

def assetId (s : Subject) : Bytes := match s.alarm with
  | some alarm => alarm.assetId
  | none => s.tag.assetId

/-- The subject is declared by the model, and in the scope of an anchor and of roles. -/
structure Selected (index : ModelIndex) (kind anchor : Bytes) (roles : List Bytes) (s : Subject) :
    Prop where
  tag : s.tag ∈ index.tags
  alarm : ∀ alarm, s.alarm = some alarm → alarm ∈ index.alarms ∧ alarm.tagId = s.tag.id
  kind : if kind = "overview" then s.alarm = none else s.alarm.isSome = true
  anchor : anchor = [] ∨ s.assetId = anchor
  wanted : wants roles s.tag.role = true

variable [Platform]

def component (index : ModelIndex) (s : Subject) : Result Json :=
  match s.alarm with
  | some alarm => alarmComponentFor alarm s.tag
  | none => do
    let owner ← assetName index s.tag.assetId
    componentFor s.tag (overviewKind s.tag.role) (owner ++ " " ++ s.tag.name)
      "Declared tag in machine overview"

def dependency (s : Subject) : Result Json :=
  match s.alarm with
  | some alarm => dependencyForAlarm alarm s.tag
  | none => dependencyFor s.tag

/-- The members of a subject's component later code reads. -/
structure ShownBy (s : Subject) (c : Json) : Prop where
  isObject : c.isObject = true
  id : c.find? "id" = some (.str s.id)
  assetId : c.find? "asset_id" = some (.str s.assetId)
  tagId : c.find? "tag_id" = some (.str (s.alarm.elim s.tag.id (·.tagId)))
  alarmId : c.find? "alarm_id" = s.alarm.map fun alarm => .str alarm.id
  relationshipId : c.find? "relationship_id" = none
  status : c.find? "status" = none

theorem component_shows {index : ModelIndex} {s : Subject} {c : Json}
    (h : s.component index = .ok c) : s.ShownBy c := by
  obtain ⟨tag, alarm⟩ := s
  cases alarm with
  | some alarm =>
    simp only [component, alarmComponentFor, bind_eq_ok, pure_eq_ok] at h
    obtain ⟨_, -, _, -, rfl⟩ := h
    constructor <;> simp [Subject.id, Subject.assetId]
  | none =>
    simp only [component, componentFor, bind_eq_ok, pure_eq_ok] at h
    obtain ⟨_, -, _, -, rfl⟩ := h
    constructor <;> simp [Subject.id, Subject.assetId, Json.find?_setField]

/-- The members of a subject's dependency later code reads. -/
structure RecordedBy (s : Subject) (d : Json) : Prop where
  isObject : d.isObject = true
  tagId : d.find? "tag_id" = some (.str s.tag.id)
  alarmId : d.find? "alarm_id" = s.alarm.map fun alarm => .str alarm.id
  binding : d.find? "binding" = some (tagBindingSnapshot s.tag)
  definition : d.find? "alarm_definition" = s.alarm.map alarmDefinitionSnapshot

theorem dependency_records {s : Subject} {d : Json} (h : s.dependency = .ok d) :
    s.RecordedBy d := by
  obtain ⟨tag, alarm⟩ := s
  cases alarm with
  | some alarm =>
    simp only [dependency, dependencyForAlarm, dependencyFor, bind_eq_ok, pure_eq_ok] at h
    obtain ⟨_, ⟨_, -, rfl⟩, _, -, rfl⟩ := h
    constructor <;> simp [Json.find?_setField, Json.find?_setFields]
  | none =>
    simp only [dependency, dependencyFor, bind_eq_ok, pure_eq_ok] at h
    obtain ⟨_, -, rfl⟩ := h
    constructor <;> simp [Json.find?_setField]

end Subject

/-! ### The same binding -/

theorem Source.toJson_eq (source : Source) :
    source.toJson = .obj [("identifier", .str source.identifier),
      ("namespace_uri", .str source.namespaceUri), ("server", .str source.server)] := rfl

theorem tagBindingSnapshot_eq (tag : Tag) :
    tagBindingSnapshot tag = .obj [("data_type", .str tag.dataType), ("owner", .str tag.assetId),
      ("role", .str tag.role), ("source", tag.source.toJson), ("unit", .str tag.unit)] := rfl

theorem alarmDefinitionSnapshot_eq (alarm : Alarm) :
    alarmDefinitionSnapshot alarm = .obj [("name", .str alarm.name),
      ("operator", .str alarm.operator), ("owner", .str alarm.assetId),
      ("severity", .str alarm.severity), ("tag_id", .str alarm.tagId),
      ("threshold", alarm.threshold)] := rfl

theorem tagBindingSnapshot_eqv {t t' : Tag} :
    (tagBindingSnapshot t).eqv (tagBindingSnapshot t') = true ↔ t.assetId = t'.assetId ∧
      t.role = t'.role ∧ t.dataType = t'.dataType ∧ t.unit = t'.unit ∧ t.source = t'.source := by
  obtain ⟨_, _, _, _, _, _, ⟨_, _, _⟩⟩ := t
  obtain ⟨_, _, _, _, _, _, ⟨_, _, _⟩⟩ := t'
  simp only [tagBindingSnapshot_eq, Source.toJson_eq, Json.eqv, Json.eqvFields, beq_self_eq_true,
    Bool.true_and, Bool.and_true, Bool.and_eq_true, beq_iff_eq, Source.mk.injEq]
  tauto

theorem alarmDefinitionSnapshot_eqv {a a' : Alarm} :
    (alarmDefinitionSnapshot a).eqv (alarmDefinitionSnapshot a') = true ↔ a.name = a'.name ∧
      a.operator = a'.operator ∧ a.assetId = a'.assetId ∧ a.severity = a'.severity ∧
      a.tagId = a'.tagId ∧ a.threshold.eqv a'.threshold = true := by
  simp only [alarmDefinitionSnapshot_eq, Json.eqv, Json.eqvFields, beq_self_eq_true, Bool.true_and,
    Bool.and_true, Bool.and_eq_true, beq_iff_eq]

namespace Subject

/-- Two subjects with the same ids, bindings and definitions. -/
structure Same (s s' : Subject) : Prop where
  tagId : s.tag.id = s'.tag.id
  binding : (tagBindingSnapshot s.tag).eqv (tagBindingSnapshot s'.tag) = true
  alarm : ∀ a, s.alarm = some a → ∃ a', s'.alarm = some a' ∧ a.id = a'.id ∧
    (alarmDefinitionSnapshot a).eqv (alarmDefinitionSnapshot a') = true
  noAlarm : s.alarm = none → s'.alarm = none

theorem Same.id {s s' : Subject} (h : s.Same s') : s.id = s'.id := by
  obtain ⟨tag, alarm⟩ := s
  cases alarm with
  | none =>
    have hnone := h.noAlarm rfl
    simp only [Subject.id, hnone]
    exact h.tagId
  | some a =>
    obtain ⟨a', ha', hid, -⟩ := h.alarm a rfl
    simp only [Subject.id, ha']
    exact hid

theorem Same.alarmId {s s' : Subject} (h : s.Same s') : s.alarmId = s'.alarmId := by
  obtain ⟨tag, alarm⟩ := s
  cases alarm with
  | none => simp only [Subject.alarmId, h.noAlarm rfl]
  | some a =>
    obtain ⟨a', ha', hid, -⟩ := h.alarm a rfl
    simp only [Subject.alarmId, ha']
    exact hid

theorem Same.assetId {s s' : Subject} (h : s.Same s') : s.assetId = s'.assetId := by
  obtain ⟨tag, alarm⟩ := s
  cases alarm with
  | none =>
    simp only [Subject.assetId, h.noAlarm rfl]
    exact (tagBindingSnapshot_eqv.mp h.binding).1
  | some a =>
    obtain ⟨a', ha', -, hdef⟩ := h.alarm a rfl
    simp only [Subject.assetId, ha']
    exact (alarmDefinitionSnapshot_eqv.mp hdef).2.2.1

theorem Same.isSome {s s' : Subject} (h : s.Same s') : s.alarm.isSome = s'.alarm.isSome := by
  obtain ⟨tag, alarm⟩ := s
  cases alarm with
  | none => rw [h.noAlarm rfl]
  | some a =>
    obtain ⟨a', ha', -⟩ := h.alarm a rfl
    rw [ha']
    rfl

theorem kind_congr {kind : Bytes} {alarm alarm' : Option Alarm} (h : alarm.isSome = alarm'.isSome) :
    (if kind = "overview" then alarm = none else alarm.isSome = true) ↔
      if kind = "overview" then alarm' = none else alarm'.isSome = true := by
  rw [← Option.not_isSome_iff_eq_none, ← Option.not_isSome_iff_eq_none, h]

theorem Same.selected {index index' : ModelIndex} {kind anchor : Bytes} {roles : List Bytes}
    {s s' : Subject} (h : s.Same s') (hs : s.Selected index kind anchor roles)
    (htag : s'.tag ∈ index'.tags)
    (halarm : ∀ a', s'.alarm = some a' → a' ∈ index'.alarms ∧ a'.tagId = s'.tag.id) :
    s'.Selected index' kind anchor roles := by
  have hrole := (tagBindingSnapshot_eqv.mp h.binding).2.1
  exact ⟨htag, halarm, (kind_congr h.isSome).mp hs.kind, h.assetId ▸ hs.anchor, hrole ▸ hs.wanted⟩

theorem Same.selected_of {index index' : ModelIndex} {kind anchor : Bytes} {roles : List Bytes}
    {s s' : Subject} (h : s.Same s') (hs : s'.Selected index' kind anchor roles)
    (htag : s.tag ∈ index.tags)
    (halarm : ∀ a, s.alarm = some a → a ∈ index.alarms ∧ a.tagId = s.tag.id) :
    s.Selected index kind anchor roles := by
  have hrole := (tagBindingSnapshot_eqv.mp h.binding).2.1
  exact ⟨htag, halarm, (kind_congr h.isSome).mpr hs.kind, h.assetId ▸ hs.anchor, hrole ▸ hs.wanted⟩

end Subject

/-! ### Selection -/

section
variable {index : ModelIndex} (wf : index.WellFormed) {roles : List Bytes} {anchor : Bytes}
include wf

theorem mem_overviewTags {tag : Tag} :
    tag ∈ overviewTags index roles anchor ↔
      tag ∈ index.tags ∧ (anchor = [] ∨ tag.assetId = anchor) ∧ wants roles tag.role = true := by
  unfold overviewTags
  by_cases h : anchor = []
  · simp only [h, List.isEmpty_nil, if_true, List.mem_flatMap, Bytes.mem_sortBy, List.mem_filter,
      Bool.and_eq_true, decide_eq_true_eq, true_or, true_and]
    constructor
    · rintro ⟨asset, -, hmem, -, hwant⟩
      exact ⟨hmem, hwant⟩
    · rintro ⟨hmem, hwant⟩
      exact ⟨tag.assetId, (wf.tags tag hmem).declared, hmem, rfl, hwant⟩
  · simp only [List.isEmpty_iff, h, if_false, List.mem_flatMap, Bytes.mem_sortBy, List.mem_filter,
      Bool.and_eq_true, decide_eq_true_eq, false_or, List.mem_singleton, exists_eq_left]

theorem nodup_overviewTags : ((overviewTags index roles anchor).map (·.id)).Nodup := by
  have hinj : ∀ a ∈ overviewTags index roles anchor, ∀ b ∈ overviewTags index roles anchor,
      a.id = b.id → a = b := fun a ha b hb =>
    List.inj_on_of_nodup_map wf.tags_nodup ((mem_overviewTags wf).mp ha).1
      ((mem_overviewTags wf).mp hb).1
  refine List.Nodup.map_on hinj (List.nodup_flatMap.mpr ⟨fun asset _ => ?_, ?_⟩)
  · exact (Bytes.sortBy_perm _ _).nodup_iff.mpr ((List.Nodup.of_map _ wf.tags_nodup).filter _)
  · -- tags of different assets are different tags
    have hassets : (Bytes.sortBy id
        (if anchor.isEmpty then index.assets.map (·.id) else [anchor])).Nodup := by
      refine (Bytes.sortBy_perm _ _).nodup_iff.mpr ?_
      split
      · exact wf.assets_nodup
      · exact List.nodup_singleton _
    refine hassets.imp fun {a b} hab => ?_
    intro tag ha hb
    simp only [Bytes.mem_sortBy, List.mem_filter, Bool.and_eq_true, decide_eq_true_eq] at ha hb
    exact hab (ha.2.1.symm.trans hb.2.1)

theorem alarmTag_eq_ok {alarm : Alarm} {tag : Tag} :
    alarmTag index alarm = .ok tag ↔ tag ∈ index.tags ∧ tag.id = alarm.tagId := by
  unfold alarmTag
  rw [← wf.tag?_eq_some]
  cases index.tag? alarm.tagId <;> simp

theorem mem_alarmRows {rows : List (Alarm × Tag)} (h : alarmRows index roles anchor = .ok rows)
    {alarm : Alarm} {tag : Tag} :
    (alarm, tag) ∈ rows ↔ alarm ∈ index.alarms ∧ (tag ∈ index.tags ∧ tag.id = alarm.tagId) ∧
      (anchor = [] ∨ alarm.assetId = anchor) ∧ wants roles tag.role = true := by
  simp only [alarmRows, bind_eq_ok, pure_eq_ok, mapM_pair_eq_ok] at h
  obtain ⟨pairs, ⟨hfst, hall⟩, rfl⟩ := h
  simp only [Bytes.mem_sortBy, List.mem_filter]
  constructor
  · rintro ⟨hmem, hwant⟩
    have hscope : alarm ∈ pairs.map Prod.fst := List.mem_map_of_mem (f := Prod.fst) hmem
    rw [hfst, List.mem_filter] at hscope
    exact ⟨hscope.1, (alarmTag_eq_ok wf).mp (hall _ hmem),
      by simpa using hscope.2, hwant⟩
  · rintro ⟨hmem, htag, hscope, hwant⟩
    have hin : alarm ∈ pairs.map Prod.fst := by
      rw [hfst, List.mem_filter]
      exact ⟨hmem, by simpa using hscope⟩
    obtain ⟨⟨alarm', tag'⟩, hpair, rfl⟩ := List.mem_map.mp hin
    have htag' := hall _ hpair
    rw [(alarmTag_eq_ok wf).mpr htag] at htag'
    obtain rfl := Except.ok.inj htag'
    exact ⟨hpair, hwant⟩

theorem nodup_alarmRows {rows : List (Alarm × Tag)} (h : alarmRows index roles anchor = .ok rows) :
    (rows.map (·.1.id)).Nodup := by
  simp only [alarmRows, bind_eq_ok, pure_eq_ok, mapM_pair_eq_ok] at h
  obtain ⟨pairs, ⟨hfst, -⟩, rfl⟩ := h
  refine Bytes.nodup_sortBy ?_
  have hall : (pairs.map fun row => row.1.id).Nodup := by
    have hmap : (pairs.map fun row => row.1.id) = (pairs.map Prod.fst).map (·.id) := by simp
    rw [hmap, hfst]
    exact wf.alarms_nodup.sublist ((List.filter_sublist).map _)
  exact hall.sublist ((List.filter_sublist).map _)

end

/-- The subjects a task's view shows, in order. -/
def selection (index : ModelIndex) (kind anchor : Bytes) (roles : List Bytes) :
    Result (List Subject) :=
  if kind = "overview" then .ok ((overviewTags index roles anchor).map fun tag => ⟨tag, none⟩)
  else (List.map fun row => ⟨row.2, some row.1⟩) <$> alarmRows index roles anchor

section
variable {index : ModelIndex} (wf : index.WellFormed) {kind anchor : Bytes} {roles : List Bytes}
  {subjects : List Subject}
include wf

theorem mem_selection (h : selection index kind anchor roles = .ok subjects) {s : Subject} :
    s ∈ subjects ↔ s.Selected index kind anchor roles := by
  obtain ⟨tag, alarm⟩ := s
  unfold selection at h
  by_cases hkind : kind = "overview"
  · rw [if_pos hkind] at h
    obtain rfl := Except.ok.inj h
    simp only [List.mem_map, mem_overviewTags wf, Subject.mk.injEq]
    constructor
    · rintro ⟨t, ⟨hmem, hscope, hwant⟩, rfl, rfl⟩
      exact ⟨hmem, by simp, by simp [hkind], hscope, hwant⟩
    · intro hs
      have hnone : alarm = none := by simpa [hkind] using hs.kind
      subst hnone
      exact ⟨tag, ⟨hs.tag, hs.anchor, hs.wanted⟩, rfl, rfl⟩
  · rw [if_neg hkind, map_eq_ok] at h
    obtain ⟨rows, hrows, rfl⟩ := h
    simp only [List.mem_map, Prod.exists, mem_alarmRows wf hrows, Subject.mk.injEq]
    constructor
    · rintro ⟨a, t, ⟨hmem, ⟨htag, hid⟩, hscope, hwant⟩, rfl, rfl⟩
      exact ⟨htag, by simpa using And.intro hmem hid.symm, by simp [hkind], hscope, hwant⟩
    · intro hs
      have hsome : alarm.isSome = true := by simpa [hkind] using hs.kind
      obtain ⟨a, rfl⟩ := Option.isSome_iff_exists.mp hsome
      obtain ⟨hmem, hid⟩ := hs.alarm a rfl
      exact ⟨a, tag, ⟨hmem, ⟨hs.tag, hid.symm⟩, hs.anchor, hs.wanted⟩, rfl, rfl⟩

theorem nodup_selection (h : selection index kind anchor roles = .ok subjects) :
    (subjects.map (·.id)).Nodup := by
  unfold selection at h
  by_cases hkind : kind = "overview"
  · rw [if_pos hkind] at h
    obtain rfl := Except.ok.inj h
    simpa [Function.comp_def, Subject.id] using nodup_overviewTags wf
  · rw [if_neg hkind, map_eq_ok] at h
    obtain ⟨rows, hrows, rfl⟩ := h
    simpa [Function.comp_def, Subject.id] using nodup_alarmRows wf hrows

theorem length_selection (h : selection index kind anchor roles = .ok subjects) :
    subjects.length ≤ kMaxTags := by
  have hlength : ∀ ids : List Bytes, (∀ s ∈ subjects, s.id ∈ ids) →
      subjects.length ≤ ids.length := fun ids hids => by
    have hsub : subjects.map (·.id) ⊆ ids := fun id hid => by
      obtain ⟨s, hs, rfl⟩ := List.mem_map.mp hid
      exact hids s hs
    simpa using ((nodup_selection wf h).subperm hsub).length_le
  by_cases hkind : kind = "overview"
  · refine (hlength (index.tags.map (·.id)) fun s hs => ?_).trans
      ((List.length_map _).le.trans wf.tags_length)
    have hselected := (mem_selection wf h).mp hs
    have hnone : s.alarm = none := by simpa [hkind] using hselected.kind
    simpa [Subject.id, hnone] using ⟨s.tag, hselected.tag, rfl⟩
  · refine (hlength (index.alarms.map (·.id)) fun s hs => ?_).trans
      ((List.length_map _).le.trans wf.alarms_length)
    have hselected := (mem_selection wf h).mp hs
    obtain ⟨a, ha⟩ := Option.isSome_iff_exists.mp (by simpa [hkind] using hselected.kind)
    simpa [Subject.id, ha] using ⟨a, (hselected.alarm a ha).1, rfl⟩

end

/-! ### The view of a task -/

/-- What a kind of view is called, and the issue of an empty one. -/
structure ViewKind where
  slug : Bytes
  word : Bytes
  nothing : Json

def viewKind (kind : Bytes) : ViewKind :=
  if kind = "overview" then ⟨"overview", "Overview",
    issue "missing-overview-tags" "No declared tags are available for this overview" "error"⟩
  else ⟨"alarms", "Alarms",
    issue "no-alarms" "No declared alarms are available for this scope" "info"⟩

variable [Platform]

/-- A subject's component and dependency. -/
def Subject.bind (index : ModelIndex) (s : Subject) : Result (Json × Json) := do
  let component ← s.component index
  let dependency ← s.dependency
  return (component, dependency)

/-- The parts of a composed view. -/
structure Composed where
  kind : Bytes
  anchor : Bytes
  names : Bytes × Bytes
  roles : List Bytes
  subjects : List Subject
  bound : List (Json × Json)
  layout : Json

/-- What the parts of a task's view are. -/
structure Composed.Of (index : ModelIndex) (task : Json) (c : Composed) : Prop where
  kind : checkTask index task = .ok c.kind
  anchor : taskAnchor (effectiveTask index task) = .ok c.anchor
  names : viewNames index c.anchor (viewKind c.kind).slug (viewKind c.kind).word = .ok c.names
  roles : requestedRoles (effectiveTask index task) = .ok c.roles
  subjects : selection index c.kind c.anchor c.roles = .ok c.subjects
  bound : List.Forall₂ (fun s b => s.bind index = .ok b) c.subjects c.bound
  layout : responsiveLayout (effectiveTask index task) = .ok c.layout

def Composed.view (index : ModelIndex) (task : Json) (c : Composed) : Json :=
  (composeView index c.names.1 c.names.2 (effectiveTask index task) c.bound
    (viewKind c.kind).nothing).setField "layout" c.layout

omit [Platform] in
theorem checkTask_kind {index : ModelIndex} {task : Json} {kind : Bytes}
    (h : checkTask index task = .ok kind) : kind = "overview" ∨ kind = "alarms" := by
  simp only [checkTask, bind_eq_ok, throwIf_eq_ok, pure_eq_ok] at h
  obtain ⟨_, -, k, -, _, hk, _, -, _, -, _, -, _, -, rfl⟩ := h
  by_contra hne
  exact hk (not_or.mp hne)

theorem resolveKind_eq (index : ModelIndex) {kind : Bytes}
    (hkind : kind = "overview" ∨ kind = "alarms") (task : Json) :
    resolveKind index kind task = do
      let anchor ← taskAnchor task
      let names ← viewNames index anchor (viewKind kind).slug (viewKind kind).word
      let roles ← requestedRoles task
      let subjects ← selection index kind anchor roles
      let bound ← subjects.mapM (Subject.bind index)
      return composeView index names.1 names.2 task bound (viewKind kind).nothing := by
  have hbind : ∀ row : Alarm × Tag, Subject.bind index ⟨row.2, some row.1⟩ = (do
      let component ← alarmComponentFor row.1 row.2
      let dependency ← dependencyForAlarm row.1 row.2
      return (component, dependency)) := fun _ => rfl
  have hbind' : ∀ tag : Tag, Subject.bind index ⟨tag, none⟩ = (do
      let owner ← assetName index tag.assetId
      let component ← componentFor tag (overviewKind tag.role) (owner ++ " " ++ tag.name)
        "Declared tag in machine overview"
      let dependency ← dependencyFor tag
      return (component, dependency)) := fun tag => by
    simp only [Subject.bind, Subject.component, Subject.dependency, bind_assoc]
  rcases hkind with rfl | rfl
  · simp only [resolveKind, resolveOverview, selection, viewKind, if_true, ok_bind, List.mapM_map,
      Function.comp_def, hbind']
  · have hne : ((bytes "alarms" : Bytes) = "overview") = False := by simp
    simp only [resolveKind, resolveAlarms, selection, viewKind, hne, if_false, bind_map_left,
      List.mapM_map, Function.comp_def, hbind]

/-- **The view of an accepted task**: its subjects are those selected, in order, each with its
component and its dependency. -/
theorem resolveTaskImpl_eq_ok {index : ModelIndex} {task view : Json} :
    resolveTaskImpl index task = .ok view ↔
      ∃ c : Composed, c.Of index task ∧ view = c.view index task := by
  simp only [resolveTaskImpl, bind_eq_ok, pure_eq_ok]
  constructor
  · rintro ⟨kind, hkind, v, hv, layout, hlayout, rfl⟩
    rw [resolveKind_eq index (checkTask_kind hkind)] at hv
    simp only [bind_eq_ok, pure_eq_ok, mapM_eq_ok] at hv
    obtain ⟨anchor, hanchor, names, hnames, roles, hroles, subjects, hsubjects, bound, hbound,
      rfl⟩ := hv
    exact ⟨⟨kind, anchor, names, roles, subjects, bound, layout⟩,
      ⟨hkind, hanchor, hnames, hroles, hsubjects, hbound, hlayout⟩, rfl⟩
  · rintro ⟨c, hc, rfl⟩
    refine ⟨c.kind, hc.kind, _, ?_, c.layout, hc.layout, rfl⟩
    rw [resolveKind_eq index (checkTask_kind hc.kind)]
    simp only [bind_eq_ok, pure_eq_ok, mapM_eq_ok]
    exact ⟨_, hc.anchor, _, hc.names, _, hc.roles, _, hc.subjects, _, hc.bound, rfl⟩

/-! ### Reading a composed view -/

/-- The members of a task its selection depends on. -/
def taskScope (task : Json) : Option Json × Option Json × Option Json :=
  (task.find? "kind", task.find? "anchor_asset_id", task.find? "measurement_roles")

omit [Platform] in
theorem effectiveTask_find? {index : ModelIndex} {task : Json} (hobj : task.isObject = true)
    {k : Bytes} (hk : k ≠ "model_id") : (effectiveTask index task).find? k = task.find? k := by
  unfold effectiveTask
  split
  · rfl
  · rw [Json.find?_setField hobj, if_neg (Ne.symm hk)]

omit [Platform] in
theorem taskString_eq_ok {task : Json} {k p s : Bytes} {max : Nat}
    (h : taskString task k p max = .ok s) : task.find? k = some (.str s) := by
  unfold taskString at h
  split at h
  · cases h
  · split_ifs at h
    obtain rfl := Except.ok.inj h
    assumption
  · cases h

omit [Platform] in
theorem checkTask_eq_ok {index : ModelIndex} {task : Json} {kind : Bytes}
    (h : checkTask index task = .ok kind) :
    task.isObject = true ∧ task.find? "kind" = some (.str kind) := by
  simp only [checkTask, checkTaskFields, bind_eq_ok, throwIf_eq_ok, pure_eq_ok] at h
  obtain ⟨_, ⟨_, hobj, -⟩, k, hk, _, -, _, -, _, -, _, -, _, -, rfl⟩ := h
  exact ⟨by simpa using hobj, taskString_eq_ok hk⟩

namespace Composed.Of

variable {index index' : ModelIndex} {task task' : Json} {c c' : Composed}

theorem isObject (h : c.Of index task) : task.isObject = true :=
  (checkTask_eq_ok h.kind).1

theorem scope_eq (h : c.Of index task) (h' : c'.Of index' task')
    (hscope : taskScope task = taskScope task') :
    c.kind = c'.kind ∧ c.anchor = c'.anchor ∧ c.roles = c'.roles := by
  simp only [taskScope, Prod.mk.injEq] at hscope
  obtain ⟨hkind, hanchor, hroles⟩ := hscope
  refine ⟨?_, ?_, ?_⟩
  · have hk := (checkTask_eq_ok h.kind).2
    rw [hkind, (checkTask_eq_ok h'.kind).2] at hk
    simpa using hk.symm
  · have ha := h.anchor
    have ha' := h'.anchor
    rw [taskAnchor, effectiveTask_find? h.isObject (by simp), hanchor] at ha
    rw [taskAnchor, effectiveTask_find? h'.isObject (by simp)] at ha'
    exact Except.ok.inj (ha.symm.trans ha')
  · have hr := h.roles
    have hr' := h'.roles
    rw [requestedRoles, effectiveTask_find? h.isObject (by simp), hroles] at hr
    rw [requestedRoles, effectiveTask_find? h'.isObject (by simp)] at hr'
    exact Except.ok.inj (hr.symm.trans hr')

end Composed.Of

theorem Subject.bind_eq_ok {index : ModelIndex} {s : Subject} {b : Json × Json} :
    s.bind index = .ok b ↔ s.component index = .ok b.1 ∧ s.dependency = .ok b.2 := by
  simp only [Subject.bind, Outcome.bind_eq_ok, pure_eq_ok]
  constructor
  · rintro ⟨_, hc, _, hd, rfl⟩
    exact ⟨hc, hd⟩
  · rintro ⟨hc, hd⟩
    exact ⟨_, hc, _, hd, rfl⟩

namespace Composed

/-- The components of the view. -/
def components (c : Composed) : List Json := c.bound.map (·.1)

/-- The dependencies of the view. -/
def dependencies (c : Composed) : List Json := c.bound.map (·.2)

omit [Platform] in
theorem view_find? (c : Composed) {index : ModelIndex} (task : Json) {k : Bytes}
    (hk : k ≠ "layout") :
    (c.view index task).find? k = (composeView index c.names.1 c.names.2 (effectiveTask index task)
      c.bound (viewKind c.kind).nothing).find? k := by
  rw [view, Json.find?_setField (by simp [composeView]), if_neg (Ne.symm hk)]

variable {index : ModelIndex} {task : Json} {c : Composed} (h : c.Of index task)
include h

theorem Of.mem_components {j : Json} :
    j ∈ c.components ↔ ∃ s ∈ c.subjects, s.component index = .ok j := by
  rw [components, List.mem_map]
  constructor
  · rintro ⟨b, hb, rfl⟩
    obtain ⟨s, hs, hsb⟩ := forall₂_mem_right h.bound hb
    exact ⟨s, hs, (Subject.bind_eq_ok.mp hsb).1⟩
  · rintro ⟨s, hs, hcomp⟩
    obtain ⟨b, hb, hsb⟩ := forall₂_mem_left h.bound hs
    exact ⟨b, hb, Except.ok.inj ((Subject.bind_eq_ok.mp hsb).1.symm.trans hcomp)⟩

theorem Of.mem_dependencies {j : Json} :
    j ∈ c.dependencies ↔ ∃ s ∈ c.subjects, s.dependency = .ok j := by
  rw [dependencies, List.mem_map]
  constructor
  · rintro ⟨b, hb, rfl⟩
    obtain ⟨s, hs, hsb⟩ := forall₂_mem_right h.bound hb
    exact ⟨s, hs, (Subject.bind_eq_ok.mp hsb).2⟩
  · rintro ⟨s, hs, hdep⟩
    obtain ⟨b, hb, hsb⟩ := forall₂_mem_left h.bound hs
    exact ⟨b, hb, Except.ok.inj ((Subject.bind_eq_ok.mp hsb).2.symm.trans hdep)⟩

theorem Of.bound_of_mem {s : Subject} (hs : s ∈ c.subjects) :
    ∃ comp ∈ c.components, s.component index = .ok comp ∧
      ∃ dep ∈ c.dependencies, s.dependency = .ok dep := by
  obtain ⟨b, hb, hsb⟩ := forall₂_mem_left h.bound hs
  obtain ⟨hcomp, hdep⟩ := Subject.bind_eq_ok.mp hsb
  exact ⟨b.1, List.mem_map_of_mem hb, hcomp, b.2, List.mem_map_of_mem hb, hdep⟩

end Composed

theorem resolveTaskImpl_anchored {index : ModelIndex} (wf : index.WellFormed) {task view : Json}
    {id : Bytes} (hid : id ≠ []) (hanchor : task.find? "anchor_asset_id" = some (.str id))
    (h : resolveTaskImpl index task = .ok view) :
    ∃ components, view.find? "components" = some (.arr components) ∧
      ∀ c ∈ components, c.find? "asset_id" = some (.str id) := by
  obtain ⟨c, hc, rfl⟩ := resolveTaskImpl_eq_ok.mp h
  have hc_anchor : c.anchor = id := by
    have ha := hc.anchor
    rw [taskAnchor, effectiveTask_find? hc.isObject (by simp), hanchor] at ha
    exact (Except.ok.inj ha).symm
  refine ⟨c.components, ?_, fun j hj => ?_⟩
  · rw [Composed.view_find? c task (by simp)]
    simp [composeView, Composed.components]
  · obtain ⟨s, hs, hcomponent⟩ := hc.mem_components.mp hj
    have hselected := (mem_selection wf hc.subjects).mp hs
    have hasset := (Subject.component_shows hcomponent).assetId
    rcases hselected.anchor with hnil | heq
    · exact absurd (hc_anchor.symm.trans hnil) hid
    · rw [hasset, heq, hc_anchor]

end ContextHmi
