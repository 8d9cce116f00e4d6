import ContextHmi.Engine.Chain
import ContextHmi.Engine.Verdicts

/-!
# What a reconciliation says of each component

A composed view reconciled with another model. A component whose tag or alarm is gone is marked
unavailable, one whose binding or definition changed is marked in conflict, and every other one is
the fresh one; except that an alarm which moves onto a tag can mark the components of that tag.

* `kept_cases_of_subject` : what becomes of one component;
* `reconcile_classifies_iff` : the verdicts are exact unless some alarm moves so.
-/

namespace ContextHmi

open Outcome

/-! ### Verdicts -/

/-- The tag is declared by both models, with different bindings. -/
def TagChanged (index index' : ModelIndex) (tagId : Bytes) : Prop :=
  ∃ tag tag', index.tag? tagId = some tag ∧ index'.tag? tagId = some tag' ∧
    (tagBindingSnapshot tag).eqv (tagBindingSnapshot tag') = false

/-- What a component is bound to is not declared. -/
def Gone (index' : ModelIndex) (c : Json) : Prop :=
  if c.contains "alarm_id" then index'.alarm? (fieldOf c "alarm_id") = none
  else index'.tag? (fieldOf c "tag_id") = none

/-- What a component is bound to is declared with another binding or definition. -/
def Changed (index index' : ModelIndex) (c : Json) : Prop :=
  if c.contains "alarm_id" then ∃ alarm alarm', index.alarm? (fieldOf c "alarm_id") = some alarm ∧
    index'.alarm? (fieldOf c "alarm_id") = some alarm' ∧
    ((alarmDefinitionSnapshot alarm).eqv (alarmDefinitionSnapshot alarm') = false ∨
      TagChanged index index' alarm.tagId)
  else TagChanged index index' (fieldOf c "tag_id")

instance (index index' : ModelIndex) (tagId : Bytes) : Decidable (TagChanged index index' tagId) :=
  decidable_of_iff ((index.tag? tagId).any fun tag => (index'.tag? tagId).any fun tag' =>
      !(tagBindingSnapshot tag).eqv (tagBindingSnapshot tag')) (by simp [TagChanged, Option.any_eq_true])

instance (index' : ModelIndex) (c : Json) : Decidable (Gone index' c) :=
  decidable_of_iff (if c.contains "alarm_id" then (index'.alarm? (fieldOf c "alarm_id")).isNone
      else (index'.tag? (fieldOf c "tag_id")).isNone) (by unfold Gone; split <;> simp)

instance (index index' : ModelIndex) (c : Json) : Decidable (Changed index index' c) :=
  decidable_of_iff (if c.contains "alarm_id" then (index.alarm? (fieldOf c "alarm_id")).any fun alarm =>
      (index'.alarm? (fieldOf c "alarm_id")).any fun alarm' =>
        !(alarmDefinitionSnapshot alarm).eqv (alarmDefinitionSnapshot alarm') ||
          decide (TagChanged index index' alarm.tagId)
      else decide (TagChanged index index' (fieldOf c "tag_id")))
    (by unfold Changed; split <;> simp [Option.any_eq_true])

/-- The reconciled component `c'` says of `c` what became of it. -/
structure Classified (index index' : ModelIndex) (fresh c c' : Json) : Prop where
  unavailable : fieldOf c' "status" = "unavailable" ↔ Gone index' c
  conflict : fieldOf c' "status" = "conflict" ↔ Changed index index' c
  same : ¬ Gone index' c → ¬ Changed index index' c → HasComponent fresh c'

/-- An alarm of the view moves onto the tag of a component that did not change, from a tag with
another binding. -/
def AlarmMovesOnto (index index' : ModelIndex) (view : Json) : Prop :=
  ∃ c b alarm alarm' tag tag', HasComponent view c ∧ HasComponent view b ∧
    ¬ Gone index' c ∧ ¬ Changed index index' c ∧ b.contains "alarm_id" = true ∧
    index.alarm? (fieldOf b "alarm_id") = some alarm ∧
    index'.alarm? (fieldOf b "alarm_id") = some alarm' ∧ alarm'.tagId = fieldOf c "tag_id" ∧
    index.tag? alarm.tagId = some tag ∧ index'.tag? alarm'.tagId = some tag' ∧
    (tagBindingSnapshot tag).eqv (tagBindingSnapshot tag') = false

/-! ### Verdicts on subjects -/

namespace Subject

variable (index' : ModelIndex) (s t : Subject)

def BindingChanged : Prop := ∃ tag', index'.tag? s.tag.id = some tag' ∧
  (tagBindingSnapshot s.tag).eqv (tagBindingSnapshot tag') = false

def GoneIn : Prop := match s.alarm with
  | some a => index'.alarm? a.id = none
  | none => index'.tag? s.tag.id = none

def ChangedIn : Prop := match s.alarm with
  | some a => ∃ a', index'.alarm? a.id = some a' ∧
      ((alarmDefinitionSnapshot a).eqv (alarmDefinitionSnapshot a') = false ∨
        s.BindingChanged index')
  | none => s.BindingChanged index'

/-- The alarm of `t` is on the tag of `s` now, and was on another. -/
def MovesOnto : Prop := ∃ b b' tag', t.alarm = some b ∧ index'.alarm? b.id = some b' ∧
  b'.tagId = s.tag.id ∧ index'.tag? s.tag.id = some tag' ∧
  (tagBindingSnapshot t.tag).eqv (tagBindingSnapshot tag') = false

variable {index' s}

theorem not_changed_of_gone (h : s.GoneIn index') : ¬ s.ChangedIn index' := by
  obtain ⟨tag, alarm⟩ := s
  cases alarm with
  | none =>
    rintro ⟨tag', htag', -⟩
    rw [show index'.tag? tag.id = none from h] at htag'
    cases htag'
  | some a =>
    rintro ⟨a', ha', -⟩
    rw [show index'.alarm? a.id = none from h] at ha'
    cases ha'

section
variable (hs : s.Proper) {c : Json} (hc : s.ShownBy c)
include hs hc

theorem fieldOf_tagId : fieldOf c "tag_id" = s.tag.id :=
  congrArg Bound.tagId (hc.boundOf_eq hs)

theorem fieldOf_alarmId : fieldOf c "alarm_id" = s.alarmId :=
  congrArg Bound.alarmId (hc.boundOf_eq hs)

omit hs in
theorem contains_alarmId : c.contains "alarm_id" = s.alarm.isSome := by
  rw [Json.contains, hc.alarmId, Option.isSome_map]

theorem goneIn_iff : s.GoneIn index' ↔ Gone index' c := by
  have htagId := fieldOf_tagId hs hc
  have halarmId := fieldOf_alarmId hs hc
  have hcontains := contains_alarmId hc
  obtain ⟨tag, alarm⟩ := s
  cases alarm with
  | none => simp [GoneIn, Gone, hcontains, htagId]
  | some a => simp [GoneIn, Gone, hcontains, halarmId, Subject.alarmId]

theorem changedIn_iff {index : ModelIndex} (wf : index.WellFormed) (htag : s.tag ∈ index.tags)
    (halarm : ∀ a, s.alarm = some a → a ∈ index.alarms) :
    s.ChangedIn index' ↔ Changed index index' c := by
  have htagId := fieldOf_tagId hs hc
  have halarmId := fieldOf_alarmId hs hc
  have hcontains := contains_alarmId hc
  have hdeclared : index.tag? s.tag.id = some s.tag := wf.tag?_eq_some.mpr ⟨htag, rfl⟩
  have hbinding : s.BindingChanged index' ↔ TagChanged index index' s.tag.id := by
    simp [BindingChanged, TagChanged, hdeclared]
  obtain ⟨tag, alarm⟩ := s
  cases alarm with
  | none => simpa [ChangedIn, Changed, hcontains, htagId] using hbinding
  | some a =>
    have hdeclaredAlarm : index.alarm? a.id = some a := wf.alarm?_eq_some.mpr ⟨halarm a rfl, rfl⟩
    simp [ChangedIn, Changed, hcontains, halarmId, Subject.alarmId, hdeclaredAlarm, hbinding,
      (hs.alarm a rfl).2]

end

end Subject

/-! ### One component -/

theorem Findings.status_preserve {f : Findings} (hf : f.Clean) {b : Bound} (htag : b.tagId ≠ [])
    {c : Json} (hobj : c.isObject = true) : fieldOf (f.preserve b c) "status" =
      if b.alarmId ∈ f.conflictedAlarms then bytes "conflict"
      else if b.alarmId ∈ f.removedAlarms then bytes "unavailable"
      else if b.tagId ∈ f.conflictedTags then bytes "conflict"
      else if b.tagId ∈ f.removedTags then bytes "unavailable"
      else fieldOf c "status" := by
  have htag' : b.tagId.isEmpty = false := by simpa using htag
  have halarm : ∀ l : List Bytes, [] ∉ l → (!b.alarmId.isEmpty && l.contains b.alarmId) =
      l.contains b.alarmId := by
    intro l hl
    cases hb : b.alarmId with
    | nil => simpa using hl
    | cons x xs => simp
  have hmark : ∀ status reason : Bytes, fieldOf (mark c status reason) "status" = status :=
    fun status reason => fieldOf_eq (find?_mark_status hobj _ _)
  simp only [preserve, marks, List.foldl_cons, List.foldl_nil, htag', halarm _ hf.removedAlarms,
    halarm _ hf.conflictedAlarms, hf.removedRelationships, hf.changedRelationships,
    List.contains_nil, Bool.and_false, Bool.false_eq_true, if_false, Bool.not_false, Bool.true_and,
    List.contains_iff_mem]
  split_ifs <;> simp [mark_mark hobj, hmark]

section
variable [Platform] {index index' : ModelIndex} (wf : index.WellFormed) (wf' : index'.WellFormed)
  {task : Json} {c : Composed} (hc : c.Of index task)
  (hcompared : compareView index' (c.parts index task).changes (c.parts index task).issues
    c.components c.dependencies = .ok ((c.parts index task).findings index'))

include wf hc in
theorem Composed.Of.subject_of_id {s t : Subject} (hs : s ∈ c.subjects) (ht : t ∈ c.subjects)
    (hid : s.id = t.id) : s = t :=
  List.inj_on_of_nodup_map (nodup_selection wf hc.subjects) hs ht hid

include wf hc in
theorem Composed.Of.alarm_isSome_eq {s t : Subject} (hs : s ∈ c.subjects) (ht : t ∈ c.subjects) :
    s.alarm.isSome = t.alarm.isSome := by
  have hk := ((mem_selection wf hc.subjects).mp hs).kind
  have hk' := ((mem_selection wf hc.subjects).mp ht).kind
  split_ifs at hk hk'
  · rw [hk, hk']
  · rw [hk, hk']

include wf hc in
theorem Composed.Of.recorded : Recorded c.dependencies := (hc.sound wf).toRecorded

include wf hc in
theorem Composed.Of.finite {s : Subject} (hs : s ∈ c.subjects) {a : Alarm} (ha : s.alarm = some a) :
    isFiniteNumber a.threshold = true :=
  (wf.alarms a (((mem_selection wf hc.subjects).mp hs).alarm a ha).1).threshold

include wf hc in
theorem Composed.Of.verdicts (index' : ModelIndex) {s : Subject} (hs : s ∈ c.subjects) {j : Json}
    (hj : s.component index = .ok j) :
    (s.GoneIn index' ↔ Gone index' j) ∧ (s.ChangedIn index' ↔ Changed index index' j) := by
  have hselected := (mem_selection wf hc.subjects).mp hs
  have hshown := Subject.component_shows hj
  exact ⟨Subject.goneIn_iff (hc.proper wf hs) hshown,
    Subject.changedIn_iff (hc.proper wf hs) hshown wf hselected.tag
      fun a ha => (hselected.alarm a ha).1⟩

include wf wf' hc hcompared

theorem conflictedAlarm_iff {s : Subject} (hs : s ∈ c.subjects) :
    s.alarmId ∈ ((c.parts index task).findings index').conflictedAlarms ↔
      ∃ a a', s.alarm = some a ∧ index'.alarm? a.id = some a' ∧
        (alarmDefinitionSnapshot a).eqv (alarmDefinitionSnapshot a') = false := by
  have hrec := hc.recorded wf
  have htags := TagsCompare.of_compareView hrec hcompared
  rw [mem_conflictedAlarms wf' hrec htags]
  constructor
  · rintro ⟨d, hd, hslot, a', ha', hdiffers⟩
    obtain ⟨t, ht, hdep⟩ := hc.mem_dependencies.mp hd
    rw [alarmSlot_eq (Subject.dependency_records hdep)] at hslot
    obtain ⟨b, hb, hbid⟩ := Option.map_eq_some_iff.mp hslot
    have hne := ((hc.proper wf ht).alarm b hb).1
    obtain ⟨a, ha⟩ : ∃ a, s.alarm = some a := by
      obtain ⟨tag, alarm⟩ := s
      cases alarm with
      | none => exact absurd hbid hne
      | some a => exact ⟨a, rfl⟩
    have hst : s = t := hc.subject_of_id wf hs ht (by
      simpa [Subject.id, Subject.alarmId, ha, hb, eq_comm] using hbid)
    subst hst
    obtain rfl := Option.some.inj (ha.symm.trans hb)
    rw [dependency_definitionDiffers hdep ha (hc.finite wf hs ha), Except.ok.injEq,
      Bool.not_eq_true'] at hdiffers
    exact ⟨a, a', ha, hbid ▸ ha', hdiffers⟩
  · rintro ⟨a, a', ha, ha', hdiffers⟩
    obtain ⟨_, -, -, d, hd, hdep⟩ := hc.bound_of_mem hs
    have hid : s.alarmId = a.id := by simp [Subject.alarmId, ha]
    refine ⟨d, hd, ?_, a', hid ▸ ha', ?_⟩
    · rw [alarmSlot_eq (Subject.dependency_records hdep), ha, hid]
      rfl
    · rw [dependency_definitionDiffers hdep ha (hc.finite wf hs ha), hdiffers, Bool.not_false]

theorem removedAlarm_iff {s : Subject} (hs : s ∈ c.subjects) :
    s.alarmId ∈ ((c.parts index task).findings index').removedAlarms ↔
      ∃ a, s.alarm = some a ∧ index'.alarm? a.id = none := by
  have hrec := hc.recorded wf
  have htags := TagsCompare.of_compareView hrec hcompared
  rw [mem_removedAlarms wf' hrec htags]
  constructor
  · rintro ⟨hgone, d, hd, hslot⟩
    have hne : s.alarmId ≠ [] := fun e => hrec.alarmSlot_ne d hd (e ▸ hslot)
    obtain ⟨tag, alarm⟩ := s
    cases alarm with
    | none => exact absurd rfl hne
    | some a => exact ⟨a, rfl, hgone⟩
  · rintro ⟨a, ha, hgone⟩
    obtain ⟨_, -, -, d, hd, hdep⟩ := hc.bound_of_mem hs
    have hid : s.alarmId = a.id := by simp [Subject.alarmId, ha]
    refine ⟨hid ▸ hgone, d, hd, ?_⟩
    rw [alarmSlot_eq (Subject.dependency_records hdep), ha, hid]
    rfl

theorem conflictedTag_iff_of_none {s : Subject} (hs : s ∈ c.subjects) (hnone : s.alarm = none) :
    s.tag.id ∈ ((c.parts index task).findings index').conflictedTags ↔ s.BindingChanged index' := by
  have hrec := hc.recorded wf
  have htags := TagsCompare.of_compareView hrec hcompared
  have hkind : ∀ t ∈ c.subjects, t.alarm = none := by
    intro t ht
    have hsome := hc.alarm_isSome_eq wf hs ht
    rw [hnone] at hsome
    exact Option.isNone_iff_eq_none.mp (by simpa using hsome.symm)
  rw [mem_conflictedTags wf' hrec htags]
  constructor
  · rintro ⟨d, hd, tag', htag', hconf⟩
    obtain ⟨t, ht, hdep⟩ := hc.mem_dependencies.mp hd
    have htnone := hkind t ht
    rw [recordsConflict_tag (Subject.dependency_records hdep) htnone,
      dependency_bindingDiffers hdep htnone, Bool.not_eq_true'] at hconf
    have hst : s = t := hc.subject_of_id wf hs ht (by
      rw [Subject.id, Subject.id, hnone, htnone, hconf.1]
      exact (wf'.tag?_eq_some.mp htag').2.symm)
    exact ⟨tag', htag', hst ▸ hconf.2⟩
  · rintro ⟨tag', htag', hdiffers⟩
    obtain ⟨_, -, -, d, hd, hdep⟩ := hc.bound_of_mem hs
    refine ⟨d, hd, tag', htag', ?_⟩
    rw [recordsConflict_tag (Subject.dependency_records hdep) hnone,
      dependency_bindingDiffers hdep hnone, hdiffers]
    exact ⟨(wf'.tag?_eq_some.mp htag').2.symm, rfl⟩

theorem conflictedTag_iff_of_some {s : Subject} (hs : s ∈ c.subjects) {a : Alarm}
    (ha : s.alarm = some a) :
    s.tag.id ∈ ((c.parts index task).findings index').conflictedTags ↔
      ∃ t ∈ c.subjects, s.MovesOnto index' t := by
  have hrec := hc.recorded wf
  have htags := TagsCompare.of_compareView hrec hcompared
  have hkind : ∀ t ∈ c.subjects, ∃ b, t.alarm = some b := by
    intro t ht
    have hsome := hc.alarm_isSome_eq wf hs ht
    rw [ha] at hsome
    exact Option.isSome_iff_exists.mp hsome.symm
  rw [mem_conflictedTags wf' hrec htags]
  constructor
  · rintro ⟨d, hd, tag', htag', hconf⟩
    obtain ⟨t, ht, hdep⟩ := hc.mem_dependencies.mp hd
    obtain ⟨b, hb⟩ := hkind t ht
    rw [recordsConflict_alarm (Subject.dependency_records hdep) hb] at hconf
    obtain ⟨⟨b', hb', hon⟩, hdiffers⟩ := hconf
    exact ⟨t, ht, b, b', tag', hb, hb', hon.trans (wf'.tag?_eq_some.mp htag').2, htag', hdiffers⟩
  · rintro ⟨t, ht, b, b', tag', hb, hb', hon, htag', hdiffers⟩
    obtain ⟨_, -, -, d, hd, hdep⟩ := hc.bound_of_mem ht
    refine ⟨d, hd, tag', htag', ?_⟩
    rw [recordsConflict_alarm (Subject.dependency_records hdep) hb]
    exact ⟨⟨b', hb', hon.trans (wf'.tag?_eq_some.mp htag').2.symm⟩, hdiffers⟩

theorem removedTag_of_none {s : Subject} (hs : s ∈ c.subjects) (hnone : s.alarm = none)
    (hgone : index'.tag? s.tag.id = none) :
    s.tag.id ∈ ((c.parts index task).findings index').removedTags := by
  have hrec := hc.recorded wf
  obtain ⟨_, -, -, d, hd, hdep⟩ := hc.bound_of_mem hs
  have hsd := Subject.dependency_records hdep
  have hown := (findingOf_removedTags wf' (x := s.tag.id)
    (TagsCompare.of_compareView hrec hcompared) hd hsd).mpr
    ⟨rfl, hgone, fun a ha => by rw [hnone] at ha; cases ha⟩
  exact (findingOf_le hrec hd).removedTags hown

variable {task' : Json} {c' : Composed} (hc' : c'.Of index' task') {kind anchor : Bytes}
  {roles : List Bytes} (hsel : ∀ s ∈ c.subjects, s.Selected index kind anchor roles)
  (hsel' : ∀ s, s ∈ c'.subjects ↔ s.Selected index' kind anchor roles)
include hc' hsel hsel'

/-- The status of a reconciled component, by the sets its ids are in; the fresh component where they
are in none. -/
theorem kept_status {s : Subject} (hs : s ∈ c.subjects) {j : Json} (hj : s.component index = .ok j) :
    let f := (c.parts index task).findings index'
    let k := kept f c'.components j
    (fieldOf k "status" = if s.alarmId ∈ f.conflictedAlarms then bytes "conflict"
      else if s.alarmId ∈ f.removedAlarms then bytes "unavailable"
      else if s.tag.id ∈ f.conflictedTags then bytes "conflict"
      else if s.tag.id ∈ f.removedTags then bytes "unavailable" else []) ∧
    (s.alarmId ∉ f.conflictedAlarms → s.alarmId ∉ f.removedAlarms → s.tag.id ∉ f.conflictedTags →
      s.tag.id ∉ f.removedTags → k ∈ c'.components) := by
  intro f k
  have hshown := Subject.component_shows hj
  have hproper := hc.proper wf hs
  have hbound : boundOf j = ⟨s.tag.id, s.alarmId, []⟩ := hshown.boundOf_eq hproper
  have hclean : f.Clean := compareView_clean (hc.recorded wf).alarmSlot_ne
    (fun j hj => ((hc.sound wf).component j hj).relationshipId) hcompared
  have hfree := hshown.not_blocked
  have hjmem : j ∈ c.components := hc.mem_components.mpr ⟨s, hs, hj⟩
  by_cases hblocks : f.blocks (boundOf j) = true
  · have hk : k = f.preserve (boundOf j) j := kept_of_blocked (.inr hblocks)
    refine ⟨?_, fun hca hra hct hrt => absurd hblocks ?_⟩
    · rw [hk, Findings.status_preserve hclean (by rw [hbound]; exact hproper.tagId) hshown.isObject,
        hbound, fieldOf_none hshown.status]
    · simp [Findings.blocks, hbound, hca, hra, hct, hrt, hclean.removedRelationships,
        hclean.changedRelationships]
  · rw [Bool.not_eq_true] at hblocks
    obtain ⟨_, -, -, s', hs', -, hcomp', hmem, -⟩ :=
      (hc.sound wf).renewed wf wf' hsel hc' hsel' hcompared hjmem hfree hblocks
    have hspare := hblocks
    simp only [Findings.blocks, hbound, Bool.or_eq_false_iff, List.contains_eq_mem,
      decide_eq_false_iff_not] at hspare
    obtain ⟨⟨⟨⟨⟨hct, hrt⟩, hca⟩, hra⟩, -⟩, -⟩ := hspare
    refine ⟨?_, fun _ _ _ _ => hmem⟩
    rw [if_neg hca, if_neg hra, if_neg hct, if_neg hrt]
    exact fieldOf_none (Subject.component_shows hcomp').status

/-- **What becomes of one component.** -/
theorem kept_cases_of_subject {s : Subject} (hs : s ∈ c.subjects) {j : Json}
    (hj : s.component index = .ok j) :
    let k := kept ((c.parts index task).findings index') c'.components j
    (s.GoneIn index' ∧ fieldOf k "status" = "unavailable") ∨
    (¬ s.GoneIn index' ∧ s.ChangedIn index' ∧ fieldOf k "status" = "conflict") ∨
    (¬ s.GoneIn index' ∧ ¬ s.ChangedIn index' ∧ (∃ t ∈ c.subjects, s.MovesOnto index' t) ∧
      fieldOf k "status" = "conflict") ∨
    (¬ s.GoneIn index' ∧ ¬ s.ChangedIn index' ∧ (¬ ∃ t ∈ c.subjects, s.MovesOnto index' t) ∧
      k ∈ c'.components) := by
  intro k
  obtain ⟨hstatus, hfresh⟩ :=
    kept_status wf wf' hc hcompared hc' hsel hsel' hs hj
  have hca := conflictedAlarm_iff wf wf' hc hcompared hs
  have hra := removedAlarm_iff wf wf' hc hcompared hs
  have hrt : s.tag.id ∈ ((c.parts index task).findings index').removedTags →
      index'.tag? s.tag.id = none := mem_removedTags wf' (hc.recorded wf)
    (TagsCompare.of_compareView (hc.recorded wf) hcompared)
  cases ha : s.alarm with
  | none =>
    have hct := conflictedTag_iff_of_none wf wf' hc hcompared hs ha
    have hgone : s.GoneIn index' ↔ index'.tag? s.tag.id = none := by simp [Subject.GoneIn, ha]
    have hchanged : s.ChangedIn index' ↔ s.BindingChanged index' := by simp [Subject.ChangedIn, ha]
    have hmoves : ¬ ∃ t ∈ c.subjects, s.MovesOnto index' t := by
      rintro ⟨t, ht, b, -, -, hb, -⟩
      have hsome := hc.alarm_isSome_eq wf hs ht
      rw [ha, hb] at hsome
      cases hsome
    have hca' : s.alarmId ∉ ((c.parts index task).findings index').conflictedAlarms := by
      rw [hca, ha]
      simp
    have hra' : s.alarmId ∉ ((c.parts index task).findings index').removedAlarms := by
      rw [hra, ha]
      simp
    rw [if_neg hca', if_neg hra'] at hstatus
    by_cases hg : s.GoneIn index'
    · have hnot := mt hct.mp (mt hchanged.mpr (Subject.not_changed_of_gone hg))
      rw [if_neg hnot, if_pos (removedTag_of_none wf wf' hc hcompared hs ha (hgone.mp hg))] at hstatus
      exact .inl ⟨hg, hstatus⟩
    · by_cases hch : s.ChangedIn index'
      · rw [if_pos (hct.mpr (hchanged.mp hch))] at hstatus
        exact .inr (.inl ⟨hg, hch, hstatus⟩)
      · exact .inr (.inr (.inr ⟨hg, hch, hmoves, hfresh hca' hra' (mt hct.mp (mt hchanged.mpr hch))
          (mt hrt (mt hgone.mpr hg))⟩))
  | some a =>
    have hct := conflictedTag_iff_of_some wf wf' hc hcompared hs ha
    have hgone : s.GoneIn index' ↔ index'.alarm? a.id = none := by simp [Subject.GoneIn, ha]
    have hon : a.tagId = s.tag.id := ((hc.proper wf hs).alarm a ha).2
    by_cases hg : s.GoneIn index'
    · have hca' : s.alarmId ∉ ((c.parts index task).findings index').conflictedAlarms := by
        rw [hca]
        rintro ⟨b, b', hb, hb', -⟩
        obtain rfl := Option.some.inj (ha.symm.trans hb)
        rw [hgone.mp hg] at hb'
        cases hb'
      rw [if_neg hca', if_pos (hra.mpr ⟨a, ha, hgone.mp hg⟩)] at hstatus
      exact .inl ⟨hg, hstatus⟩
    · obtain ⟨a', ha'⟩ := Option.ne_none_iff_exists'.mp (mt hgone.mpr hg)
      have hra' : s.alarmId ∉ ((c.parts index task).findings index').removedAlarms := by
        rw [hra]
        rintro ⟨b, hb, hb'⟩
        obtain rfl := Option.some.inj (ha.symm.trans hb)
        rw [ha'] at hb'
        cases hb'
      have hchanged : s.ChangedIn index' ↔
          (alarmDefinitionSnapshot a).eqv (alarmDefinitionSnapshot a') = false ∨
            s.BindingChanged index' := by
        simp [Subject.ChangedIn, ha, ha']
      by_cases hdef : (alarmDefinitionSnapshot a).eqv (alarmDefinitionSnapshot a') = false
      · rw [if_pos (hca.mpr ⟨a, a', ha, ha', hdef⟩)] at hstatus
        exact .inr (.inl ⟨hg, hchanged.mpr (.inl hdef), hstatus⟩)
      · have hca' : s.alarmId ∉ ((c.parts index task).findings index').conflictedAlarms := by
          rw [hca]
          rintro ⟨b, b', hb, hb', hdiffers⟩
          obtain rfl := Option.some.inj (ha.symm.trans hb)
          obtain rfl := Option.some.inj (ha'.symm.trans hb')
          exact hdef hdiffers
        -- the alarm is still on its tag, which is declared with it
        have hstill : a'.tagId = s.tag.id := by
          rw [Bool.not_eq_false] at hdef
          exact ((alarmDefinitionSnapshot_eqv.mp hdef).2.2.2.2.1).symm.trans hon
        obtain ⟨tag', htag', -⟩ := wf'.alarm_tag (wf'.alarm?_eq_some.mp ha').1
        rw [hstill] at htag'
        rw [if_neg hca', if_neg hra'] at hstatus
        by_cases hb : s.BindingChanged index'
        · obtain ⟨tag₁, htag₁, hdiffers⟩ := hb
          have hself : ∃ t ∈ c.subjects, s.MovesOnto index' t :=
            ⟨s, hs, a, a', tag₁, ha, ha', hstill, htag₁, hdiffers⟩
          rw [if_pos (hct.mpr hself)] at hstatus
          exact .inr (.inl ⟨hg, hchanged.mpr (.inr ⟨tag₁, htag₁, hdiffers⟩), hstatus⟩)
        · have hch : ¬ s.ChangedIn index' := by
            rw [hchanged]
            exact not_or.mpr ⟨hdef, hb⟩
          by_cases hmoves : ∃ t ∈ c.subjects, s.MovesOnto index' t
          · rw [if_pos (hct.mpr hmoves)] at hstatus
            exact .inr (.inr (.inl ⟨hg, hch, hmoves, hstatus⟩))
          · refine .inr (.inr (.inr ⟨hg, hch, hmoves, hfresh hca' hra' (mt hct.mp hmoves) ?_⟩))
            intro h
            rw [hrt h] at htag'
            cases htag'

/-- **A component is classified exactly where no alarm moves onto its tag while it stays the same.** -/
theorem classified_iff {s : Subject} (hs : s ∈ c.subjects) {j : Json}
    (hj : s.component index = .ok j) :
    Classified index index' (c'.view index' task') j
        (kept ((c.parts index task).findings index') c'.components j) ↔
      ¬ (¬ s.GoneIn index' ∧ ¬ s.ChangedIn index' ∧ ∃ t ∈ c.subjects, s.MovesOnto index' t) := by
  obtain ⟨hgone, hchanged⟩ := hc.verdicts wf index' hs hj
  have hne : (bytes "unavailable") ≠ bytes "conflict" := by simp
  rcases kept_cases_of_subject wf wf' hc hcompared hc' hsel hsel' hs hj with ⟨hg, hk⟩ |
    ⟨hg, hch, hk⟩ | ⟨hg, hch, hmoves, hk⟩ | ⟨hg, hch, hmoves, hk⟩
  · have hch := Subject.not_changed_of_gone hg
    refine iff_of_true ⟨?_, ?_, ?_⟩ fun h => h.1 hg
    · exact iff_of_true hk (hgone.mp hg)
    · exact iff_of_false (fun h => hne (hk.symm.trans h)) (mt hchanged.mpr hch)
    · exact fun h _ => absurd (hgone.mp hg) h
  · refine iff_of_true ⟨?_, ?_, ?_⟩ fun h => h.2.1 hch
    · exact iff_of_false (fun h => hne (h.symm.trans hk)) (mt hgone.mpr hg)
    · exact iff_of_true hk (hchanged.mp hch)
    · exact fun _ h => absurd (hchanged.mp hch) h
  · exact iff_of_false (fun h => hch (hchanged.mpr (h.conflict.mp hk))) fun h => h ⟨hg, hch, hmoves⟩
  · obtain ⟨t, -, hcomp⟩ := hc'.mem_components.mp hk
    have hstatus := fieldOf_none (Subject.component_shows hcomp).status
    refine iff_of_true ⟨?_, ?_, fun _ _ => ?_⟩ fun h => hmoves h.2.2
    · exact iff_of_false (fun h => by simp [hstatus] at h) (mt hgone.mpr hg)
    · exact iff_of_false (fun h => by simp [hstatus] at h) (mt hchanged.mpr hch)
    · exact ⟨_, (hc'.sound wf').hasComponents, hk⟩

end

/-! ### A view -/

section
variable [Platform] {index index' : ModelIndex} (wf : index.WellFormed) {task : Json} {c : Composed}
  (hc : c.Of index task)
include wf hc

omit wf in
theorem Composed.Of.hasComponent {j : Json} :
    HasComponent (c.view index task) j ↔ ∃ s ∈ c.subjects, s.component index = .ok j := by
  have hfind : (c.view index task).find? "components" = some (.arr c.components) := by
    rw [Composed.view_find? c task (by simp)]
    simp [composeView, Composed.components]
  rw [← hc.mem_components]
  constructor
  · rintro ⟨components, hcomponents, hj⟩
    rw [hfind, Option.some.injEq, Json.arr.injEq] at hcomponents
    exact hcomponents ▸ hj
  · exact fun hj => ⟨_, hfind, hj⟩

theorem alarmMovesOnto_iff : AlarmMovesOnto index index' (c.view index task) ↔
    ∃ s ∈ c.subjects, ¬ s.GoneIn index' ∧ ¬ s.ChangedIn index' ∧
      ∃ t ∈ c.subjects, s.MovesOnto index' t := by
  constructor
  · rintro ⟨j, i, alarm, alarm', tag, tag', hj, hi, hgone, hchanged, hcontains, halarm, halarm', hon,
      htag, htag', hdiffers⟩
    obtain ⟨s, hs, hcomp⟩ := hc.hasComponent.mp hj
    obtain ⟨t, ht, hcomp'⟩ := hc.hasComponent.mp hi
    obtain ⟨hg, hch⟩ := hc.verdicts wf index' hs hcomp
    have hshown := Subject.component_shows hcomp'
    rw [Subject.contains_alarmId hshown] at hcontains
    obtain ⟨b, hb⟩ := Option.isSome_iff_exists.mp hcontains
    have hid : fieldOf i "alarm_id" = b.id := by
      rw [Subject.fieldOf_alarmId (hc.proper wf ht) hshown, Subject.alarmId, hb]
    have hselected := (mem_selection wf hc.subjects).mp ht
    obtain ⟨hbmem, hbtag⟩ := hselected.alarm b hb
    rw [hid, wf.alarm?_eq_some.mpr ⟨hbmem, rfl⟩] at halarm
    obtain rfl := Option.some.inj halarm
    rw [hbtag, wf.tag?_eq_some.mpr ⟨hselected.tag, rfl⟩] at htag
    obtain rfl := Option.some.inj htag
    rw [Subject.fieldOf_tagId (hc.proper wf hs) (Subject.component_shows hcomp)] at hon
    exact ⟨s, hs, mt hg.mp hgone, mt hch.mp hchanged, t, ht, b, alarm', tag', hb, hid ▸ halarm', hon,
      hon ▸ htag', hdiffers⟩
  · rintro ⟨s, hs, hgone, hchanged, t, ht, b, b', tag', hb, hb', hon, htag', hdiffers⟩
    obtain ⟨j, hj, hcomp, -⟩ := hc.bound_of_mem hs
    obtain ⟨i, hi, hcomp', -⟩ := hc.bound_of_mem ht
    obtain ⟨hg, hch⟩ := hc.verdicts wf index' hs hcomp
    have hshown := Subject.component_shows hcomp'
    have hid : fieldOf i "alarm_id" = b.id := by
      rw [Subject.fieldOf_alarmId (hc.proper wf ht) hshown, Subject.alarmId, hb]
    have hselected := (mem_selection wf hc.subjects).mp ht
    obtain ⟨hbmem, hbtag⟩ := hselected.alarm b hb
    refine ⟨j, i, b, b', t.tag, tag', hc.hasComponent.mpr ⟨s, hs, hcomp⟩,
      hc.hasComponent.mpr ⟨t, ht, hcomp'⟩, mt hg.mpr hgone, mt hch.mpr hchanged, ?_, ?_, ?_, ?_, ?_,
      ?_, hdiffers⟩
    · rw [Subject.contains_alarmId hshown, hb, Option.isSome_some]
    · rw [hid]
      exact wf.alarm?_eq_some.mpr ⟨hbmem, rfl⟩
    · rw [hid, hb']
    · rw [hon, Subject.fieldOf_tagId (hc.proper wf hs) (Subject.component_shows hcomp)]
    · rw [hbtag]
      exact wf.tag?_eq_some.mpr ⟨hselected.tag, rfl⟩
    · rw [hon, htag']

end

section
variable [Platform]

/-- **Each component is classified exactly, unless an alarm moves onto the tag of a component that
did not change.** -/
theorem reconcile_classifies_iff {model model' task view reconciled : Json}
    {index index' : ModelIndex} (hindex : indexModel model = .ok index)
    (hindex' : indexModel model' = .ok index') (hview : resolveTask model task = .ok view)
    (hreconciled : reconcileView model' view = .ok reconciled) :
    ∃ oldTask fresh, view.find? "task" = some oldTask ∧
      resolveTask model' (oldTask.setFields [("model_id", .str index'.modelId),
        ("model_revision", index'.revision)]) = .ok fresh ∧
      ((∀ c, HasComponent view c → ∃ c',
          (∀ b, HasComponent reconciled b ∧ fieldOf b "id" = fieldOf c "id" ↔ b = c') ∧
          Classified index index' fresh c c') ↔
        ¬ AlarmMovesOnto index index' view) := by
  have wf := indexModel_wellFormed hindex
  have wf' := indexModel_wellFormed hindex'
  simp only [resolveTask, hindex, ok_bind] at hview
  simp only [reconcileView, hindex', ok_bind] at hreconciled
  obtain ⟨c, hc, rfl⟩ := resolveTaskImpl_eq_ok.mp hview
  have hs := hc.saved wf
  obtain ⟨hcompared, hfits, fresh, hfresh, -, hfrom⟩ := hs.of_reconcileViewImpl_compared wf' hreconciled
  obtain ⟨c', hc', rfl⟩ := resolveTaskImpl_eq_ok.mp hfresh
  have hscope : c'.kind = c.kind ∧ c'.anchor = c.anchor ∧ c'.roles = c.roles := by
    refine hc'.scope_eq hc ?_
    rw [SavedParts.newTask, taskScope_setFields hfits.task]
    simp only [taskScope, Composed.parts]
    rw [effectiveTask_find? hc.isObject (by simp), effectiveTask_find? hc.isObject (by simp),
      effectiveTask_find? hc.isObject (by simp)]
  have hsel : ∀ s ∈ c.subjects, s.Selected index c.kind c.anchor c.roles := fun s =>
    (mem_selection wf hc.subjects).mp
  have hsel' : ∀ s, s ∈ c'.subjects ↔ s.Selected index' c.kind c.anchor c.roles := by
    obtain ⟨hk, ha, hr⟩ := hscope
    rw [← hk, ← ha, ← hr]
    exact fun s => mem_selection wf' hc'.subjects
  refine ⟨_, c'.view index' ((c.parts index task).newTask index'), hs.task, ?_, ?_⟩
  · simp only [resolveTask, hindex', ok_bind]
    exact hfresh
  rw [alarmMovesOnto_iff wf hc]
  -- the components of the reconciled view, and that their ids are distinct
  have hitems : SavedParts.itemsOf (c'.view index' ((c.parts index task).newTask index'))
      "components" = c'.components := itemsOf_eq (hc'.sound wf').hasComponents
  have hcomponents : reconciled.find? "components" = some (.arr
      (keptComponents ((c.parts index task).findings index') c'.components c.components)) := by
    rw [hfrom, (hs.next (hc'.saved wf')).components, SavedParts.next, hitems]
    rfl
  have hnodup : ((keptComponents ((c.parts index task).findings index') c'.components
      c.components).map (fieldOf · "id")).Nodup := by
    obtain ⟨r⟩ := reconcileViewImpl_parts wf' (hc.sound wf) hreconciled
    obtain ⟨hk, ha, hr⟩ := r.of.scope_eq hc r.scope
    have hsound := r.sound wf wf' (hc.sound wf) hsel fun s => by
      rw [mem_selection wf' r.of.subjects, hk, ha, hr]
    have heq := Json.arr.inj (Option.some.inj (hsound.hasComponents.symm.trans hcomponents))
    exact heq ▸ hsound.nodup
  have hkept : ∀ j ∈ c.components, ∀ b, HasComponent reconciled b ∧ fieldOf b "id" = fieldOf j "id" ↔
      b = kept ((c.parts index task).findings index') c'.components j := by
    intro j hj b
    have hmem : kept ((c.parts index task).findings index') c'.components j ∈
        keptComponents ((c.parts index task).findings index') c'.components c.components :=
      List.mem_append_left _ (List.mem_map_of_mem hj)
    have hid : fieldOf (kept ((c.parts index task).findings index') c'.components j) "id" =
        fieldOf j "id" := kept_id j ((hc.sound wf).component j hj).isObject
    constructor
    · rintro ⟨⟨components, hfind, hb⟩, hbid⟩
      obtain rfl := Json.arr.inj (Option.some.inj (hcomponents.symm.trans hfind))
      exact List.inj_on_of_nodup_map hnodup hb hmem (hbid.trans hid.symm)
    · rintro rfl
      exact ⟨⟨_, hcomponents, hmem⟩, hid⟩
  constructor
  · rintro h ⟨s, hmem, hmoves⟩
    obtain ⟨j, hj, hcomp, -⟩ := hc.bound_of_mem hmem
    obtain ⟨k, hk, hclass⟩ := h j (hc.hasComponent.mpr ⟨s, hmem, hcomp⟩)
    obtain rfl := (hk _).mp ((hkept j hj _).mpr rfl)
    exact (classified_iff wf wf' hc hcompared hc' hsel hsel' hmem hcomp).mp hclass hmoves
  · intro h j hj
    obtain ⟨s, hmem, hcomp⟩ := hc.hasComponent.mp hj
    refine ⟨_, hkept j (hc.mem_components.mpr ⟨s, hmem, hcomp⟩), ?_⟩
    exact (classified_iff wf wf' hc hcompared hc' hsel hsel' hmem hcomp).mpr
      fun hmoves => h ⟨s, hmem, hmoves⟩

end

/-! ### Two revisions -/

section samples

local instance classificationPlatform : Platform := samplePlatform

/-- A revision that changes nothing is classified exactly. -/
theorem reconcile_classifies_steady :
    ∃ fresh, ∀ c, HasComponent (viewsOf steadyModels alarmsTask 0) c → ∃ c',
      (∀ b, HasComponent (viewsOf steadyModels alarmsTask 1) b ∧ fieldOf b "id" = fieldOf c "id" ↔
        b = c') ∧
      Classified (indexOf (steadyModels 0)) (indexOf (steadyModels 1)) fresh c c' := by
  have hnext : reconcileView (steadyModels 1) (viewsOf steadyModels alarmsTask 0) =
      .ok (viewsOf steadyModels alarmsTask 1) := steady_chain.next 0 (by omega)
  obtain ⟨_, fresh, -, -, hiff⟩ := reconcile_classifies_iff (indexModel_eq (by decide +kernel))
    (indexModel_eq (by decide +kernel)) steady_chain.first hnext
  refine ⟨fresh, hiff.mpr ?_⟩
  rintro ⟨_, _, _, _, tag, tag', -, -, -, -, -, -, -, -, htag, htag', hdiffers⟩
  have hsame : ((indexOf (steadyModels 0)).tags.all fun tag => (indexOf (steadyModels 1)).tags.all
      fun tag' => (tagBindingSnapshot tag).eqv (tagBindingSnapshot tag')) = true := by decide +kernel
  simp only [List.all_eq_true] at hsame
  rw [hsame tag (List.mem_of_find?_eq_some htag) tag' (List.mem_of_find?_eq_some htag')] at hdiffers
  cases hdiffers

/-- A revision that moves an alarm onto the tag of another. -/
def movingModels : ℕ → Json
  | 0 => samplePlant 0 [sampleTag "inlet" "m", sampleTag "outlet" "m"]
      [sampleAlarm "fill" "inlet", sampleAlarm "drain" "outlet"]
  | _ => samplePlant 1 [sampleTag "inlet" "m", sampleTag "outlet" "m"]
      [sampleAlarm "fill" "outlet", sampleAlarm "drain" "outlet"]

/-- The other alarm did not change, and is marked in conflict. -/
theorem reconcile_misclassifies :
    indexModel (movingModels 0) = .ok (indexOf (movingModels 0)) ∧
    indexModel (movingModels 1) = .ok (indexOf (movingModels 1)) ∧
    resolveTask (movingModels 0) alarmsTask = .ok (viewsOf movingModels alarmsTask 0) ∧
    reconcileView (movingModels 1) (viewsOf movingModels alarmsTask 0) =
      .ok (viewsOf movingModels alarmsTask 1) ∧
    ∃ c c', HasComponent (viewsOf movingModels alarmsTask 0) c ∧
      HasComponent (viewsOf movingModels alarmsTask 1) c' ∧ fieldOf c' "id" = fieldOf c "id" ∧
      ¬ Gone (indexOf (movingModels 1)) c ∧
      ¬ Changed (indexOf (movingModels 0)) (indexOf (movingModels 1)) c ∧
      fieldOf c' "status" = "conflict" := by
  refine ⟨indexModel_eq (by decide +kernel), indexModel_eq (by decide +kernel),
    viewsOf_zero (by decide +kernel), viewsOf_succ 0 (by decide +kernel), ?_⟩
  obtain ⟨c, hc, hsame⟩ := exists_of_anyComponent (viewsOf movingModels alarmsTask 0)
    (fun c => fieldOf c "id" == "drain" && decide (¬ Gone (indexOf (movingModels 1)) c) &&
      decide (¬ Changed (indexOf (movingModels 0)) (indexOf (movingModels 1)) c)) (by decide +kernel)
  obtain ⟨c', hc', hmarked⟩ := exists_of_anyComponent (viewsOf movingModels alarmsTask 1)
    (fun c => fieldOf c "id" == "drain" && fieldOf c "status" == "conflict") (by decide +kernel)
  simp only [Bool.and_eq_true, beq_iff_eq, decide_eq_true_eq] at hsame hmarked
  exact ⟨c, c', hc, hc', hmarked.1.trans hsame.1.1.symm, hsame.1.2, hsame.2, hmarked.2⟩

end samples

end ContextHmi
