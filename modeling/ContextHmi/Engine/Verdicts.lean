import ContextHmi.Engine.Settling

/-!
# What a comparison finds

Each set a comparison fills, by what puts an id in it: a tag or an alarm that is gone, a tag whose
dependency records another binding, an alarm whose dependency records another definition. An alarm's
dependency is compared with the tag its alarm is on now, whichever tag that is.

* `mem_conflictedTags`, `mem_removedTags`, `mem_conflictedAlarms`, `mem_removedAlarms`.
-/

namespace ContextHmi

open Outcome

section
variable [Platform] {index : ModelIndex} {d : Json} {s : Subject} {x : Bytes}

omit [Platform] in
/-- The dependency records another binding than `tag` has now: its own tag's, or that of the tag its
alarm is on now. -/
def RecordsConflict (index : ModelIndex) (d : Json) (tag : Tag) : Prop :=
  match alarmSlot d, tagSlot d with
  | some alarmId, _ => (∃ alarm, index.alarm? alarmId = some alarm ∧ alarm.tagId = tag.id) ∧
      memberDiffers d "binding" (tagBindingSnapshot tag) = true
  | none, some tagId => tagId = tag.id ∧ bindingDiffers d tag = true
  | none, none => False

omit [Platform] in
theorem recordsConflict_tag (hsd : s.RecordedBy d) (hnone : s.alarm = none) {tag : Tag} :
    RecordsConflict index d tag ↔ s.tag.id = tag.id ∧ bindingDiffers d tag = true := by
  simp only [RecordsConflict, alarmSlot_eq hsd, tagSlot_eq hsd, hnone, Option.map_none, if_true]

omit [Platform] in
theorem recordsConflict_alarm (hsd : s.RecordedBy d) {a : Alarm} (ha : s.alarm = some a)
    {tag : Tag} :
    RecordsConflict index d tag ↔
      (∃ alarm, index.alarm? a.id = some alarm ∧ alarm.tagId = tag.id) ∧
        (tagBindingSnapshot s.tag).eqv (tagBindingSnapshot tag) = false := by
  simp [RecordsConflict, alarmSlot_eq hsd, ha, memberDiffers, hsd.binding]

/-! ### One dependency -/

theorem tagFinding_sets (hcheck : ∀ tag, index.tag? x = some tag → bindingDiffers d tag = true →
      ∃ f, checkTagDependency index .empty (x, d) = .ok f) (y : Bytes) :
    (y ∈ (tagFinding index (x, d)).removedTags ↔ y = x ∧ index.tag? x = none) ∧
    (y ∈ (tagFinding index (x, d)).conflictedTags ↔
      y = x ∧ ∃ tag, index.tag? x = some tag ∧ bindingDiffers d tag = true) ∧
    (tagFinding index (x, d)).removedAlarms = [] ∧
    (tagFinding index (x, d)).conflictedAlarms = [] := by
  unfold tagFinding
  cases htag : index.tag? x with
  | none =>
    simp [checkTagDependency, htag, pure, Except.pure, Except.toOption, Findings.addChange,
      Findings.addIssue, Findings.empty]
  | some tag =>
    cases hdiffers : bindingDiffers d tag with
    | false =>
      simp [checkTagDependency, htag, hdiffers, pure, Except.pure, Except.toOption, Findings.empty]
    | true =>
      obtain ⟨f, hf⟩ := hcheck tag htag hdiffers
      rw [hf]
      simp only [checkTagDependency, htag, hdiffers, if_true, bind_eq_ok, pure_eq_ok] at hf
      obtain ⟨_, -, _, -, rfl⟩ := hf
      simp [Except.toOption, Findings.addChange, Findings.addIssue, Findings.empty, hdiffers]

omit [Platform] in
theorem alarmFinding_sets (wf : index.WellFormed) {tagId : Bytes} {definition : Json}
    (htag : d.find? "tag_id" = some (.str tagId))
    (hdefinition : d.find? "alarm_definition" = some definition) (y : Bytes) :
    (y ∈ (alarmFinding index (x, d)).removedTags ↔
      y = tagId ∧ index.alarm? x = none ∧ index.tag? y = none) ∧
    (y ∈ (alarmFinding index (x, d)).conflictedTags ↔
      ∃ alarm tag, index.alarm? x = some alarm ∧ alarm.tagId = y ∧ index.tag? y = some tag ∧
        memberDiffers d "binding" (tagBindingSnapshot tag) = true) ∧
    (y ∈ (alarmFinding index (x, d)).removedAlarms ↔ y = x ∧ index.alarm? x = none) ∧
    (y ∈ (alarmFinding index (x, d)).conflictedAlarms ↔
      y = x ∧ ∃ alarm, index.alarm? x = some alarm ∧ definitionDiffers d alarm = .ok true) := by
  unfold alarmFinding
  cases halarm : index.alarm? x with
  | none =>
    have hremoved : y ∈ (removedAlarmTag index .empty d).removedTags ↔
        y = tagId ∧ index.tag? y = none := by
      cases hgone : index.tag? tagId <;>
        simp [removedAlarmTag, htag, hgone, Findings.empty] <;> grind
    have hempty : (removedAlarmTag index .empty d).conflictedTags = [] ∧
        (removedAlarmTag index .empty d).removedAlarms = [] ∧
        (removedAlarmTag index .empty d).conflictedAlarms = [] := by
      cases hgone : index.tag? tagId <;> simp [removedAlarmTag, htag, hgone, Findings.empty]
    simp [checkAlarmDependency, halarm, pure, Except.pure, Except.toOption, Findings.addChange,
      Findings.addIssue, hremoved, hempty]
  | some alarm =>
    obtain ⟨tag, hdeclared, -⟩ := wf.alarm_tag (wf.alarm?_eq_some.mp halarm).1
    obtain ⟨differs, hdiffers⟩ : ∃ b, definitionDiffers d alarm = .ok b := by
      simp [definitionDiffers, hdefinition]
    have hsets : (checkAlarmTag index .empty d alarm).removedTags = [] ∧
        (y ∈ (checkAlarmTag index .empty d alarm).conflictedTags ↔ alarm.tagId = y ∧
          memberDiffers d "binding" (tagBindingSnapshot tag) = true) ∧
        (checkAlarmTag index .empty d alarm).removedAlarms = [] ∧
        (checkAlarmTag index .empty d alarm).conflictedAlarms = [] := by
      cases hmember : memberDiffers d "binding" (tagBindingSnapshot tag) <;>
        simp [checkAlarmTag, hdeclared, hmember, Findings.empty, Findings.addChange,
          Findings.addIssue, eq_comm]
    obtain ⟨h₁, h₂, h₃, h₄⟩ := hsets
    have hfinding : ((checkAlarmDependency index .empty (x, d)).toOption.getD .empty).removedTags =
          (checkAlarmTag index .empty d alarm).removedTags ∧
        ((checkAlarmDependency index .empty (x, d)).toOption.getD .empty).conflictedTags =
          (checkAlarmTag index .empty d alarm).conflictedTags ∧
        ((checkAlarmDependency index .empty (x, d)).toOption.getD .empty).removedAlarms =
          (checkAlarmTag index .empty d alarm).removedAlarms ∧
        ((checkAlarmDependency index .empty (x, d)).toOption.getD .empty).conflictedAlarms =
          if differs then x :: (checkAlarmTag index .empty d alarm).conflictedAlarms
          else (checkAlarmTag index .empty d alarm).conflictedAlarms := by
      cases differs <;> simp [checkAlarmDependency, halarm, hdiffers, pure, Except.pure,
        Except.toOption, Findings.addChange, Findings.addIssue]
    obtain ⟨g₁, g₂, g₃, g₄⟩ := hfinding
    rw [g₁, g₂, g₃, g₄, h₁, h₃, h₄, h₂]
    refine ⟨by simp, ?_, by simp, ?_⟩
    · constructor
      · rintro ⟨rfl, hmember⟩
        exact ⟨alarm, tag, rfl, rfl, hdeclared, hmember⟩
      · rintro ⟨alarm', tag', halarm', rfl, htag', hmember⟩
        obtain rfl := Option.some.inj halarm'
        obtain rfl := Option.some.inj (hdeclared.symm.trans htag')
        exact ⟨rfl, hmember⟩
    · cases differs <;> simp [hdiffers]

/-! ### A view -/

omit [Platform] in
theorem foldlM_steps {α β : Type} {step : β → α → Result β} {l : List α} {b b' : β}
    (h : l.foldlM step b = .ok b') : ∀ a ∈ l, ∃ c c', step c a = .ok c' := by
  induction l generalizing b with
  | nil => exact List.forall_mem_nil _
  | cons a l ih =>
    rw [List.foldlM_cons] at h
    obtain ⟨c, hc, hrest⟩ := bind_eq_ok.mp h
    exact List.forall_mem_cons.mpr ⟨⟨b, c, hc⟩, ih hrest⟩

theorem TagsCompare.of_compareView {changes issues components dependencies : List Json}
    {f : Findings} (hrec : Recorded dependencies)
    (h : compareView index changes issues components dependencies = .ok f) :
    TagsCompare index dependencies := by
  simp only [compareView, bind_eq_ok] at h
  obtain ⟨_, htags, -⟩ := h
  intro d hd tagId hslot
  obtain ⟨_, _, hcheck⟩ := foldlM_steps htags (tagId, d) ((mem_tags hrec).mpr ⟨hd, hslot⟩)
  exact ⟨_, checkTagDependency_alone hcheck _⟩

variable (wf : index.WellFormed) {dependencies : List Json} (hcompare : TagsCompare index dependencies)

omit [Platform] in
theorem recorded_tagSlot (hsd : s.RecordedBy d) (hnone : s.alarm = none) :
    tagSlot d = some s.tag.id := by rw [tagSlot_eq hsd, if_pos hnone]

include wf hcompare in
theorem findingOf_conflictedTags (hd : d ∈ dependencies) (hsd : s.RecordedBy d) :
    x ∈ (findingOf index d).conflictedTags ↔
      ∃ tag, index.tag? x = some tag ∧ RecordsConflict index d tag := by
  cases ha : s.alarm with
  | none =>
    have hcheck := hcompare d hd _ (recorded_tagSlot hsd ha)
    rw [findingOf_tag hsd ha, (tagFinding_sets (fun _ _ _ => hcheck) x).2.1]
    simp only [recordsConflict_tag hsd ha]
    constructor
    · rintro ⟨rfl, tag, htag, hdiffers⟩
      exact ⟨tag, htag, (wf.tag?_eq_some.mp htag).2.symm, hdiffers⟩
    · rintro ⟨tag, htag, hid, hdiffers⟩
      obtain rfl : x = s.tag.id := (wf.tag?_eq_some.mp htag).2.symm.trans hid.symm
      exact ⟨rfl, tag, htag, hdiffers⟩
  | some a =>
    have hdefinition : d.find? "alarm_definition" = some (alarmDefinitionSnapshot a) := by
      rw [hsd.definition, ha]
      rfl
    rw [findingOf_alarm hsd ha, (alarmFinding_sets wf hsd.tagId hdefinition x).2.1]
    simp only [recordsConflict_alarm hsd ha, memberDiffers, hsd.binding, Bool.not_eq_true']
    constructor
    · rintro ⟨alarm, tag, halarm, rfl, htag, hdiffers⟩
      exact ⟨tag, htag, ⟨alarm, halarm, (wf.tag?_eq_some.mp htag).2.symm⟩, hdiffers⟩
    · rintro ⟨tag, htag, ⟨alarm, halarm, hid⟩, hdiffers⟩
      exact ⟨alarm, tag, halarm, hid.trans (wf.tag?_eq_some.mp htag).2, htag, hdiffers⟩

include wf hcompare in
theorem findingOf_removedTags (hd : d ∈ dependencies) (hsd : s.RecordedBy d) :
    x ∈ (findingOf index d).removedTags ↔ x = s.tag.id ∧ index.tag? x = none ∧
      ∀ a, s.alarm = some a → index.alarm? a.id = none := by
  cases ha : s.alarm with
  | none =>
    have hcheck := hcompare d hd _ (recorded_tagSlot hsd ha)
    rw [findingOf_tag hsd ha, (tagFinding_sets (fun _ _ _ => hcheck) x).1]
    constructor
    · rintro ⟨rfl, h⟩
      exact ⟨rfl, h, fun a ha => by cases ha⟩
    · rintro ⟨rfl, h, -⟩
      exact ⟨rfl, h⟩
  | some a =>
    have hdefinition : d.find? "alarm_definition" = some (alarmDefinitionSnapshot a) := by
      rw [hsd.definition, ha]
      rfl
    rw [findingOf_alarm hsd ha, (alarmFinding_sets wf hsd.tagId hdefinition x).1]
    constructor
    · rintro ⟨rfl, halarm, h⟩
      exact ⟨rfl, h, fun b hb => by rwa [← Option.some.inj hb]⟩
    · rintro ⟨rfl, h, halarm⟩
      exact ⟨rfl, halarm a rfl, h⟩

include wf hcompare in
theorem findingOf_removedAlarms (hd : d ∈ dependencies) (hsd : s.RecordedBy d) :
    x ∈ (findingOf index d).removedAlarms ↔ alarmSlot d = some x ∧ index.alarm? x = none := by
  rw [alarmSlot_eq hsd]
  cases ha : s.alarm with
  | none =>
    have hcheck := hcompare d hd _ (recorded_tagSlot hsd ha)
    rw [findingOf_tag hsd ha, (tagFinding_sets (fun _ _ _ => hcheck) x).2.2.1]
    simp
  | some a =>
    have hdefinition : d.find? "alarm_definition" = some (alarmDefinitionSnapshot a) := by
      rw [hsd.definition, ha]
      rfl
    rw [findingOf_alarm hsd ha, (alarmFinding_sets wf hsd.tagId hdefinition x).2.2.1]
    simp only [Option.map_some, Option.some.injEq]
    constructor
    · rintro ⟨rfl, h⟩
      exact ⟨rfl, h⟩
    · rintro ⟨rfl, h⟩
      exact ⟨rfl, h⟩

include wf hcompare in
theorem findingOf_conflictedAlarms (hd : d ∈ dependencies) (hsd : s.RecordedBy d) :
    x ∈ (findingOf index d).conflictedAlarms ↔ alarmSlot d = some x ∧
      ∃ alarm, index.alarm? x = some alarm ∧ definitionDiffers d alarm = .ok true := by
  rw [alarmSlot_eq hsd]
  cases ha : s.alarm with
  | none =>
    have hcheck := hcompare d hd _ (recorded_tagSlot hsd ha)
    rw [findingOf_tag hsd ha, (tagFinding_sets (fun _ _ _ => hcheck) x).2.2.2]
    simp
  | some a =>
    have hdefinition : d.find? "alarm_definition" = some (alarmDefinitionSnapshot a) := by
      rw [hsd.definition, ha]
      rfl
    rw [findingOf_alarm hsd ha, (alarmFinding_sets wf hsd.tagId hdefinition x).2.2.2]
    simp only [Option.map_some, Option.some.injEq]
    constructor
    · rintro ⟨rfl, h⟩
      exact ⟨rfl, h⟩
    · rintro ⟨rfl, h⟩
      exact ⟨rfl, h⟩

end

section
variable [Platform] {index : ModelIndex} (wf : index.WellFormed) {p : SavedParts}
  (hrec : Recorded p.dependencies) (hcompare : TagsCompare index p.dependencies) {x : Bytes}
include wf hrec hcompare

/-- **The tags a view is in conflict over.** -/
theorem mem_conflictedTags : x ∈ (p.findings index).conflictedTags ↔
    ∃ d ∈ p.dependencies, ∃ tag, index.tag? x = some tag ∧ RecordsConflict index d tag := by
  rw [findings_set _ Findings.joined_conflictedTags hrec rfl]
  refine exists_congr fun d => and_congr_right fun hd => ?_
  obtain ⟨s, -, hsd⟩ := hrec.subject d hd
  exact findingOf_conflictedTags wf hcompare hd hsd

theorem mem_removedTags : x ∈ (p.findings index).removedTags → index.tag? x = none := by
  rw [findings_set _ Findings.joined_removedTags hrec rfl]
  rintro ⟨d, hd, hx⟩
  obtain ⟨s, -, hsd⟩ := hrec.subject d hd
  exact ((findingOf_removedTags wf hcompare hd hsd).mp hx).2.1

theorem mem_removedAlarms : x ∈ (p.findings index).removedAlarms ↔
    index.alarm? x = none ∧ ∃ d ∈ p.dependencies, alarmSlot d = some x := by
  rw [findings_set _ Findings.joined_removedAlarms hrec rfl]
  constructor
  · rintro ⟨d, hd, hx⟩
    obtain ⟨s, -, hsd⟩ := hrec.subject d hd
    obtain ⟨hslot, hgone⟩ := (findingOf_removedAlarms wf hcompare hd hsd).mp hx
    exact ⟨hgone, d, hd, hslot⟩
  · rintro ⟨hgone, d, hd, hslot⟩
    obtain ⟨s, -, hsd⟩ := hrec.subject d hd
    exact ⟨d, hd, (findingOf_removedAlarms wf hcompare hd hsd).mpr ⟨hslot, hgone⟩⟩

theorem mem_conflictedAlarms : x ∈ (p.findings index).conflictedAlarms ↔
    ∃ d ∈ p.dependencies, alarmSlot d = some x ∧
      ∃ alarm, index.alarm? x = some alarm ∧ definitionDiffers d alarm = .ok true := by
  rw [findings_set _ Findings.joined_conflictedAlarms hrec rfl]
  refine exists_congr fun d => and_congr_right fun hd => ?_
  obtain ⟨s, -, hsd⟩ := hrec.subject d hd
  exact findingOf_conflictedAlarms wf hcompare hd hsd

end

end ContextHmi
