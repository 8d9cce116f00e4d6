import ContextHmi.Engine.Reconciliation
import ContextHmi.Engine.Composition

/-!
# What the comparison finds

A dependency that the comparison leaves out of every set is one the model still declares, with the
same binding and the same definition.

* `compareView_eq_ok`   : the sets a comparison fills, dependency by dependency;
* `compareView_subject` : a recorded subject the comparison does not block is declared unchanged.
-/

namespace ContextHmi

open Outcome

namespace Findings

/-- `g` records all that `f` does. -/
structure Le (f g : Findings) : Prop where
  removedTags : f.removedTags ⊆ g.removedTags
  conflictedTags : f.conflictedTags ⊆ g.conflictedTags
  removedAlarms : f.removedAlarms ⊆ g.removedAlarms
  conflictedAlarms : f.conflictedAlarms ⊆ g.conflictedAlarms

theorem Le.refl (f : Findings) : f.Le f := by
  constructor <;> exact fun _ h => h

theorem Le.trans {f g h : Findings} (hfg : f.Le g) (hgh : g.Le h) : f.Le h where
  removedTags := fun _ hx => hgh.removedTags (hfg.removedTags hx)
  conflictedTags := fun _ hx => hgh.conflictedTags (hfg.conflictedTags hx)
  removedAlarms := fun _ hx => hgh.removedAlarms (hfg.removedAlarms hx)
  conflictedAlarms := fun _ hx => hgh.conflictedAlarms (hfg.conflictedAlarms hx)

end Findings

/-! ### One dependency -/

theorem mem_bucketed [Platform] {map : List (Bytes × Json)} {k : Bytes} {v : Json} :
    (k, v) ∈ bucketed map ↔ Assoc.find? k map = some v := by
  simp only [bucketed, List.mem_filterMap, (Platform.bucketOrder_perm _).mem_iff,
    Option.map_eq_some_iff, Prod.mk.injEq]
  constructor
  · rintro ⟨k', -, v', hv, rfl, rfl⟩
    exact hv
  · intro h
    exact ⟨k, List.mem_map_of_mem (f := Prod.fst) (Assoc.find?_mem h), v, h, rfl, rfl⟩

theorem checkTagDependency_eq_ok [Platform] {index : ModelIndex} {f f' : Findings} {tagId : Bytes}
    {dep : Json} (h : checkTagDependency index f (tagId, dep) = .ok f') :
    f.Le f' ∧ (tagId ∈ f'.removedTags ∨ tagId ∈ f'.conflictedTags ∨
      ∃ tag, index.tag? tagId = some tag ∧ bindingDiffers dep tag = false) := by
  unfold checkTagDependency at h
  simp only at h
  cases htag : index.tag? tagId with
  | none =>
    simp only [htag, pure_eq_ok] at h
    subst h
    exact ⟨by constructor <;> simp [Findings.addChange, Findings.addIssue],
      .inl (by simp [Findings.addChange, Findings.addIssue])⟩
  | some tag =>
    simp only [htag] at h
    cases hdiff : bindingDiffers dep tag with
    | false =>
      simp only [hdiff, Bool.false_eq_true, if_false, pure_eq_ok] at h
      subst h
      exact ⟨.refl _, .inr (.inr ⟨tag, rfl, hdiff⟩)⟩
    | true =>
      simp only [hdiff, if_true, bind_eq_ok, pure_eq_ok] at h
      obtain ⟨_, -, _, -, rfl⟩ := h
      exact ⟨by constructor <;> simp [Findings.addChange, Findings.addIssue],
        .inr (.inl (by simp [Findings.addChange, Findings.addIssue]))⟩

theorem checkAlarmTag_le (index : ModelIndex) (f : Findings) (dep : Json) (alarm : Alarm) :
    f.Le (checkAlarmTag index f dep alarm) ∧
      (alarm.tagId ∈ (checkAlarmTag index f dep alarm).removedTags ∨
        alarm.tagId ∈ (checkAlarmTag index f dep alarm).conflictedTags ∨
        ∃ tag, index.tag? alarm.tagId = some tag ∧
          memberDiffers dep "binding" (tagBindingSnapshot tag) = false) := by
  unfold checkAlarmTag
  cases htag : index.tag? alarm.tagId with
  | none =>
    exact ⟨by constructor <;> simp [Findings.addIssue], .inl (by simp [Findings.addIssue])⟩
  | some tag =>
    simp only
    cases hdiff : memberDiffers dep "binding" (tagBindingSnapshot tag) with
    | false => exact ⟨.refl _, .inr (.inr ⟨tag, rfl, hdiff⟩)⟩
    | true =>
      exact ⟨by constructor <;> simp [Findings.addChange, Findings.addIssue],
        .inr (.inl (by simp [Findings.addChange, Findings.addIssue]))⟩

theorem removedAlarmTag_le (index : ModelIndex) (f : Findings) (dep : Json) :
    f.Le (removedAlarmTag index f dep) := by
  unfold removedAlarmTag
  split
  · split
    · constructor <;> simp
    · exact .refl f
  · exact .refl f

theorem checkAlarmDependency_eq_ok {index : ModelIndex} {f f' : Findings} {alarmId : Bytes}
    {dep : Json} (h : checkAlarmDependency index f (alarmId, dep) = .ok f') :
    f.Le f' ∧ (alarmId ∈ f'.removedAlarms ∨ alarmId ∈ f'.conflictedAlarms ∨
      ∃ alarm, index.alarm? alarmId = some alarm ∧ definitionDiffers dep alarm = .ok false ∧
        (alarm.tagId ∈ f'.removedTags ∨ alarm.tagId ∈ f'.conflictedTags ∨
          ∃ tag, index.tag? alarm.tagId = some tag ∧
            memberDiffers dep "binding" (tagBindingSnapshot tag) = false)) := by
  unfold checkAlarmDependency at h
  simp only at h
  cases halarm : index.alarm? alarmId with
  | none =>
    simp only [halarm, pure_eq_ok] at h
    subst h
    refine ⟨(removedAlarmTag_le index f dep).trans ?_,
      .inl (by simp [Findings.addChange, Findings.addIssue])⟩
    constructor <;> simp [Findings.addChange, Findings.addIssue]
  | some alarm =>
    simp only [halarm, bind_eq_ok] at h
    obtain ⟨differs, hdiffers, h⟩ := h
    obtain ⟨hle, htag⟩ := checkAlarmTag_le index f dep alarm
    cases differs with
    | false =>
      simp only [Bool.false_eq_true, if_false, pure_eq_ok] at h
      subst h
      exact ⟨hle, .inr (.inr ⟨alarm, rfl, hdiffers, htag⟩)⟩
    | true =>
      simp only [if_true, pure_eq_ok] at h
      subst h
      refine ⟨hle.trans ?_, .inr (.inl (by simp [Findings.addChange, Findings.addIssue]))⟩
      constructor <;> simp [Findings.addChange, Findings.addIssue]

theorem checkRelationship_le {index : ModelIndex} {f f' : Findings} {component : Json}
    (h : checkRelationship index f component = .ok f') : f.Le f' := by
  unfold checkRelationship at h
  split at h
  · split at h
    · rw [pure_eq_ok] at h
      subst h
      constructor <;> simp [Findings.addChange, Findings.addIssue]
    · simp only [bind_eq_ok] at h
      obtain ⟨differs, -, h⟩ := h
      cases differs with
      | false =>
        simp only [Bool.false_eq_true, if_false, pure_eq_ok] at h
        exact h ▸ .refl f
      | true =>
        simp only [if_true, pure_eq_ok] at h
        subst h
        constructor <;> simp [Findings.addChange, Findings.addIssue]
  · obtain rfl := Except.ok.inj h
    exact .refl f

/-! ### Every dependency -/

variable [Platform]

theorem compareView_eq_ok {index : ModelIndex} {changes issues components dependencies : List Json}
    {f : Findings} (h : compareView index changes issues components dependencies = .ok f) :
    (∀ tagId dep, Assoc.find? tagId (oldDependencies dependencies).tags = some dep →
      tagId ∈ f.removedTags ∨ tagId ∈ f.conflictedTags ∨
        ∃ tag, index.tag? tagId = some tag ∧ bindingDiffers dep tag = false) ∧
    ∀ alarmId dep, Assoc.find? alarmId (oldDependencies dependencies).alarms = some dep →
      alarmId ∈ f.removedAlarms ∨ alarmId ∈ f.conflictedAlarms ∨
        ∃ alarm, index.alarm? alarmId = some alarm ∧ definitionDiffers dep alarm = .ok false ∧
          (alarm.tagId ∈ f.removedTags ∨ alarm.tagId ∈ f.conflictedTags ∨
            ∃ tag, index.tag? alarm.tagId = some tag ∧
              memberDiffers dep "binding" (tagBindingSnapshot tag) = false) := by
  simp only [compareView, bind_eq_ok] at h
  obtain ⟨f₁, h₁, f₂, h₂, h₃⟩ := h
  obtain ⟨-, htags⟩ := foldlM_mem Findings.Le.refl Findings.Le.trans
    (fun _ _ _ h => (checkTagDependency_eq_ok h).1) h₁
  obtain ⟨hle₂, halarms⟩ := foldlM_mem Findings.Le.refl Findings.Le.trans
    (fun _ _ _ h => (checkAlarmDependency_eq_ok h).1) h₂
  obtain ⟨hle₃, -⟩ := foldlM_mem Findings.Le.refl Findings.Le.trans
    (fun _ _ _ h => checkRelationship_le h) h₃
  refine ⟨fun tagId dep hdep => ?_, fun alarmId dep hdep => ?_⟩
  · obtain ⟨t, t', hstep, hle⟩ := htags _ (mem_bucketed.mpr hdep)
    have hend : t'.Le f := hle.trans (hle₂.trans hle₃)
    rcases (checkTagDependency_eq_ok hstep).2 with hr | hc | htag
    · exact .inl (hend.removedTags hr)
    · exact .inr (.inl (hend.conflictedTags hc))
    · exact .inr (.inr htag)
  · obtain ⟨t, t', hstep, hle⟩ := halarms _ (mem_bucketed.mpr hdep)
    have hend : t'.Le f := hle.trans hle₃
    rcases (checkAlarmDependency_eq_ok hstep).2 with hr | hc | ⟨alarm, halarm, hdiff, htag⟩
    · exact .inl (hend.removedAlarms hr)
    · exact .inr (.inl (hend.conflictedAlarms hc))
    · refine .inr (.inr ⟨alarm, halarm, hdiff, ?_⟩)
      rcases htag with hr | hc | htag
      · exact .inl (hend.removedTags hr)
      · exact .inr (.inl (hend.conflictedTags hc))
      · exact .inr (.inr htag)

namespace Findings

/-- Nothing is recorded under an empty alarm id, and no relationship is recorded. -/
structure Clean (f : Findings) : Prop where
  removedAlarms : [] ∉ f.removedAlarms
  conflictedAlarms : [] ∉ f.conflictedAlarms
  removedRelationships : f.removedRelationships = []
  changedRelationships : f.changedRelationships = []

omit [Platform] in
theorem Clean.congr {f g : Findings} (hf : f.Clean) (h₁ : g.removedAlarms = f.removedAlarms)
    (h₂ : g.conflictedAlarms = f.conflictedAlarms)
    (h₃ : g.removedRelationships = f.removedRelationships)
    (h₄ : g.changedRelationships = f.changedRelationships) : g.Clean :=
  ⟨h₁ ▸ hf.removedAlarms, h₂ ▸ hf.conflictedAlarms, h₃.trans hf.removedRelationships,
    h₄.trans hf.changedRelationships⟩

end Findings

theorem checkTagDependency_clean {index : ModelIndex} {f f' : Findings} {entry : Bytes × Json}
    (hf : f.Clean) (h : checkTagDependency index f entry = .ok f') : f'.Clean := by
  unfold checkTagDependency at h
  simp only at h
  split at h
  · rw [pure_eq_ok] at h
    exact h ▸ hf.congr rfl rfl rfl rfl
  · split at h
    · simp only [bind_eq_ok, pure_eq_ok] at h
      obtain ⟨_, -, _, -, rfl⟩ := h
      exact hf.congr rfl rfl rfl rfl
    · rw [pure_eq_ok] at h
      exact h ▸ hf

omit [Platform] in
theorem checkAlarmTag_clean (index : ModelIndex) {f : Findings} (hf : f.Clean) (dep : Json)
    (alarm : Alarm) : (checkAlarmTag index f dep alarm).Clean := by
  unfold checkAlarmTag
  split
  · exact hf.congr rfl rfl rfl rfl
  · split
    · exact hf.congr rfl rfl rfl rfl
    · exact hf

omit [Platform] in
theorem removedAlarmTag_clean (index : ModelIndex) {f : Findings} (hf : f.Clean) (dep : Json) :
    (removedAlarmTag index f dep).Clean := by
  unfold removedAlarmTag
  split
  · split
    · exact hf.congr rfl rfl rfl rfl
    · exact hf
  · exact hf

omit [Platform] in
theorem checkAlarmDependency_clean {index : ModelIndex} {f f' : Findings} {alarmId : Bytes}
    {dep : Json} (hid : alarmId ≠ []) (hf : f.Clean)
    (h : checkAlarmDependency index f (alarmId, dep) = .ok f') : f'.Clean := by
  have hnil : ∀ {l : List Bytes}, [] ∉ l → [] ∉ alarmId :: l := fun hl hmem =>
    (List.mem_cons.mp hmem).elim (fun e => hid e.symm) hl
  unfold checkAlarmDependency at h
  simp only at h
  split at h
  · rw [pure_eq_ok] at h
    subst h
    have hr := removedAlarmTag_clean index hf dep
    exact ⟨hnil hr.removedAlarms, hr.conflictedAlarms, hr.removedRelationships,
      hr.changedRelationships⟩
  · simp only [bind_eq_ok] at h
    obtain ⟨differs, -, h⟩ := h
    rename_i alarm _
    have ha := checkAlarmTag_clean index hf dep alarm
    cases differs with
    | false =>
      simp only [Bool.false_eq_true, if_false, pure_eq_ok] at h
      exact h ▸ ha
    | true =>
      simp only [if_true, pure_eq_ok] at h
      subst h
      exact ⟨ha.removedAlarms, hnil ha.conflictedAlarms, ha.removedRelationships,
        ha.changedRelationships⟩

theorem compareView_clean {index : ModelIndex} {changes issues components dependencies : List Json}
    {f : Findings} (hdeps : ∀ d ∈ dependencies, alarmSlot d ≠ some [])
    (hcomps : ∀ c ∈ components, c.find? "relationship_id" = none)
    (h : compareView index changes issues components dependencies = .ok f) : f.Clean := by
  simp only [compareView, bind_eq_ok] at h
  obtain ⟨f₁, h₁, f₂, h₂, h₃⟩ := h
  have hf₁ : f₁.Clean := foldlM_invariant (P := Findings.Clean)
    (fun _ _ _ _ hf h => checkTagDependency_clean hf h) ⟨by simp, by simp, rfl, rfl⟩ h₁
  have hf₂ : f₂.Clean := by
    refine foldlM_invariant (P := Findings.Clean) (fun f f' entry hentry hf h => ?_) hf₁ h₂
    obtain ⟨alarmId, dep⟩ := entry
    refine checkAlarmDependency_clean (fun e => ?_) hf h
    rcases Assoc.mem_fill (Assoc.find?_mem (mem_bucketed.mp hentry)) with hm | ⟨hm, hslot⟩
    · simp at hm
    · exact hdeps dep hm (by rw [hslot, e])
  refine foldlM_invariant (P := Findings.Clean) (fun f f' c hc hf h => ?_) hf₂ h₃
  simp only [checkRelationship, hcomps c hc, Except.ok.injEq] at h
  exact h ▸ hf

/-! ### Recorded subjects -/

namespace Subject

/-- The ids of a subject are there, and its alarm is on its tag. -/
structure Proper (s : Subject) : Prop where
  tagId : s.tag.id ≠ []
  alarm : ∀ a, s.alarm = some a → a.id ≠ [] ∧ a.tagId = s.tag.id

/-- What a subject's dependency is kept under. -/
def key (s : Subject) : Bytes := dependencyKey s.tag.id s.alarmId

omit [Platform] in
theorem RecordedBy.keyOf_eq {s : Subject} {d : Json} (h : s.RecordedBy d) : keyOf d = s.key := by
  obtain ⟨tag, alarm⟩ := s
  cases alarm <;>
    simp [ContextHmi.keyOf, fieldOf, h.tagId, h.alarmId, Subject.key, Subject.alarmId]

omit [Platform] in
theorem key_inj {s s' : Subject} (hs : s.Proper) (hs' : s'.Proper) (h : s.key = s'.key) :
    s.id = s'.id ∧ s.alarm.isSome = s'.alarm.isSome := by
  have htag : ∀ x : Bytes, ("tag:" : Bytes) ++ x = 0x74 :: 0x61 :: 0x67 :: 0x3a :: x := fun _ => rfl
  have halarm : ∀ x : Bytes, ("alarm:" : Bytes) ++ x =
      0x61 :: 0x6c :: 0x61 :: 0x72 :: 0x6d :: 0x3a :: x := fun _ => rfl
  obtain ⟨tag, alarm⟩ := s
  obtain ⟨tag', alarm'⟩ := s'
  cases alarm with
  | none =>
    cases alarm' with
    | none => simpa [key, Subject.alarmId, dependencyKey, Subject.id] using h
    | some a' =>
      have hne := (hs'.alarm a' rfl).1
      simp [key, Subject.alarmId, dependencyKey, htag, halarm, hne] at h
  | some a =>
    have hne := (hs.alarm a rfl).1
    cases alarm' with
    | none => simp [key, Subject.alarmId, dependencyKey, htag, halarm, hne] at h
    | some a' =>
      have hne' := (hs'.alarm a' rfl).1
      simpa [key, Subject.alarmId, dependencyKey, hne, hne', Subject.id] using h

end Subject

/-- The dependencies of a view: each records a subject, and no two are kept under one key. -/
structure Recorded (dependencies : List Json) : Prop where
  subject : ∀ d ∈ dependencies, ∃ s : Subject, s.Proper ∧ s.RecordedBy d
  nodup : (dependencies.map keyOf).Nodup

namespace Recorded

variable {dependencies : List Json} (hrec : Recorded dependencies)
include hrec

omit [Platform]

theorem alarmSlot_ne (d : Json) (hd : d ∈ dependencies) : alarmSlot d ≠ some [] := by
  obtain ⟨s, hs, hsd⟩ := hrec.subject d hd
  obtain ⟨tag, alarm⟩ := s
  cases alarm with
  | none => simp [alarmSlot, hsd.tagId, hsd.alarmId]
  | some a => simpa [alarmSlot, hsd.tagId, hsd.alarmId] using (hs.alarm a rfl).1

theorem eq_of_key {d d' : Json} (hd : d ∈ dependencies) (hd' : d' ∈ dependencies)
    (h : keyOf d = keyOf d') : d = d' :=
  List.inj_on_of_nodup_map hrec.nodup hd hd' h

theorem find?_tag {s : Subject} {d : Json} (hd : d ∈ dependencies) (hsd : s.RecordedBy d)
    (hnone : s.alarm = none) :
    Assoc.find? s.tag.id (oldDependencies dependencies).tags = some d := by
  refine Assoc.find?_fill [] hd (by simp [tagSlot, hsd.tagId, hsd.alarmId, hnone]) ?_
  intro b hb hslot
  obtain ⟨t, -, htb⟩ := hrec.subject b hb
  refine hrec.eq_of_key hb hd (htb.keyOf_eq.trans (Eq.trans ?_ hsd.keyOf_eq.symm))
  obtain ⟨tag, alarm⟩ := t
  cases alarm with
  | some a => simp [tagSlot, htb.tagId, htb.alarmId] at hslot
  | none =>
    have hid : tag.id = s.tag.id := by simpa [tagSlot, htb.tagId, htb.alarmId] using hslot
    simp [Subject.key, Subject.alarmId, hnone, hid]

theorem find?_alarm {s : Subject} {d : Json} {a : Alarm} (hd : d ∈ dependencies)
    (hs : s.Proper) (hsd : s.RecordedBy d) (ha : s.alarm = some a) :
    Assoc.find? a.id (oldDependencies dependencies).alarms = some d := by
  refine Assoc.find?_fill [] hd (by simp [alarmSlot, hsd.tagId, hsd.alarmId, ha]) ?_
  intro b hb hslot
  obtain ⟨t, -, htb⟩ := hrec.subject b hb
  refine hrec.eq_of_key hb hd (htb.keyOf_eq.trans (Eq.trans ?_ hsd.keyOf_eq.symm))
  obtain ⟨tag, alarm⟩ := t
  cases alarm with
  | none => simp [alarmSlot, htb.tagId, htb.alarmId] at hslot
  | some a' =>
    have hid : a'.id = a.id := by simpa [alarmSlot, htb.tagId, htb.alarmId] using hslot
    have hne := (hs.alarm a ha).1
    simp [Subject.key, Subject.alarmId, ha, hid, dependencyKey, hne]

end Recorded

/-- A subject none of whose ids the findings hold. -/
structure Findings.Spares (f : Findings) (s : Subject) : Prop where
  removedTag : s.tag.id ∉ f.removedTags
  conflictedTag : s.tag.id ∉ f.conflictedTags
  alarm : ∀ a, s.alarm = some a → a.id ∉ f.removedAlarms ∧ a.id ∉ f.conflictedAlarms

/-- **A recorded subject the comparison spares is declared by the model as it was recorded.** -/
theorem compareView_subject {index : ModelIndex} (wf : index.WellFormed)
    {changes issues components dependencies : List Json} {f : Findings}
    (h : compareView index changes issues components dependencies = .ok f)
    (hrec : Recorded dependencies) {s : Subject} {d : Json} (hd : d ∈ dependencies)
    (hs : s.Proper) (hsd : s.RecordedBy d) (hspare : f.Spares s) :
    ∃ s' : Subject, s.Same s' ∧ s'.tag ∈ index.tags ∧
      ∀ a', s'.alarm = some a' → a' ∈ index.alarms ∧ a'.tagId = s'.tag.id := by
  obtain ⟨htags, halarms⟩ := compareView_eq_ok h
  cases ha : s.alarm with
  | none =>
    rcases htags _ _ (hrec.find?_tag hd hsd ha) with hr | hc | ⟨tag, htag, hdiff⟩
    · exact absurd hr hspare.removedTag
    · exact absurd hc hspare.conflictedTag
    obtain ⟨hmem, hid⟩ := wf.tag?_eq_some.mp htag
    have hsame : (tagBindingSnapshot s.tag).eqv (tagBindingSnapshot tag) = true := by
      simp only [bindingDiffers, hsd.binding] at hdiff
      rw [if_pos (by simp [tagBindingSnapshot])] at hdiff
      simp only [Bool.or_eq_false_iff, Bool.not_eq_false'] at hdiff
      exact hdiff.1.1.1.1
    exact ⟨⟨tag, none⟩, ⟨hid.symm, hsame, by simp [ha], by simp⟩, hmem, by simp⟩
  | some a =>
    obtain ⟨hra, hca⟩ := hspare.alarm a ha
    rcases halarms _ _ (hrec.find?_alarm hd hs hsd ha) with hr | hc | ⟨alarm, halarm, hdiff, htag⟩
    · exact absurd hr hra
    · exact absurd hc hca
    obtain ⟨hmem, hid⟩ := wf.alarm?_eq_some.mp halarm
    have hdef : (alarmDefinitionSnapshot a).eqv (alarmDefinitionSnapshot alarm) = true := by
      have hsnap : d.find? "alarm_definition" = some (alarmDefinitionSnapshot a) := by
        rw [hsd.definition, ha]
        rfl
      simp only [definitionDiffers, hsnap, Except.ok.injEq, Bool.or_eq_false_iff,
        Bool.not_eq_false'] at hdiff
      exact hdiff.1
    have htagId : alarm.tagId = s.tag.id :=
      ((alarmDefinitionSnapshot_eqv.mp hdef).2.2.2.2.1).symm.trans (hs.alarm a ha).2
    rcases htag with hr | hc | ⟨tag, htag, hbind⟩
    · exact absurd (htagId ▸ hr) hspare.removedTag
    · exact absurd (htagId ▸ hc) hspare.conflictedTag
    obtain ⟨htmem, htid⟩ := wf.tag?_eq_some.mp htag
    have hsame : (tagBindingSnapshot s.tag).eqv (tagBindingSnapshot tag) = true := by
      simpa [memberDiffers, hsd.binding] using hbind
    refine ⟨⟨tag, some alarm⟩, ⟨(htid.trans htagId).symm, hsame, ?_, by simp [ha]⟩, htmem, ?_⟩
    · rintro b hb
      obtain rfl : a = b := by simpa [ha] using hb
      exact ⟨alarm, rfl, hid.symm, hdef⟩
    · rintro b hb
      obtain rfl : alarm = b := by simpa using hb
      exact ⟨hmem, htid.symm⟩

end ContextHmi
