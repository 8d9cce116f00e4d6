import ContextHmi.Engine.Merging
import ContextHmi.Engine.Resolution

/-!
# Findings as a sum

Each dependency of a view records its own findings, whatever was found before; a comparison adds them
up. So what a comparison leaves depends only on the dependencies, up to the order of its records.

* `compareView_eq`       : a comparison is the sum of what the dependencies record;
* `findingsOf_described` : its records are texts, and every change names its kind.
-/

namespace ContextHmi

open Outcome

/-- The strings of a model's bindings and definitions are UTF-8. -/
structure ModelIndex.IsText (index : ModelIndex) : Prop where
  tags : ∀ tag ∈ index.tags, tag.IsText
  alarms : ∀ alarm ∈ index.alarms, alarm.IsText

/-! ### Findings, dependency by dependency -/

namespace Findings

def empty : Findings := ⟨[], [], [], [], [], [], [], []⟩

/-- What `g` recorded on its own, recorded after `f`. -/
def add (f g : Findings) : Findings where
  changes := g.changes.foldl addOnce f.changes
  issues := g.issues.foldl addOnce f.issues
  removedTags := g.removedTags ++ f.removedTags
  conflictedTags := g.conflictedTags ++ f.conflictedTags
  removedAlarms := g.removedAlarms ++ f.removedAlarms
  conflictedAlarms := g.conflictedAlarms ++ f.conflictedAlarms
  removedRelationships := g.removedRelationships ++ f.removedRelationships
  changedRelationships := g.changedRelationships ++ f.changedRelationships

@[simp] theorem add_empty (f : Findings) : f.add empty = f := rfl

theorem foldl_add_empty {l : List Findings} (h : ∀ g ∈ l, g = empty) (f : Findings) :
    l.foldl add f = f := by
  induction l with
  | nil => rfl
  | cons g l ih =>
    obtain ⟨rfl, hl⟩ := List.forall_mem_cons.mp h
    exact ih hl

theorem addOnce_of_not_any {items : List Json} {item : Json}
    (h : items.any (fun existing => existing.eqv item) = false) :
    addOnce items item = items ++ [item] := by
  simp [addOnce, h]

theorem add_addChange (f : Findings) {g : Findings} {change : List (Bytes × Json)}
    (h : g.changes.any (fun existing => existing.eqv (.object change)) = false) :
    f.add (g.addChange change) = (f.add g).addChange change := by
  simp [add, addChange, addOnce_of_not_any h, List.foldl_append]

theorem add_addIssue (f : Findings) {g : Findings} {code message : Bytes}
    (h : g.issues.any (fun existing => existing.eqv (issue code message "error")) = false) :
    f.add (g.addIssue code message) = (f.add g).addIssue code message := by
  simp [add, addIssue, addOnce_of_not_any h, List.foldl_append]

end Findings

section
variable [Platform]

/-- What one dependency on a tag records. -/
def tagFinding (index : ModelIndex) (entry : Bytes × Json) : Findings :=
  (checkTagDependency index .empty entry).toOption.getD .empty

omit [Platform] in
/-- What one dependency on an alarm records. -/
def alarmFinding (index : ModelIndex) (entry : Bytes × Json) : Findings :=
  (checkAlarmDependency index .empty entry).toOption.getD .empty

variable {index : ModelIndex} (wf : index.WellFormed) (htext : index.IsText)

theorem checkTagDependency_sum {entry : Bytes × Json} {f f' : Findings}
    (h : checkTagDependency index f entry = .ok f') : f' = f.add (tagFinding index entry) := by
  obtain ⟨tagId, dep⟩ := entry
  unfold checkTagDependency at h
  unfold tagFinding checkTagDependency
  simp only at h ⊢
  cases htag : index.tag? tagId with
  | none =>
    rw [htag, pure_eq_ok] at h
    subst h
    simp [Findings.add, Findings.addChange, Findings.addIssue, Findings.empty, addOnce, pure,
      Except.pure, Except.toOption]
  | some tag =>
    simp only [htag] at h ⊢
    cases hdiffers : bindingDiffers dep tag with
    | false =>
      rw [hdiffers, if_neg (by simp), pure_eq_ok] at h
      subst h
      simp [pure, Except.pure, Except.toOption]
    | true =>
      simp only [hdiffers, if_true, bind_eq_ok, pure_eq_ok] at h
      obtain ⟨previous, hprevious, fingerprint, hfingerprint, rfl⟩ := h
      simp [hprevious, hfingerprint, Findings.add, Findings.addChange, Findings.addIssue,
        Findings.empty, addOnce, pure, Except.pure, Except.toOption]

theorem checkTagDependency_alone {entry : Bytes × Json} {f f' : Findings}
    (h : checkTagDependency index f entry = .ok f') (g : Findings) :
    checkTagDependency index g entry = .ok (g.add (tagFinding index entry)) := by
  have hok : ∃ g', checkTagDependency index g entry = .ok g' := by
    unfold checkTagDependency at h ⊢
    simp only at h ⊢
    cases htag : index.tag? entry.1 with
    | none => exact ⟨_, rfl⟩
    | some tag =>
      simp only [htag] at h ⊢
      by_cases hdiffers : bindingDiffers entry.2 tag = true
      · simp only [if_pos hdiffers, bind_eq_ok] at h ⊢
        obtain ⟨previous, hprevious, fingerprint, hfingerprint, -⟩ := h
        exact ⟨_, previous, hprevious, fingerprint, hfingerprint, rfl⟩
      · rw [if_neg hdiffers]
        exact ⟨g, rfl⟩
  obtain ⟨g', hg'⟩ := hok
  rw [hg', checkTagDependency_sum hg']

omit [Platform] in
include wf in
theorem checkAlarmTag_add {alarm : Alarm} (halarm : alarm ∈ index.alarms) (dep : Json)
    (f : Findings) :
    checkAlarmTag index f dep alarm = f.add (checkAlarmTag index .empty dep alarm) := by
  obtain ⟨tag, htag, -⟩ := wf.alarm_tag halarm
  simp only [checkAlarmTag, htag]
  split
  · simp [Findings.add, Findings.addChange, Findings.addIssue, Findings.empty, addOnce]
  · rfl

omit [Platform] in
theorem checkAlarmTag_other (index : ModelIndex) (dep : Json) (alarm : Alarm) :
    (∀ change ∈ (checkAlarmTag index .empty dep alarm).changes,
      change.find? "kind" = some (.str "conflict")) ∧
    ∀ item ∈ (checkAlarmTag index .empty dep alarm).issues,
      ∃ code : Bytes, code ≠ "alarm-conflict" ∧ item.find? "code" = some (.str code) := by
  unfold checkAlarmTag
  split
  · refine ⟨by simp [Findings.empty, Findings.addIssue], ?_⟩
    simp [Findings.empty, Findings.addIssue, addOnce, issue]
  · split
    · simp [Findings.empty, Findings.addChange, Findings.addIssue, addOnce, issue]
    · simp [Findings.empty]

omit [Platform] in
theorem not_any_eqv {items : List Json} {item : Json} (key text : Bytes)
    (hitem : item.find? key = some (.str text))
    (hitems : ∀ existing ∈ items, ∃ s, s ≠ text ∧ existing.find? key = some (.str s)) :
    items.any (fun existing => existing.eqv item) = false := by
  refine List.any_eq_false.mpr fun existing hmem heqv => ?_
  obtain ⟨s, hne, hs⟩ := hitems existing hmem
  obtain ⟨w, hw, htext⟩ := Json.find?_of_eqv heqv hs
  obtain rfl : w = .str text := Option.some.inj (hw.symm.trans hitem)
  exact hne (by simpa [Json.eqv] using htext)

omit [Platform] in
include wf in
theorem checkAlarmDependency_add {alarmId : Bytes} {dep : Json}
    (hdep : ∃ definition, dep.find? "alarm_definition" = some definition) (f : Findings) :
    checkAlarmDependency index f (alarmId, dep) =
      .ok (f.add (alarmFinding index (alarmId, dep))) := by
  unfold alarmFinding checkAlarmDependency
  simp only
  cases halarm : index.alarm? alarmId with
  | none =>
    have htag : ∀ g : Findings, removedAlarmTag index g dep =
        { g with removedTags := (removedAlarmTag index .empty dep).removedTags ++ g.removedTags } := by
      intro g
      unfold removedAlarmTag
      split
      · split_ifs <;> rfl
      · rfl
    simp only [pure, Except.pure, Except.toOption, Option.getD_some]
    rw [htag f, htag .empty]
    simp [Findings.add, Findings.addChange, Findings.addIssue, Findings.empty, addOnce]
  | some alarm =>
    obtain ⟨definition, hdefinition⟩ := hdep
    have hmem := (wf.alarm?_eq_some.mp halarm).1
    obtain ⟨differs, hdiffers⟩ : ∃ b, definitionDiffers dep alarm = .ok b := by
      simp [definitionDiffers, hdefinition]
    obtain ⟨hchanges, hissues⟩ := checkAlarmTag_other index dep alarm
    simp only [hdiffers, ok_bind]
    cases differs with
    | false =>
      simp only [Bool.false_eq_true, if_false, pure, Except.pure, Except.toOption, Option.getD_some]
      rw [← checkAlarmTag_add wf hmem]
    | true =>
      simp only [if_true, pure, Except.pure, Except.toOption, Option.getD_some]
      rw [Findings.add_addIssue, Findings.add_addChange]
      · show Except.ok _ = Except.ok _
        rw [checkAlarmTag_add wf hmem dep f]
        rfl
      · refine not_any_eqv "kind" "alarm-conflict" (by simp) fun change hc => ?_
        exact ⟨_, by simp, hchanges change hc⟩
      · refine not_any_eqv "code" "alarm-conflict" (by simp [issue]) ?_
        exact hissues

/-- What a dependency of a view records. -/
def findingOf (index : ModelIndex) (dep : Json) : Findings :=
  match alarmSlot dep, tagSlot dep with
  | some alarmId, _ => alarmFinding index (alarmId, dep)
  | none, some tagId => tagFinding index (tagId, dep)
  | none, none => .empty

/-- What the dependencies of a view record, in the order they are compared. -/
def findingsOf (index : ModelIndex) (dependencies : List Json) : List Findings :=
  (bucketed (oldDependencies dependencies).tags).map (tagFinding index) ++
    (bucketed (oldDependencies dependencies).alarms).map (alarmFinding index)

/-- Dependencies a comparison can read. -/
structure Comparable (dependencies : List Json) : Prop extends Recorded dependencies where
  fingerprint : ∀ d ∈ dependencies, ∃ s, d.find? "fingerprint" = some (.str s)

/-- The tags of a view's dependencies can be compared with the model. -/
def TagsCompare (index : ModelIndex) (dependencies : List Json) : Prop :=
  ∀ d ∈ dependencies, ∀ tagId, tagSlot d = some tagId →
    ∃ f, checkTagDependency index .empty (tagId, d) = .ok f

include wf htext in
theorem Comparable.tagsCompare {dependencies : List Json} (hdeps : Comparable dependencies) :
    TagsCompare index dependencies := by
  intro d hd tagId _
  unfold checkTagDependency
  simp only
  cases htag : index.tag? tagId with
  | none => exact ⟨_, rfl⟩
  | some tag =>
    obtain ⟨s, hs⟩ := hdeps.fingerprint d hd
    obtain ⟨fingerprint, hfingerprint⟩ :=
      tagFingerprint_isOk_iff.mpr (htext.tags tag (wf.tag?_eq_some.mp htag).1)
    simp only [Json.valueString_of_find? hs, hfingerprint, ok_bind]
    split
    · exact ⟨_, rfl⟩
    · exact ⟨_, rfl⟩

omit [Platform] in
theorem tagSlot_eq {s : Subject} {d : Json} (hsd : s.RecordedBy d) :
    tagSlot d = if s.alarm = none then some s.tag.id else none := by
  obtain ⟨tag, alarm⟩ := s
  cases alarm <;> simp [tagSlot, hsd.tagId, hsd.alarmId]

omit [Platform] in
theorem alarmSlot_eq {s : Subject} {d : Json} (hsd : s.RecordedBy d) :
    alarmSlot d = s.alarm.map (·.id) := by
  obtain ⟨tag, alarm⟩ := s
  cases alarm <;> simp [alarmSlot, hsd.tagId, hsd.alarmId]

theorem mem_tags {dependencies : List Json} (hrec : Recorded dependencies) {tagId : Bytes}
    {dep : Json} :
    (tagId, dep) ∈ bucketed (oldDependencies dependencies).tags ↔
      dep ∈ dependencies ∧ tagSlot dep = some tagId := by
  rw [mem_bucketed]
  constructor
  · intro h
    rcases Assoc.mem_fill (Assoc.find?_mem h) with hm | hm
    · cases hm
    · exact hm
  · rintro ⟨hmem, hslot⟩
    obtain ⟨s, -, hsd⟩ := hrec.subject dep hmem
    rw [tagSlot_eq hsd] at hslot
    split_ifs at hslot with hnone
    obtain rfl := Option.some.inj hslot
    exact hrec.find?_tag hmem hsd hnone

theorem mem_alarms {dependencies : List Json} (hrec : Recorded dependencies) {alarmId : Bytes}
    {dep : Json} :
    (alarmId, dep) ∈ bucketed (oldDependencies dependencies).alarms ↔
      dep ∈ dependencies ∧ alarmSlot dep = some alarmId := by
  rw [mem_bucketed]
  constructor
  · intro h
    rcases Assoc.mem_fill (Assoc.find?_mem h) with hm | hm
    · cases hm
    · exact hm
  · rintro ⟨hmem, hslot⟩
    obtain ⟨s, hs, hsd⟩ := hrec.subject dep hmem
    rw [alarmSlot_eq hsd] at hslot
    obtain ⟨a, ha, rfl⟩ := Option.map_eq_some_iff.mp hslot
    exact hrec.find?_alarm hmem hs hsd ha

theorem mem_findingsOf {dependencies : List Json} (hrec : Recorded dependencies) {g : Findings} :
    g ∈ findingsOf index dependencies ↔ ∃ d ∈ dependencies, findingOf index d = g := by
  simp only [findingsOf, List.mem_append, List.mem_map, Prod.exists, mem_tags hrec,
    mem_alarms hrec]
  constructor
  · rintro (⟨tagId, d, ⟨hd, hslot⟩, rfl⟩ | ⟨alarmId, d, ⟨hd, hslot⟩, rfl⟩)
    · obtain ⟨s, -, hsd⟩ := hrec.subject d hd
      have halarm : alarmSlot d = none := by
        rw [tagSlot_eq hsd] at hslot
        split_ifs at hslot with hnone
        rw [alarmSlot_eq hsd, hnone]
        rfl
      exact ⟨d, hd, by simp only [findingOf, halarm, hslot]⟩
    · exact ⟨d, hd, by simp only [findingOf, hslot]⟩
  · rintro ⟨d, hd, rfl⟩
    obtain ⟨s, -, hsd⟩ := hrec.subject d hd
    cases ha : s.alarm with
    | some a =>
      have halarm : alarmSlot d = some a.id := by rw [alarmSlot_eq hsd, ha]; rfl
      exact .inr ⟨a.id, d, ⟨hd, halarm⟩, by simp only [findingOf, halarm]⟩
    | none =>
      have halarm : alarmSlot d = none := by rw [alarmSlot_eq hsd, ha]; rfl
      have htag : tagSlot d = some s.tag.id := by rw [tagSlot_eq hsd, if_pos ha]
      exact .inl ⟨s.tag.id, d, ⟨hd, htag⟩, by simp only [findingOf, halarm, htag]⟩

omit [Platform] in
theorem foldlM_add {α : Type} {check : Findings → α → Result Findings} {finding : α → Findings}
    {l : List α} (h : ∀ a ∈ l, ∀ f, check f a = .ok (f.add (finding a))) (f : Findings) :
    l.foldlM check f = .ok ((l.map finding).foldl Findings.add f) := by
  induction l generalizing f with
  | nil => rfl
  | cons a l ih =>
    rw [List.foldlM_cons, h a List.mem_cons_self, ok_bind]
    exact ih (fun b hb => h b (List.mem_cons_of_mem _ hb)) _

omit [Platform] in
theorem foldlM_sum {α : Type} {check : Findings → α → Result Findings} {finding : α → Findings}
    {l : List α} (h : ∀ a ∈ l, ∀ f f', check f a = .ok f' → f' = f.add (finding a))
    {f f' : Findings} (hfold : l.foldlM check f = .ok f') :
    f' = (l.map finding).foldl Findings.add f := by
  induction l generalizing f with
  | nil => exact (pure_eq_ok.mp hfold).symm
  | cons a l ih =>
    rw [List.foldlM_cons] at hfold
    obtain ⟨g, hg, hrest⟩ := bind_eq_ok.mp hfold
    obtain rfl := h a List.mem_cons_self f g hg
    exact ih (fun b hb => h b (List.mem_cons_of_mem _ hb)) hrest

omit [Platform] in
theorem foldlM_checkRelationship {components : List Json}
    (hcomps : ∀ c ∈ components, c.find? "relationship_id" = none) (f : Findings) :
    components.foldlM (checkRelationship index) f = .ok f := by
  induction components with
  | nil => rfl
  | cons c components ih =>
    obtain ⟨hc, hrest⟩ := List.forall_mem_cons.mp hcomps
    rw [List.foldlM_cons, show checkRelationship index f c = .ok f by simp [checkRelationship, hc],
      ok_bind]
    exact ih hrest

omit htext in
include wf in
/-- **A comparison that is possible is the sum of what the dependencies record.** -/
theorem compareView_sum {changes issues components dependencies : List Json} {f : Findings}
    (hcomps : ∀ c ∈ components, c.find? "relationship_id" = none)
    (hdeps : Comparable dependencies)
    (h : compareView index changes issues components dependencies = .ok f) :
    f = (findingsOf index dependencies).foldl Findings.add
      ⟨changes, issues, [], [], [], [], [], []⟩ := by
  simp only [compareView, bind_eq_ok] at h
  obtain ⟨f₁, h₁, f₂, h₂, h₃⟩ := h
  obtain rfl := Except.ok.inj ((foldlM_checkRelationship hcomps f₂).symm.trans h₃)
  have htags : ∀ entry ∈ bucketed (oldDependencies dependencies).tags, ∀ f f',
      checkTagDependency index f entry = .ok f' → f' = f.add (tagFinding index entry) :=
    fun _ _ _ _ hcheck => checkTagDependency_sum hcheck
  obtain rfl := foldlM_sum htags h₁
  rw [findingsOf, List.foldl_append]
  refine foldlM_sum (fun entry hentry f f' hcheck => ?_) h₂
  obtain ⟨alarmId, d⟩ := entry
  obtain ⟨hd, hslot⟩ := (mem_alarms hdeps.toRecorded).mp hentry
  obtain ⟨s, -, hsd⟩ := hdeps.subject d hd
  rw [alarmSlot_eq hsd] at hslot
  obtain ⟨a, ha, -⟩ := Option.map_eq_some_iff.mp hslot
  exact Except.ok.inj (hcheck.symm.trans
    (checkAlarmDependency_add wf ⟨_, by rw [hsd.definition, ha]; rfl⟩ f))

include wf in
/-- **A comparison is the sum of what the dependencies record.** -/
theorem compareView_eq {components dependencies : List Json}
    (hcomps : ∀ c ∈ components, c.find? "relationship_id" = none)
    (hdeps : Comparable dependencies) (hcompare : TagsCompare index dependencies)
    (changes issues : List Json) :
    compareView index changes issues components dependencies =
      .ok ((findingsOf index dependencies).foldl Findings.add
        ⟨changes, issues, [], [], [], [], [], []⟩) := by
  have htags : ∀ entry ∈ bucketed (oldDependencies dependencies).tags, ∀ f,
      checkTagDependency index f entry = .ok (f.add (tagFinding index entry)) := by
    rintro ⟨tagId, d⟩ hentry f
    obtain ⟨hd, hslot⟩ := (mem_tags hdeps.toRecorded).mp hentry
    obtain ⟨_, hcheck⟩ := hcompare d hd tagId hslot
    exact checkTagDependency_alone hcheck f
  have halarms : ∀ entry ∈ bucketed (oldDependencies dependencies).alarms, ∀ f,
      checkAlarmDependency index f entry = .ok (f.add (alarmFinding index entry)) := by
    rintro ⟨alarmId, d⟩ hentry f
    obtain ⟨hd, hslot⟩ := (mem_alarms hdeps.toRecorded).mp hentry
    obtain ⟨s, -, hsd⟩ := hdeps.subject d hd
    rw [alarmSlot_eq hsd] at hslot
    obtain ⟨a, ha, -⟩ := Option.map_eq_some_iff.mp hslot
    exact checkAlarmDependency_add wf ⟨_, by rw [hsd.definition, ha]; rfl⟩ f
  simp only [compareView, foldlM_add htags, foldlM_add halarms, ok_bind,
    foldlM_checkRelationship hcomps, findingsOf, List.foldl_append]

end

/-! ### What the findings of a view say -/

theorem mem_addOnce {items : List Json} {item x : Json} (h : x ∈ addOnce items item) :
    x ∈ items ∨ x = item := by
  unfold addOnce at h
  split at h
  · exact .inl h
  · simpa using h

theorem mem_foldl_addOnce {l items : List Json} {x : Json} (h : x ∈ l.foldl addOnce items) :
    x ∈ items ∨ x ∈ l := by
  induction l generalizing items with
  | nil => exact .inl h
  | cons a l ih =>
    rcases ih h with h | h
    · exact (mem_addOnce h).imp_right fun (e : x = a) => List.mem_cons.mpr (.inl e)
    · exact .inr (List.mem_cons_of_mem _ h)

/-- Findings as comparisons write them: texts only, and every change has a kind. -/
structure Findings.Described (f : Findings) : Prop where
  changes : ∀ change ∈ f.changes, change.Plain ∧ ∃ kind, change.find? "kind" = some (.str kind)
  issues : ∀ item ∈ f.issues, item.Plain

namespace Findings

variable {f : Findings}

theorem described_empty : empty.Described := ⟨by simp [empty], by simp [empty]⟩

theorem Described.addChange (h : f.Described) {kind : Bytes} {rest : List (Bytes × Json)}
    (hplain : ∀ p ∈ rest, p.2.Plain) :
    (f.addChange ((bytes "kind", .str kind) :: rest)).Described := by
  refine ⟨fun change hchange => ?_, h.issues⟩
  rcases mem_addOnce hchange with hold | rfl
  · exact h.changes change hold
  · exact ⟨Json.plain_object (List.forall_mem_cons.mpr ⟨.str _, hplain⟩), kind, by simp⟩

theorem Described.addIssue (h : f.Described) (code message : Bytes) :
    (f.addIssue code message).Described := by
  refine ⟨h.changes, fun item hitem => ?_⟩
  rcases mem_addOnce hitem with hold | rfl
  · exact h.issues item hold
  · exact Json.plain_object (by simp [Json.Plain.str])

theorem Described.congr {g : Findings} (h : f.Described) (hchanges : g.changes = f.changes)
    (hissues : g.issues = f.issues) : g.Described := ⟨hchanges ▸ h.changes, hissues ▸ h.issues⟩

end Findings

theorem checkTagDependency_described [Platform] {index : ModelIndex} {f f' : Findings}
    {entry : Bytes × Json} (hf : f.Described) (h : checkTagDependency index f entry = .ok f') :
    f'.Described := by
  unfold checkTagDependency at h
  simp only at h
  split at h
  · rw [pure_eq_ok] at h
    subst h
    refine .addIssue (.addChange ?_ ?_) _ _
    · exact hf.congr rfl rfl
    · simp [Json.Plain.str]
  · split at h
    · simp only [bind_eq_ok, pure_eq_ok] at h
      obtain ⟨_, -, _, -, rfl⟩ := h
      refine .addIssue (.addChange ?_ ?_) _ _
      · exact hf.congr rfl rfl
      · simp [Json.Plain.str]
    · rw [pure_eq_ok] at h
      exact h ▸ hf

theorem checkAlarmTag_described {f : Findings} (hf : f.Described) (index : ModelIndex)
    (dep : Json) (alarm : Alarm) : (checkAlarmTag index f dep alarm).Described := by
  unfold checkAlarmTag
  split
  · refine .addIssue ?_ _ _
    exact hf.congr rfl rfl
  · split
    · refine .addIssue (.addChange ?_ ?_) _ _
      · exact hf.congr rfl rfl
      · simp [Json.Plain.str]
    · exact hf

theorem checkAlarmDependency_described {index : ModelIndex} {f f' : Findings}
    {entry : Bytes × Json} (hf : f.Described) (h : checkAlarmDependency index f entry = .ok f') :
    f'.Described := by
  unfold checkAlarmDependency at h
  simp only at h
  split at h
  · rw [pure_eq_ok] at h
    subst h
    have htag : (removedAlarmTag index f entry.2).Described := by
      unfold removedAlarmTag
      split
      · split_ifs
        · exact hf.congr rfl rfl
        · exact hf
      · exact hf
    refine .addIssue (.addChange ?_ ?_) _ _
    · exact htag.congr rfl rfl
    · simp [Json.Plain.str]
  · simp only [bind_eq_ok] at h
    obtain ⟨differs, -, h⟩ := h
    rename_i alarm _
    have htag := checkAlarmTag_described hf index entry.2 alarm
    cases differs with
    | false =>
      simp only [Bool.false_eq_true, if_false, pure_eq_ok] at h
      exact h ▸ htag
    | true =>
      simp only [if_true, pure_eq_ok] at h
      subst h
      refine .addIssue (.addChange ?_ ?_) _ _
      · exact htag.congr rfl rfl
      · simp [Json.Plain.str]

section
variable [Platform] {index : ModelIndex}

omit [Platform] in
theorem getD_described {x : Result Findings} (h : ∀ f, x = .ok f → f.Described) :
    (x.toOption.getD .empty).Described := by
  cases x with
  | error e => exact Findings.described_empty
  | ok f => exact h f rfl

theorem findingsOf_described {dependencies : List Json} {g : Findings}
    (hg : g ∈ findingsOf index dependencies) : g.Described := by
  rcases List.mem_append.mp hg with hg | hg
  · obtain ⟨entry, -, rfl⟩ := List.mem_map.mp hg
    exact getD_described fun f h => checkTagDependency_described Findings.described_empty h
  · obtain ⟨entry, -, rfl⟩ := List.mem_map.mp hg
    exact getD_described fun f h => checkAlarmDependency_described Findings.described_empty h

omit [Platform] in
theorem mem_changes_foldl {l : List Findings} {f : Findings} {change : Json}
    (h : change ∈ (l.foldl Findings.add f).changes) :
    change ∈ f.changes ∨ ∃ g ∈ l, change ∈ g.changes := by
  induction l generalizing f with
  | nil => exact .inl h
  | cons g l ih =>
    rcases ih h with h | ⟨g', hg', h⟩
    · exact (mem_foldl_addOnce h).imp_right fun h => ⟨g, List.mem_cons_self, h⟩
    · exact .inr ⟨g', List.mem_cons_of_mem _ hg', h⟩

end

end ContextHmi
