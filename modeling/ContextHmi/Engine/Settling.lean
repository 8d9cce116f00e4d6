import ContextHmi.Engine.Saved

/-!
# A reconciled view settles

Reconciling a view again with the model it was just reconciled with records nothing new. The second
time can still mark components the first one added; from then on the view stays as it is.

* `next_next_next` : after two reconciliations a third changes nothing;
* `next_eq_of_eqv` : if the second leaves a view `==` to the first, it is the same view.
-/

namespace ContextHmi

open Outcome

/-! ### Findings with the same sets -/

namespace Findings

/-- The sets of two findings have the same elements. -/
structure Alike (f g : Findings) : Prop where
  removedTags : ∀ x, x ∈ f.removedTags ↔ x ∈ g.removedTags
  conflictedTags : ∀ x, x ∈ f.conflictedTags ↔ x ∈ g.conflictedTags
  removedAlarms : ∀ x, x ∈ f.removedAlarms ↔ x ∈ g.removedAlarms
  conflictedAlarms : ∀ x, x ∈ f.conflictedAlarms ↔ x ∈ g.conflictedAlarms
  removedRelationships : ∀ x, x ∈ f.removedRelationships ↔ x ∈ g.removedRelationships
  changedRelationships : ∀ x, x ∈ f.changedRelationships ↔ x ∈ g.changedRelationships

theorem contains_congr {l l' : List Bytes} (h : ∀ x, x ∈ l ↔ x ∈ l') (x : Bytes) :
    l.contains x = l'.contains x := by
  rw [List.contains_eq_mem, List.contains_eq_mem, decide_eq_decide.mpr (h x)]

theorem isEmpty_congr {l l' : List Bytes} (h : ∀ x, x ∈ l ↔ x ∈ l') : l.isEmpty = l'.isEmpty := by
  rw [Bool.eq_iff_iff, List.isEmpty_iff, List.isEmpty_iff, List.eq_nil_iff_forall_not_mem,
    List.eq_nil_iff_forall_not_mem]
  exact forall_congr' fun x => not_congr (h x)

namespace Alike

variable {f g : Findings} (h : f.Alike g)
include h

theorem blocks_eq : f.blocks = g.blocks := by
  funext b
  simp only [blocks, contains_congr h.removedTags, contains_congr h.conflictedTags,
    contains_congr h.removedAlarms, contains_congr h.conflictedAlarms,
    contains_congr h.removedRelationships, contains_congr h.changedRelationships]

theorem marks_eq : f.marks = g.marks := by
  funext b
  simp only [marks, contains_congr h.removedTags, contains_congr h.conflictedTags,
    contains_congr h.removedAlarms, contains_congr h.conflictedAlarms,
    contains_congr h.removedRelationships, contains_congr h.changedRelationships]

theorem blocksDependency_eq : f.blocksDependency = g.blocksDependency := by
  funext tagId alarmId
  simp only [blocksDependency, contains_congr h.removedTags, contains_congr h.conflictedTags,
    contains_congr h.removedAlarms, contains_congr h.conflictedAlarms]

theorem kept_eq (fresh : List Json) : kept f fresh = kept g fresh := by
  funext c
  simp only [kept, keepComponent, preserve, h.blocks_eq, h.marks_eq]

theorem keptDependency_eq (fresh : List Json) : keptDependency f fresh = keptDependency g fresh := by
  funext d
  simp only [keptDependency, keepDependency, h.blocksDependency_eq]

theorem reconciledStatus_eq (prior : Bool) (issues : List Json) (previous : Bytes) :
    reconciledStatus f prior issues previous = reconciledStatus g prior issues previous := by
  simp only [reconciledStatus, isEmpty_congr h.removedTags, isEmpty_congr h.conflictedTags,
    isEmpty_congr h.removedAlarms, isEmpty_congr h.conflictedAlarms,
    isEmpty_congr h.removedRelationships, isEmpty_congr h.changedRelationships]

end Alike

/-- A set of findings that adding joins. -/
def Joined (get : Findings → List Bytes) : Prop :=
  get empty = [] ∧ ∀ f g, get (f.add g) = get g ++ get f

theorem Joined.mem_foldl {get : Findings → List Bytes} (hget : Joined get) {l : List Findings}
    {f : Findings} {x : Bytes} :
    x ∈ get (l.foldl add f) ↔ x ∈ get f ∨ ∃ g ∈ l, x ∈ get g := by
  induction l generalizing f with
  | nil => simp
  | cons g l ih =>
    rw [List.foldl_cons, ih, hget.2, List.mem_append]
    simp only [List.mem_cons, exists_eq_or_imp]
    tauto

theorem joined_removedTags : Joined (·.removedTags) := ⟨rfl, fun _ _ => rfl⟩

theorem joined_conflictedTags : Joined (·.conflictedTags) := ⟨rfl, fun _ _ => rfl⟩

theorem joined_removedAlarms : Joined (·.removedAlarms) := ⟨rfl, fun _ _ => rfl⟩

theorem joined_conflictedAlarms : Joined (·.conflictedAlarms) := ⟨rfl, fun _ _ => rfl⟩

theorem joined_removedRelationships : Joined (·.removedRelationships) := ⟨rfl, fun _ _ => rfl⟩

theorem joined_changedRelationships : Joined (·.changedRelationships) := ⟨rfl, fun _ _ => rfl⟩

end Findings

/-! ### Records that are there already -/

/-- An `==` record is there. -/
def Held (items : List Json) (item : Json) : Prop :=
  items.any (fun existing => existing.eqv item) = true

theorem addOnce_of_held {items : List Json} {item : Json} (h : Held items item) :
    addOnce items item = items := if_pos h

theorem foldl_addOnce_of_held {l items : List Json} (h : ∀ item ∈ l, Held items item) :
    l.foldl addOnce items = items := by
  induction l with
  | nil => rfl
  | cons a l ih =>
    obtain ⟨ha, hl⟩ := List.forall_mem_cons.mp h
    rw [List.foldl_cons, addOnce_of_held ha]
    exact ih hl

theorem Held.addOnce {items : List Json} {item : Json} (h : Held items item) (other : Json) :
    Held (ContextHmi.addOnce items other) item := by
  unfold ContextHmi.addOnce
  split
  · exact h
  · rw [Held, List.any_append, show items.any (fun e => e.eqv item) = true from h, Bool.true_or]

theorem Held.foldl {items : List Json} {item : Json} (h : Held items item) (l : List Json) :
    Held (l.foldl ContextHmi.addOnce items) item := by
  induction l generalizing items with
  | nil => exact h
  | cons a l ih => exact ih (h.addOnce a)

theorem held_addOnce (items : List Json) {item : Json} (hplain : item.Plain) :
    Held (addOnce items item) item := by
  unfold addOnce
  split
  · assumption
  · rw [Held, List.any_append, List.any_cons, hplain.eqv_self, Bool.true_or, Bool.or_true]

theorem held_foldl {l : List Json} (hplain : ∀ item ∈ l, item.Plain) (items : List Json) :
    ∀ item ∈ l, Held (l.foldl addOnce items) item := by
  induction l generalizing items with
  | nil => exact List.forall_mem_nil _
  | cons a l ih =>
    obtain ⟨ha, hl⟩ := List.forall_mem_cons.mp hplain
    rw [List.forall_mem_cons]
    exact ⟨(held_addOnce items ha).foldl l, ih hl _⟩

/-- The records of findings are in a sum. -/
structure Findings.HeldIn (g f : Findings) : Prop where
  changes : ∀ change ∈ g.changes, Held f.changes change
  issues : ∀ item ∈ g.issues, Held f.issues item

theorem Findings.HeldIn.add {f g : Findings} (h : g.HeldIn f) (g' : Findings) :
    g.HeldIn (f.add g') :=
  ⟨fun change hc => (h.changes change hc).foldl _, fun item hi => (h.issues item hi).foldl _⟩

theorem Findings.HeldIn.foldl {f g : Findings} (h : g.HeldIn f) (l : List Findings) :
    g.HeldIn (l.foldl Findings.add f) := by
  induction l generalizing f with
  | nil => exact h
  | cons a l ih => exact ih (h.add a)

theorem Findings.heldIn_foldl {l : List Findings} (hl : ∀ g ∈ l, g.Described) (f : Findings) :
    ∀ g ∈ l, g.HeldIn (l.foldl Findings.add f) := by
  induction l generalizing f with
  | nil => exact List.forall_mem_nil _
  | cons g l ih =>
    obtain ⟨hg, hl⟩ := List.forall_mem_cons.mp hl
    rw [List.forall_mem_cons]
    refine ⟨Findings.HeldIn.foldl ⟨?_, ?_⟩ l, ih hl _⟩
    · exact held_foldl (fun change hc => (hg.changes change hc).1) _
    · exact held_foldl hg.issues _

theorem Findings.foldl_heldIn {l : List Findings} {f : Findings} (h : ∀ g ∈ l, g.HeldIn f) :
    (l.foldl Findings.add f).changes = f.changes ∧ (l.foldl Findings.add f).issues = f.issues := by
  induction l generalizing f with
  | nil => exact ⟨rfl, rfl⟩
  | cons g l ih =>
    obtain ⟨hg, hl⟩ := List.forall_mem_cons.mp h
    have hchanges : (f.add g).changes = f.changes := foldl_addOnce_of_held hg.changes
    have hissues : (f.add g).issues = f.issues := foldl_addOnce_of_held hg.issues
    obtain ⟨h₁, h₂⟩ := ih fun g' hg' => (hl g' hg').add g
    exact ⟨h₁.trans hchanges, h₂.trans hissues⟩

/-! ### What a dependency's findings block -/

section
variable [Platform] {index : ModelIndex}

theorem findingOf_tag {s : Subject} {d : Json} (hsd : s.RecordedBy d) (hnone : s.alarm = none) :
    findingOf index d = tagFinding index (s.tag.id, d) := by
  simp only [findingOf, alarmSlot_eq hsd, tagSlot_eq hsd, hnone, Option.map_none, if_true]

theorem findingOf_alarm {s : Subject} {d : Json} {a : Alarm} (hsd : s.RecordedBy d)
    (ha : s.alarm = some a) : findingOf index d = alarmFinding index (a.id, d) := by
  simp only [findingOf, alarmSlot_eq hsd, ha, Option.map_some]

theorem tagFinding_quiet {s : Subject} {d : Json} {tag : Tag}
    (htag : index.tag? s.tag.id = some tag) (hsame : bindingDiffers d tag = false) :
    tagFinding index (s.tag.id, d) = .empty := by
  simp [tagFinding, checkTagDependency, htag, hsame, pure, Except.pure, Except.toOption]

theorem tagFinding_blocks {tagId : Bytes} (d : Json) :
    tagFinding index (tagId, d) = .empty ∨
      tagId ∈ (tagFinding index (tagId, d)).removedTags ∨
      tagId ∈ (tagFinding index (tagId, d)).conflictedTags := by
  unfold tagFinding
  cases hcheck : checkTagDependency index .empty (tagId, d) with
  | error e => exact .inl rfl
  | ok f =>
    show f = .empty ∨ _
    rcases (checkTagDependency_eq_ok hcheck).2 with h | h | ⟨tag, htag, hsame⟩
    · exact .inr (.inl h)
    · exact .inr (.inr h)
    · refine .inl ?_
      simpa [checkTagDependency, htag, hsame, pure, Except.pure, eq_comm] using hcheck

omit [Platform] in
theorem alarmFinding_blocks {s : Subject} {d : Json} {a : Alarm} (hs : s.Proper)
    (hsd : s.RecordedBy d) (ha : s.alarm = some a) :
    alarmFinding index (a.id, d) = .empty ∨
      a.id ∈ (alarmFinding index (a.id, d)).removedAlarms ∨
      a.id ∈ (alarmFinding index (a.id, d)).conflictedAlarms ∨
      s.tag.id ∈ (alarmFinding index (a.id, d)).removedTags ∨
      s.tag.id ∈ (alarmFinding index (a.id, d)).conflictedTags := by
  unfold alarmFinding
  cases hcheck : checkAlarmDependency index .empty (a.id, d) with
  | error e => exact .inl rfl
  | ok f =>
    show f = .empty ∨ _
    rcases (checkAlarmDependency_eq_ok hcheck).2 with h | h | ⟨alarm, halarm, hdiff, h⟩
    · exact .inr (.inl h)
    · exact .inr (.inr (.inl h))
    have hsnap : d.find? "alarm_definition" = some (alarmDefinitionSnapshot a) := by
      rw [hsd.definition, ha]
      rfl
    have hdef : (alarmDefinitionSnapshot a).eqv (alarmDefinitionSnapshot alarm) = true := by
      simp only [definitionDiffers, hsnap, Except.ok.injEq, Bool.or_eq_false_iff,
        Bool.not_eq_false'] at hdiff
      exact hdiff.1
    have htagId : alarm.tagId = s.tag.id :=
      ((alarmDefinitionSnapshot_eqv.mp hdef).2.2.2.2.1).symm.trans (hs.alarm a ha).2
    rcases h with h | h | ⟨tag, htag, hsame⟩
    · exact .inr (.inr (.inr (.inl (htagId ▸ h))))
    · exact .inr (.inr (.inr (.inr (htagId ▸ h))))
    · refine .inl ?_
      simpa [checkAlarmDependency, halarm, checkAlarmTag, htag, hsame, hdiff, pure, Except.pure,
        eq_comm] using hcheck

/-- **A dependency records nothing, or what it records blocks it.** -/
theorem findingOf_blocks {s : Subject} {d : Json} (hs : s.Proper) (hsd : s.RecordedBy d)
    {f : Findings} (hle : (findingOf index d).Le f) :
    findingOf index d = .empty ∨
      f.blocksDependency (fieldOf d "tag_id") (fieldOf d "alarm_id") = true := by
  have htag : fieldOf d "tag_id" = s.tag.id := fieldOf_eq hsd.tagId
  cases ha : s.alarm with
  | none =>
    rw [findingOf_tag hsd ha] at hle ⊢
    refine (tagFinding_blocks d).imp_right fun h => ?_
    rw [htag]
    rcases h with h | h
    · simp [Findings.blocksDependency, hle.removedTags h]
    · simp [Findings.blocksDependency, hle.conflictedTags h]
  | some a =>
    have halarm : fieldOf d "alarm_id" = a.id := fieldOf_eq (by rw [hsd.alarmId, ha]; rfl)
    have hne := (hs.alarm a ha).1
    rw [findingOf_alarm hsd ha] at hle ⊢
    refine (alarmFinding_blocks hs hsd ha).imp_right fun h => ?_
    rw [htag, halarm]
    rcases h with h | h | h | h
    · simp [Findings.blocksDependency, hle.removedAlarms h, hne]
    · simp [Findings.blocksDependency, hle.conflictedAlarms h, hne]
    · simp [Findings.blocksDependency, hle.removedTags h]
    · simp [Findings.blocksDependency, hle.conflictedTags h]

/-! ### Fresh dependencies record nothing -/

omit [Platform] in
theorem beq_self_of_isFinite {x : Float} (h : x.isFinite = true) : (x == x) = true := by
  change x.toModel.unpack.isFinite = true at h
  change x.toModel.unpack.beq x.toModel.unpack = true
  cases hx : x.toModel.unpack with
  | infinity sign =>
    rw [hx] at h
    exact absurd h Bool.false_ne_true
  | notANumber =>
    rw [hx] at h
    exact absurd h Bool.false_ne_true
  | zero sign => rfl
  | finite sign m e _ =>
    have hself : (compare e e).then (compare m m) = .eq := by simp [Ordering.then]
    cases sign with
    | positive => exact congrArg (fun o => some o == some Ordering.eq) hself
    | negative => exact congrArg (fun o => some (Ordering.swap o) == some Ordering.eq) hself

omit [Platform] in
theorem eqv_self_number {j : Json} (h : isFiniteNumber j = true) : j.eqv j = true := by
  cases j with
  | int i => simp [Json.eqv, Json.numberEqv]
  | uint n => simp [Json.eqv, Json.numberEqv]
  | float x => exact beq_self_of_isFinite h
  | _ => cases h

omit [Platform] in
theorem eqv_self_binding (tag : Tag) :
    (tagBindingSnapshot tag).eqv (tagBindingSnapshot tag) = true :=
  tagBindingSnapshot_eqv.mpr ⟨rfl, rfl, rfl, rfl, rfl⟩

omit [Platform] in
theorem eqv_self_definition {alarm : Alarm} (h : isFiniteNumber alarm.threshold = true) :
    (alarmDefinitionSnapshot alarm).eqv (alarmDefinitionSnapshot alarm) = true :=
  alarmDefinitionSnapshot_eqv.mpr ⟨rfl, rfl, rfl, rfl, rfl, eqv_self_number h⟩

omit [Platform] in
theorem find?_binding (tag : Tag) : (tagBindingSnapshot tag).isObject = true ∧
    (tagBindingSnapshot tag).find? "owner" = some (.str tag.assetId) ∧
    (tagBindingSnapshot tag).find? "role" = some (.str tag.role) ∧
    (tagBindingSnapshot tag).find? "unit" = some (.str tag.unit) ∧
    (tagBindingSnapshot tag).find? "source" = some tag.source.toJson := by
  simp [tagBindingSnapshot]

omit [Platform] in
theorem find?_definition (alarm : Alarm) : (alarmDefinitionSnapshot alarm).isObject = true ∧
    (alarmDefinitionSnapshot alarm).find? "owner" = some (.str alarm.assetId) ∧
    (alarmDefinitionSnapshot alarm).find? "name" = some (.str alarm.name) ∧
    (alarmDefinitionSnapshot alarm).find? "operator" = some (.str alarm.operator) ∧
    (alarmDefinitionSnapshot alarm).find? "threshold" = some alarm.threshold ∧
    (alarmDefinitionSnapshot alarm).find? "severity" = some (.str alarm.severity) := by
  simp [alarmDefinitionSnapshot]

theorem dependency_bindingDiffers {s : Subject} {d : Json} (hd : s.dependency = .ok d)
    (hnone : s.alarm = none) (tag : Tag) :
    bindingDiffers d tag = !(tagBindingSnapshot s.tag).eqv (tagBindingSnapshot tag) := by
  have hsd := Subject.dependency_records hd
  have hsource : s.tag.source.toJson.eqv s.tag.source.toJson = true := by
    simp [Source.toJson_eq, Json.eqv, Json.eqvFields]
  obtain ⟨own, alarm⟩ := s
  obtain rfl : alarm = none := hnone
  simp only [Subject.dependency, dependencyFor, bind_eq_ok, pure_eq_ok] at hd
  obtain ⟨_, -, rfl⟩ := hd
  obtain ⟨hobj, howner, hrole, hunit, hsrc⟩ := find?_binding own
  simp only [bindingDiffers, hsd.binding]
  simp [overrides, hobj, howner, hrole, hunit, hsrc, Json.find?_setField, hsource, Json.eqv]

theorem dependency_definitionDiffers {s : Subject} {d : Json} {a : Alarm}
    (hd : s.dependency = .ok d) (ha : s.alarm = some a)
    (hthreshold : isFiniteNumber a.threshold = true) (alarm : Alarm) :
    definitionDiffers d alarm =
      .ok (!(alarmDefinitionSnapshot a).eqv (alarmDefinitionSnapshot alarm)) := by
  have hsd := Subject.dependency_records hd
  obtain ⟨_, _⟩ := s
  obtain rfl := ha
  have hnum := eqv_self_number hthreshold
  simp only [Subject.dependency, dependencyForAlarm, dependencyFor, bind_eq_ok, pure_eq_ok] at hd
  obtain ⟨_, ⟨_, -, rfl⟩, _, -, rfl⟩ := hd
  obtain ⟨-, howner, hname, hoperator, hlimit, hseverity⟩ := find?_definition a
  simp only [definitionDiffers, hsd.definition, Option.map_some]
  simp [overrides, howner, hname, hoperator, hlimit, hseverity, Json.find?_setFields,
    Json.find?_setField, hnum, Json.eqv]

theorem dependency_same {s s' : Subject} {d : Json} (hd : s.dependency = .ok d)
    (hthreshold : ∀ a, s.alarm = some a → isFiniteNumber a.threshold = true) (hsame : s.Same s') :
    (s.alarm = none → bindingDiffers d s'.tag = false) ∧
      memberDiffers d "binding" (tagBindingSnapshot s'.tag) = false ∧
      ∀ a', s'.alarm = some a' → definitionDiffers d a' = .ok false := by
  refine ⟨fun hnone => ?_, ?_, fun a' ha' => ?_⟩
  · rw [dependency_bindingDiffers hd hnone, hsame.binding, Bool.not_true]
  · simp [memberDiffers, (Subject.dependency_records hd).binding, hsame.binding]
  · cases ha : s.alarm with
    | none => simp [hsame.noAlarm ha] at ha'
    | some a =>
      obtain ⟨b, hb, -, hdefinition⟩ := hsame.alarm a ha
      obtain rfl := Option.some.inj (ha'.symm.trans hb)
      rw [dependency_definitionDiffers hd ha (hthreshold a ha), hdefinition, Bool.not_true]

theorem findingOf_same (wf : index.WellFormed) {kind anchor : Bytes} {roles : List Bytes}
    {s s' : Subject} {d : Json} (hd : s.dependency = .ok d)
    (hthreshold : ∀ a, s.alarm = some a → isFiniteNumber a.threshold = true) (hsame : s.Same s')
    (hs' : s'.Selected index kind anchor roles) : findingOf index d = .empty := by
  have hsd := Subject.dependency_records hd
  obtain ⟨hbinding, hmember, hdefinition⟩ := dependency_same hd hthreshold hsame
  have htag : index.tag? s'.tag.id = some s'.tag := wf.tag?_eq_some.mpr ⟨hs'.tag, rfl⟩
  cases ha : s.alarm with
  | none => rw [findingOf_tag hsd ha, tagFinding_quiet (hsame.tagId ▸ htag) (hbinding ha)]
  | some a =>
    obtain ⟨a', ha', hid, -⟩ := hsame.alarm a ha
    obtain ⟨hmem, hon⟩ := hs'.alarm a' ha'
    have halarm : index.alarm? a.id = some a' := wf.alarm?_eq_some.mpr ⟨hmem, hid.symm⟩
    rw [findingOf_alarm hsd ha]
    simp [alarmFinding, checkAlarmDependency, halarm, checkAlarmTag, hon, htag, hmember,
      hdefinition a' ha', pure, Except.pure, Except.toOption]

omit [Platform] in
theorem Subject.Same.refl {s : Subject}
    (hthreshold : ∀ a, s.alarm = some a → isFiniteNumber a.threshold = true) : s.Same s :=
  ⟨rfl, eqv_self_binding s.tag, fun a ha => ⟨a, ha, rfl, eqv_self_definition (hthreshold a ha)⟩,
    fun hnone => hnone⟩

theorem findingOf_fresh (wf : index.WellFormed) {kind anchor : Bytes} {roles : List Bytes}
    {s : Subject} {d : Json} (hs : s.Selected index kind anchor roles)
    (hd : s.dependency = .ok d) : findingOf index d = .empty := by
  have hthreshold : ∀ a, s.alarm = some a → isFiniteNumber a.threshold = true :=
    fun a ha => (wf.alarms a (hs.alarm a ha).1).threshold
  exact findingOf_same wf hd hthreshold (Subject.Same.refl hthreshold) hs

/-- A view composed with the model, as reconciling with the model uses it. -/
structure FreshFor (index : ModelIndex) (fresh : Json) (q : SavedParts) : Prop where
  saved : Saved fresh q
  quiet : ∀ d ∈ q.dependencies, findingOf index d = .empty
  free : ∀ c ∈ q.components, ¬ Blocked c
  ids : (q.components.map (fieldOf · "id")).Nodup
  plainIssues : ∀ item ∈ q.issues, item.Plain

omit [Platform] in
theorem Composed.plain_issues (c : Composed) {task item : Json}
    (h : item ∈ (c.parts index task).issues) : item.Plain := by
  simp only [Composed.parts] at h
  split at h
  · obtain rfl := List.mem_singleton.mp h
    unfold viewKind
    split <;> exact Json.plain_object (by simp [Json.Plain.str])
  · cases h

theorem resolveTaskImpl_fresh (wf : index.WellFormed) {task fresh : Json}
    (h : resolveTaskImpl index task = .ok fresh) : ∃ q, FreshFor index fresh q := by
  obtain ⟨c, hc, rfl⟩ := resolveTaskImpl_eq_ok.mp h
  refine ⟨_, hc.saved wf, fun d hd => ?_, fun j hj => ?_, (hc.sound wf).nodup, fun item hitem => ?_⟩
  · obtain ⟨s, hs, hdependency⟩ := hc.mem_dependencies.mp hd
    exact findingOf_fresh wf ((mem_selection wf hc.subjects).mp hs) hdependency
  · obtain ⟨s, -, hcomponent⟩ := hc.mem_components.mp hj
    exact (Subject.component_shows hcomponent).not_blocked
  · exact c.plain_issues hitem

end

/-! ### The second reconciliation compares alike -/

section
variable [Platform] {index : ModelIndex} {view fresh : Json} {p q : SavedParts}

theorem findings_set (get : Findings → List Bytes) (hget : Findings.Joined get)
    (hrec : Recorded p.dependencies)
    (hnil : get ⟨p.changes, p.issues, [], [], [], [], [], []⟩ = []) {x : Bytes} :
    x ∈ get (p.findings index) ↔ ∃ d ∈ p.dependencies, x ∈ get (findingOf index d) := by
  rw [SavedParts.findings, hget.mem_foldl, hnil]
  simp only [List.not_mem_nil, false_or, mem_findingsOf hrec]
  constructor
  · rintro ⟨g, ⟨d, hd, rfl⟩, hx⟩
    exact ⟨d, hd, hx⟩
  · rintro ⟨d, hd, hx⟩
    exact ⟨_, ⟨d, hd, rfl⟩, hx⟩

theorem findingOf_le (hrec : Recorded p.dependencies) {d : Json} (hd : d ∈ p.dependencies) :
    (findingOf index d).Le (p.findings index) where
  removedTags := fun _ hx =>
    (findings_set _ Findings.joined_removedTags hrec rfl).mpr ⟨d, hd, hx⟩
  conflictedTags := fun _ hx =>
    (findings_set _ Findings.joined_conflictedTags hrec rfl).mpr ⟨d, hd, hx⟩
  removedAlarms := fun _ hx =>
    (findings_set _ Findings.joined_removedAlarms hrec rfl).mpr ⟨d, hd, hx⟩
  conflictedAlarms := fun _ hx =>
    (findings_set _ Findings.joined_conflictedAlarms hrec rfl).mpr ⟨d, hd, hx⟩

theorem next_dependencies (hs : Saved view p) (hq : FreshFor index fresh q) :
    (∀ d ∈ p.dependencies, findingOf index d ≠ .empty →
      d ∈ (p.next index fresh).dependencies) ∧
    ∀ d ∈ (p.next index fresh).dependencies, d ∈ p.dependencies ∨ findingOf index d = .empty := by
  have hrec := hs.comparable.toRecorded
  simp only [SavedParts.next, itemsOf_eq hq.saved.dependencies]
  refine ⟨fun d hd hne => ?_, fun d hd => ?_⟩
  · obtain ⟨s, hproper, hsd⟩ := hrec.subject d hd
    have hblocks := (findingOf_blocks hproper hsd (findingOf_le hrec hd)).resolve_left hne
    refine List.mem_append_left _ (List.mem_map.mpr ⟨d, hd, ?_⟩)
    exact if_pos hblocks
  · rcases List.mem_append.mp hd with hd | hd
    · obtain ⟨b, hb, rfl⟩ := List.mem_map.mp hd
      rcases keptDependency_cases (p.findings index) q.dependencies b with h | h
      · exact .inl (h.symm ▸ hb)
      · exact .inr (hq.quiet _ h)
    · exact .inr (hq.quiet d (List.mem_of_mem_filter hd))

/-- **Reconciling again finds the same.** -/
theorem next_alike (hs : Saved view p) (hq : FreshFor index fresh q) :
    ((p.next index fresh).findings index).Alike (p.findings index) := by
  obtain ⟨hstays, hnew⟩ := next_dependencies hs hq
  have hset : ∀ get : Findings → List Bytes, Findings.Joined get →
      (∀ changes issues, get ⟨changes, issues, [], [], [], [], [], []⟩ = []) → ∀ x,
      x ∈ get ((p.next index fresh).findings index) ↔ x ∈ get (p.findings index) := by
    intro get hget hnil x
    rw [findings_set get hget (hs.next hq.saved).comparable.toRecorded (hnil _ _),
      findings_set get hget hs.comparable.toRecorded (hnil _ _)]
    have hempty : ∀ d, x ∈ get (findingOf index d) → findingOf index d ≠ .empty := by
      intro d hx he
      rw [he, hget.1] at hx
      cases hx
    constructor
    · rintro ⟨d, hd, hx⟩
      exact ⟨d, (hnew d hd).resolve_right (hempty d hx), hx⟩
    · rintro ⟨d, hd, hx⟩
      exact ⟨d, hstays d hd (hempty d hx), hx⟩
  exact ⟨hset _ Findings.joined_removedTags fun _ _ => rfl,
    hset _ Findings.joined_conflictedTags fun _ _ => rfl,
    hset _ Findings.joined_removedAlarms fun _ _ => rfl,
    hset _ Findings.joined_conflictedAlarms fun _ _ => rfl,
    hset _ Findings.joined_removedRelationships fun _ _ => rfl,
    hset _ Findings.joined_changedRelationships fun _ _ => rfl⟩

theorem next_records (hs : Saved view p) (hq : FreshFor index fresh q) :
    ((p.next index fresh).findings index).changes = (p.next index fresh).changes ∧
      ((p.next index fresh).findings index).issues = (p.next index fresh).issues := by
  have hrec := hs.comparable.toRecorded
  have hnew := (next_dependencies hs hq).2
  refine Findings.foldl_heldIn fun g hg => ?_
  obtain ⟨d, hd, rfl⟩ := (mem_findingsOf (hs.next hq.saved).comparable.toRecorded).mp hg
  rcases hnew d hd with hold | hempty
  · have hheld : (findingOf index d).HeldIn (p.findings index) :=
      Findings.heldIn_foldl (fun g hg => findingsOf_described hg) _ _
        ((mem_findingsOf hrec).mpr ⟨d, hold, rfl⟩)
    exact ⟨hheld.changes, fun item hitem => (hheld.issues item hitem).foldl _⟩
  · rw [hempty]
    exact ⟨List.forall_mem_nil _, List.forall_mem_nil _⟩

end

/-! ### Kept components -/

theorem mark_mark {c : Json} (hobj : c.isObject = true) (status reason status' reason' : Bytes) :
    mark (mark c status reason) status' reason' = mark c status' reason' := by
  have hne : (bytes "status" : Bytes) ≠ bytes "reason" := by simp
  unfold mark
  rw [Json.setField_comm (Json.isObject_setField hobj _ _) hne, Json.setField_setField,
    Json.setField_setField]

namespace Findings

theorem preserve_cases (f : Findings) (b : Bound) : (∀ c, f.preserve b c = c) ∨
    ∃ status reason, ∀ c, c.isObject = true → f.preserve b c = mark c status reason := by
  unfold preserve
  generalize f.marks b = marks
  induction marks using List.reverseRecOn with
  | nil => exact .inl fun _ => rfl
  | append_singleton marks m ih =>
    simp only [List.foldl_append, List.foldl_cons, List.foldl_nil]
    cases m.applies with
    | false => exact ih
    | true =>
      refine .inr ⟨m.status, m.reason, fun c hc => ?_⟩
      rw [if_pos rfl]
      rcases ih with h | ⟨status, reason, h⟩
      · rw [h c]
      · rw [h c hc, mark_mark hc]

theorem preserve_preserve (f : Findings) (b : Bound) {c : Json} (hobj : c.isObject = true) :
    f.preserve b (f.preserve b c) = f.preserve b c := by
  rcases f.preserve_cases b with h | ⟨status, reason, h⟩
  · rw [h, h]
  · rw [h _ hobj, h _ (isObject_mark hobj _ _), mark_mark hobj]

theorem preserve_of_not_blocks {f : Findings} {b : Bound} (h : f.blocks b = false) (c : Json) :
    f.preserve b c = c := by
  simp only [blocks, Bool.or_eq_false_iff] at h
  obtain ⟨⟨⟨⟨⟨hct, hrt⟩, hca⟩, hra⟩, hrr⟩, hcr⟩ := h
  simp only [preserve, marks, List.foldl_cons, List.foldl_nil, hct, hrt, hca, hra, hrr, hcr,
    Bool.and_false, Bool.false_eq_true, if_false]

end Findings

/-- The ids of a component. -/
def SameIds (c c' : Json) : Prop :=
  fieldOf c' "id" = fieldOf c "id" ∧ boundOf c' = boundOf c

theorem sameIds_preserve {c : Json} (hobj : c.isObject = true) (f : Findings) (b : Bound) :
    SameIds c (f.preserve b c) := by
  have hfield : ∀ k : Bytes, k ≠ "status" → k ≠ "reason" →
      fieldOf (f.preserve b c) k = fieldOf c k := fun k h₁ h₂ => by
    rw [fieldOf, f.find?_preserve b hobj h₁ h₂, fieldOf]
  exact ⟨hfield _ (by simp) (by simp), by
    rw [boundOf, hfield _ (by simp) (by simp), hfield _ (by simp) (by simp),
      hfield _ (by simp) (by simp), boundOf]⟩

theorem sameIds_mark {c : Json} (hobj : c.isObject = true) (status reason : Bytes) :
    SameIds c (mark c status reason) := by
  have hfield : ∀ k : Bytes, k ≠ "status" → k ≠ "reason" →
      fieldOf (mark c status reason) k = fieldOf c k := fun k h₁ h₂ => by
    rw [fieldOf, find?_mark hobj h₁ h₂, fieldOf]
  exact ⟨hfield _ (by simp) (by simp), by
    rw [boundOf, hfield _ (by simp) (by simp), hfield _ (by simp) (by simp),
      hfield _ (by simp) (by simp), boundOf]⟩

section kept
variable {f : Findings} (hf : f.Clean) {fresh : List Json}
  (hids : (fresh.map (fieldOf · "id")).Nodup) (hfree : ∀ c ∈ fresh, ¬ Blocked c)

theorem kept_of_blocked {c : Json} (h : Blocked c ∨ f.blocks (boundOf c) = true) :
    kept f fresh c = f.preserve (boundOf c) c := by
  rcases kept_cases f fresh c with ⟨-, hkept⟩ | ⟨⟨hnot, hspare⟩, -⟩
  · exact hkept
  · exact (h.elim hnot (by simp [hspare])).elim

theorem kept_id (c : Json) (hobj : c.isObject = true) :
    fieldOf (kept f fresh c) "id" = fieldOf c "id" := by
  rcases kept_cases f fresh c with ⟨-, h⟩ | ⟨-, ⟨current, -, hid, h⟩ | h⟩
  · rw [h, (sameIds_preserve hobj f _).1]
  · rw [h, hid]
  · rw [h, (sameIds_mark (f.isObject_preserve _ hobj) _ _).1, (sameIds_preserve hobj f _).1]

include hf in
theorem kept_kept_of_blocked {c : Json} (hc : IsComponent c)
    (h : Blocked c ∨ f.blocks (boundOf c) = true) :
    kept f fresh (kept f fresh c) = kept f fresh c := by
  have hids := (sameIds_preserve hc.isObject f (boundOf c)).2
  rw [kept_of_blocked h, kept_of_blocked (.inl (hc.preserve_blocked hf h)), hids,
    f.preserve_preserve _ hc.isObject]

include hids hfree in
theorem kept_of_fresh {c : Json} (hmem : c ∈ fresh) (hspare : f.blocks (boundOf c) = false) :
    kept f fresh c = c := by
  have hfind : (fresh.find? fun current => fieldOf current "id" = fieldOf c "id") = some c :=
    (Assoc.findKey_eq_some_iff (fieldOf · "id") hids).mpr ⟨hmem, rfl⟩
  have hstatus : isBlocked (fieldOf c "status") = false := by simpa [Blocked] using hfree c hmem
  simp [kept, keepComponent, hstatus, hspare, hfind]

include hf hids hfree in
theorem kept_kept_of_fresh {c : Json} (hc : IsComponent c) (hmem : c ∈ fresh) :
    kept f fresh (kept f fresh c) = kept f fresh c := by
  by_cases hblocks : f.blocks (boundOf c) = true
  · exact kept_kept_of_blocked hf hc (.inr hblocks)
  · have hkept := kept_of_fresh hids hfree hmem (by simpa using hblocks)
    rw [hkept, hkept]

include hf hids hfree in
theorem kept_kept_kept {c : Json} (hc : IsComponent c) (hfresh : ∀ c ∈ fresh, IsComponent c) :
    kept f fresh (kept f fresh (kept f fresh c)) = kept f fresh (kept f fresh c) := by
  rcases kept_cases f fresh c with ⟨h, -⟩ | ⟨⟨-, hspare⟩, ⟨current, hmem, -, h⟩ | h⟩
  · rw [kept_kept_of_blocked hf hc h]
    exact kept_kept_of_blocked hf hc h
  · rw [h]
    exact kept_kept_of_fresh hf hids hfree (hfresh current hmem) hmem
  · rw [Findings.preserve_of_not_blocks hspare] at h
    have hblocked : Blocked (mark c "unavailable"
        "Previously bound component is no longer declared") := by
      rw [Blocked, fieldOf_eq (find?_mark_status hc.isObject _ _)]
      simp [isBlocked]
    rw [h]
    exact kept_kept_of_blocked hf (hc.mark_unavailable _) (.inl hblocked)

end kept

theorem keptDependency_keptDependency (f : Findings) (fresh : List Json) (d : Json) :
    keptDependency f fresh (keptDependency f fresh d) = keptDependency f fresh d := by
  have hkey : ∀ d, dependencyKey (fieldOf d "tag_id") (fieldOf d "alarm_id") = keyOf d :=
    fun _ => rfl
  by_cases hblocks : f.blocksDependency (fieldOf d "tag_id") (fieldOf d "alarm_id") = true
  · have hkept : keptDependency f fresh d = d := if_pos hblocks
    rw [hkept, hkept]
  · cases hfind : fresh.find? fun current => decide (keyOf current = keyOf d) with
    | none =>
      have hkept : keptDependency f fresh d = d := by
        simp [keptDependency, keepDependency, hblocks, hkey, hfind]
      rw [hkept, hkept]
    | some d' =>
      have hkept : keptDependency f fresh d = d' := by
        simp [keptDependency, keepDependency, hblocks, hkey, hfind]
      have hkey' : keyOf d' = keyOf d := by simpa using List.find?_some hfind
      rw [hkept]
      simp only [keptDependency, keepDependency, hkey, hkey', hfind]
      split <;> rfl

/-! ### The third reconciliation -/

section
variable [Platform] {index : ModelIndex} (wf : index.WellFormed) (htext : index.IsText)
  {view fresh : Json} {p q : SavedParts} (hs : Saved view p) (hq : FreshFor index fresh q)

omit [Platform] in
theorem newTask_newTask {p p' : SavedParts} (hobj : p.task.isObject = true)
    (h : p'.task = p.newTask index) : p'.newTask index = p.newTask index := by
  have hne : (bytes "model_id" : Bytes) ≠ bytes "model_revision" := by simp
  have hobj' := fun v => Json.isObject_setField hobj (bytes "model_id") v
  simp only [SavedParts.newTask] at h ⊢
  rw [h]
  simp only [Json.setFields, List.foldl_cons, List.foldl_nil]
  rw [Json.setField_comm (hobj' _) hne, Json.setField_setField, Json.setField_setField]

include wf htext hs in
theorem findings_clean : (p.findings index).Clean :=
  compareView_clean hs.comparable.toRecorded.alarmSlot_ne
    (fun c hc => (hs.component c hc).relationshipId) (hs.compareView_eq wf (hs.comparable.tagsCompare wf htext))

include hq in
theorem next_covers (hs : Saved view p) :
    (∀ c ∈ q.components, fieldOf c "id" ∈ (p.next index fresh).components.map (fieldOf · "id")) ∧
      ∀ d ∈ q.dependencies, keyOf d ∈ (p.next index fresh).dependencies.map keyOf := by
  simp only [SavedParts.next, itemsOf_eq hq.saved.components, itemsOf_eq hq.saved.dependencies]
  refine ⟨fun c hc => ?_, fun d hd => ?_⟩
  · rw [keptComponents, List.map_append, List.mem_append, List.map_map]
    by_cases hold : fieldOf c "id" ∈ p.components.map (fieldOf · "id")
    · obtain ⟨b, hb, hid⟩ := List.mem_map.mp hold
      refine .inl (List.mem_map.mpr ⟨b, hb, ?_⟩)
      exact (kept_id b (hs.component b hb).isObject).trans hid
    · exact .inr (List.mem_map.mpr ⟨c, List.mem_filter.mpr ⟨hc, by simpa using hold⟩, rfl⟩)
  · rw [keptDependencies, List.map_append, List.mem_append, List.map_map]
    by_cases hold : keyOf d ∈ p.dependencies.map keyOf
    · obtain ⟨b, hb, hkey⟩ := List.mem_map.mp hold
      refine .inl (List.mem_map.mpr ⟨b, hb, ?_⟩)
      exact (keyOf_keptDependency _ _ b).trans hkey
    · exact .inr (List.mem_map.mpr ⟨d, List.mem_filter.mpr ⟨hd, by simpa using hold⟩, rfl⟩)

include hq in
theorem next_mem : (∀ c ∈ (p.next index fresh).components,
      (∃ b ∈ p.components, kept (p.findings index) q.components b = c) ∨ c ∈ q.components) ∧
    ∀ d ∈ (p.next index fresh).dependencies,
      (∃ b, keptDependency (p.findings index) q.dependencies b = d) ∨ d ∈ q.dependencies := by
  simp only [SavedParts.next, itemsOf_eq hq.saved.components, itemsOf_eq hq.saved.dependencies]
  refine ⟨fun c hc => ?_, fun d hd => ?_⟩
  · exact (List.mem_append.mp hc).imp List.mem_map.mp List.mem_of_mem_filter
  · refine (List.mem_append.mp hd).imp (fun h => ?_) List.mem_of_mem_filter
    obtain ⟨b, -, hb⟩ := List.mem_map.mp h
    exact ⟨b, hb⟩

include hs hq in
theorem next_dependencies_eq :
    keptDependencies (p.findings index) q.dependencies (p.next index fresh).dependencies =
      (p.next index fresh).dependencies := by
  have hcovers := (next_covers hq hs).2
  have hnone : q.dependencies.filter (fun current => decide
      (keyOf current ∉ (p.next index fresh).dependencies.map keyOf)) = [] :=
    List.filter_eq_nil_iff.mpr fun d hd => by simpa using hcovers d hd
  rw [keptDependencies, hnone, List.append_nil]
  refine (List.map_congr_left fun d hd => ?_).trans (List.map_id _)
  rcases (next_mem hq).2 d hd with ⟨b, rfl⟩ | hfresh
  · exact keptDependency_keptDependency _ _ b
  · have hfind : (q.dependencies.find? fun current => keyOf current = keyOf d) = some d :=
      (Assoc.findKey_eq_some_iff keyOf hq.saved.comparable.nodup).mpr ⟨hfresh, rfl⟩
    have hkey : dependencyKey (fieldOf d "tag_id") (fieldOf d "alarm_id") = keyOf d := rfl
    simp only [keptDependency, keepDependency, hkey, hfind]
    split <;> rfl

include hs hq in
theorem next_components_eq {f : Findings} :
    keptComponents f q.components (p.next index fresh).components =
      (p.next index fresh).components.map (kept f q.components) := by
  have hcovers := (next_covers hq hs).1
  have hnone : q.components.filter (fun current => decide
      (fieldOf current "id" ∉ (p.next index fresh).components.map (fieldOf · "id"))) = [] :=
    List.filter_eq_nil_iff.mpr fun c hc => by simpa using hcovers c hc
  rw [keptComponents, hnone, List.append_nil]

/-- The view reconciled once more. -/
def SavedParts.again (p : SavedParts) (f : Findings) (fresh : List Json) : SavedParts :=
  { p with
    components := p.components.map (kept f fresh)
    status := reconciledStatus f p.prior p.issues p.status }

include hs hq in
/-- **Reconciling a reconciled view only looks at its components and its status.** -/
theorem next_next (hobj : p.task.isObject = true) :
    (p.next index fresh).next index fresh =
      (p.next index fresh).again (p.findings index) q.components := by
  obtain ⟨hchanges, hissues⟩ := next_records hs hq
  have halike := next_alike hs hq
  have hheld : q.issues.foldl addOnce (p.next index fresh).issues = (p.next index fresh).issues := by
    refine foldl_addOnce_of_held fun item hitem => ?_
    simp only [SavedParts.next, itemsOf_eq hq.saved.issues]
    exact held_foldl hq.plainIssues _ item hitem
  have hcomponents := next_components_eq hs hq (f := (p.next index fresh).findings index)
  have hdependencies := next_dependencies_eq hs hq
  have htask : (p.next index fresh).newTask index = (p.next index fresh).task :=
    newTask_newTask hobj rfl
  rw [halike.kept_eq] at hcomponents
  rw [SavedParts.next, SavedParts.again]
  simp only [itemsOf_eq hq.saved.components, itemsOf_eq hq.saved.dependencies,
    itemsOf_eq hq.saved.issues, hchanges, hissues, hheld, htask, hcomponents,
    halike.reconciledStatus_eq]
  rw [keptDependencies, halike.keptDependency_eq, ← keptDependencies, hdependencies]

omit [Platform] in
theorem kept_conflict {f : Findings} {fresh : List Json} (hfree : ∀ c ∈ fresh, ¬ Blocked c) {c : Json}
    (hc : IsComponent c) (h : fieldOf (kept f fresh c) "status" = "conflict") :
    fieldOf c "status" = "conflict" ∨ f.Conflicted := by
  rcases kept_cases f fresh c with ⟨-, hkept⟩ | ⟨-, ⟨current, hmem, -, hkept⟩ | hkept⟩
  · rw [hkept] at h
    rcases f.preserve_status (boundOf c) hc.isObject with ⟨hs, -⟩ | ⟨-, hconf⟩ | ⟨hs, -⟩
    · rw [fieldOf, hs, ← fieldOf] at h
      exact .inl h
    · exact .inr hconf
    · rw [fieldOf_eq hs] at h
      simp at h
  · rw [hkept] at h
    exact absurd (by simp [Blocked, h, isBlocked]) (hfree current hmem)
  · rw [hkept, fieldOf_eq (find?_mark_status (f.isObject_preserve _ hc.isObject) _ _)] at h
    simp at h

omit [Platform] in
/-- The status settles once what it takes from the view before says whether that is a conflict. -/
theorem status_settles {f : Findings} {prior prior' : Bool} {issues : List Json} {s : Bytes}
    (h : prior' = true ↔ reconciledStatus f prior issues s = "conflict") :
    reconciledStatus f prior' issues (reconciledStatus f prior issues s) =
      reconciledStatus f prior issues s := by
  by_cases hconf : reconciledStatus f prior issues s = "conflict"
  · rw [reconciledStatus_conflict (.inr (h.mpr hconf)), hconf]
  · have hprior' : prior' = false := by simpa using mt h.mp hconf
    have hclear : ¬ (f.Conflicted ∨ prior = true) := mt reconciledStatus_conflict hconf
    have hcond : ¬ (!f.conflictedTags.isEmpty || !f.conflictedAlarms.isEmpty ||
        !f.changedRelationships.isEmpty || prior) = true := by
      simpa [Findings.Conflicted, or_assoc] using hclear
    rw [hprior']
    generalize hs : reconciledStatus f prior issues s = s'
    simp only [Bool.or_eq_true, not_or] at hcond
    simp only [reconciledStatus, hcond.1, hcond.2, Bool.or_false, Bool.false_eq_true, if_false]
      at hs ⊢
    by_cases hnr : (!f.removedTags.isEmpty || !f.removedAlarms.isEmpty ||
        !f.removedRelationships.isEmpty || !issues.isEmpty) = true
    · rw [hnr, Bool.true_or, if_pos rfl] at hs ⊢
      exact hs
    · simp only [hnr, Bool.false_or] at hs ⊢
      split_ifs at hs <;> subst hs <;> simp

omit [Platform] in
theorem again_prior {f : Findings} {fresh : List Json} (hfree : ∀ c ∈ fresh, ¬ Blocked c)
    (hp : ∀ c ∈ p.components, IsComponent c) :
    (p.again f fresh).prior = true ↔ (p.again f fresh).status = "conflict" := by
  refine ⟨fun h => ?_, fun h => by simp [SavedParts.prior, h]⟩
  simp only [SavedParts.prior, Bool.or_eq_true, beq_iff_eq, List.any_eq_true] at h
  rcases h with (h | ⟨change, hchange, h⟩) | ⟨c', hc', h⟩
  · exact h
  · refine reconciledStatus_conflict (.inr ?_)
    simp only [SavedParts.prior, Bool.or_eq_true, List.any_eq_true]
    exact .inl (.inr ⟨change, hchange, h⟩)
  · obtain ⟨c, hc, rfl⟩ := List.mem_map.mp hc'
    refine reconciledStatus_conflict ((kept_conflict hfree (hp c hc) h).symm.imp_right fun h => ?_)
    simp only [SavedParts.prior, Bool.or_eq_true, List.any_eq_true, beq_iff_eq]
    exact .inr ⟨c, hc, h⟩

include wf htext hs hq in
/-- **After two reconciliations a third changes nothing.** -/
theorem next_next_next (hobj : p.task.isObject = true) :
    ((p.next index fresh).next index fresh).next index fresh =
      (p.next index fresh).next index fresh := by
  have hs' : Saved (reconciledFrom fresh (p.next index fresh)) (p.next index fresh) :=
    hs.next hq.saved
  have hobj' : (p.next index fresh).task.isObject = true :=
    Json.isObject_setFields hobj _
  have halike := next_alike hs hq
  have hclean := findings_clean wf htext hs
  have hagain : ∀ p' : SavedParts, p'.again ((p.next index fresh).findings index) q.components =
      p'.again (p.findings index) q.components := by
    intro p'
    simp only [SavedParts.again, halike.kept_eq, halike.reconciledStatus_eq]
  have hkept : ∀ c ∈ (p.next index fresh).components,
      kept (p.findings index) q.components (kept (p.findings index) q.components c) =
        kept (p.findings index) q.components c := by
    intro c hc
    rcases (next_mem hq).1 c hc with ⟨b, hb, rfl⟩ | hfresh
    · exact kept_kept_kept hclean hq.ids hq.free (hs.component b hb) hq.saved.component
    · exact kept_kept_of_fresh hclean hq.ids hq.free (hq.saved.component c hfresh) hfresh
  rw [next_next hs' hq hobj', hagain, next_next hs hq hobj]
  have hstatus := status_settles (again_prior (p := p.next index fresh)
    (f := p.findings index) hq.free hs'.component)
  have hcomponents : ((p.next index fresh).components.map (kept (p.findings index) q.components)).map
      (kept (p.findings index) q.components) =
        (p.next index fresh).components.map (kept (p.findings index) q.components) := by
    rw [List.map_map]
    exact List.map_congr_left hkept
  show SavedParts.mk _ _ _ _ _ _ = SavedParts.mk _ _ _ _ _ _
  rw [SavedParts.mk.injEq]
  exact ⟨rfl, hcomponents, rfl, rfl, rfl, hstatus⟩

include hs hq in
/-- **A view that stays `==` when it is reconciled again stays the same.** -/
theorem next_eq_of_eqv (hobj : p.task.isObject = true) {view₁ view₂ : Json}
    (h₁ : Saved view₁ (p.next index fresh))
    (h₂ : Saved view₂ ((p.next index fresh).next index fresh)) (h : view₂.eqv view₁ = true) :
    (p.next index fresh).next index fresh = p.next index fresh := by
  obtain ⟨w, hw, hcomponents⟩ := Json.find?_of_eqv h h₂.components
  obtain rfl := Option.some.inj (h₁.components.symm.trans hw)
  obtain ⟨w', hw', hstatus⟩ := Json.find?_of_eqv h h₂.status
  obtain rfl := Option.some.inj (h₁.status.symm.trans hw')
  have hcomponents' := Json.arr.inj (Json.Plain.eq_of_eqv (.arr h₂.plain) hcomponents)
  have hstatus' := Json.str.inj (Json.Plain.eq_of_eqv (.str _) hstatus)
  rw [next_next hs hq hobj] at hcomponents' hstatus' ⊢
  show SavedParts.mk _ _ _ _ _ _ = SavedParts.mk _ _ _ _ _ _
  rw [SavedParts.mk.injEq]
  exact ⟨rfl, hcomponents', rfl, rfl, rfl, hstatus'⟩

end
end ContextHmi
