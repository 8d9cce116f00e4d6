import ContextHmi.Engine.Chain
import ContextHmi.Engine.Verdicts

/-!
# A revision without a change of meaning

Two models that declare the same assets, tags and alarms, up to what neither a binding nor a
definition shows and in any order. A view composed with the one and reconciled with the other is the
view the other composes: the two select subjects with the same ids in the same order, no dependency
records a finding, and every component and dependency is renewed in place.

* `selection_ids` : the same subjects in the same order;
* `reconcile_renews` : reconciling is composing afresh.
-/

namespace ContextHmi

open Outcome

/-- The two models declare the same assets, tags and alarms, with equal bindings and definitions. -/
structure SameMeaning (index index' : ModelIndex) : Prop where
  modelId : index'.modelId = index.modelId
  assets : ∀ id, id ∈ index'.assets.map (·.id) ↔ id ∈ index.assets.map (·.id)
  tags : ∀ tag ∈ index.tags, ∃ tag' ∈ index'.tags, tag'.id = tag.id ∧
    (tagBindingSnapshot tag).eqv (tagBindingSnapshot tag') = true
  noTags : ∀ tag' ∈ index'.tags, ∃ tag ∈ index.tags, tag.id = tag'.id
  alarms : ∀ alarm ∈ index.alarms, ∃ alarm' ∈ index'.alarms, alarm'.id = alarm.id ∧
    (alarmDefinitionSnapshot alarm).eqv (alarmDefinitionSnapshot alarm') = true
  noAlarms : ∀ alarm' ∈ index'.alarms, ∃ alarm ∈ index.alarms, alarm.id = alarm'.id

/-! ### The same subjects -/

namespace Subject

theorem same_tags {tag tag' : Tag} (hid : tag.id = tag'.id)
    (heqv : (tagBindingSnapshot tag).eqv (tagBindingSnapshot tag') = true) :
    Same ⟨tag, none⟩ ⟨tag', none⟩ :=
  ⟨hid, heqv, (fun _ ha => by cases ha), fun _ => rfl⟩

theorem same_alarms {tag tag' : Tag} {a a' : Alarm} (hid : tag.id = tag'.id)
    (heqv : (tagBindingSnapshot tag).eqv (tagBindingSnapshot tag') = true) (hid' : a.id = a'.id)
    (heqv' : (alarmDefinitionSnapshot a).eqv (alarmDefinitionSnapshot a') = true) :
    Same ⟨tag, some a⟩ ⟨tag', some a'⟩ := by
  refine ⟨hid, heqv, fun b hb => ?_, fun hnone => by cases hnone⟩
  obtain rfl := Option.some.inj hb
  exact ⟨a', rfl, hid', heqv'⟩

end Subject

section
variable {index index' : ModelIndex} (wf : index.WellFormed) (wf' : index'.WellFormed)
  (h : SameMeaning index index') {kind anchor : Bytes} {roles : List Bytes}

namespace SameMeaning
include h

include wf' in
theorem tag_of {tag' : Tag} (htag' : tag' ∈ index'.tags) : ∃ tag ∈ index.tags, tag.id = tag'.id ∧
    (tagBindingSnapshot tag).eqv (tagBindingSnapshot tag') = true := by
  obtain ⟨tag, htag, hid⟩ := h.noTags tag' htag'
  obtain ⟨tag₁, htag₁, hid₁, heqv⟩ := h.tags tag htag
  obtain rfl : tag₁ = tag' := List.inj_on_of_nodup_map wf'.tags_nodup htag₁ htag' (hid₁.trans hid)
  exact ⟨tag, htag, hid, heqv⟩

include wf' in
theorem alarm_of {alarm' : Alarm} (halarm' : alarm' ∈ index'.alarms) :
    ∃ alarm ∈ index.alarms, alarm.id = alarm'.id ∧
      (alarmDefinitionSnapshot alarm).eqv (alarmDefinitionSnapshot alarm') = true := by
  obtain ⟨alarm, halarm, hid⟩ := h.noAlarms alarm' halarm'
  obtain ⟨alarm₁, halarm₁, hid₁, heqv⟩ := h.alarms alarm halarm
  obtain rfl : alarm₁ = alarm' :=
    List.inj_on_of_nodup_map wf'.alarms_nodup halarm₁ halarm' (hid₁.trans hid)
  exact ⟨alarm, halarm, hid, heqv⟩

theorem selected {s : Subject} (hs : s.Selected index kind anchor roles) :
    ∃ s' : Subject, s.Same s' ∧ s'.Selected index' kind anchor roles := by
  obtain ⟨tag, alarm⟩ := s
  obtain ⟨tag', htag', hid, heqv⟩ := h.tags tag hs.tag
  cases alarm with
  | none =>
    have hsame := Subject.same_tags hid.symm heqv
    exact ⟨_, hsame, hsame.selected hs htag' fun a ha => by cases ha⟩
  | some a =>
    obtain ⟨ha, hon⟩ := hs.alarm a rfl
    obtain ⟨a', ha', hid', heqv'⟩ := h.alarms a ha
    have hsame := Subject.same_alarms hid.symm heqv hid'.symm heqv'
    refine ⟨_, hsame, hsame.selected hs htag' fun b hb => ?_⟩
    obtain rfl := Option.some.inj hb
    refine ⟨ha', ?_⟩
    exact ((alarmDefinitionSnapshot_eqv.mp heqv').2.2.2.2.1).symm.trans (hon.trans hid.symm)

include wf' in
theorem selected_of {s' : Subject} (hs' : s'.Selected index' kind anchor roles) :
    ∃ s : Subject, s.Same s' ∧ s.Selected index kind anchor roles := by
  obtain ⟨tag', alarm'⟩ := s'
  obtain ⟨tag, htag, hid, heqv⟩ := h.tag_of wf' hs'.tag
  cases alarm' with
  | none =>
    have hsame := Subject.same_tags hid heqv
    exact ⟨_, hsame, hsame.selected_of hs' htag fun a ha => by cases ha⟩
  | some a' =>
    obtain ⟨ha', hon'⟩ := hs'.alarm a' rfl
    obtain ⟨a, ha, hid', heqv'⟩ := h.alarm_of wf' ha'
    have hsame := Subject.same_alarms hid heqv hid' heqv'
    refine ⟨_, hsame, hsame.selected_of hs' htag fun b hb => ?_⟩
    obtain rfl := Option.some.inj hb
    refine ⟨ha, ?_⟩
    exact (alarmDefinitionSnapshot_eqv.mp heqv').2.2.2.2.1.trans (hon'.trans hid.symm)

end SameMeaning

/-! ### The same order -/

include wf wf' h in
theorem overviewTags_ids : (overviewTags index roles anchor).map (·.id) =
    (overviewTags index' roles anchor).map (·.id) := by
  have hassets : (if anchor.isEmpty then index.assets.map (·.id) else [anchor]).Perm
      (if anchor.isEmpty then index'.assets.map (·.id) else [anchor]) := by
    split
    · exact (List.perm_ext_iff_of_nodup wf.assets_nodup wf'.assets_nodup).mpr
        fun id => (h.assets id).symm
    · exact .refl _
  have hsorted : Bytes.sortBy id (if anchor.isEmpty then index.assets.map (·.id) else [anchor]) =
      Bytes.sortBy id (if anchor.isEmpty then index'.assets.map (·.id) else [anchor]) := by
    rw [← List.map_id (Bytes.sortBy _ _), ← List.map_id (Bytes.sortBy _ (ite _ (index'.assets.map _) _))]
    exact Bytes.sortBy_keys (by rw [List.map_id, List.map_id]; exact hassets)
  have hwithin : ∀ asset : Bytes,
      (Bytes.sortBy Tag.id (index.tags.filter fun tag =>
        tag.assetId = asset && wants roles tag.role)).map (·.id) =
      (Bytes.sortBy Tag.id (index'.tags.filter fun tag =>
        tag.assetId = asset && wants roles tag.role)).map (·.id) := by
    intro asset
    refine Bytes.sortBy_keys ((List.perm_ext_iff_of_nodup
      (wf.tags_nodup.sublist (List.filter_sublist.map _))
      (wf'.tags_nodup.sublist (List.filter_sublist.map _))).mpr fun id => ?_)
    simp only [List.mem_map, List.mem_filter, Bool.and_eq_true, decide_eq_true_eq]
    constructor
    · rintro ⟨tag, ⟨htag, howner, hwanted⟩, rfl⟩
      obtain ⟨tag', htag', hid, heqv⟩ := h.tags tag htag
      obtain ⟨howner', hrole', -⟩ := tagBindingSnapshot_eqv.mp heqv
      exact ⟨tag', ⟨htag', howner' ▸ howner, hrole' ▸ hwanted⟩, hid⟩
    · rintro ⟨tag', ⟨htag', howner, hwanted⟩, rfl⟩
      obtain ⟨tag, htag, hid, heqv⟩ := h.tag_of wf' htag'
      obtain ⟨howner', hrole', -⟩ := tagBindingSnapshot_eqv.mp heqv
      exact ⟨tag, ⟨htag, howner'.trans howner, hrole'.symm ▸ hwanted⟩, hid⟩
  simp only [overviewTags, List.map_flatMap, hsorted, hwithin]

theorem alarmRows_sorted {rows : List (Alarm × Tag)}
    (hrows : alarmRows index roles anchor = .ok rows) :
    (rows.map (·.1.id)).Pairwise fun a b => Bytes.ble a b = true := by
  simp only [alarmRows, bind_eq_ok, pure_eq_ok] at hrows
  obtain ⟨pairs, -, rfl⟩ := hrows
  exact List.pairwise_map.mpr (Bytes.pairwise_sortBy _ _)

include wf wf' h in
/-- **Both models select subjects with the same ids, in the same order.** -/
theorem selection_ids {subjects subjects' : List Subject}
    (hs : selection index kind anchor roles = .ok subjects)
    (hs' : selection index' kind anchor roles = .ok subjects') :
    subjects.map (·.id) = subjects'.map (·.id) := by
  have hsame : ∀ id, id ∈ subjects.map (·.id) ↔ id ∈ subjects'.map (·.id) := by
    intro id
    simp only [List.mem_map]
    constructor
    · rintro ⟨s, hmem, rfl⟩
      obtain ⟨s', hsame, hselected⟩ := h.selected ((mem_selection wf hs).mp hmem)
      exact ⟨s', (mem_selection wf' hs').mpr hselected, hsame.id.symm⟩
    · rintro ⟨s', hmem, rfl⟩
      obtain ⟨s, hsame, hselected⟩ := h.selected_of wf' ((mem_selection wf' hs').mp hmem)
      exact ⟨s, (mem_selection wf hs).mpr hselected, hsame.id⟩
  have hperm : (subjects.map (·.id)).Perm (subjects'.map (·.id)) :=
    (List.perm_ext_iff_of_nodup (nodup_selection wf hs) (nodup_selection wf' hs')).mpr hsame
  unfold selection at hs hs'
  by_cases hkind : kind = "overview"
  · rw [if_pos hkind] at hs hs'
    obtain rfl := Except.ok.inj hs
    obtain rfl := Except.ok.inj hs'
    simpa [Function.comp_def, Subject.id] using overviewTags_ids wf wf' h
  · rw [if_neg hkind, map_eq_ok] at hs hs'
    obtain ⟨rows, hrows, rfl⟩ := hs
    obtain ⟨rows', hrows', rfl⟩ := hs'
    simp only [List.map_map, Function.comp_def, Subject.id] at hperm ⊢
    exact hperm.eq_of_pairwise (fun a b _ _ => Bytes.ble_antisymm) (alarmRows_sorted hrows)
      (alarmRows_sorted hrows')

include wf wf' h in
/-- **Both models select subjects of the same meaning, in the same order.** -/
theorem selection_same {subjects subjects' : List Subject}
    (hs : selection index kind anchor roles = .ok subjects)
    (hs' : selection index' kind anchor roles = .ok subjects') :
    List.Forall₂ Subject.Same subjects subjects' := by
  refine Assoc.forall₂_of_keys (·.id) (selection_ids wf wf' h hs hs') (nodup_selection wf' hs')
    fun s hmem => ?_
  obtain ⟨s', hsame, hselected⟩ := h.selected ((mem_selection wf hs).mp hmem)
  exact ⟨s', (mem_selection wf' hs').mpr hselected, hsame.id, hsame⟩

end

/-! ### The task of a revision -/

/-- The task, for another revision of its model. -/
def reviseTask (index : ModelIndex) (task : Json) : Json :=
  task.setFields [("model_id", .str index.modelId), ("model_revision", index.revision)]

section
variable {index index' : ModelIndex} {task : Json} (hobj : task.isObject = true)
include hobj

theorem find?_reviseTask {k : Bytes} (hid : k ≠ "model_id") (hrevision : k ≠ "model_revision") :
    (reviseTask index task).find? k = task.find? k := by
  rw [reviseTask, Json.find?_setFields hobj]
  simp [Ne.symm hid, Ne.symm hrevision]

theorem reviseTask_modelId :
    (reviseTask index task).find? "model_id" = some (.str index.modelId) := by
  simp [reviseTask, Json.find?_setFields hobj]

theorem reviseTask_revision :
    (reviseTask index task).find? "model_revision" = some index.revision := by
  simp [reviseTask, Json.find?_setFields hobj]

theorem isObject_reviseTask : (reviseTask index task).isObject = true :=
  Json.isObject_setFields hobj _

theorem effectiveTask_reviseTask :
    effectiveTask index' (reviseTask index task) = reviseTask index task := by
  have hcontains : (reviseTask index task).contains "model_id" = true := by
    rw [Json.contains, reviseTask_modelId hobj]
    rfl
  rw [effectiveTask, if_pos hcontains]

omit hobj in
theorem reviseTask_effectiveTask :
    reviseTask index' (effectiveTask index task) = reviseTask index' task := by
  unfold effectiveTask
  split
  · rfl
  · simp only [reviseTask, Json.setFields, List.foldl_cons, List.foldl_nil, Json.setField_setField]

end

section
variable {index index' : ModelIndex} {task : Json} (wf' : index'.WellFormed)
  (h : SameMeaning index index')
include wf' h

theorem checkTask_reviseTask {kind : Bytes} (hkind : checkTask index task = .ok kind) :
    checkTask index' (reviseTask index' task) = .ok kind := by
  have hobj := (checkTask_eq_ok hkind).1
  have hstring : ∀ key : Bytes, key ≠ "model_id" → key ≠ "model_revision" → ∀ place max,
      taskString (reviseTask index' task) key place max = taskString task key place max := by
    intro key hid hrevision place max
    rw [taskString, find?_reviseTask hobj hid hrevision, taskString]
  simp only [checkTask, bind_eq_ok, pure_eq_ok, checkTaskFields_eq_ok] at hkind ⊢
  obtain ⟨_, ⟨-, hfields⟩, k, hk, _, hsupported, _, -, _, -, request, hrequest, _, hanchor, rfl⟩ :=
    hkind
  refine ⟨(), ⟨isObject_reviseTask hobj, fun item hitem => ?_⟩, k, ?_, (), hsupported, (), ?_, (), ?_,
    request, ?_, (), ?_, rfl⟩
  · have hkey : item.1 ∈ (reviseTask index' task).keys := List.mem_map_of_mem hitem
    rcases Json.mem_keys_setField (Json.isObject_setField hobj _ _) hkey with hkey | hkey
    · simp [hkey, taskFields]
    rcases Json.mem_keys_setField hobj hkey with hkey | hkey
    · simp [hkey, taskFields]
    · obtain ⟨item', hitem', heq⟩ := List.mem_map.mp hkey
      exact heq ▸ hfields item' hitem'
  · rw [hstring _ (by simp) (by simp), hk]
  · rw [checkTaskRevision_eq_ok, reviseTask_revision hobj]
    exact ⟨_, rfl, wf'.revision.1, eqv_revision wf'⟩
  · rw [checkTaskModelId_eq_ok, reviseTask_modelId hobj]
    intro v hv
    simp [← Option.some.inj hv, Json.eqv]
  · rw [hstring _ (by simp) (by simp), hrequest]
  · unfold checkTaskAnchor at hanchor ⊢
    rw [find?_reviseTask hobj (by simp) (by simp)]
    split at hanchor
    · simp_all
    · rename_i anchor hfind
      simp only [bind_eq_ok, throwIf_eq_ok, exists_const, Option.isNone_iff_eq_none,
        ← Option.isSome_iff_ne_none, ModelIndex.asset?, Assoc.findKey_isSome_iff Asset.id, h.assets]
        at hanchor ⊢
      exact hanchor
    · cases hanchor

omit wf' h in
theorem Subject.Same.isText {s s' : Subject} (hsame : s.Same s') (hs : s.IsText) : s'.IsText := by
  obtain ⟨htag, halarm⟩ := hs
  obtain ⟨howner, hrole, htype, hunit, hsource⟩ := tagBindingSnapshot_eqv.mp hsame.binding
  refine ⟨?_, fun a' ha' => ?_⟩
  · rw [Tag.IsText, howner, hrole, htype, hunit, hsource] at htag
    exact htag
  · obtain ⟨a, ha⟩ := Option.isSome_iff_exists.mp (hsame.isSome.trans (ha' ▸ rfl))
    obtain ⟨b, hb, -, hdefinition⟩ := hsame.alarm a ha
    obtain rfl := Option.some.inj (ha'.symm.trans hb)
    obtain ⟨hname, hoperator, howner, hseverity, htag, -⟩ :=
      alarmDefinitionSnapshot_eqv.mp hdefinition
    have htext := halarm a ha
    rw [Alarm.IsText, hname, hoperator, howner, hseverity, htag] at htext
    exact htext

variable [Platform] (wf : index.WellFormed)
include wf

omit wf' h in
theorem Composed.Of.length_components {c : Composed} (hc : c.Of index task) :
    c.components.length ≤ kMaxTags := by
  rw [components, List.length_map, ← hc.bound.length_eq]
  exact length_selection wf hc.subjects

omit wf' h in
theorem Composed.Of.fits {c : Composed} (hc : c.Of index task)
    (hid : index'.modelId = index.modelId) :
    Fits index' (c.view index task) (c.parts index task) := by
  have hlength := (hc.length_components wf).trans (by decide : kMaxTags ≤ kMaxComponents)
  have hview : (c.view index task).find? "model_id" = some (.str index.modelId) := by
    rw [c.view_find? task (by simp)]
    simp [composeView]
  refine ⟨isObject_effectiveTask hc.isObject, hlength, ?_, ?_, Nat.zero_le _, fun v hv => ?_,
    fun v hv => ?_⟩
  · simpa [Composed.parts, Composed.dependencies, Composed.components] using hlength
  · simp only [Composed.parts]
    split <;> simp
  · obtain rfl := Option.some.inj (hview.symm.trans hv)
    simp [Json.eqv, hid]
  · rw [hid]
    exact effectiveTask_modelId hc.kind hv

/-- **The revised task resolves**, and selects subjects of the same meaning in the same order. -/
theorem Composed.Of.revise {c : Composed} (hc : c.Of index task) :
    ∃ c' : Composed, c'.Of index' (reviseTask index' task) ∧ c'.kind = c.kind ∧
      List.Forall₂ Subject.Same c.subjects c'.subjects := by
  have hobj := hc.isObject
  have hfind : ∀ k : Bytes, k ≠ "model_id" → k ≠ "model_revision" →
      (effectiveTask index' (reviseTask index' task)).find? k = (effectiveTask index task).find? k := by
    intro k hid hrevision
    rw [effectiveTask_reviseTask hobj, find?_reviseTask hobj hid hrevision,
      effectiveTask_find? hobj hid]
  have hkind := checkTask_reviseTask wf' h hc.kind
  have hanchor : taskAnchor (effectiveTask index' (reviseTask index' task)) = .ok c.anchor := by
    rw [taskAnchor, hfind _ (by simp) (by simp), ← hc.anchor, taskAnchor]
  have hroles : requestedRoles (effectiveTask index' (reviseTask index' task)) = .ok c.roles := by
    rw [requestedRoles, hfind _ (by simp) (by simp), ← hc.roles, requestedRoles]
  have hlayout : responsiveLayout (effectiveTask index' (reviseTask index' task)) = .ok c.layout :=
    (responsiveLayout_congr (hfind _ (by simp) (by simp))).trans hc.layout
  have hdeclared : ∀ {index : ModelIndex} {task : Json}, checkTask index task = .ok c.kind →
      taskAnchor (effectiveTask index task) = .ok c.anchor → c.anchor ≠ [] →
      (index.asset? c.anchor).isSome := by
    intro index task hcheck hread
    obtain ⟨anchor, hanchor, hasset⟩ := taskAnchor_of_checkTask hcheck
    obtain rfl := Except.ok.inj (hread.symm.trans hanchor)
    exact hasset
  have htext : ∀ s : Subject, s.Selected index c.kind c.anchor c.roles → s.IsText :=
    (resolveTaskImpl_isOk_iff wf hc.kind hc.anchor (hdeclared hc.kind hc.anchor) hc.roles
      hc.layout).mp ⟨_, resolveTaskImpl_eq_ok.mpr ⟨c, hc, rfl⟩⟩
  obtain ⟨view, hview⟩ := (resolveTaskImpl_isOk_iff wf' hkind hanchor (hdeclared hkind hanchor) hroles
    hlayout).mpr fun s' hs' => by
      obtain ⟨s, hsame, hs⟩ := h.selected_of wf' hs'
      exact hsame.isText (htext s hs)
  obtain ⟨c', hc', -⟩ := resolveTaskImpl_eq_ok.mp hview
  have hkind' : c'.kind = c.kind := Except.ok.inj (hc'.kind.symm.trans hkind)
  have hanchor' : c'.anchor = c.anchor := Except.ok.inj (hc'.anchor.symm.trans hanchor)
  have hroles' : c'.roles = c.roles := Except.ok.inj (hc'.roles.symm.trans hroles)
  have hsubjects := hc'.subjects
  rw [hkind', hanchor', hroles'] at hsubjects
  exact ⟨c', hc', hkind', selection_same wf wf' h hc.subjects hsubjects⟩

end

/-! ### Every part is renewed -/

section
variable [Platform] {index index' : ModelIndex} {task : Json} (wf : index.WellFormed)
  (wf' : index'.WellFormed) {c c' : Composed} (hc : c.Of index task)
  (hc' : c'.Of index' (reviseTask index' task)) (hkind : c'.kind = c.kind)
  (hsame : List.Forall₂ Subject.Same c.subjects c'.subjects)
include wf wf' hc hc' hsame

theorem Composed.Of.revised_quiet {d : Json} (hd : d ∈ c.dependencies) :
    findingOf index' d = .empty ∧
      ∀ tagId, tagSlot d = some tagId → ∃ f, checkTagDependency index' .empty (tagId, d) = .ok f := by
  obtain ⟨s, hs, hdependency⟩ := hc.mem_dependencies.mp hd
  obtain ⟨s', hs', hsame⟩ := forall₂_mem_left hsame hs
  have hselected := (mem_selection wf hc.subjects).mp hs
  have hselected' := (mem_selection wf' hc'.subjects).mp hs'
  have hthreshold : ∀ a, s.alarm = some a → isFiniteNumber a.threshold = true :=
    fun a ha => (wf.alarms a (hselected.alarm a ha).1).threshold
  refine ⟨findingOf_same wf' hdependency hthreshold hsame hselected', fun tagId htag => ?_⟩
  have hsd := Subject.dependency_records hdependency
  rw [tagSlot_eq hsd] at htag
  split_ifs at htag with hnone
  obtain rfl := Option.some.inj htag
  have hdeclared : index'.tag? s.tag.id = some s'.tag :=
    wf'.tag?_eq_some.mpr ⟨hselected'.tag, hsame.tagId.symm⟩
  have hbinding := (dependency_same hdependency hthreshold hsame).1 hnone
  exact ⟨_, by simp [checkTagDependency, hdeclared, hbinding, pure, Except.pure]; rfl⟩

theorem Composed.Of.revised_findings : (c.parts index task).findings index' =
    ⟨[], (c.parts index task).issues, [], [], [], [], [], []⟩ := by
  have hrec : Recorded c.dependencies := (hc.saved wf).comparable.toRecorded
  refine Findings.foldl_add_empty (fun g hg => ?_) _
  obtain ⟨d, hd, rfl⟩ := (mem_findingsOf hrec).mp hg
  exact (hc.revised_quiet wf wf' hc' hsame hd).1

omit wf in
theorem Composed.Of.revised_components (issues : List Json) :
    keptComponents ⟨[], issues, [], [], [], [], [], []⟩ c'.components c.components =
      c'.components := by
  have hids : c.components.map (fieldOf · "id") = c'.components.map (fieldOf · "id") := by
    rw [hc.components_ids, hc'.components_ids]
    exact forall₂_map_eq (fun s s' h => h.id) hsame
  have hnodup := (hc'.sound wf').nodup
  have hkept : c.components.map (kept ⟨[], issues, [], [], [], [], [], []⟩ c'.components) =
      c'.components := by
    refine Assoc.map_eq_of_keys (fieldOf · "id") hids fun j hj j' hj' hid => ?_
    obtain ⟨s, -, hcomponent⟩ := hc.mem_components.mp hj
    have hstatus : isBlocked (fieldOf j "status") = false := by
      simpa [Blocked] using (Subject.component_shows hcomponent).not_blocked
    have hfind : (c'.components.find? fun current => fieldOf current "id" = fieldOf j "id") =
        some j' := (Assoc.findKey_eq_some_iff (fieldOf · "id") hnodup).mpr ⟨hj', hid.symm⟩
    simp [kept, keepComponent, hstatus, hfind, Findings.blocks]
  have hnew : (c'.components.filter fun current =>
      fieldOf current "id" ∉ c.components.map (fieldOf · "id")) = [] := by
    rw [List.filter_eq_nil_iff, hids]
    intro j hj
    simpa using ⟨j, hj, rfl⟩
  rw [keptComponents, hkept, hnew, List.append_nil]

omit wf in
theorem Composed.Of.revised_dependencies (issues : List Json) :
    keptDependencies ⟨[], issues, [], [], [], [], [], []⟩ c'.dependencies c.dependencies =
      c'.dependencies := by
  have hkeys : c.dependencies.map keyOf = c'.dependencies.map keyOf := by
    rw [hc.dependencies_keys, hc'.dependencies_keys]
    exact forall₂_map_eq (fun s s' h => h.key) hsame
  have hnodup := (hc'.sound wf').keys
  have hkept : c.dependencies.map
      (keptDependency ⟨[], issues, [], [], [], [], [], []⟩ c'.dependencies) = c'.dependencies := by
    refine Assoc.map_eq_of_keys keyOf hkeys fun d hd d' hd' hkey => ?_
    have hkeyOf : dependencyKey (fieldOf d "tag_id") (fieldOf d "alarm_id") = keyOf d := rfl
    have hfind : (c'.dependencies.find? fun current => keyOf current = keyOf d) = some d' :=
      (Assoc.findKey_eq_some_iff keyOf hnodup).mpr ⟨hd', hkey.symm⟩
    simp [keptDependency, keepDependency, Findings.blocksDependency, hkeyOf, hfind]
  have hnew : (c'.dependencies.filter fun current => keyOf current ∉ c.dependencies.map keyOf) =
      [] := by
    rw [List.filter_eq_nil_iff, hkeys]
    intro d hd
    simpa using ⟨d, hd, rfl⟩
  rw [keptDependencies, hkept, hnew, List.append_nil]

include hkind in
/-- **The reconciled parts are the composed ones.** -/
theorem Composed.Of.revised_next :
    (c.parts index task).next index' (c'.view index' (reviseTask index' task)) =
      c'.parts index' (reviseTask index' task) := by
  have hsaved := hc'.saved wf'
  have hlength : c.bound.length = c'.bound.length := by
    rw [← hc.bound.length_eq, ← hc'.bound.length_eq, hsame.length_eq]
  have hempty : c.bound.isEmpty = c'.bound.isEmpty := by
    rw [Bool.eq_iff_iff, List.isEmpty_iff_length_eq_zero, List.isEmpty_iff_length_eq_zero, hlength]
  have hprior : (c.parts index task).prior = false := by
    have hfree : ∀ j ∈ c.components, (fieldOf j "status" == bytes "conflict") = false := by
      intro j hj
      obtain ⟨s, -, hcomponent⟩ := hc.mem_components.mp hj
      rw [fieldOf_none (Subject.component_shows hcomponent).status]
      rfl
    simp only [SavedParts.prior, Composed.parts, List.any_nil, Bool.or_false]
    rw [List.any_eq_false.mpr fun j hj => by simpa using hfree j hj]
    split <;> rfl
  have hissues : (c.parts index task).issues =
      (c'.parts index' (reviseTask index' task)).issues := by
    simp only [Composed.parts, hempty, hkind]
  have hadded : (c'.parts index' (reviseTask index' task)).issues.foldl addOnce
      (c'.parts index' (reviseTask index' task)).issues =
      (c'.parts index' (reviseTask index' task)).issues := by
    refine foldl_addOnce_of_held fun item hitem => ?_
    exact List.any_eq_true.mpr ⟨item, hitem, (c'.plain_issues hitem).eqv_self⟩
  simp only [SavedParts.next, hc.revised_findings wf wf' hc' hsame, itemsOf_eq hsaved.components,
    itemsOf_eq hsaved.dependencies, itemsOf_eq hsaved.issues, hprior, hissues, hadded]
  show SavedParts.mk _ _ _ _ _ _ = SavedParts.mk _ _ _ _ _ _
  rw [SavedParts.mk.injEq]
  refine ⟨?_, hc.revised_components wf' hc' hsame _, hc.revised_dependencies wf' hc' hsame _, rfl,
    rfl, ?_⟩
  · show reviseTask index' (effectiveTask index task) = effectiveTask index' (reviseTask index' task)
    rw [reviseTask_effectiveTask, effectiveTask_reviseTask hc.isObject]
  · simp only [Composed.parts, hempty]
    cases c'.bound.isEmpty <;> simp [reconciledStatus]

end

theorem Composed.Of.reconciledFrom_parts [Platform] {index : ModelIndex} (wf : index.WellFormed)
    {task : Json} {c : Composed} (hc : c.Of index task) :
    reconciledFrom (c.view index task) (c.parts index task) =
      (c.view index task).setFields [("changes", .arr []), ("reconciled", .bool true)] := by
  have hs := hc.saved wf
  have hordered : (c.view index task).Ordered := (Json.ordered_object _).setField _ _
  have hchanged := hordered.setField "changes" (.arr [])
  have hkeep : ∀ {k : Bytes} {v : Json}, k ≠ "changes" → (c.view index task).find? k = some v →
      ((c.view index task).setField "changes" (.arr [])).setField k v =
        (c.view index task).setField "changes" (.arr []) := by
    intro k v hk hv
    refine hchanged.setField_eq ?_
    rw [Json.find?_setField hs.isObject, if_neg (Ne.symm hk), hv]
  have hchanges : (c.parts index task).changes = [] := rfl
  simp only [reconciledFrom, Json.setFields, List.foldl_cons, List.foldl_nil, hchanges]
  rw [hordered.setField_eq hs.task, hkeep (by simp) hs.issues, hkeep (by simp) hs.components,
    hkeep (by simp) hs.dependencies, hkeep (by simp) hs.status]

/-- **A change of revision without a change of meaning reconciles to the fresh view.** -/
theorem reconcile_renews [Platform] {model model' task view : Json} {index index' : ModelIndex}
    (hmodel : indexModel model = .ok index) (hmodel' : indexModel model' = .ok index')
    (h : SameMeaning index index') (hview : resolveTask model task = .ok view) :
    ∃ fresh, resolveTask model' (task.setFields
        [("model_id", .str index'.modelId), ("model_revision", index'.revision)]) = .ok fresh ∧
      reconcileView model' view =
        .ok (fresh.setFields [("changes", .arr []), ("reconciled", .bool true)]) := by
  have wf := (indexModel_eq_ok.mp hmodel).2
  have wf' := (indexModel_eq_ok.mp hmodel').2
  simp only [resolveTask, hmodel, ok_bind] at hview
  obtain ⟨c, hc, rfl⟩ := resolveTaskImpl_eq_ok.mp hview
  obtain ⟨c', hc', hkind, hsame⟩ := hc.revise wf' h wf
  have hfresh : resolveTaskImpl index' (reviseTask index' task) =
      .ok (c'.view index' (reviseTask index' task)) := resolveTaskImpl_eq_ok.mpr ⟨c', hc', rfl⟩
  have hnewTask : (c.parts index task).newTask index' = reviseTask index' task :=
    reviseTask_effectiveTask
  have hnext := hc.revised_next wf wf' hc' hkind hsame
  have hlength : ((c.parts index task).next index' (c'.view index'
      (reviseTask index' task))).components.length ≤ kMaxComponents := by
    rw [hnext]
    exact (hc'.length_components wf').trans (by decide)
  have hreconciled := (hc.saved wf).reconcileViewImpl_of_compare wf'
    (fun d hd => (hc.revised_quiet wf wf' hc' hsame hd).2) (hc.fits wf h.modelId)
    (hnewTask.symm ▸ hfresh : resolveTaskImpl index' ((c.parts index task).newTask index') = _)
    hlength
  rw [hnext] at hreconciled
  refine ⟨_, by simp only [resolveTask, hmodel', ok_bind]; exact hfresh, ?_⟩
  simp only [reconcileView, hmodel', ok_bind, hreconciled]
  rw [hc'.reconciledFrom_parts wf']

/-! ### A revision of a plant -/

section samples

local instance renewalPlatform : Platform := samplePlatform

/-- A revision that declares the same tags in another order. -/
def revisedModels : ℕ → Json
  | 0 => samplePlant 0 [sampleTag "level" "m", sampleTag "flow" "l"] [sampleAlarm "high" "level"]
  | _ => samplePlant 1 [sampleTag "flow" "l", sampleTag "level" "m"] [sampleAlarm "high" "level"]

theorem revisedModels_sameMeaning :
    SameMeaning (indexOf (revisedModels 0)) (indexOf (revisedModels 1)) := by
  have hassets : (indexOf (revisedModels 1)).assets.map (·.id) =
      (indexOf (revisedModels 0)).assets.map (·.id) := by decide +kernel
  exact ⟨by decide +kernel, fun id => by rw [hassets], by decide +kernel, by decide +kernel,
    by decide +kernel, by decide +kernel⟩

/-- The alarms of the plant reconcile to the alarms of its revision. -/
theorem reconcile_renews_revised :
    ∃ fresh, resolveTask (revisedModels 1) (alarmsTask.setFields
        [("model_id", .str (indexOf (revisedModels 1)).modelId),
          ("model_revision", (indexOf (revisedModels 1)).revision)]) = .ok fresh ∧
      reconcileView (revisedModels 1) (viewsOf revisedModels alarmsTask 0) =
        .ok (fresh.setFields [("changes", .arr []), ("reconciled", .bool true)]) :=
  reconcile_renews (indexModel_eq (by decide +kernel)) (indexModel_eq (by decide +kernel))
    revisedModels_sameMeaning (viewsOf_zero (by decide +kernel))

end samples

end ContextHmi
