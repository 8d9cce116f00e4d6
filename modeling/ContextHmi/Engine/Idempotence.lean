import ContextHmi.Engine.Chain
import ContextHmi.Engine.Verdicts

/-!
# Reconciling twice

A view reconciled with a model, then with the same model again. The second time finds what the first
found, and every component of the old view is kept as it was kept. A component that only the first
reconciliation added is compared for the first time: it changes where it is on a tag that a
dependency of the old view is in conflict over.

* `reconcile_again_iff` : the second reconciliation changes nothing unless the model adds such a
  component.
-/

namespace ContextHmi

open Outcome

section
variable [Platform]

/-- The task selects the subject among those the model declares. -/
def Selects (index : ModelIndex) (task : Json) (s : Subject) : Prop :=
  ∃ kind anchor roles, task.find? "kind" = some (.str kind) ∧ taskAnchor task = .ok anchor ∧
    requestedRoles task = .ok roles ∧ s.Selected index kind anchor roles

/-- The model adds a subject to the view, on a tag that a dependency of the view records with
another binding than the model gives it. -/
def AddsConflicted (model view : Json) : Prop :=
  ∃ index task components dependencies s, indexModel model = .ok index ∧
    view.find? "task" = some task ∧ view.find? "components" = some (.arr components) ∧
    view.find? "dependencies" = some (.arr dependencies) ∧ Selects index task s ∧
    s.id ∉ components.map (fieldOf · "id") ∧ ∃ d ∈ dependencies, RecordsConflict index d s.tag

theorem Composed.Of.selects_iff {index : ModelIndex} (wf : index.WellFormed) {task task' : Json}
    {c : Composed} (hc : c.Of index task) (hscope : taskScope task = taskScope task') {s : Subject} :
    s ∈ c.subjects ↔ Selects index task' s := by
  have hfind := hscope
  simp only [taskScope, Prod.mk.injEq] at hfind
  obtain ⟨hkind, hanchor, hroles⟩ := hfind
  have hk : task'.find? "kind" = some (.str c.kind) := hkind ▸ (checkTask_eq_ok hc.kind).2
  have ha : taskAnchor task' = .ok c.anchor := by
    have ha := hc.anchor
    rwa [taskAnchor, effectiveTask_find? hc.isObject (by simp), hanchor] at ha
  have hr : requestedRoles task' = .ok c.roles := by
    have hr := hc.roles
    rwa [requestedRoles, effectiveTask_find? hc.isObject (by simp), hroles] at hr
  rw [mem_selection wf hc.subjects]
  constructor
  · intro h
    exact ⟨_, _, _, hk, ha, hr, h⟩
  · rintro ⟨kind, anchor, roles, hkind', hanchor', hroles', h⟩
    obtain rfl : kind = c.kind := by simpa [hk, eq_comm] using hkind'
    obtain rfl := Except.ok.inj (ha.symm.trans hanchor')
    obtain rfl := Except.ok.inj (hr.symm.trans hroles')
    exact h

/-! ### Changes that record a conflict -/

/-- A change that records a conflict comes with an entry in a set of conflicts. -/
def Findings.Accounted (f : Findings) : Prop :=
  ∀ change ∈ f.changes, SavedParts.isConflict change = true →
    f.conflictedTags ≠ [] ∨ f.conflictedAlarms ≠ []

omit [Platform] in
theorem isConflict_of_kind {change : Json} {kind : Bytes}
    (h : change.find? "kind" = some (.str kind)) :
    SavedParts.isConflict change = (kind == "conflict" || kind == "relationship-conflict" ||
      kind == "alarm-conflict") := by
  simp [SavedParts.isConflict, isConflictChange, Json.valueString_of_find? h, pure, Except.pure,
    Except.toOption]

theorem tagFinding_accounted (index : ModelIndex) (entry : Bytes × Json) :
    (tagFinding index entry).Accounted := by
  unfold tagFinding
  cases hcheck : checkTagDependency index .empty entry with
  | error e => simp [Findings.Accounted, Except.toOption, Findings.empty]
  | ok f =>
    simp only [toOption_ok, Option.getD_some]
    unfold checkTagDependency at hcheck
    simp only at hcheck
    split at hcheck
    · rw [pure_eq_ok] at hcheck
      subst hcheck
      simp [Findings.Accounted, Findings.addChange, Findings.addIssue, Findings.empty, addOnce,
        isConflict_of_kind]
    · split at hcheck
      · simp only [bind_eq_ok, pure_eq_ok] at hcheck
        obtain ⟨_, -, _, -, rfl⟩ := hcheck
        exact fun _ _ _ => .inl (List.cons_ne_nil _ _)
      · rw [pure_eq_ok] at hcheck
        subst hcheck
        simp [Findings.Accounted, Findings.empty]

omit [Platform] in
theorem alarmFinding_accounted (index : ModelIndex) (entry : Bytes × Json) :
    (alarmFinding index entry).Accounted := by
  unfold alarmFinding
  cases hcheck : checkAlarmDependency index .empty entry with
  | error e => simp [Findings.Accounted, Except.toOption, Findings.empty]
  | ok f =>
    simp only [toOption_ok, Option.getD_some]
    unfold checkAlarmDependency at hcheck
    simp only at hcheck
    split at hcheck
    · rw [pure_eq_ok] at hcheck
      subst hcheck
      have hnone : (removedAlarmTag index .empty entry.2).changes = [] := by
        unfold removedAlarmTag
        split
        · split_ifs <;> rfl
        · rfl
      simp [Findings.Accounted, Findings.addChange, Findings.addIssue, hnone, addOnce,
        isConflict_of_kind]
    · simp only [bind_eq_ok] at hcheck
      obtain ⟨differs, -, h⟩ := hcheck
      rename_i alarm _
      have htag : (checkAlarmTag index .empty entry.2 alarm).Accounted := by
        unfold checkAlarmTag
        split
        · simp [Findings.Accounted, Findings.addIssue, Findings.empty]
        · split
          · exact fun _ _ _ => .inl (List.cons_ne_nil _ _)
          · simp [Findings.Accounted, Findings.empty]
      cases differs with
      | false =>
        simp only [Bool.false_eq_true, if_false, pure_eq_ok] at h
        exact h ▸ htag
      | true =>
        simp only [if_true, pure_eq_ok] at h
        subst h
        exact fun _ _ _ => .inr (List.cons_ne_nil _ _)

theorem findings_accounted {index : ModelIndex} {p : SavedParts} (hrec : Recorded p.dependencies)
    {change : Json} (hchange : change ∈ (p.findings index).changes)
    (hconf : SavedParts.isConflict change = true) :
    (p.findings index).Conflicted ∨ change ∈ p.changes := by
  rcases mem_changes_foldl hchange with hold | ⟨g, hg, hnew⟩
  · exact .inr hold
  · left
    have haccounted : g.Accounted := by
      rcases List.mem_append.mp hg with h | h
      · obtain ⟨entry, -, rfl⟩ := List.mem_map.mp h
        exact tagFinding_accounted index entry
      · obtain ⟨entry, -, rfl⟩ := List.mem_map.mp h
        exact alarmFinding_accounted index entry
    obtain ⟨d, hd, rfl⟩ := (mem_findingsOf hrec).mp hg
    have hle : (findingOf index d).Le (p.findings index) := findingOf_le hrec hd
    have hgrow : ∀ l l' : List Bytes, l ⊆ l' → l ≠ [] → l' ≠ [] := by
      intro l l' hsub hne hnil
      exact hne (List.subset_nil.mp (hnil ▸ hsub))
    rcases haccounted change hnew hconf with h | h
    · exact .inl (hgrow _ _ hle.conflictedTags h)
    · exact .inr (.inl (hgrow _ _ hle.conflictedAlarms h))

/-! ### The second reconciliation -/

section
variable {index index' : ModelIndex} (wf : index.WellFormed) (wf' : index'.WellFormed)
  {task₀ view : Json} {subjects : List Subject} {p : SavedParts} (hs : Saved view p)
  (hsound : Sound index task₀ subjects p.components p.dependencies view)
  {kind anchor : Bytes} {roles : List Bytes}
  (hsel : ∀ s ∈ subjects, s.Selected index kind anchor roles) {task : Json} {c : Composed}
  (hc : c.Of index' task)
  (hsel' : ∀ s, s ∈ c.subjects ↔ s.Selected index' kind anchor roles)
  (hcompared : compareView index' p.changes p.issues p.components p.dependencies =
    .ok (p.findings index'))

include hs hcompared in
theorem findings_clean_of_compared : (p.findings index').Clean :=
  compareView_clean hs.comparable.toRecorded.alarmSlot_ne
    (fun c hc => (hs.component c hc).relationshipId) hcompared

include wf wf' hs hsound hsel hc hsel' hcompared in
theorem kept_again {b : Json} (hb : b ∈ p.components) :
    kept (p.findings index') c.components (kept (p.findings index') c.components b) =
      kept (p.findings index') c.components b := by
  have hclean := findings_clean_of_compared hs hcompared
  have hcomponent := hs.component b hb
  by_cases hblocked : Blocked b ∨ (p.findings index').blocks (boundOf b) = true
  · exact kept_kept_of_blocked hclean hcomponent hblocked
  · obtain ⟨hfree, hspare⟩ := not_or.mp hblocked
    rw [Bool.not_eq_true] at hspare
    obtain ⟨s, hsub, hcomp, s', hsub', hsame, hcomp', hmem, -⟩ :=
      hsound.renewed wf wf' hsel hc hsel' hcompared hb hfree hspare
    have hbound : boundOf (kept (p.findings index') c.components b) = boundOf b := by
      rw [(Subject.component_shows hcomp').boundOf_eq (((hsel' s').mp hsub').proper wf'),
        (Subject.component_shows hcomp).boundOf_eq ((hsel s hsub).proper wf), hsame.tagId,
        hsame.alarmId]
    refine kept_of_fresh (hc.sound wf').nodup (fun j hj => ?_) hmem (hbound ▸ hspare)
    obtain ⟨t, -, ht⟩ := hc.mem_components.mp hj
    exact (Subject.component_shows ht).not_blocked

include wf' hs hsound hsel' hcompared in
theorem blocks_added_iff {s : Subject} (hmem : s ∈ c.subjects) {j : Json}
    (hj : s.component index' = .ok j) (hnew : s.id ∉ p.components.map (fieldOf · "id")) :
    (p.findings index').blocks (boundOf j) = true ↔
      ∃ d ∈ p.dependencies, RecordsConflict index' d s.tag := by
  have hrec := hs.comparable.toRecorded
  have htags := TagsCompare.of_compareView hrec hcompared
  have hclean := findings_clean_of_compared hs hcompared
  have hselected := (hsel' s).mp hmem
  have hdeclared : index'.tag? s.tag.id = some s.tag := wf'.tag?_eq_some.mpr ⟨hselected.tag, rfl⟩
  -- a dependency on the subject's alarm would have a component in the view
  have hslot : ∀ d ∈ p.dependencies, alarmSlot d = some s.alarmId → s.alarmId = [] := by
    intro d hd hslot
    by_contra hne
    obtain ⟨t, -, htd, hid⟩ := hsound.recorded d hd
    obtain ⟨a, ha⟩ : ∃ a, s.alarm = some a := by
      obtain ⟨tag, alarm⟩ := s
      cases alarm with
      | none => exact absurd rfl hne
      | some a => exact ⟨a, rfl⟩
    rw [alarmSlot_eq htd] at hslot
    obtain ⟨b, hb, hslot⟩ := Option.map_eq_some_iff.mp hslot
    refine hnew ?_
    have hsame : s.id = t.id := by simpa [Subject.id, Subject.alarmId, ha, hb, eq_comm] using hslot
    rwa [hsame]
  have hremoved : s.tag.id ∉ (p.findings index').removedTags := by
    intro h
    rw [mem_removedTags wf' hrec htags h] at hdeclared
    cases hdeclared
  have hremovedAlarm : s.alarmId ∉ (p.findings index').removedAlarms := by
    intro h
    obtain ⟨-, d, hd, hd'⟩ := (mem_removedAlarms wf' hrec htags).mp h
    exact hclean.removedAlarms (hslot d hd hd' ▸ h)
  have hconflictedAlarm : s.alarmId ∉ (p.findings index').conflictedAlarms := by
    intro h
    obtain ⟨d, hd, hd', -⟩ := (mem_conflictedAlarms wf' hrec htags).mp h
    exact hclean.conflictedAlarms (hslot d hd hd' ▸ h)
  rw [(Subject.component_shows hj).boundOf_eq (hselected.proper wf')]
  simp only [Findings.blocks, hclean.removedRelationships, hclean.changedRelationships,
    List.contains_eq_mem, hremoved, hremovedAlarm, hconflictedAlarm, decide_false, List.not_mem_nil,
    Bool.or_false, decide_eq_true_eq, mem_conflictedTags wf' hrec htags, hdeclared,
    Option.some.injEq, exists_eq_left']

include hs in
theorem next_prior {fresh : Json} {q : SavedParts} (hq : FreshFor index' fresh q) :
    (p.next index' fresh).prior = true ↔ (p.next index' fresh).status = "conflict" := by
  refine ⟨fun h => ?_, fun h => by simp [SavedParts.prior, h]⟩
  have hprior : (p.findings index').Conflicted ∨ p.prior = true →
      (p.next index' fresh).status = "conflict" := reconciledStatus_conflict
  simp only [SavedParts.prior, Bool.or_eq_true, beq_iff_eq, List.any_eq_true] at h
  rcases h with (h | ⟨change, hchange, h⟩) | ⟨j, hj, h⟩
  · exact h
  · refine hprior ((findings_accounted hs.comparable.toRecorded hchange h).imp_right fun hold => ?_)
    simp only [SavedParts.prior, Bool.or_eq_true, List.any_eq_true]
    exact .inl (.inr ⟨change, hold, h⟩)
  · rcases (next_mem hq).1 j hj with ⟨b, hb, rfl⟩ | hfresh
    · refine hprior ((kept_conflict hq.free (hs.component b hb) h).symm.imp_right fun h => ?_)
      simp only [SavedParts.prior, Bool.or_eq_true, List.any_eq_true, beq_iff_eq]
      exact .inr ⟨b, hb, h⟩
    · exact absurd (by simp [Blocked, h, isBlocked]) (hq.free j hfresh)

include wf wf' hs hsound hsel hsel' hcompared in
/-- **When the second reconciliation changes nothing.** -/
theorem next_next_eq_iff (hobj : p.task.isObject = true) (hc : c.Of index' task) :
    (p.next index' (c.view index' task)).next index' (c.view index' task) =
        p.next index' (c.view index' task) ↔
      ¬ ∃ s ∈ c.subjects, s.id ∉ p.components.map (fieldOf · "id") ∧
        ∃ d ∈ p.dependencies, RecordsConflict index' d s.tag := by
  obtain ⟨q, hq⟩ := resolveTaskImpl_fresh wf' (resolveTaskImpl_eq_ok.mpr ⟨c, hc, rfl⟩)
  have hq_eq : q.components = c.components :=
    Json.arr.inj (Option.some.inj (hq.saved.components.symm.trans (hc.sound wf').hasComponents))
  have hcomponents : (p.next index' (c.view index' task)).components =
      keptComponents (p.findings index') c.components p.components := by
    simp only [SavedParts.next, itemsOf_eq hq.saved.components, hq_eq]
  rw [next_next hs hq hobj, hq_eq]
  constructor
  · rintro heq ⟨s, hmem, hnew, hconf⟩
    obtain ⟨j, hj, hcomp, -⟩ := hc.bound_of_mem hmem
    have hid : fieldOf j "id" = s.id := fieldOf_eq (Subject.component_shows hcomp).id
    have hadded : j ∈ (p.next index' (c.view index' task)).components := by
      rw [hcomponents]
      exact List.mem_append_right _ (List.mem_filter.mpr ⟨hj, by simpa [hid] using hnew⟩)
    have hkept : (p.next index' (c.view index' task)).components.map
        (kept (p.findings index') c.components) = (p.next index' (c.view index' task)).components :=
      congrArg SavedParts.components heq
    have hblocks := (blocks_added_iff wf' hs hsound hsel' hcompared hmem hcomp hnew).mpr hconf
    have hfixed : kept (p.findings index') c.components j = j :=
      List.map_inj_left.mp (hkept.trans (List.map_id _).symm) j hadded
    rw [kept_of_blocked (.inr hblocks)] at hfixed
    have hblocked := (hq.saved.component j (hq_eq ▸ hj)).preserve_blocked
      (findings_clean_of_compared hs hcompared) (.inr hblocks)
    rw [hfixed] at hblocked
    exact (Subject.component_shows hcomp).not_blocked hblocked
  · intro hnone
    have hkept : (p.next index' (c.view index' task)).components.map
        (kept (p.findings index') c.components) =
          (p.next index' (c.view index' task)).components := by
      rw [hcomponents]
      refine (List.map_congr_left fun j hj => ?_).trans (List.map_id _)
      rcases List.mem_append.mp hj with hold | hadded
      · obtain ⟨b, hb, rfl⟩ := List.mem_map.mp hold
        exact kept_again wf wf' hs hsound hsel hc hsel' hcompared hb
      · obtain ⟨hfresh, hnew⟩ := List.mem_filter.mp hadded
        obtain ⟨s, hmem, hcomp⟩ := hc.mem_components.mp hfresh
        have hid : fieldOf j "id" = s.id := fieldOf_eq (Subject.component_shows hcomp).id
        rw [decide_eq_true_eq, hid] at hnew
        have hspare : ¬ (p.findings index').blocks (boundOf j) = true := fun h =>
          hnone ⟨s, hmem, hnew,
            (blocks_added_iff wf' hs hsound hsel' hcompared hmem hcomp hnew).mp h⟩
        rw [Bool.not_eq_true] at hspare
        exact kept_of_fresh (hq_eq ▸ hq.ids) (hq_eq ▸ hq.free) hfresh hspare
    have hstatus := status_settles (next_prior hs hq)
    show SavedParts.mk _ _ _ _ _ _ = SavedParts.mk _ _ _ _ _ _
    rw [SavedParts.mk.injEq]
    exact ⟨rfl, hkept, rfl, rfl, rfl, hstatus⟩

end

namespace Chain

variable {n : ℕ} {models views : ℕ → Json} {task : Json}

theorem saved (chain : Chain n models task views) : ∀ i ≤ n, ∃ p, Saved (views i) p := by
  intro i
  induction i with
  | zero =>
    intro _
    obtain ⟨index, hindex, himpl⟩ := bind_eq_ok.mp chain.first
    exact resolveTaskImpl_saved (indexModel_wellFormed hindex) himpl
  | succ i ih =>
    intro hi
    obtain ⟨p, hs⟩ := ih (by omega)
    obtain ⟨index, hindex, himpl⟩ := bind_eq_ok.mp (chain.next i (by omega))
    have wf := indexModel_wellFormed hindex
    obtain ⟨-, fresh, hfresh, -, hview⟩ := hs.of_reconcileViewImpl wf himpl
    obtain ⟨q, hq⟩ := resolveTaskImpl_saved wf hfresh
    exact ⟨_, hview ▸ hs.next hq⟩

/-- **Reconciling a view again with the same model changes it only where the model adds a subject
on a tag the view is in conflict over.** The second view is `==` to the first only where it is the
same. -/
theorem reconcile_again_iff (chain : Chain (n + 1) models task views) {again : Json}
    (h : reconcileView (models (n + 1)) (views (n + 1)) = .ok again) :
    (again = views (n + 1) ↔ ¬ AddsConflicted (models (n + 1)) (views n)) ∧
      (again.eqv (views (n + 1)) = true → again = views (n + 1)) := by
  obtain ⟨kind, anchor, roles, hscope, st, hst⟩ := chain.snapshots
  have hold := hst n (by omega)
  obtain ⟨p, hs⟩ := chain.saved n (by omega)
  have hcomponents : (st n).components = p.components :=
    Json.arr.inj (Option.some.inj (hold.sound.hasComponents.symm.trans hs.components))
  have hdependencies : (st n).dependencies = p.dependencies :=
    Json.arr.inj (Option.some.inj (hold.sound.hasDependencies.symm.trans hs.dependencies))
  have hsound : Sound (st n).index task (st n).subjects p.components p.dependencies (views n) :=
    hcomponents ▸ hdependencies ▸ hold.sound
  obtain ⟨index', hindex', himpl⟩ := bind_eq_ok.mp (chain.next n (by omega))
  obtain ⟨index₂, hindex₂, himpl₂⟩ := bind_eq_ok.mp h
  obtain rfl := Except.ok.inj (hindex'.symm.trans hindex₂)
  have wf' := indexModel_wellFormed hindex'
  obtain ⟨hcompared, hfits, fresh, hfresh, -, hview⟩ := hs.of_reconcileViewImpl_compared wf' himpl
  obtain ⟨c, hc, rfl⟩ := resolveTaskImpl_eq_ok.mp hfresh
  obtain ⟨q, hq⟩ := resolveTaskImpl_fresh wf' hfresh
  -- the second reconciliation composes the same view
  have hs' : Saved (views (n + 1)) (p.next index' (c.view index' (p.newTask index'))) :=
    hview ▸ hs.next hq.saved
  obtain ⟨-, fresh', hfresh', -, hagain⟩ := hs'.of_reconcileViewImpl wf' himpl₂
  rw [newTask_newTask hfits.task rfl] at hfresh'
  obtain rfl := Except.ok.inj (hfresh.symm.trans hfresh')
  have hs'' : Saved again
      ((p.next index' (c.view index' (p.newTask index'))).next index'
        (c.view index' (p.newTask index'))) := hagain ▸ hs'.next hq.saved
  have hsame : again = views (n + 1) ↔
      (p.next index' (c.view index' (p.newTask index'))).next index'
          (c.view index' (p.newTask index')) =
        p.next index' (c.view index' (p.newTask index')) := by
    constructor
    · rintro rfl
      exact hs''.unique hs'
    · intro he
      rw [hagain, hview, he]
  have htaskScope : taskScope (p.newTask index') = taskScope p.task :=
    taskScope_setFields hfits.task _ _
  have hselects : ∀ s, s ∈ c.subjects ↔ Selects index' p.task s := fun s =>
    hc.selects_iff wf' htaskScope
  have hsel' : ∀ s, s ∈ c.subjects ↔ s.Selected index' kind anchor roles := by
    obtain ⟨task', htask', hscope'⟩ := hsound.task
    obtain rfl := Option.some.inj (htask'.symm.trans hs.task)
    obtain ⟨hk, ha, hr⟩ := hscope.fixed hc (htaskScope.trans hscope')
    intro s
    rw [mem_selection wf' hc.subjects, hk, ha, hr]
  refine ⟨?_, fun heqv => hsame.mpr (next_eq_of_eqv hs hq hfits.task hs' hs'' heqv)⟩
  rw [hsame, next_next_eq_iff hold.wf wf' hs hsound
    (fun s => (mem_selection hold.wf hold.subjects).mp) hsel' hcompared hfits.task hc, not_iff_not]
  constructor
  · rintro ⟨s, hmem, hnew, hconf⟩
    exact ⟨index', p.task, p.components, p.dependencies, s, hindex', hs.task, hs.components,
      hs.dependencies, (hselects s).mp hmem, hnew, hconf⟩
  · rintro ⟨index₃, task₃, components, dependencies, s, hindex₃, htask₃, hcomponents₃,
      hdependencies₃, hselected, hnew, hconf⟩
    obtain rfl := Except.ok.inj (hindex'.symm.trans hindex₃)
    obtain rfl := Option.some.inj (hs.task.symm.trans htask₃)
    obtain rfl := Json.arr.inj (Option.some.inj (hs.components.symm.trans hcomponents₃))
    obtain rfl := Json.arr.inj (Option.some.inj (hs.dependencies.symm.trans hdependencies₃))
    exact ⟨s, (hselects s).mpr hselected, hnew, hconf⟩

end Chain

end

/-! ### Two chains -/

section samples

local instance idempotencePlatform : Platform := samplePlatform

/-- The last view of a chain reconciled once more, computed. -/
def viewAgain (models : ℕ → Json) (task : Json) (n : ℕ) : Json :=
  (reconcileView (models n) (viewsOf models task n)).toOption.getD .null

/-- A revision that changes nothing settles at once. -/
theorem Chain.reconcile_again_steady :
    reconcileView (steadyModels 1) (viewsOf steadyModels alarmsTask 1) =
      .ok (viewsOf steadyModels alarmsTask 1) := by
  have hagain : reconcileView (steadyModels 1) (viewsOf steadyModels alarmsTask 1) =
      .ok (viewAgain steadyModels alarmsTask 1) := eq_ok_of_isSome (by decide +kernel) .null
  rw [hagain, (Chain.reconcile_again_iff steady_chain hagain).2 (by decide +kernel)]

/-- A revision with another unit for the level and another alarm on it. -/
def addingModels : ℕ → Json
  | 0 => samplePlant 0 [sampleTag "level" "m"] [sampleAlarm "high" "level"]
  | _ => samplePlant 1 [sampleTag "level" "cm"]
      [sampleAlarm "high" "level", sampleAlarm "low" "level"]

/-- The alarm the revision adds is not marked the first time, and is the second time. -/
theorem Chain.reconcile_again_changes :
    Chain 1 addingModels alarmsTask (viewsOf addingModels alarmsTask) ∧ ∃ again,
      reconcileView (addingModels 1) (viewsOf addingModels alarmsTask 1) = .ok again ∧
      again.eqv (viewsOf addingModels alarmsTask 1) = false ∧
      again ≠ viewsOf addingModels alarmsTask 1 := by
  refine ⟨⟨viewsOf_zero (by decide +kernel), fun i hi => ?_, fun i hi => ?_⟩,
    viewAgain addingModels alarmsTask 1, eq_ok_of_isSome (by decide +kernel) .null,
    by decide +kernel, fun h => ?_⟩
  · obtain rfl : i = 0 := by omega
    exact viewsOf_succ 0 (by decide +kernel)
  · interval_cases i <;> rfl
  · have hfree : anyComponent (viewsOf addingModels alarmsTask 1)
        (fun c => !isBlocked (fieldOf c "status")) = true := by decide +kernel
    have hmarked : anyComponent (viewAgain addingModels alarmsTask 1)
        (fun c => !isBlocked (fieldOf c "status")) = false := by decide +kernel
    rw [h, hfree] at hmarked
    cases hmarked

end samples

end ContextHmi
