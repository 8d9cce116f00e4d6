import ContextHmi.Engine.Resolution
import ContextHmi.Inference.ScopeSoundness

/-!
# When an accepted task resolves

The schema of an interpretation and the checks of the resolver overlap: what is left to check of a
task the schema accepts is that it belongs to the active model, that its anchor is declared, that its
roles are distinct, and that its request is not empty.

* `ReadyTask.resolve_isOk_iff` : exactly these, and text in what the view shows.
-/

namespace ContextHmi.Inference

open Outcome

/-- The task is one of the active model, and was asked for. -/
structure Current (index : ModelIndex) (task : Json) : Prop where
  revision : ∃ v, task.find? "model_revision" = some v ∧ v.eqv index.revision = true
  modelId : ∀ v, task.find? "model_id" = some v → v.eqv (.str index.modelId) = true
  request : ∃ s, task.find? "original_request" = some (.str s) ∧ s ≠ []

section
variable {index : ModelIndex} {task : Json}

theorem isNonnegativeInteger_of_revision {v : Json} (h : isRevisionNumber v = true) :
    isNonnegativeInteger v = true := by
  cases v with
  | int i =>
    simp only [isRevisionNumber, Bool.and_eq_true, decide_eq_true_eq] at h
    simpa [isNonnegativeInteger] using h.1
  | uint n => rfl
  | _ => simp [isRevisionNumber] at h

theorem checkTaskAnchor_eq_ok {anchor : Option Bytes}
    (hanchor : task.find? "anchor_asset_id" = anchor.map .str) (hne : anchor ≠ some []) {u : Unit} :
    checkTaskAnchor index task = .ok u ↔ ∀ id, anchor = some id → (index.asset? id).isSome := by
  unfold checkTaskAnchor
  rw [hanchor]
  cases anchor with
  | none => simp
  | some id =>
    have hid : id.isEmpty = false := by
      rw [List.isEmpty_eq_false_iff]
      exact fun h => hne (h ▸ rfl)
    simp [bind_eq_ok, hid, Option.isSome_iff_ne_none]

/-- The schema does not let a provider name a client. -/
theorem ReadyTask.client (h : ReadyTask task) : task.find? "client" = none := by
  by_contra hsome
  obtain ⟨v, hv⟩ := Option.ne_none_iff_exists'.mp hsome
  have hmem : (bytes "client", v) ∈ task.fields := by
    cases task with
    | obj fields => exact Assoc.find?_mem hv
    | _ => simp [Json.find?] at hv
  have hin := h.only _ hmem
  simp [readyTaskFields] at hin

theorem ReadyTask.checkTask_isOk_iff (h : ReadyTask task) {kind : Bytes}
    (hkind : task.find? "kind" = some (.str kind)) {anchor : Option Bytes}
    (hanchor : task.find? "anchor_asset_id" = anchor.map .str) :
    checkTask index task = .ok kind ↔
      Current index task ∧ ∀ id, anchor = some id → (index.asset? id).isSome := by
  have hne : anchor ≠ some [] := by
    rintro rfl
    obtain ⟨s, hs, hsne⟩ := h.anchor _ hanchor
    exact hsne (by simpa using hs.symm)
  have hkinds : kind = "overview" ∨ kind = "alarms" := by
    obtain ⟨k, hk, hvalid⟩ := h.kind
    rw [hkind, Option.some.injEq, Json.str.injEq] at hk
    simpa [hk, isTaskKind] using hvalid
  have hstring : taskString task "kind" "task" 32 = .ok kind := by
    refine taskString_of_find? hkind ?_ ?_
    · rcases hkinds with rfl | rfl <;> simp
    · rcases hkinds with rfl | rfl <;> decide
  have hfields : checkTaskFields task = .ok () := by
    refine checkTaskFields_eq_ok.mpr ⟨h.isObject, fun item hitem => ?_⟩
    have hin := h.only item hitem
    simp only [readyTaskFields, taskFields, List.mem_cons, List.not_mem_nil, or_false] at hin ⊢
    tauto
  obtain ⟨request, hrequest, hlen⟩ := h.request
  obtain ⟨revision, hrevision, hnumber⟩ := h.revision
  simp only [checkTask, hfields, hstring, ok_bind, bind_eq_ok, throwIf_eq_ok, exists_const,
    checkTaskRevision_eq_ok, checkTaskModelId_eq_ok, checkTaskAnchor_eq_ok hanchor hne, pure_eq_ok,
    and_true]
  constructor
  · rintro ⟨-, ⟨v, hv, -, heqv⟩, hid, s, hs, hdeclared⟩
    refine ⟨⟨⟨v, hv, heqv⟩, hid, request, hrequest, ?_⟩, hdeclared⟩
    rintro rfl
    simp [taskString, hrequest] at hs
  · rintro ⟨⟨⟨v, hv, heqv⟩, hid, s, hs, hsne⟩, hdeclared⟩
    rw [hrequest, Option.some.injEq, Json.str.injEq] at hs
    subst hs
    rw [hrevision, Option.some.injEq] at hv
    subst hv
    refine ⟨?_, ⟨_, hrevision, isNonnegativeInteger_of_revision hnumber, heqv⟩, hid, request,
      taskString_of_find? hrequest hsne hlen, hdeclared⟩
    rintro ⟨hoverview, halarms⟩
    exact hkinds.elim hoverview halarms

theorem ReadyTask.requestedRoles_eq_ok (h : ReadyTask task) {roles : Option (List Bytes)}
    (hroles : task.find? "measurement_roles" = roles.map Json.strings) {out : List Bytes} :
    requestedRoles task = .ok out ↔ out = roles.getD [] ∧ (roles.getD []).Nodup := by
  unfold requestedRoles
  rw [hroles]
  cases roles with
  | none => simp [eq_comm]
  | some l =>
    obtain ⟨harray, hitems⟩ := h.roles _ hroles
    simp only [isRoleArray, Bool.and_eq_true, Bool.not_eq_true', decide_eq_true_eq] at harray
    have hread : (Json.strings l).items.mapM requestedRole = .ok l := by
      have hone : ∀ role ∈ l, requestedRole (.str role) = .ok role := by
        intro role hrole
        have hbound := List.all_eq_true.mp hitems (.str role) (List.mem_map_of_mem hrole)
        simp only [isRole, Json.isStringWith, Bool.and_eq_true, Bool.not_eq_true',
          decide_eq_true_eq] at hbound
        have hbad : ¬ (role.isEmpty = true ∨ kMaxString < role.length) := by
          rw [hbound.1, not_or]
          exact ⟨by simp, by show ¬ 256 < role.length; omega⟩
        simp only [requestedRole, hbad, if_false]
      rw [Json.strings, Json.items, List.mapM_map]
      exact (mapM_eq_map (g := id) hone).trans (by rw [List.map_id])
    have hnot : ¬ (¬ (Json.strings l).isArray = true ∨ (Json.strings l).isEmpty = true ∨
        16 < (Json.strings l).size) := by
      rw [harray.1.1, harray.1.2]
      simp
      omega
    simp only [Option.map_some, throwIf_of_not _ hnot, ok_bind, hread, bind_eq_ok, throwIf_eq_ok,
      not_not, exists_const, pure_eq_ok, Option.getD_some]
    exact and_comm.trans (and_congr_left' eq_comm)

/-- **A task the schema accepts resolves exactly when** it is current, its anchor is declared, its
roles are distinct and what its view shows is text. -/
theorem ReadyTask.resolve_isOk_iff [Platform] (wf : index.WellFormed) (h : ReadyTask task)
    {kind : Bytes} (hkind : task.find? "kind" = some (.str kind)) {anchor : Option Bytes}
    (hanchor : task.find? "anchor_asset_id" = anchor.map .str) {roles : Option (List Bytes)}
    (hroles : task.find? "measurement_roles" = roles.map Json.strings) :
    (∃ view, resolveTaskImpl index task = .ok view) ↔
      Current index task ∧ (∀ id, anchor = some id → (index.asset? id).isSome) ∧
        (roles.getD []).Nodup ∧
        ∀ s : Subject, s.Selected index kind (anchor.getD []) (roles.getD []) → s.IsText := by
  have heffective : ∀ k : Bytes, k ≠ "model_id" → (effectiveTask index task).find? k =
    task.find? k := fun k hk => effectiveTask_find? h.isObject hk
  have hscope : taskAnchor (effectiveTask index task) = .ok (anchor.getD []) := by
    rw [taskAnchor, heffective _ (by simp), hanchor]
    cases anchor <;> rfl
  have hclient : (effectiveTask index task).find? "client" = none := by
    rw [heffective _ (by simp)]
    exact h.client
  have hread : ∀ out, requestedRoles (effectiveTask index task) = .ok out ↔
      out = roles.getD [] ∧ (roles.getD []).Nodup := by
    intro out
    rw [← h.requestedRoles_eq_ok hroles, requestedRoles, requestedRoles, heffective _ (by simp)]
  have hlayout : ∃ layout, responsiveLayout (effectiveTask index task) = .ok layout := by
    rw [responsiveLayout, hclient]
    exact ⟨_, rfl⟩
  obtain ⟨layout, hlayout⟩ := hlayout
  constructor
  · rintro ⟨view, hview⟩
    obtain ⟨c, hc, -⟩ := resolveTaskImpl_eq_ok.mp hview
    have hck : c.kind = kind := by
      have hfound := (checkTask_eq_ok hc.kind).2
      rw [hkind] at hfound
      simpa using hfound.symm
    have hchecked := hc.kind
    rw [hck] at hchecked
    obtain ⟨hcurrent, hdeclared⟩ := (h.checkTask_isOk_iff hkind hanchor).mp hchecked
    obtain ⟨hout, hnodup⟩ := (hread _).mp hc.roles
    refine ⟨hcurrent, hdeclared, hnodup, ?_⟩
    refine (resolveTaskImpl_isOk_iff wf hchecked hscope ?_ ((hread _).mpr ⟨rfl, hnodup⟩)
      hlayout).mp ⟨view, hview⟩
    intro hne
    cases anchor with
    | none => exact absurd rfl hne
    | some id => exact hdeclared id rfl
  · rintro ⟨hcurrent, hdeclared, hnodup, htext⟩
    refine (resolveTaskImpl_isOk_iff wf ((h.checkTask_isOk_iff hkind hanchor).mpr
      ⟨hcurrent, hdeclared⟩) hscope ?_ ((hread _).mpr ⟨rfl, hnodup⟩) hlayout).mpr htext
    intro hne
    cases anchor with
    | none => exact absurd rfl hne
    | some id => exact hdeclared id rfl

end

end ContextHmi.Inference
