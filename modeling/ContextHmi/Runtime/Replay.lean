import ContextHmi.Runtime.Interpret

/-!
# Replaying an interpretation

A ready interpretation, cached or not, is refreshed with the request at hand, checked against the
active model and resolved. What the schema of an interpretation leaves open is whether its task is
one of that model.

* `FaithfulTask`          : what the schema leaves open;
* `replay_isOk`           : a faithful task passes every check, for every prompt and client.
-/

namespace ContextHmi.Runtime

open Outcome Inference

/-- A client that a view can be laid out for; an empty one is left out of the task. -/
def ClientFits (client : Json) : Prop :=
  client.isEmpty = true ∨ ∃ layout, responsiveLayout (.object [("client", client)]) = .ok layout

/-- A task that belongs to a model: it names no other model or revision, its anchor is declared and
its measurements are distinct. -/
structure FaithfulTask (index : ModelIndex) (task : Json) : Prop where
  modelId : ∀ v, task.find? "model_id" = some v → v.eqv (.str index.modelId) = true
  revision : ∀ v, task.find? "model_revision" = some v → v.eqv index.revision = true
  anchor : ∀ id, task.find? "anchor_asset_id" = some (.str id) → (index.asset? id).isSome
  roles : ∀ roles, task.find? "measurement_roles" = some (Json.strings roles) → roles.Nodup

/-! ### The task that is resolved -/

/-- The task of a request, naming the active model. -/
def activeTask (index : ModelIndex) (prompt : Bytes) (client task : Json) : Json :=
  (requestTask prompt client task).setFields
    [("model_id", .str index.modelId), ("model_revision", index.revision)]

section
variable {index : ModelIndex} {task client : Json} {prompt : Bytes}

theorem isObject_requestTask (h : task.isObject = true) :
    (requestTask prompt client task).isObject = true :=
  Json.isObject_setOptional (Json.isObject_setField h _ _) _ _

theorem find?_requestTask (h : task.isObject = true) (k : Bytes) :
    (requestTask prompt client task).find? k =
      if k = "client" then (if client.isEmpty then none else some client).or (task.find? "client")
      else if k = "original_request" then some (.str prompt) else task.find? k := by
  rw [requestTask, Json.find?_setOptional (Json.isObject_setField h _ _), Json.find?_setField h]
  by_cases hclient : k = "client"
  · simp [hclient]
  · by_cases hrequest : k = "original_request"
    · simp [hrequest]
    · simp [hclient, hrequest, Ne.symm hclient, Ne.symm hrequest]

theorem find?_activeTask (h : task.isObject = true) (k : Bytes) :
    (activeTask index prompt client task).find? k =
      if k = "model_id" then some (.str index.modelId)
      else if k = "model_revision" then some index.revision
      else (requestTask prompt client task).find? k := by
  rw [activeTask, Json.find?_setFields (isObject_requestTask h)]
  by_cases hid : k = "model_id"
  · simp [hid]
  · by_cases hrevision : k = "model_revision"
    · simp [hrevision]
    · simp [hid, hrevision, Ne.symm hid, Ne.symm hrevision]

theorem keys_activeTask (h : task.isObject = true) {k : Bytes}
    (hk : k ∈ (activeTask index prompt client task).keys) :
    k ∈ [bytes "model_id", "model_revision", "client", "original_request"] ∨ k ∈ task.keys := by
  have hrequest := Json.isObject_setField h "original_request" (.str prompt)
  have htask : (requestTask prompt client task).isObject = true := isObject_requestTask h
  rcases Json.mem_keys_setField (Json.isObject_setField htask _ _) hk with rfl | hk
  · simp
  rcases Json.mem_keys_setField htask hk with rfl | hk
  · simp
  rcases Json.mem_keys_setOptional hrequest hk with rfl | hk
  · simp
  rcases Json.mem_keys_setField h hk with rfl | hk
  · simp
  · exact .inr hk

/-! ### What the checks see -/

theorem activeTask_layout (h : ReadyTask task) (hclient : ClientFits client) :
    ∃ layout, responsiveLayout (activeTask index prompt client task) = .ok layout := by
  have hfind : (activeTask index prompt client task).find? "client" =
      if client.isEmpty then none else some client := by
    rw [find?_activeTask h.isObject, if_neg (by simp), if_neg (by simp),
      find?_requestTask h.isObject, if_pos rfl, h.client, Option.or_none]
  by_cases hempty : client.isEmpty = true
  · rw [hempty, if_pos rfl] at hfind
    rw [responsiveLayout, hfind]
    exact ⟨_, rfl⟩
  · rw [if_neg hempty] at hfind
    obtain ⟨layout, hlayout⟩ := hclient.resolve_left hempty
    refine ⟨layout, ?_⟩
    rw [← hlayout]
    exact responsiveLayout_congr (hfind.trans (by simp))

theorem activeTask_fields (h : ReadyTask task) :
    checkTaskFields (activeTask index prompt client task) = .ok () := by
  have hobject : (activeTask index prompt client task).isObject = true :=
    Json.isObject_setFields (isObject_requestTask h.isObject) _
  refine checkTaskFields_eq_ok.mpr ⟨hobject, fun item hitem => ?_⟩
  rcases keys_activeTask h.isObject (List.mem_map_of_mem hitem) with hset | hkey
  · simp only [List.mem_cons, List.not_mem_nil, or_false] at hset
    rcases hset with hk | hk | hk | hk <;> simp [hk, taskFields]
  · obtain ⟨original, horiginal, hk⟩ := List.mem_map.mp hkey
    have hin := h.only original horiginal
    rw [hk] at hin
    simp only [readyTaskFields, List.mem_cons, List.not_mem_nil, or_false] at hin
    rcases hin with hk | hk | hk | hk | hk | hk <;> simp [hk, taskFields]

theorem activeTask_checked (wf : index.WellFormed) (h : ReadyTask task) (hf : FaithfulTask index task)
    (hprompt : IsPrompt prompt) {kind : Bytes} (hkind : task.find? "kind" = some (.str kind)) :
    checkTask index (activeTask index prompt client task) = .ok kind := by
  have hmember : ∀ k ∈ [bytes "kind", "anchor_asset_id"],
      (activeTask index prompt client task).find? k = task.find? k := by
    simp [find?_activeTask h.isObject, find?_requestTask h.isObject]
  simp only [List.forall_mem_cons, List.not_mem_nil, false_implies, implies_true, and_true]
    at hmember
  obtain ⟨hk, hanchor⟩ := hmember
  have hid : (activeTask index prompt client task).find? "model_id" = some (.str index.modelId) := by
    simp [find?_activeTask h.isObject]
  have hrevision : (activeTask index prompt client task).find? "model_revision" =
      some index.revision := by
    simp [find?_activeTask h.isObject]
  have hrequest : (activeTask index prompt client task).find? "original_request" =
      some (.str prompt) := by
    simp [find?_activeTask h.isObject, find?_requestTask h.isObject]
  have hkinds : kind = "overview" ∨ kind = "alarms" := by
    obtain ⟨k, hfound, hvalid⟩ := h.kind
    rw [hkind, Option.some.injEq, Json.str.injEq] at hfound
    simpa [hfound, isTaskKind] using hvalid
  have hstring : taskString (activeTask index prompt client task) "kind" "task" 32 = .ok kind := by
    refine taskString_of_find? (hk.trans hkind) ?_ ?_
    · rcases hkinds with rfl | rfl <;> simp
    · rcases hkinds with rfl | rfl <;> decide
  have hprompted : taskString (activeTask index prompt client task) "original_request" "task"
      kMaxPrompt = .ok prompt := by
    refine taskString_of_find? hrequest ?_ hprompt.2
    intro hnil
    simp [hnil, IsPrompt] at hprompt
  have hdeclared : checkTaskAnchor index (activeTask index prompt client task) = .ok () := by
    cases hcase : task.find? "anchor_asset_id" with
    | none =>
      have hnone : (activeTask index prompt client task).find? "anchor_asset_id" =
          (none : Option Bytes).map .str := hanchor.trans hcase
      exact (checkTaskAnchor_eq_ok hnone (by simp)).mpr (by simp)
    | some v =>
      obtain ⟨id, rfl, hne⟩ := h.anchor v hcase
      have hsome : (activeTask index prompt client task).find? "anchor_asset_id" =
          (some id).map .str := hanchor.trans hcase
      refine (checkTaskAnchor_eq_ok hsome (by simpa using hne)).mpr ?_
      intro id' hid'
      obtain rfl := Option.some.inj hid'
      exact hf.anchor id hcase
  have hsupported : ¬ (kind ≠ "overview" ∧ kind ≠ "alarms") := by
    intro hneither
    exact hkinds.elim hneither.1 hneither.2
  have hcurrent : checkTaskRevision index (activeTask index prompt client task) = .ok () :=
    checkTaskRevision_eq_ok.mpr ⟨_, hrevision, wf.revision.1, eqv_revision wf⟩
  have hmodel : checkTaskModelId index (activeTask index prompt client task) = .ok () := by
    refine checkTaskModelId_eq_ok.mpr fun v hv => ?_
    rw [hid, Option.some.injEq] at hv
    simp [← hv, Json.eqv]
  simp only [checkTask, activeTask_fields h, hstring, ok_bind, throwIf_of_not _ hsupported, hcurrent,
    hmodel, hprompted, hdeclared, pure_eq_ok]

/-! ### The replay -/

theorem postCheck_of_faithful {value : Json} (hobject : value.isObject = true) (h : ReadyTask task)
    (hf : FaithfulTask index task) :
    postCheck index (value.setField "task" (requestTask prompt client task)) =
      .ok (activeTask index prompt client task) := by
  have hmember : ∀ k ∈ [bytes "model_id", "model_revision", "anchor_asset_id"],
      (requestTask prompt client task).find? k = task.find? k := by
    simp [find?_requestTask h.isObject]
  simp only [List.forall_mem_cons, List.not_mem_nil, false_implies, implies_true, and_true]
    at hmember
  obtain ⟨hid, hrevision, hanchor⟩ := hmember
  have hmodel : (requestTask prompt client task).hasOptional "model_id"
      (·.eqv (.str index.modelId)) = true := by
    rw [Json.hasOptional_eq_true, hid]
    exact hf.modelId
  have hcurrent : (requestTask prompt client task).hasOptional "model_revision"
      (·.eqv index.revision) = true := by
    rw [Json.hasOptional_eq_true, hrevision]
    exact hf.revision
  have hidentity : checkTaskIdentity index (requestTask prompt client task) = .ok () := by
    rw [checkTaskIdentity, throwIf_of_not _ (not_not.mpr hmodel), ok_bind,
      throwIf_of_not _ (not_not.mpr hcurrent), ok_bind, hanchor]
    cases hcase : task.find? "anchor_asset_id" with
    | none => rfl
    | some v =>
      obtain ⟨id, rfl, -⟩ := h.anchor v hcase
      have hknown : ¬ (index.asset? id).isNone = true := by
        simp [Option.isSome_iff_ne_none.mp (hf.anchor id hcase)]
      simp only [Json.getString, ok_bind, throwIf_of_not _ hknown]
  have htask : (value.setField "task" (requestTask prompt client task)).find? "task" =
      some (requestTask prompt client task) := by
    rw [Json.find?_setField hobject, if_pos rfl]
  have hshape : ¬ ¬ (requestTask prompt client task).isObject = true :=
    not_not.mpr (isObject_requestTask h.isObject)
  simp only [postCheck, htask, throwIf_of_not _ hshape, ok_bind, hidentity]
  rfl

end

section
variable [Platform]

/-- What a request makes of a ready interpretation ends in a view. -/
def Replays (index : ModelIndex) (value : Json) (prompt : Bytes) (client : Json) : Prop :=
  ∃ refreshed task view, refresh prompt client value = .ok refreshed ∧
    postCheck index refreshed = .ok task ∧ resolveTaskImpl index task = .ok view

theorem activeTask_resolves (model : AcceptedModel) {task client : Json} {prompt : Bytes}
    (h : ReadyTask task) (hf : FaithfulTask model.index task) (hprompt : IsPrompt prompt)
    (hclient : ClientFits client) :
    ∃ view, resolveTaskImpl model.index (activeTask model.index prompt client task) = .ok view := by
  obtain ⟨kind, hkind, -⟩ := h.kind
  obtain ⟨roles, hroles⟩ := h.requested
  obtain ⟨layout, hlayout⟩ : ∃ layout,
      responsiveLayout (activeTask model.index prompt client task) = .ok layout :=
    activeTask_layout h hclient
  have hmember : ∀ k ∈ [bytes "anchor_asset_id", "measurement_roles"],
      (activeTask model.index prompt client task).find? k = task.find? k := by
    simp [find?_activeTask h.isObject, find?_requestTask h.isObject]
  simp only [List.forall_mem_cons, List.not_mem_nil, false_implies, implies_true, and_true]
    at hmember
  obtain ⟨hanchorMember, hrolesMember⟩ := hmember
  have heffective : effectiveTask model.index (activeTask model.index prompt client task) =
      activeTask model.index prompt client task := by
    refine if_pos (Json.contains_eq_true.mpr ⟨.str model.index.modelId, ?_⟩)
    simp [find?_activeTask h.isObject]
  obtain ⟨anchor, hanchor, hdeclared⟩ : ∃ anchor,
      taskAnchor (activeTask model.index prompt client task) = .ok anchor ∧
        (anchor ≠ [] → (model.index.asset? anchor).isSome) := by
    rw [taskAnchor, hanchorMember]
    cases hcase : task.find? "anchor_asset_id" with
    | none => exact ⟨[], rfl, fun hne => absurd rfl hne⟩
    | some v =>
      obtain ⟨id, rfl, -⟩ := h.anchor v hcase
      exact ⟨id, rfl, fun _ => hf.anchor id hcase⟩
  have hdistinct : (roles.getD []).Nodup := by
    cases roles with
    | none => exact List.nodup_nil
    | some l => exact hf.roles l hroles
  have hread : requestedRoles (activeTask model.index prompt client task) = .ok (roles.getD []) := by
    rw [← (h.requestedRoles_eq_ok hroles).mpr ⟨rfl, hdistinct⟩, requestedRoles, requestedRoles,
      hrolesMember]
  refine (resolveTaskImpl_isOk_iff model.wellFormed
    (activeTask_checked model.wellFormed h hf hprompt hkind) (heffective.symm ▸ hanchor) hdeclared
    (heffective.symm ▸ hread) (heffective.symm ▸ hlayout)).mpr ?_
  exact fun s hs => model.subject_isText hs

/-- **A faithful interpretation replays**, for every prompt and every client that fits. -/
theorem replays_of_faithful (model : AcceptedModel) {value task client : Json} {prompt : Bytes}
    (hstatus : value.find? "status" = some (.str "ready")) (htask : value.find? "task" = some task)
    (h : ReadyTask task) (hf : FaithfulTask model.index task) (hprompt : IsPrompt prompt)
    (hclient : ClientFits client) : Replays model.index value prompt client := by
  obtain ⟨view, hview⟩ := activeTask_resolves model h hf hprompt hclient
  refine ⟨value.setField "task" (requestTask prompt client task), _, view, ?_,
    postCheck_of_faithful (Json.isObject_of_find? htask) h hf, hview⟩
  rw [refresh, Json.valueString_of_find? hstatus, ok_bind, htask]
  simp only [if_true, pure_eq_ok]

end

end ContextHmi.Runtime
