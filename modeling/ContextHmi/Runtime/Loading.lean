import ContextHmi.Json.Parsing
import ContextHmi.Engine.Resolution

/-!
# Loading a model

`load_model_file`: the text of a model, or of an importer's output around one, is inspected, parsed
and validated. Reading the file is outside. What the service runs on is a model that was accepted this
way, so its strings are UTF-8 and every view of it can be serialized.

* `loadModelFile_accepted`      : what was loaded is an accepted model;
* `AcceptedModel.subject_isText` : whatever a task selects from it is text.
-/

namespace ContextHmi.Runtime

open Outcome

/-! ### The shape of a text -/

inductive JsonShape where
  | ok
  | tooDeep
  | incomplete
  deriving DecidableEq

/-- `inspect_json_shape`, inside `depth` containers. -/
def inspectFrom (depth : Nat) (quoted escaped : Bool) : Bytes → JsonShape
  | [] => if !quoted && depth = 0 then .ok else .incomplete
  | c :: rest =>
    if quoted then
      if escaped then inspectFrom depth true false rest
      else if c = 0x5c then inspectFrom depth true true rest
      else inspectFrom depth (c ≠ 0x22) false rest
    else if c = 0x22 then inspectFrom depth true false rest
    else if c = 0x7b ∨ c = 0x5b then
      if 32 < depth + 1 then .tooDeep else inspectFrom (depth + 1) false false rest
    else if c = 0x7d ∨ c = 0x5d then
      if depth = 0 then .incomplete else inspectFrom (depth - 1) false false rest
    else inspectFrom depth false false rest

def inspectJsonShape (input : Bytes) : JsonShape := inspectFrom 0 false false input

def checkShape (body : Bytes) : Result Unit :=
  match inspectJsonShape body with
  | .tooDeep => .error (.runtime "model JSON exceeds nesting limit")
  | .incomplete => .error (.runtime "model JSON is incomplete")
  | .ok => .ok ()

/-- The model inside an importer's output; a document without a `model` is one itself. -/
def unwrapModel (document : Json) : Result Json :=
  match document.find? "model" with
  | none => .ok document
  | some model => do
    throwIf (document.keys.any fun key => key ≠ "model" && key ≠ "report")
      (.runtime "engineering import output contains an unsupported field")
    throwIf (¬ model.isObject ∨ ¬ document.hasOptional "report" Json.isObject)
      (.runtime "engineering import output has an invalid shape")
    return model

variable [Platform]

/-- `load_model_file`, from the bytes of the file. Every exception becomes one with the prefix
"invalid model: ". -/
def loadModelFile (body : Bytes) : Result Json := do
  checkShape body
  let document ← Json.parse none body
  let model ← unwrapModel document
  let _ ← validateModel model
  return model

/-! ### Accepted models -/

/-- A model that was accepted, with its strings in UTF-8. -/
structure AcceptedModel where
  json : Json
  index : ModelIndex
  accepted : indexModel json = .ok index
  isText : json.IsText

omit [Platform] in
theorem isText_of_find? {j v : Json} {k : Bytes} (hj : j.IsText) (h : j.find? k = some v) :
    v.IsText := by
  cases j with
  | obj fields => exact (Json.isText_obj.mp hj _ (Assoc.find?_mem h)).2
  | _ => simp [Json.find?] at h

omit [Platform] in
theorem unwrapModel_isText {document model : Json} (h : unwrapModel document = .ok model)
    (hdocument : document.IsText) : model.IsText := by
  unfold unwrapModel at h
  split at h
  · obtain rfl := Except.ok.inj h
    exact hdocument
  · rename_i inner hfind
    simp only [bind_eq_ok, pure_eq_ok] at h
    obtain ⟨-, -, -, -, rfl⟩ := h
    exact isText_of_find? hdocument hfind

/-- **What was loaded is an accepted model.** -/
theorem loadModelFile_accepted {body : Bytes} {j : Json} (h : loadModelFile body = .ok j) :
    ∃ model : AcceptedModel, model.json = j := by
  simp only [loadModelFile, bind_eq_ok, pure_eq_ok] at h
  obtain ⟨-, -, document, hparse, model, hunwrap, summary, hvalid, rfl⟩ := h
  obtain ⟨index, hindex⟩ := validateModel_isOk.mp ⟨summary, hvalid⟩
  exact ⟨⟨model, index, hindex, unwrapModel_isText hunwrap (Json.parse_isText hparse)⟩, rfl⟩

/-! ### Text in the records of a model -/

omit [Platform] in
theorem string_isText {j : Json} {k s : Bytes} (hj : j.IsText) (h : j.find? k = some (.str s)) :
    Utf8.Text s := Json.isText_str.mp (isText_of_find? hj h)

omit [Platform] in
theorem encoded_isText {α : Type} {R : α → Json → Prop} {records : List α} {j : Json} {key : Bytes}
    (hj : j.IsText) (h : encodesAll R records j key) : ∀ a ∈ records, ∃ r : Json, R a r ∧ r.IsText := by
  obtain ⟨items, hitems, hall⟩ := h
  have htext : ∀ item ∈ items, item.IsText := by
    cases isText_of_find? hj hitems
    assumption
  clear hitems
  induction hall with
  | nil => exact fun _ ha => nomatch ha
  | cons hR _ ih =>
    rw [List.forall_mem_cons] at htext
    intro a ha
    rcases List.mem_cons.mp ha with rfl | ha
    · exact ⟨_, hR, htext.1⟩
    · exact ih htext.2 a ha

omit [Platform] in
theorem tag_isText {tag : Tag} {r : Json} (h : tag.EncodedBy r) (hr : r.IsText) : tag.IsText := by
  obtain ⟨source, hsource, hfields⟩ := h.source
  have hs := isText_of_find? hr hsource
  intro s hmem
  simp only [List.mem_cons, List.not_mem_nil, or_false] at hmem
  rcases hmem with rfl | rfl | rfl | rfl | rfl | rfl | rfl
  · exact string_isText hr h.assetId
  · exact string_isText hr h.role
  · exact string_isText hr h.dataType
  · exact string_isText hr h.unit
  · exact string_isText hs hfields.server
  · exact string_isText hs hfields.namespaceUri
  · exact string_isText hs hfields.identifier

omit [Platform] in
theorem alarm_isText {alarm : Alarm} {r : Json} (h : alarm.EncodedBy r) (hr : r.IsText) :
    alarm.IsText := by
  intro s hmem
  simp only [List.mem_cons, List.not_mem_nil, or_false] at hmem
  rcases hmem with rfl | rfl | rfl | rfl | rfl
  · exact string_isText hr h.assetId
  · exact string_isText hr h.name
  · exact string_isText hr h.tagId
  · exact string_isText hr h.operator
  · exact string_isText hr h.severity

namespace AcceptedModel

theorem wellFormed (model : AcceptedModel) : model.index.WellFormed :=
  indexModel_wellFormed model.accepted

theorem tag_isText (model : AcceptedModel) {tag : Tag} (h : tag ∈ model.index.tags) : tag.IsText := by
  obtain ⟨r, hr, htext⟩ := encoded_isText model.isText (indexModel_eq_ok.mp model.accepted).1.tags tag h
  exact Runtime.tag_isText hr htext

theorem alarm_isText (model : AcceptedModel) {alarm : Alarm} (h : alarm ∈ model.index.alarms) :
    alarm.IsText := by
  obtain ⟨r, hr, htext⟩ :=
    encoded_isText model.isText (indexModel_eq_ok.mp model.accepted).1.alarms alarm h
  exact Runtime.alarm_isText hr htext

/-- **Whatever a task selects is text.** -/
theorem subject_isText (model : AcceptedModel) {s : Subject} {kind anchor : Bytes}
    {roles : List Bytes} (h : s.Selected model.index kind anchor roles) : s.IsText :=
  ⟨model.tag_isText h.tag, fun alarm halarm => model.alarm_isText (h.alarm alarm halarm).1⟩

end AcceptedModel

end ContextHmi.Runtime
