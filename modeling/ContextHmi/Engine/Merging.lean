import ContextHmi.Engine.Comparison

/-!
# What a merge keeps

The merge of a view's components and dependencies as pure functions, for the components and the
dependencies a composed view has: every old one stays, in place, under its id or key.

* `mergeComponents_eq`, `mergeDependencies_eq` : the merged lists;
* `preserve_status` : the status a kept component can end with, and what it says of the findings.
-/

namespace ContextHmi

open Outcome

/-! ### Components -/

/-- A component of a composed or reconciled view: its ids are strings, and its status, where it has
one, is one of the two blocked ones. -/
structure IsComponent (c : Json) : Prop where
  isObject : c.isObject = true
  id : c.find? "id" = some (.str (fieldOf c "id"))
  tagId : c.find? "tag_id" = some (.str (fieldOf c "tag_id"))
  tagId_ne : fieldOf c "tag_id" ≠ []
  alarmId : c.find? "alarm_id" = none ∨ ∃ a, a ≠ [] ∧ c.find? "alarm_id" = some (.str a)
  relationshipId : c.find? "relationship_id" = none
  status : c.find? "status" = none ∨
    ∃ s, isBlocked s = true ∧ c.find? "status" = some (.str s)

/-- The component is in conflict or unavailable. -/
def Blocked (c : Json) : Prop := isBlocked (fieldOf c "status") = true

instance (c : Json) : Decidable (Blocked c) := inferInstanceAs (Decidable (_ = true))

theorem fieldOf_eq {c : Json} {k s : Bytes} (h : c.find? k = some (.str s)) : fieldOf c k = s := by
  simp [fieldOf, h]

theorem fieldOf_none {c : Json} {k : Bytes} (h : c.find? k = none) : fieldOf c k = [] := by
  simp [fieldOf, h]

theorem valueString_fieldOf {c : Json} {k : Bytes} (hobj : c.isObject = true)
    (h : c.find? k = none ∨ ∃ s, c.find? k = some (.str s)) :
    c.valueString k [] = .ok (fieldOf c k) := by
  rcases h with h | ⟨s, h⟩
  · rw [Json.valueString_of_none hobj h, fieldOf_none h]
  · rw [Json.valueString_of_find? h, fieldOf_eq h]

/-! ### Marks -/

section
variable {c : Json} (hobj : c.isObject = true)
include hobj

theorem isObject_mark (status reason : Bytes) : (mark c status reason).isObject = true :=
  Json.isObject_setField (Json.isObject_setField hobj _ _) _ _

theorem find?_mark {k : Bytes} (h₁ : k ≠ "status") (h₂ : k ≠ "reason") (status reason : Bytes) :
    (mark c status reason).find? k = c.find? k := by
  rw [mark, Json.find?_setField (Json.isObject_setField hobj _ _), if_neg (Ne.symm h₂),
    Json.find?_setField hobj, if_neg (Ne.symm h₁)]

theorem find?_mark_status (status reason : Bytes) :
    (mark c status reason).find? "status" = some (.str status) := by
  rw [mark, Json.find?_setField (Json.isObject_setField hobj _ _), if_neg (by simp),
    Json.find?_setField hobj, if_pos rfl]

theorem foldl_marks (l : List Mark) :
    (l.foldl (fun c m => if m.applies then mark c m.status m.reason else c) c).isObject = true ∧
    (∀ k : Bytes, k ≠ "status" → k ≠ "reason" →
      (l.foldl (fun c m => if m.applies then mark c m.status m.reason else c) c).find? k =
        c.find? k) ∧
    ((l.foldl (fun c m => if m.applies then mark c m.status m.reason else c) c).find? "status" =
        c.find? "status" ∧ (∀ m ∈ l, m.applies = false) ∨
      ∃ m ∈ l, m.applies = true ∧
        (l.foldl (fun c m => if m.applies then mark c m.status m.reason else c) c).find? "status" =
          some (.str m.status)) := by
  induction l generalizing c with
  | nil => exact ⟨hobj, fun _ _ _ => rfl, .inl ⟨rfl, by simp⟩⟩
  | cons m l ih =>
    rw [List.foldl_cons]
    cases hm : m.applies with
    | false =>
      simp only [Bool.false_eq_true, if_false]
      obtain ⟨hisobj, hfind, hstatus⟩ := ih hobj
      refine ⟨hisobj, hfind, hstatus.imp ?_ ?_⟩
      · rintro ⟨h, hall⟩
        exact ⟨h, by simpa using And.intro hm hall⟩
      · rintro ⟨m', hm', h⟩
        exact ⟨m', List.mem_cons_of_mem _ hm', h⟩
    | true =>
      simp only [if_true]
      obtain ⟨hisobj, hfind, hstatus⟩ := ih (isObject_mark hobj m.status m.reason)
      refine ⟨hisobj, fun k h₁ h₂ => (hfind k h₁ h₂).trans (find?_mark hobj h₁ h₂ _ _),
        .inr ?_⟩
      rcases hstatus with ⟨h, -⟩ | ⟨m', hm', h⟩
      · exact ⟨m, List.mem_cons_self, hm, h.trans (find?_mark_status hobj _ _)⟩
      · exact ⟨m', List.mem_cons_of_mem _ hm', h⟩

end

namespace Findings

/-- Some tag, alarm or relationship is in conflict. -/
def Conflicted (f : Findings) : Prop :=
  f.conflictedTags ≠ [] ∨ f.conflictedAlarms ≠ [] ∨ f.changedRelationships ≠ []

/-- Some tag, alarm or relationship is gone. -/
def Missing (f : Findings) : Prop :=
  f.removedTags ≠ [] ∨ f.removedAlarms ≠ [] ∨ f.removedRelationships ≠ []

theorem mem_marks {f : Findings} {b : Bound} {m : Mark} (hm : m ∈ f.marks b)
    (happ : m.applies = true) :
    m.status = "conflict" ∧ f.Conflicted ∨ m.status = "unavailable" ∧ f.Missing := by
  have hne : ∀ {l : List Bytes} {x y : Bytes}, (!x.isEmpty && l.contains y) = true → l ≠ [] := by
    rintro l x y h rfl
    simp at h
  simp only [marks, List.mem_cons, List.not_mem_nil, or_false] at hm
  rcases hm with rfl | rfl | rfl | rfl | rfl | rfl
  · exact .inr ⟨rfl, .inl (hne happ)⟩
  · exact .inl ⟨rfl, .inl (hne happ)⟩
  · exact .inr ⟨rfl, .inr (.inl (hne happ))⟩
  · exact .inl ⟨rfl, .inr (.inl (hne happ))⟩
  · exact .inr ⟨rfl, .inr (.inr (hne happ))⟩
  · exact .inl ⟨rfl, .inr (.inr (hne happ))⟩

variable (f : Findings) (b : Bound) {c : Json} (hobj : c.isObject = true)
include hobj

theorem isObject_preserve : (f.preserve b c).isObject = true := (foldl_marks hobj _).1

theorem find?_preserve {k : Bytes} (h₁ : k ≠ "status") (h₂ : k ≠ "reason") :
    (f.preserve b c).find? k = c.find? k := (foldl_marks hobj _).2.1 k h₁ h₂

theorem preserve_status :
    (f.preserve b c).find? "status" = c.find? "status" ∧ (∀ m ∈ f.marks b, m.applies = false) ∨
      (f.preserve b c).find? "status" = some (.str "conflict") ∧ f.Conflicted ∨
      (f.preserve b c).find? "status" = some (.str "unavailable") ∧ f.Missing := by
  rcases (foldl_marks hobj (f.marks b)).2.2 with h | ⟨m, hm, happ, h⟩
  · exact .inl h
  · refine .inr ((mem_marks hm happ).imp ?_ ?_)
    · rintro ⟨hs, hf⟩
      exact ⟨hs ▸ h, hf⟩
    · rintro ⟨hs, hf⟩
      exact ⟨hs ▸ h, hf⟩

end Findings

/-! ### Kept components -/

def boundOf (c : Json) : Bound :=
  ⟨fieldOf c "tag_id", fieldOf c "alarm_id", fieldOf c "relationship_id"⟩

/-- What the merge makes of a component. -/
def kept (f : Findings) (fresh : List Json) (c : Json) : Json :=
  keepComponent f fresh (fieldOf c "id") (fieldOf c "status") (boundOf c) c

namespace IsComponent

variable {c : Json} (hc : IsComponent c)
include hc

theorem exists_mark {f : Findings} (hf : f.Clean) (h : f.blocks (boundOf c) = true) :
    ∃ m ∈ f.marks (boundOf c), m.applies = true := by
  have htag : (fieldOf c "tag_id").isEmpty = false := by simpa using hc.tagId_ne
  have halarm : ∀ l : List Bytes, [] ∉ l → l.contains (fieldOf c "alarm_id") = true →
      (fieldOf c "alarm_id").isEmpty = false := by
    intro l hl hmem
    rw [List.contains_iff_mem] at hmem
    have hne : fieldOf c "alarm_id" ≠ [] := fun e => hl (e ▸ hmem)
    simpa using hne
  simp only [Findings.blocks, boundOf, Bool.or_eq_true, hf.removedRelationships,
    hf.changedRelationships, List.contains_nil, Bool.false_eq_true, or_false] at h
  rcases h with ((h | h) | h) | h
  · exact ⟨_, List.mem_cons_of_mem _ List.mem_cons_self, by simp [boundOf, htag]; simpa using h⟩
  · exact ⟨_, List.mem_cons_self, by simp [boundOf, htag]; simpa using h⟩
  · refine ⟨_, List.mem_cons_of_mem _ (List.mem_cons_of_mem _ (List.mem_cons_of_mem _
      List.mem_cons_self)), ?_⟩
    simp only [boundOf, halarm _ hf.conflictedAlarms h, h, Bool.not_false, Bool.and_true]
  · refine ⟨_, List.mem_cons_of_mem _ (List.mem_cons_of_mem _ List.mem_cons_self), ?_⟩
    simp only [boundOf, halarm _ hf.removedAlarms h, h, Bool.not_false, Bool.and_true]

theorem mergeComponent_eq (f : Findings) (fresh : List Json) :
    mergeComponent f fresh c = .ok (some (fieldOf c "id", kept f fresh c)) := by
  have htag := valueString_fieldOf hc.isObject (.inr ⟨_, hc.tagId⟩)
  have halarm := valueString_fieldOf hc.isObject (k := "alarm_id")
    (hc.alarmId.imp_right fun ⟨a, _, h⟩ => ⟨a, h⟩)
  have hrel := valueString_fieldOf hc.isObject (k := "relationship_id") (.inl hc.relationshipId)
  have hstatus := valueString_fieldOf hc.isObject (k := "status")
    (hc.status.imp_right fun ⟨s, _, h⟩ => ⟨s, h⟩)
  unfold mergeComponent
  rw [hc.id]
  simp only [htag, halarm, hrel, hstatus, ok_bind]
  rfl

theorem preserve (f : Findings) (b : Bound) : IsComponent (f.preserve b c) := by
  have hkeep : ∀ k : Bytes, k ≠ "status" → k ≠ "reason" →
      (f.preserve b c).find? k = c.find? k := fun k h₁ h₂ => f.find?_preserve b hc.isObject h₁ h₂
  have hfield : ∀ k : Bytes, k ≠ "status" → k ≠ "reason" →
      fieldOf (f.preserve b c) k = fieldOf c k := fun k h₁ h₂ => by rw [fieldOf, hkeep k h₁ h₂, fieldOf]
  refine ⟨f.isObject_preserve b hc.isObject, ?_, ?_, ?_, ?_, ?_, ?_⟩
  · rw [hkeep _ (by simp) (by simp), hfield _ (by simp) (by simp)]
    exact hc.id
  · rw [hkeep _ (by simp) (by simp), hfield _ (by simp) (by simp)]
    exact hc.tagId
  · rw [hfield _ (by simp) (by simp)]
    exact hc.tagId_ne
  · rw [hkeep _ (by simp) (by simp)]
    exact hc.alarmId
  · rw [hkeep _ (by simp) (by simp)]
    exact hc.relationshipId
  · rcases f.preserve_status b hc.isObject with ⟨h, -⟩ | ⟨h, -⟩ | ⟨h, -⟩
    · rw [h]
      exact hc.status
    · exact .inr ⟨_, by simp [isBlocked], h⟩
    · exact .inr ⟨_, by simp [isBlocked], h⟩

theorem preserve_id (f : Findings) (b : Bound) :
    fieldOf (f.preserve b c) "id" = fieldOf c "id" := by
  rw [fieldOf, f.find?_preserve b hc.isObject (by simp) (by simp), fieldOf]

theorem preserve_blocked {f : Findings} (hf : f.Clean)
    (h : Blocked c ∨ f.blocks (boundOf c) = true) : Blocked (f.preserve (boundOf c) c) := by
  rcases f.preserve_status (boundOf c) hc.isObject with ⟨hs, hnone⟩ | ⟨hs, -⟩ | ⟨hs, -⟩
  · rcases h with h | h
    · rw [Blocked, fieldOf, hs]
      exact h
    · obtain ⟨m, hm, happ⟩ := hc.exists_mark hf h
      rw [hnone m hm] at happ
      cases happ
  · rw [Blocked, fieldOf_eq hs]
    simp [isBlocked]
  · rw [Blocked, fieldOf_eq hs]
    simp [isBlocked]

end IsComponent

/-- Every old component as it is kept, then the fresh ones with new ids. -/
def keptComponents (f : Findings) (fresh old : List Json) : List Json :=
  old.map (kept f fresh) ++
    fresh.filter fun current => fieldOf current "id" ∉ old.map (fieldOf · "id")

theorem mergeComponents_eq (f : Findings) (fresh : List Json) {old : List Json}
    (hold : ∀ c ∈ old, IsComponent c) :
    mergeComponents f fresh old = .ok (keptComponents f fresh old) := by
  unfold mergeComponents
  rw [mapM_eq_map (g := fun c => some (fieldOf c "id", kept f fresh c))
    fun c hc => (hold c hc).mergeComponent_eq f fresh]
  have hkept : (old.map fun c => some (fieldOf c "id", kept f fresh c)).filterMap id =
      old.map fun c => (fieldOf c "id", kept f fresh c) := by
    simp [List.filterMap_map]
  simp only [ok_bind, hkept, List.map_map, Function.comp_def]
  rfl

/-! ### Kept dependencies -/

/-- What the merge makes of a dependency. -/
def keptDependency (f : Findings) (fresh : List Json) (d : Json) : Json :=
  keepDependency f fresh (fieldOf d "tag_id") (fieldOf d "alarm_id") d

theorem Subject.RecordedBy.mergeDependency_eq {s : Subject} {d : Json} (h : s.RecordedBy d)
    (f : Findings) (fresh : List Json) :
    mergeDependency f fresh d = .ok (some (keyOf d, keptDependency f fresh d)) := by
  have htag : d.find? "tag_id" = some (.str (fieldOf d "tag_id")) := by
    rw [fieldOf_eq h.tagId, h.tagId]
  have halarm := valueString_fieldOf h.isObject (k := "alarm_id") (by
    rw [h.alarmId]
    cases s.alarm <;> simp)
  unfold mergeDependency
  rw [htag]
  simp only [halarm, ok_bind]
  rfl

/-- Every old dependency as it is kept, then the fresh ones with new keys. -/
def keptDependencies (f : Findings) (fresh old : List Json) : List Json :=
  old.map (keptDependency f fresh) ++ fresh.filter fun current => keyOf current ∉ old.map keyOf

theorem mergeDependencies_eq (f : Findings) (fresh : List Json) {old : List Json}
    (hold : Recorded old) :
    mergeDependencies f fresh old = .ok (keptDependencies f fresh old) := by
  unfold mergeDependencies
  rw [mapM_eq_map (g := fun d => some (keyOf d, keptDependency f fresh d)) fun d hd => by
    obtain ⟨s, -, hs⟩ := hold.subject d hd
    exact hs.mergeDependency_eq f fresh]
  have hkept : (old.map fun d => some (keyOf d, keptDependency f fresh d)).filterMap id =
      old.map fun d => (keyOf d, keptDependency f fresh d) := by
    simp [List.filterMap_map]
  simp only [ok_bind, hkept, List.map_map, Function.comp_def]
  rfl

end ContextHmi
