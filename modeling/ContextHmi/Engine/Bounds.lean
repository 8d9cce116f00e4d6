import ContextHmi.Engine.Idempotence

/-!
# The size of a reconciled view

Every array of the previous view is bounded on the way in, the components are bounded on the way out.
The changes and issues grow by what the comparison records and the view does not hold yet, the
dependencies by what the task selects and the view does not record yet.

* `compareView_records`      : what a comparison adds to the changes and the issues;
* `length_foldl_addOnce`     : how many of them are new;
* `reconcile_bounded_iff`    : a reconciled view is within the bounds exactly when there was room.
-/

namespace ContextHmi

open Outcome

/-! ### Records -/

/-- A comparison went from `f` to `f'` by recording pairs of a change and an issue. -/
def Records (R : Json × Json → Prop) (f f' : Findings) : Prop :=
  ∃ pairs : List (Json × Json), (∀ p, p ∈ pairs ↔ R p) ∧
    f'.changes = (pairs.map (·.1)).foldl addOnce f.changes ∧
    f'.issues = (pairs.map (·.2)).foldl addOnce f.issues

namespace Records

variable {R R' : Json × Json → Prop} {f g h : Findings}

theorem congr (hR : ∀ p, R p ↔ R' p) (hr : Records R f g) : Records R' f g := by
  obtain ⟨pairs, hmem, hadded⟩ := hr
  exact ⟨pairs, fun p => (hmem p).trans (hR p), hadded⟩

theorem refl (hR : ∀ p, ¬ R p) (f : Findings) : Records R f f :=
  ⟨[], fun p => by simp [hR p], rfl, rfl⟩

theorem trans (hr : Records R f g) (hr' : Records R' g h) :
    Records (fun p => R p ∨ R' p) f h := by
  obtain ⟨pairs, hmem, hchanges, hissues⟩ := hr
  obtain ⟨pairs', hmem', hchanges', hissues'⟩ := hr'
  refine ⟨pairs ++ pairs', fun p => ?_, ?_, ?_⟩
  · rw [List.mem_append, hmem, hmem']
  · rw [hchanges', hchanges, List.map_append, List.foldl_append]
  · rw [hissues', hissues, List.map_append, List.foldl_append]

theorem single {change item : Json} (hR : ∀ p, R p ↔ p = (change, item))
    (hchanges : g.changes = addOnce f.changes change) (hissues : g.issues = addOnce f.issues item) :
    Records R f g :=
  ⟨[(change, item)], fun p => by rw [List.mem_singleton, hR], hchanges, hissues⟩

theorem foldlM {α : Type} {check : Findings → α → Result Findings} {D : α → Json × Json → Prop}
    {l : List α} (hstep : ∀ a ∈ l, ∀ f f', check f a = .ok f' → Records (D a) f f')
    {f f' : Findings} (hrun : l.foldlM check f = .ok f') :
    Records (fun p => ∃ a ∈ l, D a p) f f' := by
  induction l generalizing f with
  | nil =>
    obtain rfl := pure_eq_ok.mp hrun
    exact refl (by simp) f
  | cons a l ih =>
    rw [List.foldlM_cons] at hrun
    obtain ⟨g, hg, hrest⟩ := bind_eq_ok.mp hrun
    have hhead := hstep a List.mem_cons_self f g hg
    have htail := ih (fun b hb => hstep b (List.mem_cons_of_mem _ hb)) hrest
    exact (hhead.trans htail).congr fun p => by simp

end Records

/-! ### What a comparison calls for -/

/-- `old_component.value(…)` against the relationship it was drawn from. -/
def relationshipDiffers (component : Json) (current : Relationship) : Result Bool :=
  orElse (summaryDiffers component "relationship_kind" current.kind) <|
  orElse (summaryDiffers component "relationship_from" current.fromId) <|
  summaryDiffers component "relationship_to" current.toId

section
variable [Platform]

/-- The records a dependency on a tag calls for. -/
inductive TagDue (index : ModelIndex) (x : Bytes) (d : Json) : Json × Json → Prop
  | removed (h : index.tag? x = none) : TagDue index x d
      (.object [("kind", .str "removed"), ("tag_id", .str x),
        ("message", .str "Previously bound tag was removed")],
      issue "removed-tag" ("Previously bound tag " ++ x ++ " is unavailable") "error")
  | conflict {tag : Tag} {previous fingerprint : Bytes} (htag : index.tag? x = some tag)
      (hdiffers : bindingDiffers d tag = true)
      (hprevious : d.valueString "fingerprint" [] = .ok previous)
      (hfingerprint : tagFingerprint tag = .ok fingerprint) : TagDue index x d
      (.object [("kind", .str "conflict"), ("tag_id", .str x),
        ("previous_fingerprint", .str previous), ("current_fingerprint", .str fingerprint),
        ("message", .str "The same tag ID changed owner, role, unit, type, or source")],
      issue "binding-conflict" ("Tag " ++ x ++ " retained its ID but changed meaning; review the binding")
        "error")

omit [Platform] in
/-- The records a dependency on an alarm calls for. -/
inductive AlarmDue (index : ModelIndex) (x : Bytes) (d : Json) : Json × Json → Prop
  | removed (h : index.alarm? x = none) : AlarmDue index x d
      (.object [("kind", .str "removed-alarm"), ("alarm_id", .str x),
        ("message", .str "Previously bound alarm was removed")],
      issue "removed-alarm" ("Previously bound alarm " ++ x ++ " is unavailable") "error")
  | tag {alarm : Alarm} {tag : Tag} (halarm : index.alarm? x = some alarm)
      (htag : index.tag? alarm.tagId = some tag)
      (hdiffers : memberDiffers d "binding" (tagBindingSnapshot tag) = true) : AlarmDue index x d
      (.object [("kind", .str "conflict"), ("tag_id", .str alarm.tagId),
        ("message", .str "The alarm's tag ID retained its identity but changed meaning")],
      issue "binding-conflict" ("Alarm tag " ++ alarm.tagId ++ " changed meaning; review the binding")
        "error")
  | conflict {alarm : Alarm} (halarm : index.alarm? x = some alarm)
      (hdiffers : definitionDiffers d alarm = .ok true) : AlarmDue index x d
      (.object [("kind", .str "alarm-conflict"), ("alarm_id", .str x), ("message", .str
        "The same alarm ID changed its owner, threshold, operator, severity, or tag")],
      issue "alarm-conflict" ("Alarm " ++ x ++ " changed meaning; review the binding") "error")

omit [Platform] in
/-- The records a component drawn from a relationship calls for. -/
inductive RelationshipDue (index : ModelIndex) (c : Json) : Json × Json → Prop
  | removed {x : Bytes} (hx : c.find? "relationship_id" = some (.str x))
      (h : index.relationship? x = none) : RelationshipDue index c
      (.object [("kind", .str "removed-relationship"), ("relationship_id", .str x),
        ("message", .str "Previously declared feed relationship was removed")],
      issue "removed-relationship" ("Previously declared feed relationship " ++ x ++ " is unavailable")
        "error")
  | conflict {x : Bytes} {rel : Relationship} (hx : c.find? "relationship_id" = some (.str x))
      (hrel : index.relationship? x = some rel) (hdiffers : relationshipDiffers c rel = .ok true) :
      RelationshipDue index c
      (.object [("kind", .str "relationship-conflict"), ("relationship_id", .str x),
        ("message", .str "The same relationship ID changed endpoints or kind")],
      issue "relationship-conflict" ("Relationship " ++ x ++ " changed meaning; review the binding")
        "error")

/-- The records that comparing these components and dependencies with a model calls for. -/
def Due (index : ModelIndex) (components dependencies : List Json) (p : Json × Json) : Prop :=
  (∃ x d, Assoc.find? x (oldDependencies dependencies).tags = some d ∧ TagDue index x d p) ∨
  (∃ x d, Assoc.find? x (oldDependencies dependencies).alarms = some d ∧ AlarmDue index x d p) ∨
  ∃ c ∈ components, RelationshipDue index c p

variable {index : ModelIndex}

theorem checkTagDependency_records {x : Bytes} {d : Json} {f f' : Findings}
    (h : checkTagDependency index f (x, d) = .ok f') : Records (TagDue index x d) f f' := by
  simp only [checkTagDependency] at h
  cases htag : index.tag? x with
  | none =>
    rw [htag, pure_eq_ok] at h
    subst h
    refine Records.single (fun p => ⟨fun hdue => ?_, fun hp => hp ▸ .removed htag⟩) rfl rfl
    cases hdue with
    | removed => rfl
    | conflict htag' => simp [htag] at htag'
  | some tag =>
    simp only [htag] at h
    by_cases hdiffers : bindingDiffers d tag = true
    · simp only [if_pos hdiffers, bind_eq_ok, pure_eq_ok] at h
      obtain ⟨previous, hprevious, fingerprint, hfingerprint, rfl⟩ := h
      refine Records.single (fun p => ⟨fun hdue => ?_, fun hp =>
        hp ▸ .conflict htag hdiffers hprevious hfingerprint⟩) rfl rfl
      cases hdue with
      | removed h => simp [htag] at h
      | conflict htag' _ hprevious' hfingerprint' =>
        obtain rfl := Option.some.inj (htag.symm.trans htag')
        obtain rfl := Except.ok.inj (hprevious.symm.trans hprevious')
        obtain rfl := Except.ok.inj (hfingerprint.symm.trans hfingerprint')
        rfl
    · rw [if_neg hdiffers, pure_eq_ok] at h
      subst h
      refine Records.refl (fun p hdue => ?_) f
      cases hdue with
      | removed h => simp [htag] at h
      | conflict htag' hdiffers' =>
        obtain rfl := Option.some.inj (htag.symm.trans htag')
        exact hdiffers hdiffers'

omit [Platform] in
theorem checkAlarmTag_records (f : Findings) (d : Json) {alarm : Alarm} {tag : Tag}
    (htag : index.tag? alarm.tagId = some tag) :
    Records (fun p => memberDiffers d "binding" (tagBindingSnapshot tag) = true ∧ p =
      (.object [("kind", .str "conflict"), ("tag_id", .str alarm.tagId),
        ("message", .str "The alarm's tag ID retained its identity but changed meaning")],
      issue "binding-conflict" ("Alarm tag " ++ alarm.tagId ++ " changed meaning; review the binding")
        "error")) f (checkAlarmTag index f d alarm) := by
  simp only [checkAlarmTag, htag]
  by_cases hdiffers : memberDiffers d "binding" (tagBindingSnapshot tag) = true
  · rw [if_pos hdiffers]
    exact Records.single (fun p => and_iff_right hdiffers) rfl rfl
  · rw [if_neg hdiffers]
    exact Records.refl (fun p hp => hdiffers hp.1) f

omit [Platform] in
theorem checkAlarmDependency_records (wf : index.WellFormed) {x : Bytes} {d : Json}
    {f f' : Findings} (h : checkAlarmDependency index f (x, d) = .ok f') :
    Records (AlarmDue index x d) f f' := by
  simp only [checkAlarmDependency] at h
  cases halarm : index.alarm? x with
  | none =>
    rw [halarm, pure_eq_ok] at h
    subst h
    have hkeep : (removedAlarmTag index f d).changes = f.changes ∧
        (removedAlarmTag index f d).issues = f.issues := by
      unfold removedAlarmTag
      split
      · split_ifs <;> exact ⟨rfl, rfl⟩
      · exact ⟨rfl, rfl⟩
    refine Records.single (fun p => ⟨fun hdue => ?_, fun hp => hp ▸ .removed halarm⟩)
      (congrArg (addOnce · _) hkeep.1) (congrArg (addOnce · _) hkeep.2)
    cases hdue with
    | removed => rfl
    | tag halarm' => simp [halarm] at halarm'
    | conflict halarm' => simp [halarm] at halarm'
  | some alarm =>
    obtain ⟨tag, htag, -⟩ := wf.alarm_tag (wf.alarm?_eq_some.mp halarm).1
    have hfirst := checkAlarmTag_records f d htag
    simp only [halarm, bind_eq_ok] at h
    obtain ⟨differs, hdiffers, h⟩ := h
    have hdue : ∀ p, AlarmDue index x d p ↔
        (memberDiffers d "binding" (tagBindingSnapshot tag) = true ∧ p =
          (.object [("kind", .str "conflict"), ("tag_id", .str alarm.tagId),
            ("message", .str "The alarm's tag ID retained its identity but changed meaning")],
          issue "binding-conflict"
            ("Alarm tag " ++ alarm.tagId ++ " changed meaning; review the binding") "error")) ∨
        differs = true ∧ p = (.object [("kind", .str "alarm-conflict"), ("alarm_id", .str x),
          ("message", .str
            "The same alarm ID changed its owner, threshold, operator, severity, or tag")],
          issue "alarm-conflict" ("Alarm " ++ x ++ " changed meaning; review the binding") "error") := by
      intro p
      constructor
      · intro hdue
        cases hdue with
        | removed h => simp [halarm] at h
        | tag halarm' htag' hmember =>
          obtain rfl := Option.some.inj (halarm.symm.trans halarm')
          obtain rfl := Option.some.inj (htag.symm.trans htag')
          exact .inl ⟨hmember, rfl⟩
        | conflict halarm' hdefinition =>
          obtain rfl := Option.some.inj (halarm.symm.trans halarm')
          exact .inr ⟨Except.ok.inj (hdiffers.symm.trans hdefinition), rfl⟩
      · intro hp
        rcases hp with ⟨hmember, rfl⟩ | ⟨rfl, rfl⟩
        · exact .tag halarm htag hmember
        · exact .conflict halarm hdiffers
    cases differs with
    | true =>
      rw [if_pos rfl, pure_eq_ok] at h
      subst h
      refine (hfirst.trans (Records.single (R := fun p => p = _) (fun p => Iff.rfl) rfl rfl)).congr
        fun p => ?_
      rw [hdue]
      simp
    | false =>
      rw [if_neg (by simp), pure_eq_ok] at h
      subst h
      exact hfirst.congr fun p => by simp [hdue]

omit [Platform] in
theorem checkRelationship_records {c : Json} {f f' : Findings}
    (h : checkRelationship index f c = .ok f') : Records (RelationshipDue index c) f f' := by
  unfold checkRelationship at h
  split at h
  · rename_i x hx
    cases hrel : index.relationship? x with
    | none =>
      rw [hrel, pure_eq_ok] at h
      subst h
      refine Records.single (fun p => ⟨fun hdue => ?_, fun hp => hp ▸ .removed hx hrel⟩) rfl rfl
      cases hdue with
      | removed hx' =>
        obtain rfl := Json.str.inj (Option.some.inj (hx.symm.trans hx'))
        rfl
      | conflict hx' hrel' =>
        obtain rfl := Json.str.inj (Option.some.inj (hx.symm.trans hx'))
        simp [hrel] at hrel'
    | some rel =>
      simp only [hrel, bind_eq_ok] at h
      obtain ⟨differs, hdiffers, h⟩ := h
      have hdue : ∀ p, RelationshipDue index c p ↔ differs = true ∧ p =
          (.object [("kind", .str "relationship-conflict"), ("relationship_id", .str x),
            ("message", .str "The same relationship ID changed endpoints or kind")],
          issue "relationship-conflict"
            ("Relationship " ++ x ++ " changed meaning; review the binding") "error") := by
        intro p
        constructor
        · intro hdue
          cases hdue with
          | removed hx' h =>
            obtain rfl := Json.str.inj (Option.some.inj (hx.symm.trans hx'))
            simp [hrel] at h
          | conflict hx' hrel' hdiffers' =>
            obtain rfl := Json.str.inj (Option.some.inj (hx.symm.trans hx'))
            obtain rfl := Option.some.inj (hrel.symm.trans hrel')
            exact ⟨Except.ok.inj (hdiffers.symm.trans hdiffers'), rfl⟩
        · rintro ⟨rfl, rfl⟩
          exact .conflict hx hrel hdiffers
      cases differs with
      | true =>
        rw [if_pos rfl, pure_eq_ok] at h
        subst h
        exact Records.single (fun p => by simp [hdue]) rfl rfl
      | false =>
        rw [if_neg (by simp), pure_eq_ok] at h
        subst h
        exact Records.refl (fun p => by simp [hdue]) f
  · rename_i hnone
    obtain rfl := Except.ok.inj h
    refine Records.refl (fun p hdue => ?_) f
    cases hdue with
    | removed hx => exact hnone _ hx
    | conflict hx => exact hnone _ hx

/-- **What a comparison records** is what the dependencies and the components call for. -/
theorem compareView_records (wf : index.WellFormed)
    {changes issues components dependencies : List Json} {f : Findings}
    (h : compareView index changes issues components dependencies = .ok f) :
    Records (Due index components dependencies) ⟨changes, issues, [], [], [], [], [], []⟩ f := by
  simp only [compareView, bind_eq_ok] at h
  obtain ⟨f₁, h₁, f₂, h₂, h₃⟩ := h
  have htags := Records.foldlM (D := fun (entry : Bytes × Json) => TagDue index entry.1 entry.2)
    (fun _ _ _ _ hcheck => checkTagDependency_records hcheck) h₁
  have halarms := Records.foldlM (D := fun (entry : Bytes × Json) => AlarmDue index entry.1 entry.2)
    (fun _ _ _ _ hcheck => checkAlarmDependency_records wf hcheck) h₂
  have hrelationships := Records.foldlM (D := RelationshipDue index)
    (fun _ _ _ _ hcheck => checkRelationship_records hcheck) h₃
  refine ((htags.trans halarms).trans hrelationships).congr fun p => ?_
  simp only [Due, Prod.exists, mem_bucketed, or_assoc]

theorem Due.plain {components dependencies : List Json} {p : Json × Json}
    (h : Due index components dependencies p) : p.1.Plain ∧ p.2.Plain := by
  have hissue : ∀ code message : Bytes, (issue code message "error").Plain := fun _ _ =>
    Json.plain_object (by simp [Json.Plain.str])
  rcases h with ⟨_, _, -, h⟩ | ⟨_, _, -, h⟩ | ⟨_, -, h⟩
  · cases h <;> exact ⟨Json.plain_object (by simp [Json.Plain.str]), hissue _ _⟩
  · cases h <;> exact ⟨Json.plain_object (by simp [Json.Plain.str]), hissue _ _⟩
  · cases h <;> exact ⟨Json.plain_object (by simp [Json.Plain.str]), hissue _ _⟩

end

/-! ### How many records are new -/

theorem held_append {items : List Json} {a r : Json} (ha : a.Plain) :
    Held (items ++ [a]) r ↔ Held items r ∨ r = a := by
  simp only [Held, List.any_append, List.any_cons, List.any_nil, Bool.or_false, Bool.or_eq_true]
  refine or_congr_right ⟨fun h => (ha.eq_of_eqv h).symm, ?_⟩
  rintro rfl
  exact ha.eqv_self

/-- **Records are added once**: as many come as there are that are not held yet. -/
theorem length_foldl_addOnce {l : List Json} (hl : ∀ r ∈ l, r.Plain) (items : List Json) :
    (l.foldl addOnce items).length = items.length + {r | r ∈ l ∧ ¬ Held items r}.ncard := by
  induction l generalizing items with
  | nil => simp
  | cons a l ih =>
    obtain ⟨ha, hrest⟩ := List.forall_mem_cons.mp hl
    rw [List.foldl_cons, ih hrest]
    by_cases hheld : Held items a
    · rw [addOnce_of_held hheld]
      congr 2
      ext r
      simp only [Set.mem_ofPred_eq, List.mem_cons]
      constructor
      · exact fun ⟨hr, hnot⟩ => ⟨.inr hr, hnot⟩
      · rintro ⟨rfl | hr, hnot⟩
        · exact absurd hheld hnot
        · exact ⟨hr, hnot⟩
    · have hadd : addOnce items a = items ++ [a] := if_neg hheld
      have hset : {r | r ∈ a :: l ∧ ¬ Held items r} =
          insert a {r | r ∈ l ∧ ¬ Held (items ++ [a]) r} := by
        ext r
        simp only [Set.mem_ofPred_eq, List.mem_cons, Set.mem_insert_iff, held_append ha, not_or]
        by_cases hr : r = a
        · simp [hr, hheld]
        · simp [hr]
      have hfinite : {r | r ∈ l ∧ ¬ Held (items ++ [a]) r}.Finite :=
        (List.finite_toSet l).subset fun r hr => hr.1
      rw [hadd, hset, Set.ncard_insert_of_notMem (by simp [held_append ha]) hfinite,
        List.length_append, List.length_singleton]
      omega

/-! ### How many dependencies are kept -/

/-- The key an old dependency is kept under. -/
def recordedKey (d : Json) : Option Bytes :=
  match d.find? "tag_id" with
  | some (.str tagId) => some (dependencyKey tagId (fieldOf d "alarm_id"))
  | _ => none

/-- The keys of the old dependencies that are kept. -/
def recordedKeys (dependencies : List Json) : List Bytes := dependencies.filterMap recordedKey

theorem fieldOf_of_valueString {j : Json} {k s : Bytes} (h : j.valueString k [] = .ok s) :
    fieldOf j k = s := by
  cases j with
  | obj fields =>
    rw [fieldOf, Json.find?_obj]
    simp only [Json.valueString] at h
    cases hfind : Assoc.find? k fields with
    | none => simpa [hfind] using h
    | some v =>
      rw [hfind] at h
      cases v with
      | str s' => exact Except.ok.inj h
      | _ => cases h
  | _ => cases h

theorem mergeDependency_key {f : Findings} {fresh : List Json} {d : Json}
    {r : Option (Bytes × Json)} (h : mergeDependency f fresh d = .ok r) :
    r.map (·.1) = recordedKey d := by
  unfold mergeDependency at h
  split at h
  · rename_i tagId htag
    simp only [bind_eq_ok, pure_eq_ok] at h
    obtain ⟨alarmId, halarm, rfl⟩ := h
    rw [recordedKey, htag, fieldOf_of_valueString halarm]
    rfl
  · rename_i hnone
    obtain rfl := Except.ok.inj h
    unfold recordedKey
    split
    · rename_i tagId htag
      exact absurd htag (hnone tagId)
    · rfl

theorem kept_keys {merge : Json → Result (Option (Bytes × Json))} {key : Json → Option Bytes}
    (hmerge : ∀ d r, merge d = .ok r → r.map (·.1) = key d) {old : List Json}
    {kept : List (Option (Bytes × Json))} (h : old.mapM merge = .ok kept) :
    (kept.filterMap id).map (·.1) = old.filterMap key := by
  have hall : old.map key = kept.map (Option.map (·.1)) :=
    forall₂_map_eq (fun d r hd => (hmerge d r hd).symm) (mapM_eq_ok.mp h)
  have hold : old.filterMap key = (old.map key).filterMap id := by simp [List.filterMap_map]
  rw [hold, hall, List.filterMap_map, List.map_filterMap]
  rfl

theorem length_mergedDependencies {f : Findings} {fresh : List Json} {old : Option (List Json)}
    {dependencies : List Json} (h : mergedDependencies f fresh old = .ok dependencies) :
    dependencies.length = (recordedKeys (old.getD [])).length +
      (fresh.filter fun current => keyOf current ∉ recordedKeys (old.getD [])).length := by
  cases old with
  | none =>
    obtain rfl := Except.ok.inj h
    simp [recordedKeys]
  | some old =>
    simp only [mergedDependencies, mergeDependencies, bind_eq_ok, pure_eq_ok] at h
    obtain ⟨kept, hkept, rfl⟩ := h
    have hkeys : (kept.filterMap id).map (·.1) = recordedKeys old :=
      kept_keys (fun _ _ => mergeDependency_key) hkept
    have hlength : (kept.filterMap id).length = (recordedKeys old).length := by
      rw [← hkeys, List.length_map]
    rw [List.length_append, List.length_map, hlength, hkeys]
    rfl

/-! ### The bounds -/

/-- The arrays that reconciling bounds on the way in. -/
def boundedKeys : List Bytes := ["components", "dependencies", "issues", "changes"]

/-- The view is not too large to be reconciled. -/
def WithinBounds (view : Json) : Prop :=
  ∀ key ∈ boundedKeys, ∀ v, view.find? key = some v → v.isArray = true ∧ v.size ≤ kMaxComponents

/-- The view holds so few changes, issues and dependencies that what the model adds to them finds
room. -/
structure Room [Platform] (index : ModelIndex) (view : Json) : Prop where
  changes : (SavedParts.itemsOf view "changes").length +
    {change | (∃ item, Due index (SavedParts.itemsOf view "components")
      (SavedParts.itemsOf view "dependencies") (change, item)) ∧
      ¬ Held (SavedParts.itemsOf view "changes") change}.ncard ≤ kMaxComponents
  issues : ∀ task kind, view.find? "task" = some task → task.find? "kind" = some (.str kind) →
    (SavedParts.itemsOf view "issues").length +
      {item | ((∃ change, Due index (SavedParts.itemsOf view "components")
          (SavedParts.itemsOf view "dependencies") (change, item)) ∨
        (∀ s, ¬ Selects index task s) ∧ item = (viewKind kind).nothing) ∧
        ¬ Held (SavedParts.itemsOf view "issues") item}.ncard ≤ kMaxComponents
  dependencies : ∀ task, view.find? "task" = some task →
    (recordedKeys (SavedParts.itemsOf view "dependencies")).length +
      {s : Subject | Selects index task s ∧
        s.key ∉ recordedKeys (SavedParts.itemsOf view "dependencies")}.ncard ≤ kMaxComponents

theorem withinBounds_iff {view : Json} (components dependencies issues changes : List Json)
    (hcomponents : view.find? "components" = some (.arr components))
    (hdependencies : view.find? "dependencies" = some (.arr dependencies))
    (hissues : view.find? "issues" = some (.arr issues))
    (hchanges : view.find? "changes" = some (.arr changes)) :
    WithinBounds view ↔ components.length ≤ kMaxComponents ∧
      dependencies.length ≤ kMaxComponents ∧ issues.length ≤ kMaxComponents ∧
        changes.length ≤ kMaxComponents := by
  simp [WithinBounds, boundedKeys, hcomponents, hdependencies, hissues, hchanges, Json.isArray,
    Json.size]

theorem previousArray_items {view : Json} {key details : Bytes} {r : Option (List Json)}
    (h : previousArray view key details = .ok r) : r.getD [] = SavedParts.itemsOf view key := by
  unfold previousArray at h
  unfold SavedParts.itemsOf
  cases hfind : view.find? key with
  | none =>
    rw [hfind] at h
    obtain rfl := Except.ok.inj h
    rfl
  | some v =>
    simp only [hfind, bind_eq_ok, pure_eq_ok] at h
    obtain ⟨_, -, rfl⟩ := h
    rfl

theorem readPrevious_parts {view : Json} {previous : Previous}
    (h : readPrevious view = .ok previous) :
    view.find? "task" = some previous.task ∧ previous.task.isObject = true ∧
      previous.components = SavedParts.itemsOf view "components" ∧
      previous.dependencies.getD [] = SavedParts.itemsOf view "dependencies" ∧
      previous.issues.getD [] = SavedParts.itemsOf view "issues" ∧
      previous.changes.getD [] = SavedParts.itemsOf view "changes" := by
  simp only [readPrevious, bind_eq_ok, pure_eq_ok] at h
  obtain ⟨_, -, task, htask, components, hcomponents, dependencies, hdependencies, issues, hissues,
    changes, hchanges, rfl⟩ := h
  have hread : view.find? "task" = some task ∧ task.isObject = true := by
    unfold previousTask at htask
    split at htask
    · obtain ⟨_, hobj, rfl⟩ := map_eq_ok.mp htask
      exact ⟨by assumption, by simpa using hobj⟩
    · cases htask
  refine ⟨hread.1, hread.2, ?_, previousArray_items hdependencies, previousArray_items hissues,
    previousArray_items hchanges⟩
  · simp only [previousComponents, bind_eq_ok] at hcomponents
    obtain ⟨r, hr, hcomponents⟩ := hcomponents
    rw [← previousArray_items hr]
    cases r with
    | none => cases hcomponents
    | some items => exact (pure_eq_ok.mp hcomponents).symm

section
variable [Platform] {index : ModelIndex} (wf : index.WellFormed)
include wf

theorem length_fresh {task task' : Json} {c : Composed} (hc : c.Of index task)
    (hscope : taskScope task = taskScope task') {items : List Json} {key : Json → Bytes}
    {keyOfSubject : Subject → Bytes} (hkeys : items.map key = c.subjects.map keyOfSubject)
    (keys : List Bytes) :
    (items.filter fun current => key current ∉ keys).length =
      {s : Subject | Selects index task' s ∧ keyOfSubject s ∉ keys}.ncard := by
  have hmap : (items.filter fun current => key current ∉ keys).length =
      (c.subjects.filter fun s => keyOfSubject s ∉ keys).length := by
    have hlength := congrArg (fun l => (l.filter fun key => key ∉ keys).length) hkeys
    simpa [List.filter_map, Function.comp_def] using hlength
  have hnodup : (c.subjects.filter fun s => keyOfSubject s ∉ keys).Nodup :=
    (List.Nodup.of_map _ (nodup_selection wf hc.subjects)).filter _
  have hset : {s : Subject | Selects index task' s ∧ keyOfSubject s ∉ keys} =
      {s | s ∈ c.subjects.filter fun s => keyOfSubject s ∉ keys} := by
    ext s
    simp [hc.selects_iff wf hscope]
  rw [hmap, hset]
  classical
  rw [← List.toFinset_card_of_nodup hnodup, ← Set.ncard_coe_finset]
  congr 1
  ext s
  simp

theorem mem_fresh_issues {task task' : Json} {c : Composed} (hc : c.Of index task)
    (hscope : taskScope task = taskScope task') {item : Json} :
    item ∈ (c.parts index task).issues ↔
      (∀ s, ¬ Selects index task' s) ∧ item = (viewKind c.kind).nothing := by
  have hnone : (∀ s, ¬ Selects index task' s) ↔ c.bound.isEmpty = true := by
    simp only [← hc.selects_iff wf hscope, ← List.eq_nil_iff_forall_not_mem]
    rw [List.isEmpty_iff_length_eq_zero, ← hc.bound.length_eq, List.length_eq_zero_iff]
  rw [hnone]
  simp only [Composed.parts]
  split <;> simp_all

/-- **A reconciled view is within the bounds of its input exactly when there was room.** -/
theorem reconcileViewImpl_bounded_iff {view view' : Json}
    (h : reconcileViewImpl index view = .ok view') : WithinBounds view' ↔ Room index view := by
  simp only [reconcileViewImpl, bind_eq_ok, pure_eq_ok, throwIf_eq_ok] at h
  obtain ⟨previous, hprevious, _, -, _, -, fresh, hfresh, f, hf, comps, -, _, hlen, deps, hdeps,
    prior, -, status, -, rfl⟩ := h
  obtain ⟨htask, hobj, hcomps, hdepsItems, hissues, hchanges⟩ := readPrevious_parts hprevious
  obtain ⟨c, hc, rfl⟩ := resolveTaskImpl_eq_ok.mp hfresh
  obtain ⟨pairs, hpairs, hchanged, hissued⟩ := compareView_records wf hf
  have hsaved := hc.saved wf
  have hscope := taskScope_setFields hobj (.str index.modelId) index.revision
  have hkind : previous.task.find? "kind" = some (.str c.kind) :=
    (congrArg Prod.fst hscope).symm.trans (checkTask_eq_ok hc.kind).2
  have hplain : ∀ p ∈ pairs, p.1.Plain ∧ p.2.Plain := fun p hp => ((hpairs p).mp hp).plain
  rw [hcomps, hdepsItems] at hpairs
  have hchangesLength : f.changes.length = (SavedParts.itemsOf view "changes").length +
      {change | (∃ item, Due index (SavedParts.itemsOf view "components")
        (SavedParts.itemsOf view "dependencies") (change, item)) ∧
        ¬ Held (SavedParts.itemsOf view "changes") change}.ncard := by
    rw [hchanged, length_foldl_addOnce (List.forall_mem_map.mpr fun p hp => (hplain p hp).1), hchanges]
    congr 2
    ext change
    simp only [Set.mem_ofPred_eq, List.mem_map, Prod.exists, exists_and_right, exists_eq_right, hpairs]
  have hissuesLength : ((SavedParts.itemsOf (c.view index (previous.task.setFields
        [("model_id", .str index.modelId), ("model_revision", index.revision)])) "issues").foldl
      addOnce f.issues).length = (SavedParts.itemsOf view "issues").length +
      {item | ((∃ change, Due index (SavedParts.itemsOf view "components")
          (SavedParts.itemsOf view "dependencies") (change, item)) ∨
        (∀ s, ¬ Selects index previous.task s) ∧ item = (viewKind c.kind).nothing) ∧
        ¬ Held (SavedParts.itemsOf view "issues") item}.ncard := by
    rw [itemsOf_eq hsaved.issues, hissued, hissues, ← List.foldl_append, length_foldl_addOnce]
    · congr 2
      ext item
      simp only [Set.mem_ofPred_eq, List.mem_append, List.mem_map, Prod.exists, hpairs,
        exists_eq_right, mem_fresh_issues wf hc hscope]
    · intro item hitem
      rcases List.mem_append.mp hitem with hitem | hitem
      · obtain ⟨p, hp, rfl⟩ := List.mem_map.mp hitem
        exact (hplain p hp).2
      · exact c.plain_issues hitem
  have hdependenciesLength : deps.length =
      (recordedKeys (SavedParts.itemsOf view "dependencies")).length +
      {s : Subject | Selects index previous.task s ∧
        s.key ∉ recordedKeys (SavedParts.itemsOf view "dependencies")}.ncard := by
    have hfreshItems := itemsOf_eq hsaved.dependencies
    rw [SavedParts.itemsOf] at hfreshItems
    rw [length_mergedDependencies hdeps, hdepsItems, hfreshItems]
    exact congrArg _ (length_fresh wf hc hscope hc.dependencies_keys _)
  have hobj' := hsaved.isObject
  rw [withinBounds_iff comps deps _ f.changes (by simp [Json.find?_setFields hobj'])
    (by simp [Json.find?_setFields hobj']) (by simp [Json.find?_setFields hobj']; rfl)
    (by simp [Json.find?_setFields hobj'])]
  constructor
  · rintro ⟨-, hdependencies, hissues, hchanges⟩
    refine ⟨hchangesLength ▸ hchanges, fun task kind ht hk => ?_, fun task ht => ?_⟩
    · obtain rfl := Option.some.inj (htask.symm.trans ht)
      obtain rfl := Json.str.inj (Option.some.inj (hkind.symm.trans hk))
      exact hissuesLength ▸ hissues
    · obtain rfl := Option.some.inj (htask.symm.trans ht)
      exact hdependenciesLength ▸ hdependencies
  · intro hroom
    exact ⟨not_lt.mp hlen, hdependenciesLength ▸ hroom.dependencies _ htask,
      hissuesLength ▸ hroom.issues _ _ htask hkind, hchangesLength ▸ hroom.changes⟩

theorem Composed.Of.withinBounds {task : Json} {c : Composed} (hc : c.Of index task) :
    WithinBounds (c.view index task) := by
  have hs := hc.saved wf
  have hlength : c.bound.length ≤ kMaxComponents := by
    rw [← hc.bound.length_eq]
    exact (length_selection wf hc.subjects).trans (by decide)
  have hchanges : (c.view index task).find? "changes" = none := by
    rw [c.view_find? task (by simp)]
    simp [composeView]
  have hissues : (c.parts index task).issues.length ≤ kMaxComponents := by
    simp only [Composed.parts]
    split <;> simp
  simp only [WithinBounds, boundedKeys, List.forall_mem_cons, hs.components, hs.dependencies, hs.issues,
    hchanges, List.not_mem_nil, false_implies, implies_true, and_true, Option.some.injEq, forall_eq',
    reduceCtorEq, Json.isArray, Json.size, true_and]
  exact ⟨by simpa [Composed.parts, Composed.components] using hlength,
    by simpa [Composed.parts, Composed.dependencies] using hlength, hissues⟩

end

/-- **A reconciled view is within the bounds of its input exactly when there was room**, and a chain
whose every step finds room stays within them. -/
theorem reconcile_bounded_iff [Platform] :
    (∀ model view view' index, indexModel model = .ok index → reconcileView model view = .ok view' →
      (WithinBounds view' ↔ Room index view)) ∧
    ∀ n models task views, Chain n models task views →
      (∀ i < n, ∀ index, indexModel (models (i + 1)) = .ok index → Room index (views i)) →
      ∀ i ≤ n, WithinBounds (views i) := by
  have hstep : ∀ model view view' index, indexModel model = .ok index →
      reconcileView model view = .ok view' → (WithinBounds view' ↔ Room index view) := by
    intro model view view' index hindex h
    simp only [reconcileView, hindex, ok_bind] at h
    exact reconcileViewImpl_bounded_iff (indexModel_eq_ok.mp hindex).2 h
  refine ⟨hstep, fun n models task views hchain hroom i hi => ?_⟩
  cases i with
  | zero =>
    have hfirst := hchain.first
    simp only [resolveTask, bind_eq_ok] at hfirst
    obtain ⟨index, hindex, hview⟩ := hfirst
    obtain ⟨c, hc, hview⟩ := resolveTaskImpl_eq_ok.mp hview
    rw [hview]
    exact hc.withinBounds (indexModel_eq_ok.mp hindex).2
  | succ i =>
    have hnext := hchain.next i hi
    have hread := hnext
    simp only [reconcileView, bind_eq_ok] at hread
    obtain ⟨index, hindex, -⟩ := hread
    exact (hstep _ _ _ _ hindex hnext).mpr (hroom i hi index hindex)

/-! ### A view that outgrows its bounds -/

section samples

local instance boundsPlatform : Platform := samplePlatform

instance (view : Json) : Decidable (WithinBounds view) :=
  decidable_of_iff (∀ key ∈ boundedKeys, (view.find? key).all fun v =>
    v.isArray && decide (v.size ≤ kMaxComponents)) (by
      unfold WithinBounds
      refine forall₂_congr fun key _ => ?_
      cases view.find? key <;> simp)

/-- A chain of revisions that change nothing finds room. -/
theorem reconcile_bounded_steady :
    ∀ i ≤ 1, WithinBounds (viewsOf steadyModels alarmsTask i) := by
  refine reconcile_bounded_iff.2 1 steadyModels alarmsTask _ steady_chain fun i hi index hindex => ?_
  obtain rfl : i = 0 := by omega
  exact (reconcile_bounded_iff.1 _ _ _ _ hindex (steady_chain.next 0 (by omega))).mp (by decide +kernel)

/-- A view of the tank that keeps as many changes as it may, and records a tag that is gone. -/
def fullView : Json := .object [("task", alarmsTask), ("components", .arr []),
  ("dependencies", .arr [.object [("tag_id", .str "pressure")]]),
  ("changes", .arr ((List.range kMaxComponents).map fun i =>
    .object [("kind", .str "conflict"), ("current_fingerprint", .str (Bytes.decimal i))]))]

/-- Reconciling it adds one change, and the result is too large to be reconciled. -/
theorem reconcile_outgrows :
    indexModel (steadyModels 0) = .ok (indexOf (steadyModels 0)) ∧ WithinBounds fullView ∧
      ∃ view', reconcileView (steadyModels 0) fullView = .ok view' ∧ ¬ WithinBounds view' := by
  refine ⟨indexModel_eq (by decide +kernel),
    by simp [WithinBounds, boundedKeys, fullView, Json.isArray, Json.size], ?_⟩
  obtain ⟨view', hview, hgrown⟩ := exists_ok_of_any (x := reconcileView (steadyModels 0) fullView)
    (fun view' => decide (¬ WithinBounds view')) (by decide +kernel)
  exact ⟨view', hview, of_decide_eq_true hgrown⟩

end samples

end ContextHmi
