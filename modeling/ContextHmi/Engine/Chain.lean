import ContextHmi.Engine.Rebinding

/-!
# Chains of model revisions

A view composed for a task and then reconciled with one revision of its model after another. Every
state of the chain is sound, and its bindings are a ledger that each reconciliation steps: a blocked
component stays blocked, and one that is not blocked has been renewed at every revision, each time
with a binding and a definition `==` to the last.

* `Chain.run` : a chain runs its ledger;
* `Chain.no_silent_rebinding` : what follows for its components, its statuses and their bindings.
-/

namespace ContextHmi

open Outcome

/-! ### The ledger of a view -/

/-- The binding of each component id of a view. -/
def ledger (subjects : List Subject) (components : List Json) : Ledger.State Bytes Subject :=
  fun x => match components.find? fun c => fieldOf c "id" = x with
    | none => .absent
    | some c =>
      if Blocked c then .blocked
      else match subjects.find? fun s => s.id = x with
        | some s => .held s
        | none => .blocked

theorem ledger_absent {subjects : List Subject} {components : List Json} {x : Bytes} :
    ledger subjects components x = .absent ↔ x ∉ components.map (fieldOf · "id") := by
  have hiff := Assoc.findKey_isSome_iff (fieldOf · "id") (l := components) (k := x)
  unfold ledger
  cases hfind : components.find? fun c => decide (fieldOf c "id" = x) with
  | none => simpa [hfind] using hiff
  | some c =>
    rw [hfind] at hiff
    have hmem := hiff.mp rfl
    simp only [hmem, not_true_eq_false, iff_false]
    split_ifs
    · simp
    · split <;> simp

theorem exists_component {subjects : List Subject} {components : List Json} {x : Bytes}
    (hx : ledger subjects components x ≠ .absent) : ∃ c ∈ components, fieldOf c "id" = x := by
  rw [ne_eq, ledger_absent, not_not] at hx
  exact List.mem_map.mp hx

section chains

variable [Platform]

section
variable {index : ModelIndex} {task₀ view : Json} {subjects : List Subject}
  {components dependencies : List Json}
  (h : Sound index task₀ subjects components dependencies view)
  (hnodup : (subjects.map (·.id)).Nodup)
include h hnodup

theorem Sound.ledger_of_component {c : Json} (hc : c ∈ components) :
    (Blocked c → ledger subjects components (fieldOf c "id") = .blocked) ∧
    (¬ Blocked c → ∃ s ∈ subjects, s.component index = .ok c ∧
      ledger subjects components (fieldOf c "id") = .held s) := by
  have hfind : (components.find? fun b => fieldOf b "id" = fieldOf c "id") = some c :=
    (Assoc.findKey_eq_some_iff (fieldOf · "id") h.nodup).mpr ⟨hc, rfl⟩
  refine ⟨fun hb => by simp only [ledger, hfind, if_pos hb], fun hb => ?_⟩
  obtain ⟨s, hs, hcomp, -⟩ := h.held c hc hb
  have hsfind : (subjects.find? fun t => t.id = fieldOf c "id") = some s :=
    (Assoc.findKey_eq_some_iff Subject.id hnodup).mpr
      ⟨hs, (fieldOf_eq (Subject.component_shows hcomp).id).symm⟩
  exact ⟨s, hs, hcomp, by simp only [ledger, hfind, if_neg hb, hsfind]⟩

end

/-- **A reconciliation steps the ledger.** -/
theorem Reconciled.step {index index' : ModelIndex} {task₀ view view' : Json}
    {subjects : List Subject} {components dependencies : List Json} {kind anchor : Bytes}
    {roles : List Bytes} (r : Reconciled index' task₀ components dependencies view view')
    (wf : index.WellFormed) (wf' : index'.WellFormed)
    (hs : Sound index task₀ subjects components dependencies view)
    (hsel : selection index kind anchor roles = .ok subjects)
    (hsel' : selection index' kind anchor roles = .ok r.composed.subjects) :
    Ledger.Step (fun x => r.composed.subjects.find? fun s => s.id = x) Subject.Same
      (ledger subjects components)
      (ledger r.composed.subjects
        (keptComponents r.findings r.composed.components components)) := by
  have hmem : ∀ s ∈ subjects, s.Selected index kind anchor roles := fun s =>
    (mem_selection wf hsel).mp
  have hmem' : ∀ s, s ∈ r.composed.subjects ↔ s.Selected index' kind anchor roles := fun s =>
    mem_selection wf' hsel'
  have hsound := r.sound wf wf' hs hmem hmem'
  have hnodup := nodup_selection wf hsel
  have hnodup' := nodup_selection wf' hsel'
  have hkeep : ∀ c ∈ components, kept r.findings r.composed.components c ∈
      keptComponents r.findings r.composed.components components := fun c hc =>
    List.mem_append_left _ (List.mem_map_of_mem hc)
  have hid := fun c (hc : c ∈ components) => r.kept_id wf wf' hs hmem hmem' hc
  refine ⟨fun x hx => ?_, fun x hx => ?_, fun x s hx => ?_, fun x s s' hx hx' => ?_⟩
  · obtain ⟨c, hc, rfl⟩ := exists_component (by rw [hx]; simp)
    have hblocked : Blocked c := by
      by_contra hb
      obtain ⟨s, -, -, hheld⟩ := (hs.ledger_of_component hnodup hc).2 hb
      rw [hx] at hheld
      cases hheld
    rcases r.kept_cases wf wf' hs hmem hmem' hc with ⟨-, -, hkept⟩ | ⟨hfree, -⟩
    · rw [← hid c hc]
      exact (hsound.ledger_of_component hnodup' (hkeep c hc)).1 hkept
    · exact absurd hblocked hfree
  · rw [ne_eq, ledger_absent, not_not, r.keptComponents_ids wf wf' hs hmem hmem']
    obtain ⟨c, hc, rfl⟩ := exists_component hx
    exact List.mem_append_left _ (List.mem_map_of_mem hc)
  · unfold ledger at hx
    split at hx
    · cases hx
    · split_ifs at hx
      split at hx
      · cases hx
        assumption
      · cases hx
  · obtain ⟨c, hc, rfl⟩ := exists_component (by rw [hx]; simp)
    rcases r.kept_cases wf wf' hs hmem hmem' hc with ⟨-, -, hkept⟩ |
      ⟨hfree, t, ht, hcomp, t', ht', hsame, hcomp', -⟩
    · have hbl := (hsound.ledger_of_component hnodup' (hkeep c hc)).1 hkept
      rw [hid c hc, hx'] at hbl
      cases hbl
    · obtain ⟨u, hu, hucomp, hheld⟩ := (hs.ledger_of_component hnodup hc).2 hfree
      obtain rfl : s = u := by simpa [hx] using hheld
      have hshown' := Subject.component_shows hcomp'
      obtain ⟨u', hu', hucomp', hheld'⟩ :=
        (hsound.ledger_of_component hnodup' (hkeep c hc)).2 hshown'.not_blocked
      rw [hid c hc, hx'] at hheld'
      obtain rfl : s' = u' := by simpa using hheld'
      -- a component id has one subject on either side
      have hst : s = t := List.inj_on_of_nodup_map hnodup hu ht (by
        rw [← fieldOf_eq (Subject.component_shows hucomp).id,
          ← fieldOf_eq (Subject.component_shows hcomp).id])
      have hst' : s' = t' := List.inj_on_of_nodup_map hnodup' hu' ht' (by
        rw [← fieldOf_eq (Subject.component_shows hucomp').id, ← fieldOf_eq hshown'.id])
      exact hst ▸ hst' ▸ hsame

/-! ### Chains -/

/-- A task's view and its reconciliations with the later revisions of a model. -/
structure Chain (n : ℕ) (models : ℕ → Json) (task : Json) (views : ℕ → Json) : Prop where
  first : resolveTask (models 0) task = .ok (views 0)
  next : ∀ i < n, reconcileView (models (i + 1)) (views i) = .ok (views (i + 1))
  sameModel : ∀ i ≤ n, (models i).find? "model_id" = (models 0).find? "model_id"

/-- The scope a task asks for. -/
structure HasScope (task : Json) (kind anchor : Bytes) (roles : List Bytes) : Prop where
  kind : task.find? "kind" = some (.str kind)
  anchor : taskAnchor task = .ok anchor
  roles : requestedRoles task = .ok roles

theorem Composed.Of.hasScope {index : ModelIndex} {task : Json} {c : Composed} (h : c.Of index task) :
    HasScope task c.kind c.anchor c.roles where
  kind := (checkTask_eq_ok h.kind).2
  anchor := by
    have hanchor := h.anchor
    rw [taskAnchor, effectiveTask_find? h.isObject (by simp)] at hanchor
    exact hanchor
  roles := by
    have hroles := h.roles
    rw [requestedRoles, effectiveTask_find? h.isObject (by simp)] at hroles
    exact hroles

/-- What a state of a chain is made of. -/
structure Snapshot where
  index : ModelIndex
  subjects : List Subject
  components : List Json
  dependencies : List Json

structure Snapshot.Of (kind anchor : Bytes) (roles : List Bytes) (task model view : Json)
    (st : Snapshot) : Prop where
  index : indexModel model = .ok st.index
  subjects : selection st.index kind anchor roles = .ok st.subjects
  sound : Sound st.index task st.subjects st.components st.dependencies view

namespace Snapshot

variable {kind anchor : Bytes} {roles : List Bytes} {task model model' view view' : Json}
  {st st' : Snapshot}

theorem Of.wf (h : st.Of kind anchor roles task model view) : st.index.WellFormed :=
  indexModel_wellFormed h.index

theorem Of.unique (h : st.Of kind anchor roles task model view)
    (h' : st'.Of kind anchor roles task model view) :
    st.subjects = st'.subjects ∧ st.components = st'.components := by
  have hindex : st.index = st'.index := Except.ok.inj (h.index.symm.trans h'.index)
  refine ⟨Except.ok.inj (h.subjects.symm.trans (hindex ▸ h'.subjects)), ?_⟩
  simpa using h.sound.hasComponents.symm.trans h'.sound.hasComponents

/-- The bindings of the state. -/
def ledger (st : Snapshot) : Ledger.State Bytes Subject :=
  ContextHmi.ledger st.subjects st.components

/-- What the model of the state declares under a component id. -/
def declared (st : Snapshot) (x : Bytes) : Option Subject := st.subjects.find? fun s => s.id = x

/-- The scope of a task, as its first view was composed. -/
structure Scope (kind anchor : Bytes) (roles : List Bytes) (task : Json) : Prop where
  asked : HasScope task kind anchor roles
  fixed : ∀ {index : ModelIndex} {task' : Json} {c : Composed}, c.Of index task' →
    taskScope task' = taskScope task → c.kind = kind ∧ c.anchor = anchor ∧ c.roles = roles

theorem Of.next (hscope : Scope kind anchor roles task)
    (h : st.Of kind anchor roles task model view)
    (hnext : reconcileView model' view = .ok view') :
    ∃ st' : Snapshot, st'.Of kind anchor roles task model' view' ∧
      Ledger.Step st'.declared Subject.Same st.ledger st'.ledger ∧
      (fieldOf view "status" = "conflict" → fieldOf view' "status" = "conflict") := by
  simp only [reconcileView, bind_eq_ok] at hnext
  obtain ⟨index', hindex', himpl⟩ := hnext
  have wf' := indexModel_wellFormed hindex'
  obtain ⟨r⟩ := reconcileViewImpl_parts wf' h.sound himpl
  have hsel' : selection index' kind anchor roles = .ok r.composed.subjects := by
    obtain ⟨hk, ha, hr⟩ := hscope.fixed r.of r.scope
    rw [← hk, ← ha, ← hr]
    exact r.of.subjects
  have hsound := r.sound h.wf wf' h.sound (fun s => (mem_selection h.wf h.subjects).mp)
    (fun s => mem_selection wf' hsel')
  refine ⟨⟨index', r.composed.subjects, _, _⟩, ⟨hindex', hsel', hsound⟩,
    r.step h.wf wf' h.sound h.subjects hsel', fun hconf => ?_⟩
  rw [fieldOf_eq r.hasStatus] at hconf
  have hprior := r.prior_of_status hconf
  rw [fieldOf_eq (r.hasStatus' wf'), reconciledStatus_conflict (.inr hprior)]

end Snapshot

namespace Chain

variable {n : ℕ} {models views : ℕ → Json} {task : Json} (chain : Chain n models task views)
include chain

theorem snapshots : ∃ kind anchor roles, Snapshot.Scope kind anchor roles task ∧
    ∃ st : ℕ → Snapshot, ∀ i ≤ n, (st i).Of kind anchor roles task (models i) (views i) := by
  obtain ⟨index, hindex, himpl⟩ := bind_eq_ok.mp chain.first
  obtain ⟨c, hc, hview⟩ := resolveTaskImpl_eq_ok.mp himpl
  have hscope : Snapshot.Scope c.kind c.anchor c.roles task :=
    ⟨hc.hasScope, fun hc' h => hc'.scope_eq hc h⟩
  refine ⟨c.kind, c.anchor, c.roles, hscope, ?_⟩
  have hall : ∀ i, ∃ st : Snapshot, i ≤ n → st.Of c.kind c.anchor c.roles task (models i)
      (views i) := by
    intro i
    induction i with
    | zero =>
      exact ⟨⟨index, c.subjects, c.components, c.dependencies⟩, fun _ =>
        ⟨hindex, hc.subjects, hview ▸ hc.sound (indexModel_wellFormed hindex)⟩⟩
    | succ i ih =>
      obtain ⟨st, hst⟩ := ih
      by_cases hi : i + 1 ≤ n
      · obtain ⟨st', hst', -⟩ := (hst (by omega)).next hscope (chain.next i hi)
        exact ⟨st', fun _ => hst'⟩
      · exact ⟨st, fun h => absurd h hi⟩
  choose st hst using hall
  exact ⟨st, hst⟩

/-- **A chain runs its ledger of bindings.** -/
theorem run {kind anchor : Bytes} {roles : List Bytes}
    (hscope : Snapshot.Scope kind anchor roles task) {st : ℕ → Snapshot}
    (hst : ∀ i ≤ n, (st i).Of kind anchor roles task (models i) (views i)) :
    Ledger.Run (fun i => (st i).declared) Subject.Same n fun i => (st i).ledger := by
  refine ⟨fun x s hx => ?_, fun i hi => ?_⟩
  · simp only [Snapshot.ledger, ledger] at hx
    split at hx
    · cases hx
    · split_ifs at hx
      split at hx
      · cases hx
        assumption
      · cases hx
  · obtain ⟨st', hst', hstep, -⟩ := (hst i (by omega)).next hscope (chain.next i hi)
    obtain ⟨hsub, hcomp⟩ := hst'.unique (hst (i + 1) hi)
    have hdeclared : st'.declared = (st (i + 1)).declared := by
      funext x
      rw [Snapshot.declared, hsub, Snapshot.declared]
    have hledger : st'.ledger = (st (i + 1)).ledger := by
      rw [Snapshot.ledger, hsub, hcomp, Snapshot.ledger]
    exact hdeclared ▸ hledger ▸ hstep

theorem conflict_holds {i j : ℕ} (hij : i ≤ j) (hj : j ≤ n)
    (h : fieldOf (views i) "status" = "conflict") : fieldOf (views j) "status" = "conflict" := by
  obtain ⟨kind, anchor, roles, hscope, st, hst⟩ := chain.snapshots
  induction j, hij using Nat.le_induction with
  | base => exact h
  | succ j _ ih =>
    obtain ⟨-, -, -, hstatus⟩ := (hst j (by omega)).next hscope (chain.next j hj)
    exact hstatus (ih (by omega))

end Chain

/-! ### No silent rebinding -/

/-- A component of a view. -/
def HasComponent (view c : Json) : Prop :=
  ∃ components, view.find? "components" = some (.arr components) ∧ c ∈ components

/-- The component's id is first shown by the `k`-th view. -/
def FirstShown (views : ℕ → Json) (c : Json) (k : ℕ) : Prop :=
  (∃ c', HasComponent (views k) c' ∧ fieldOf c' "id" = fieldOf c "id") ∧
    ∀ l < k, ∀ c', HasComponent (views l) c' → fieldOf c' "id" ≠ fieldOf c "id"

/-- Two models declare what a component is bound to alike: its tag with equal binding snapshots and,
for an alarm component, its alarm with equal definition snapshots. -/
def DeclaredAlike (model model' c : Json) : Prop :=
  ∃ index index', indexModel model = .ok index ∧ indexModel model' = .ok index' ∧
    (∃ tag tag', index.tag? (fieldOf c "tag_id") = some tag ∧
      index'.tag? (fieldOf c "tag_id") = some tag' ∧
      (tagBindingSnapshot tag).eqv (tagBindingSnapshot tag') = true) ∧
    (c.contains "alarm_id" = true → ∃ alarm alarm',
      index.alarm? (fieldOf c "alarm_id") = some alarm ∧
      index'.alarm? (fieldOf c "alarm_id") = some alarm' ∧
      (alarmDefinitionSnapshot alarm).eqv (alarmDefinitionSnapshot alarm') = true)

/-- The threshold a model declares for an alarm in the scope of a task. -/
def thresholdIn (task model : Json) (alarmId : Bytes) (threshold : Json) : Prop :=
  ∃ index kind anchor roles subject alarm, indexModel model = .ok index ∧
    HasScope task kind anchor roles ∧ Subject.Selected index kind anchor roles subject ∧
    subject.alarm = some alarm ∧ alarm.id = alarmId ∧ alarm.threshold = threshold

/-- No threshold in the scope of the task drifts: through revisions each of which declares it `==` to
the one before, it stays `==` to the first. -/
def NoDrift (n : ℕ) (models : ℕ → Json) (task : Json) : Prop :=
  ∀ k i, k ≤ i → i ≤ n → ∀ (alarmId : Bytes) (threshold : ℕ → Json),
    (∀ j, k ≤ j → j ≤ i → thresholdIn task (models j) alarmId (threshold j)) →
    (∀ j, k ≤ j → j < i → (threshold j).eqv (threshold (j + 1)) = true) →
    (threshold k).eqv (threshold i) = true

namespace Snapshot

variable {kind anchor : Bytes} {roles : List Bytes} {task model view : Json} {st : Snapshot}

theorem Of.hasComponent (h : st.Of kind anchor roles task model view) {c : Json} :
    HasComponent view c ↔ c ∈ st.components := by
  constructor
  · rintro ⟨components, hcomponents, hc⟩
    rw [h.sound.hasComponents] at hcomponents
    simp only [Option.some.injEq, Json.arr.injEq] at hcomponents
    exact hcomponents ▸ hc
  · exact fun hc => ⟨_, h.sound.hasComponents, hc⟩

theorem Of.nodup (h : st.Of kind anchor roles task model view) : (st.subjects.map (·.id)).Nodup :=
  nodup_selection h.wf h.subjects

theorem Of.selected (h : st.Of kind anchor roles task model view) {x : Bytes} {s : Subject}
    (hx : st.declared x = some s) : s.Selected st.index kind anchor roles ∧ s.id = x := by
  obtain ⟨hs, hid⟩ := (Assoc.findKey_eq_some_iff Subject.id h.nodup).mp hx
  exact ⟨(mem_selection h.wf h.subjects).mp hs, hid⟩

end Snapshot

namespace Chain

variable {n : ℕ} {models views : ℕ → Json} {task : Json} (chain : Chain n models task views)
include chain

omit [Platform] chain in
theorem same_between {s : ℕ → Subject} {k i : ℕ} (hki : k ≤ i)
    (hsame : ∀ j, k ≤ j → j < i → (s j).Same (s (j + 1))) :
    (s k).tag.id = (s i).tag.id ∧
      (tagBindingSnapshot (s k).tag).eqv (tagBindingSnapshot (s i).tag) = true ∧
      ∀ a, (s k).alarm = some a → ∃ b, (s i).alarm = some b ∧ a.id = b.id ∧
        a.name = b.name ∧ a.operator = b.operator ∧ a.assetId = b.assetId ∧
        a.severity = b.severity ∧ a.tagId = b.tagId := by
  induction i, hki using Nat.le_induction with
  | base => exact ⟨rfl, by simp [tagBindingSnapshot_eqv], fun a ha => ⟨a, ha, by simp⟩⟩
  | succ i hki ih =>
    obtain ⟨hid, hbind, halarm⟩ := ih fun j hj hji => hsame j hj (by omega)
    have hlast := hsame i hki (by omega)
    refine ⟨hid.trans hlast.tagId, ?_, fun a ha => ?_⟩
    · have hbind' := hlast.binding
      rw [tagBindingSnapshot_eqv] at hbind hbind' ⊢
      obtain ⟨h₁, h₂, h₃, h₄, h₅⟩ := hbind
      obtain ⟨g₁, g₂, g₃, g₄, g₅⟩ := hbind'
      exact ⟨h₁.trans g₁, h₂.trans g₂, h₃.trans g₃, h₄.trans g₄, h₅.trans g₅⟩
    · obtain ⟨b, hb, h₀, h₁, h₂, h₃, h₄, h₅⟩ := halarm a ha
      obtain ⟨b', hb', g₀, hdef⟩ := hlast.alarm b hb
      obtain ⟨g₁, g₂, g₃, g₄, g₅, -⟩ := alarmDefinitionSnapshot_eqv.mp hdef
      exact ⟨b', hb', h₀.trans g₀, h₁.trans g₁, h₂.trans g₂, h₃.trans g₃, h₄.trans g₄, h₅.trans g₅⟩

omit chain in
theorem threshold_between (hdrift : NoDrift n models task) {kind anchor : Bytes} {roles : List Bytes}
    (hscope : HasScope task kind anchor roles) {st : ℕ → Snapshot}
    (hst : ∀ i ≤ n, (st i).Of kind anchor roles task (models i) (views i))
    {x : Bytes} {s : ℕ → Subject} {k j : ℕ} (hkj : k ≤ j) (hj : j ≤ n)
    (hdecl : ∀ l, k ≤ l → l ≤ j → (st l).declared x = some (s l))
    (hsame : ∀ l, k ≤ l → l < j → (s l).Same (s (l + 1))) {a b : Alarm}
    (ha : (s k).alarm = some a) (hb : (s j).alarm = some b) :
    a.threshold.eqv b.threshold = true := by
  have halarms : ∀ l, k ≤ l → l ≤ j → ∃ c, (s l).alarm = some c ∧ c.id = a.id := by
    intro l hkl hlj
    obtain ⟨-, -, halarm⟩ := same_between hkl fun m hkm hml => hsame m hkm (by omega)
    obtain ⟨c, hc, hid, -⟩ := halarm a ha
    exact ⟨c, hc, hid.symm⟩
  have hdrift' := hdrift k j hkj hj a.id fun l => ((s l).alarm.map (·.threshold)).getD .null
  simp only [ha, hb, Option.map_some, Option.getD_some] at hdrift'
  refine hdrift' (fun l hkl hlj => ?_) (fun l hkl hlj => ?_)
  · obtain ⟨c, hc, hid⟩ := halarms l hkl hlj
    have hl : l ≤ n := hlj.trans hj
    obtain ⟨hsel, -⟩ := (hst l hl).selected (hdecl l hkl hlj)
    exact ⟨_, kind, anchor, roles, s l, c, (hst l hl).index, hscope, hsel, hc, hid, by rw [hc]; rfl⟩
  · obtain ⟨c, hc, -⟩ := halarms l hkl hlj.le
    obtain ⟨d, hd, -, hdef⟩ := (hsame l hkl hlj).alarm c hc
    rw [hc, hd]
    exact (alarmDefinitionSnapshot_eqv.mp hdef).2.2.2.2.2

/-- Where no threshold drifts, a component that is not blocked is bound to what every revision since
its first view declares alike. -/
theorem declaredAlike (hdrift : NoDrift n models task) {i : ℕ} (hi : i ≤ n) {c : Json}
    (hc : HasComponent (views i) c) (hfree : ¬ Blocked c) {k : ℕ} (hk : FirstShown views c k)
    {j : ℕ} (hkj : k ≤ j) (hji : j ≤ i) : DeclaredAlike (models k) (models j) c := by
  have hj : j ≤ n := hji.trans hi
  have hkn : k ≤ n := hkj.trans hj
  obtain ⟨kind, anchor, roles, hscope, st, hst⟩ := chain.snapshots
  have run := chain.run hscope hst
  have hmem := (hst i hi).hasComponent.mp hc
  obtain ⟨s, hs, hcomp, hheld⟩ := ((hst i hi).sound.ledger_of_component (hst i hi).nodup hmem).2 hfree
  obtain ⟨⟨c', hc', hid'⟩, -⟩ := hk
  have hknown : (st k).ledger (fieldOf c "id") ≠ .absent := by
    rw [Snapshot.ledger, ne_eq, ledger_absent, not_not, ← hid']
    exact List.mem_map_of_mem ((hst k hkn).hasComponent.mp hc')
  obtain ⟨t, ht, hsame⟩ := run.held_between hi hknown hheld
  -- the subject held now is the last of the chain
  have hti : t i = s := by
    have hdecl := (run.declares hi hheld).symm.trans (ht i (hkj.trans hji) le_rfl)
    simpa using hdecl.symm
  obtain ⟨hselk, -⟩ := (hst k hkn).selected (ht k le_rfl (hkj.trans hji))
  obtain ⟨hselj, -⟩ := (hst j hj).selected (ht j hkj hji)
  obtain ⟨hidkj, hbindkj, halarmkj⟩ := same_between hkj fun l hl hlj => hsame l hl (hlj.trans_le hji)
  obtain ⟨hidki, -, halarmki⟩ := same_between (hkj.trans hji) hsame
  have hshown := Subject.component_shows hcomp
  obtain ⟨hsel, -⟩ := (hst i hi).selected (run.declares hi hheld)
  have hbound := hshown.boundOf_eq (hsel.proper (hst i hi).wf)
  have htagId : fieldOf c "tag_id" = (t k).tag.id := by
    rw [hidki, hti]
    exact congrArg Bound.tagId hbound
  have halarmId : fieldOf c "alarm_id" = s.alarmId := congrArg Bound.alarmId hbound
  refine ⟨_, _, (hst k hkn).index, (hst j hj).index,
    ⟨(t k).tag, (t j).tag, ?_, ?_, hbindkj⟩, fun hcontains => ?_⟩
  · rw [(hst k hkn).wf.tag?_eq_some]
    exact ⟨hselk.tag, htagId.symm⟩
  · rw [(hst j hj).wf.tag?_eq_some]
    exact ⟨hselj.tag, (htagId.trans hidkj).symm⟩
  · obtain ⟨v, hv⟩ := Json.contains_eq_true.mp hcontains
    rw [hshown.alarmId] at hv
    obtain ⟨a, ha, -⟩ := Option.map_eq_some_iff.mp hv
    have hkind : (t k).alarm.isSome = true := by
      have hki := hselk.kind
      have hii := hsel.kind
      split at hki
      · rw [if_pos (by assumption)] at hii
        rw [hii] at ha
        cases ha
      · exact hki
    obtain ⟨ak, hak⟩ := Option.isSome_iff_exists.mp hkind
    obtain ⟨aj, haj, hidj, hname, hop, howner, hsev, htag⟩ := halarmkj ak hak
    obtain ⟨ai, hai, hidi, -⟩ := halarmki ak hak
    obtain rfl : a = ai := by simpa [hti, ha] using hai
    have hfield : fieldOf c "alarm_id" = ak.id := by
      rw [halarmId, Subject.alarmId, ha]
      exact hidi.symm
    have hfindk : (st k).index.alarm? (fieldOf c "alarm_id") = some ak :=
      (hst k hkn).wf.alarm?_eq_some.mpr ⟨(hselk.alarm ak hak).1, hfield.symm⟩
    have hfindj : (st j).index.alarm? (fieldOf c "alarm_id") = some aj :=
      (hst j hj).wf.alarm?_eq_some.mpr
        ⟨(hselj.alarm aj haj).1, (hfield.trans hidj).symm⟩
    refine ⟨ak, aj, hfindk, hfindj, ?_⟩
    rw [alarmDefinitionSnapshot_eqv]
    exact ⟨hname, hop, howner, hsev, htag, threshold_between hdrift hscope.asked hst hkj hj
      (fun l hkl hlj => ht l hkl (hlj.trans hji)) (fun l hkl hlj => hsame l hkl (hlj.trans_le hji))
      hak haj⟩

/-- **No silent rebinding.** Where no threshold in the task's scope drifts, a component that is not
blocked is bound to what every revision since its first view declares alike. On every chain, a blocked
component stays blocked, a conflict stays the status of the view, and a view with an unavailable
component is not ready. -/
theorem no_silent_rebinding :
    (NoDrift n models task → ∀ i ≤ n, ∀ c, HasComponent (views i) c → ¬ Blocked c →
      ∀ k ≤ i, FirstShown views c k → ∀ j, k ≤ j → j ≤ i →
        DeclaredAlike (models k) (models j) c) ∧
    (∀ i j, i ≤ j → j ≤ n → ∀ c, HasComponent (views i) c → Blocked c →
      (∃ c', HasComponent (views j) c' ∧ fieldOf c' "id" = fieldOf c "id") ∧
      ∀ c', HasComponent (views j) c' → fieldOf c' "id" = fieldOf c "id" → Blocked c') ∧
    (∀ i j, i ≤ j → j ≤ n → ∀ c, HasComponent (views i) c → fieldOf c "status" = "conflict" →
      fieldOf (views j) "status" = "conflict") ∧
    ∀ i ≤ n, ∀ c, HasComponent (views i) c → fieldOf c "status" = "unavailable" →
      fieldOf (views i) "status" ≠ "ready" := by
  obtain ⟨kind, anchor, roles, hscope, st, hst⟩ := chain.snapshots
  have run := chain.run hscope hst
  refine ⟨fun hdrift i hi c hc hfree k _ hk j hkj hji =>
    chain.declaredAlike hdrift hi hc hfree hk hkj hji, ?_, ?_, ?_⟩
  · intro i j hij hj c hc hblocked
    have hi : i ≤ n := hij.trans hj
    have hmem := (hst i hi).hasComponent.mp hc
    have hledger := ((hst i hi).sound.ledger_of_component (hst i hi).nodup hmem).1 hblocked
    have hlater := run.blocked_stays hij hj hledger
    have hknown : (st j).ledger (fieldOf c "id") ≠ .absent := by simp [hlater]
    obtain ⟨c', hc', hid⟩ := exists_component hknown
    refine ⟨⟨c', (hst j hj).hasComponent.mpr hc', hid⟩, fun b hb hidb => ?_⟩
    by_contra hfree
    obtain ⟨s, -, -, hheld⟩ := ((hst j hj).sound.ledger_of_component (hst j hj).nodup
      ((hst j hj).hasComponent.mp hb)).2 hfree
    rw [hidb] at hheld
    exact absurd (hlater.symm.trans hheld) (by simp)
  · intro i j hij hj c hc hconf
    obtain ⟨status, hstatus, -, hconflict, -⟩ := (hst i (hij.trans hj)).sound.status
    refine chain.conflict_holds hij hj ?_
    rw [fieldOf_eq hstatus]
    exact hconflict c ((hst i (hij.trans hj)).hasComponent.mp hc) hconf
  · intro i hi c hc hgone
    obtain ⟨status, hstatus, -, -, hready⟩ := (hst i hi).sound.status
    rw [fieldOf_eq hstatus]
    exact hready c ((hst i hi).hasComponent.mp hc) (by simp [Blocked, hgone, isBlocked])

end Chain

end chains

/-! ### Two chains -/

section samples

local instance : Platform := samplePlatform

def alarmsTask : Json := .object [("kind", .str "alarms"), ("model_revision", .uint 0),
  ("original_request", .str "alarms")]

/-- The views of a chain, computed. -/
def viewsOf (models : ℕ → Json) (task : Json) : ℕ → Json
  | 0 => (resolveTask (models 0) task).toOption.getD .null
  | i + 1 => (reconcileView (models (i + 1)) (viewsOf models task i)).toOption.getD .null

theorem viewsOf_zero {models : ℕ → Json} {task : Json}
    (h : (resolveTask (models 0) task).toOption.isSome = true) :
    resolveTask (models 0) task = .ok (viewsOf models task 0) := eq_ok_of_isSome h _

theorem viewsOf_succ {models : ℕ → Json} {task : Json} (i : ℕ)
    (h : (reconcileView (models (i + 1)) (viewsOf models task i)).toOption.isSome = true) :
    reconcileView (models (i + 1)) (viewsOf models task i) = .ok (viewsOf models task (i + 1)) :=
  eq_ok_of_isSome h _

/-- Some component of a view passes a test. -/
def anyComponent (view : Json) (p : Json → Bool) : Bool :=
  match view.find? "components" with
  | some (.arr components) => components.any p
  | _ => false

theorem exists_of_anyComponent (view : Json) (p : Json → Bool) (h : anyComponent view p = true) :
    ∃ c, HasComponent view c ∧ p c = true := by
  unfold anyComponent at h
  split at h
  · obtain ⟨c, hc, hp⟩ := List.any_eq_true.mp h
    exact ⟨c, ⟨_, by assumption, hc⟩, hp⟩
  · cases h

/-- The test of an alarm component that is not blocked. -/
def isLiveAlarm (c : Json) : Bool :=
  !isBlocked (fieldOf c "status") && fieldOf c "id" == "high" && c.contains "alarm_id" &&
    fieldOf c "alarm_id" == "high"

def steadyModels (i : ℕ) : Json := sampleModel (UInt64.ofNat i) (.int 80)

def isSteady : Json → Bool
  | .int n => n == 80
  | _ => false

theorem steadyModels_threshold {j : ℕ} (hj : j ≤ 1) {alarmId : Bytes} {τ : Json}
    (h : thresholdIn alarmsTask (steadyModels j) alarmId τ) : τ = .int 80 := by
  have hall : ∀ j < 2, ((indexModel (steadyModels j)).toOption.all fun index =>
      index.alarms.all fun alarm => isSteady alarm.threshold) = true := by
    decide +kernel
  obtain ⟨index, _, _, _, subject, alarm, hindex, -, hselected, halarm, -, rfl⟩ := h
  have hj := hall j (by omega)
  rw [hindex, toOption_ok, Option.all_some, List.all_eq_true] at hj
  have hthreshold := hj alarm (hselected.alarm alarm halarm).1
  unfold isSteady at hthreshold
  split at hthreshold
  · rename_i n hn
    rw [hn, eq_of_beq hthreshold]
  · cases hthreshold

theorem steadyModels_noDrift : NoDrift 1 steadyModels alarmsTask := by
  intro k i hki hi alarmId τ hτ _
  rw [steadyModels_threshold (hki.trans hi) (hτ k le_rfl hki),
    steadyModels_threshold hi (hτ i hki le_rfl)]
  decide

theorem steady_chain : Chain 1 steadyModels alarmsTask (viewsOf steadyModels alarmsTask) where
  first := viewsOf_zero (by decide +kernel)
  next i hi := by
    obtain rfl : i = 0 := by omega
    exact viewsOf_succ 0 (by decide +kernel)
  sameModel i hi := by
    interval_cases i <;> rfl

/-- A revision that changes nothing keeps the alarm bound to what it was. -/
theorem Chain.no_silent_rebinding_steady :
    ∃ c, HasComponent (viewsOf steadyModels alarmsTask 1) c ∧
      DeclaredAlike (steadyModels 0) (steadyModels 1) c := by
  obtain ⟨c, hc, hlive⟩ := exists_of_anyComponent (viewsOf steadyModels alarmsTask 1) isLiveAlarm
    (by decide +kernel)
  obtain ⟨c', hc', hid⟩ := exists_of_anyComponent (viewsOf steadyModels alarmsTask 0)
    (fun c => fieldOf c "id" == "high") (by decide +kernel)
  simp only [isLiveAlarm, Bool.and_eq_true, Bool.not_eq_true', beq_iff_eq] at hlive hid
  obtain ⟨⟨⟨hfree, hhigh⟩, -⟩, -⟩ := hlive
  refine ⟨c, hc, (Chain.no_silent_rebinding steady_chain).1 steadyModels_noDrift 1 le_rfl c hc
    (by simp [Blocked, hfree]) 0 (by omega) ⟨⟨c', hc', hid.trans hhigh.symm⟩, by simp⟩ 1 (by omega)
    le_rfl⟩

/-- A threshold of -1, then the unsigned number and the float that `==` makes of it one by one. -/
def driftModels : ℕ → Json
  | 0 => sampleModel 0 (.int (-1))
  | 1 => sampleModel 1 (.uint 18446744073709551615)
  | _ => sampleModel 2 (.float (.ofBits 0x43f0000000000000))

/-- The threshold of the sample's alarm. -/
def highThreshold (model : Json) : Option Json :=
  ((indexModel model).toOption.bind (·.alarm? "high")).map (·.threshold)

/-- A chain keeps an alarm that is not blocked while its threshold goes from -1 to 2^64: each step
compares with the revision before it only. -/
theorem Chain.threshold_rebound :
    Chain 2 driftModels alarmsTask (viewsOf driftModels alarmsTask) ∧
      ∃ c, HasComponent (viewsOf driftModels alarmsTask 2) c ∧ ¬ Blocked c ∧
        FirstShown (viewsOf driftModels alarmsTask) c 0 ∧
        ¬ DeclaredAlike (driftModels 0) (driftModels 2) c := by
  refine ⟨⟨viewsOf_zero (by decide +kernel), fun i hi => ?_, fun i hi => ?_⟩, ?_⟩
  · interval_cases i
    · exact viewsOf_succ 0 (by decide +kernel)
    · exact viewsOf_succ 1 (by decide +kernel)
  · interval_cases i <;> rfl
  obtain ⟨c, hc, hlive⟩ := exists_of_anyComponent (viewsOf driftModels alarmsTask 2) isLiveAlarm
    (by decide +kernel)
  obtain ⟨c', hc', hid⟩ := exists_of_anyComponent (viewsOf driftModels alarmsTask 0)
    (fun c => fieldOf c "id" == "high") (by decide +kernel)
  simp only [isLiveAlarm, Bool.and_eq_true, Bool.not_eq_true', beq_iff_eq] at hlive hid
  obtain ⟨⟨⟨hfree, hhigh⟩, hcontains⟩, halarmId⟩ := hlive
  refine ⟨c, hc, by simp [Blocked, hfree], ⟨⟨c', hc', hid.trans hhigh.symm⟩, by simp⟩, ?_⟩
  rintro ⟨index, index', hindex, hindex', -, halarm⟩
  obtain ⟨a, a', ha, ha', hdef⟩ := halarm hcontains
  rw [halarmId] at ha ha'
  have hdiffers : ((highThreshold (driftModels 0)).all fun τ =>
      (highThreshold (driftModels 2)).all τ.eqv) = false := by decide +kernel
  simp only [highThreshold, hindex, hindex', toOption_ok, Option.bind_some, ha, ha',
    Option.map_some, Option.all_some] at hdiffers
  rw [(alarmDefinitionSnapshot_eqv.mp hdef).2.2.2.2.2] at hdiffers
  cases hdiffers

end samples

end ContextHmi
