import ContextHmi.Runtime.ViewStore

/-!
# Updates of the saved views

`Runtime::reconcile` works on a copy of a view and commits where the stored view is `==` to it. That
alone does not say that nothing was written in between: a view could change and change back. It
cannot. Within a generation a view is only ever replaced by what it is reconciled to, and reconciling
settles; so the stored view is the one that was read, from the read to the commit.

* `orbit_back`          : a view that is `==` to what it was has not changed;
* `reconcile_atomic`    : a reconciliation that returns has replaced the view it read.
-/

namespace ContextHmi.Runtime.Views

open Outcome Interleave

section
variable [Platform]

/-! ### Reconciling in place -/

/-- The view is what the other one is reconciled to with the model of a snapshot, and kept as. -/
def Revised (service : Service) (σ : Snapshot) (view view' : Json) : Prop :=
  ∃ id revised, view.find? "view_id" = some (.str id) ∧
    reconcileView σ.model.json view = .ok revised ∧
    view' = stamped service id σ.generation revised

/-- Reconciled some number of times. -/
abbrev Orbit (service : Service) (σ : Snapshot) : Json → Json → Prop :=
  Relation.ReflTransGen (Revised service σ)

variable {service : Service} {constrained : Bool} {σ : Snapshot} {view view' : Json} {p : SavedParts}

theorem Revised.parts (hs : Saved view p) (h : Revised service σ view view') :
    p.task.isObject = true ∧ ∃ id fresh q, FreshFor σ.model.index fresh q ∧
      resolveTaskImpl σ.model.index (p.newTask σ.model.index) = .ok fresh ∧
      view' = stamped service id σ.generation
        (reconciledFrom fresh (p.next σ.model.index fresh)) ∧
      view.find? "view_id" = some (.str id) := by
  obtain ⟨id, revised, hid, hrevised, rfl⟩ := h
  rw [reconcileView_eq, hs.reconcileViewImpl_eq_ok σ.model.wellFormed (index_isText σ.model)]
    at hrevised
  obtain ⟨hfits, fresh, hfresh, -, rfl⟩ := hrevised
  obtain ⟨q, hq⟩ := resolveTaskImpl_fresh σ.model.wellFormed hfresh
  exact ⟨hfits.task, id, fresh, q, hq, hfresh, rfl, hid⟩

theorem Revised.saved (hs : Saved view p) (h : Revised service σ view view') :
    ∃ p', Saved view' p' := by
  obtain ⟨-, id, fresh, q, hq, -, rfl, -⟩ := h.parts hs
  exact ⟨_, saved_stamped (hs.next hq.saved) id _⟩

theorem Revised.find?_reconciled (hs : Saved view p) (h : Revised service σ view view') :
    view'.find? "reconciled" = some (.bool true) := by
  obtain ⟨-, id, fresh, q, hq, -, rfl, -⟩ := h.parts hs
  have hobj : (reconciledFrom fresh (p.next σ.model.index fresh)).isObject = true :=
    Json.isObject_setFields hq.saved.isObject _
  rw [stamped, Json.find?_setFields hobj, reconciledFrom, Json.find?_setFields hq.saved.isObject]
  simp

/-- A view that was reconciled is reconciled to something that stays, and that is `==` to it only
where it is the same. -/
theorem Revised.settles (hs : Saved view p) (h : Revised service σ view view') {next : Json}
    (hnext : Revised service σ view' next) :
    (next.eqv view' = true → next = view') ∧ ∀ last, Revised service σ next last → last = next := by
  obtain ⟨hobj, id, fresh, q, hq, hfresh, rfl, -⟩ := h.parts hs
  have hs₁ : Saved _ (p.next σ.model.index fresh) := hs.next hq.saved
  have hobj₁ : (p.next σ.model.index fresh).task.isObject = true := Json.isObject_setFields hobj _
  obtain ⟨-, id₁, fresh₁, q₁, hq₁, hfresh₁, rfl, hid₁⟩ := hnext.parts (saved_stamped hs₁ id σ.generation)
  rw [(find?_stamped hs₁.isObject id σ.generation).1, Option.some.injEq, Json.str.injEq] at hid₁
  subst hid₁
  have htask : (p.next σ.model.index fresh).newTask σ.model.index = p.newTask σ.model.index :=
    newTask_newTask hobj rfl
  rw [htask] at hfresh₁
  obtain rfl := Except.ok.inj (hfresh.symm.trans hfresh₁)
  have hs₂ : Saved _ ((p.next σ.model.index fresh).next σ.model.index fresh) := hs₁.next hq.saved
  refine ⟨fun hsame => ?_, fun last hlast => ?_⟩
  · rw [next_eq_of_eqv hs hq hobj (saved_stamped hs₁ id σ.generation)
      (saved_stamped hs₂ id σ.generation) hsame]
  · obtain ⟨-, id₂, fresh₂, q₂, hq₂, hfresh₂, rfl, hid₂⟩ :=
      hlast.parts (saved_stamped hs₂ id σ.generation)
    rw [(find?_stamped hs₂.isObject id σ.generation).1, Option.some.injEq, Json.str.injEq] at hid₂
    subst hid₂
    have htask₂ : ((p.next σ.model.index fresh).next σ.model.index fresh).newTask σ.model.index =
        (p.next σ.model.index fresh).newTask σ.model.index := newTask_newTask hobj₁ rfl
    rw [htask₂, htask] at hfresh₂
    obtain rfl := Except.ok.inj (hfresh.symm.trans hfresh₂)
    rw [next_next_next σ.model.wellFormed (index_isText σ.model) hs hq hobj]

/-- Where a saved view of a generation comes from: it was composed, or reconciled with the model of
the generation, or refused by it. -/
inductive Origin (service : Service) (σ : Snapshot) (view : Json) : Prop where
  | composed (p : SavedParts) (hs : Saved view p) (h : view.find? "reconciled" = none)
  | revised (before : Json) (p : SavedParts) (hs : Saved before p)
      (h : Revised service σ before view)
  | refused (h : ∀ view', ¬ Revised service σ view view')

theorem Orbit.of_revised {before : Json} (hs : Saved before p) (h : Revised service σ before view)
    {w : Json} (hw : Orbit service σ view w) :
    w = view ∨ Revised service σ view w ∧ ∀ last, Revised service σ w last → last = w := by
  induction hw with
  | refl => exact .inl rfl
  | tail _ hstep ih =>
    rcases ih with rfl | ⟨hview, hstays⟩
    · exact .inr ⟨hstep, (h.settles hs hstep).2⟩
    · obtain rfl := hstays _ hstep
      exact .inr ⟨hview, hstays⟩

theorem Orbit.saved (hs : Saved view p) {w : Json} (hw : Orbit service σ view w) :
    ∃ p', Saved w p' := by
  induction hw with
  | refl => exact ⟨p, hs⟩
  | tail _ hstep ih =>
    obtain ⟨p', hs'⟩ := ih
    exact hstep.saved hs'

/-- **A view that is `==` to what it was has not changed**, nor had it in between. -/
theorem orbit_back (h : Origin service σ view) {w w' : Json} (hw : Orbit service σ view w)
    (hw' : Orbit service σ w w') (hsame : w'.eqv view = true) : w = view ∧ w' = view := by
  cases h with
  | refused hnone =>
    rcases hw.cases_head with rfl | ⟨_, hstep, -⟩
    · rcases hw'.cases_head with rfl | ⟨_, hstep, -⟩
      · exact ⟨rfl, rfl⟩
      · exact (hnone _ hstep).elim
    · exact (hnone _ hstep).elim
  | composed p hs hcomposed =>
    have hno : ∀ {u v : Json}, Orbit service σ view u → Revised service σ u v →
        v.eqv view = true → False := by
      intro u v hu hstep hv
      obtain ⟨p', hs'⟩ := Orbit.saved hs hu
      obtain ⟨x, hx, -⟩ := Json.find?_of_eqv hv (hstep.find?_reconciled hs')
      rw [hcomposed] at hx
      cases hx
    rcases (hw.trans hw').cases_tail with rfl | ⟨u, hu, hstep⟩
    · rcases hw'.cases_tail with rfl | ⟨u, hu, hstep⟩
      · exact ⟨rfl, rfl⟩
      · exact (hno (hw.trans hu) hstep hsame).elim
    · exact (hno hu hstep hsame).elim
  | revised before p hs hbefore =>
    have hback : w' = view := by
      rcases Orbit.of_revised hs hbefore (hw.trans hw') with rfl | ⟨hstep, -⟩
      · rfl
      · exact (hbefore.settles hs hstep).1 hsame
    refine ⟨?_, hback⟩
    rcases Orbit.of_revised hs hbefore hw with rfl | ⟨-, hstays⟩
    · rfl
    · have hstay : ∀ {v : Json}, Orbit service σ w v → v = w := by
        intro v hv
        induction hv with
        | refl => rfl
        | tail _ hstep ih =>
          subst ih
          exact hstays _ hstep
      exact (hstay hw').symm.trans hback

theorem not_revised_refused {candidate : AcceptedModel} {generation generation' : Nat}
    {code details : Bytes} (hs : Saved view p)
    (h : reconcileView candidate.json view = .error (.domain code details)) :
    ¬ Revised service ⟨candidate, generation⟩ (refused view generation' details) view' := by
  rintro ⟨id, revised, -, hrevised, -⟩
  have hwf := candidate.wellFormed
  have htext := index_isText candidate
  rw [reconcileView_eq, (saved_refused hs _ _).reconcileViewImpl_eq_ok hwf htext] at hrevised
  obtain ⟨hfits, fresh, hfresh, hlength, -⟩ := hrevised
  have hmodel : (refused view generation' details).find? "model_id" = view.find? "model_id" := by
    simp [refused, Json.find?_setFields hs.isObject]
  have hissues : p.issues.length ≤ kMaxComponents := by
    have hall := hfits.issues
    rw [List.length_append] at hall
    omega
  have hok : ∃ revised, reconcileView candidate.json view = .ok revised := by
    refine ⟨reconciledFrom fresh (p.next candidate.index fresh), ?_⟩
    rw [reconcileView_eq, hs.reconcileViewImpl_eq_ok hwf htext]
    refine ⟨⟨hfits.task, hfits.components, hfits.dependencies, hissues, hfits.changes, fun v hv =>
      hfits.model v (hmodel.trans hv), hfits.taskModel⟩, fresh, hfresh, ?_, rfl⟩
    -- what is kept differs, not how much
    simpa [SavedParts.next, keptComponents] using hlength
  obtain ⟨revised', hrevised'⟩ := hok
  rw [h] at hrevised'
  cases hrevised'

/-! ### What a section does to a view -/

variable {s s' : Shared} {t t' : Thread} {c c' : Config Shared Thread}

/-- What a call knows of the view it read: while its generation is active, what is stored under the id
is what the view was reconciled to since. -/
def Held (service : Service) (c : Config Shared Thread) (view : Json) : Prop :=
  ∃ id generation, view.find? "view_id" = some (.str id) ∧ Spent service c id ∧
    view.find? "context_generation" = some (generationJson generation) ∧
    generation ≤ c.shared.generations.active.generation ∧
    (generation = c.shared.generations.active.generation →
      Origin service c.shared.generations.active view ∧
      ∀ stored, c.shared.views.find? id = some stored →
        Orbit service c.shared.generations.active view stored)

/-- The view a call works on. -/
def Thread.works : Thread → Option Json
  | .canonical view => some view
  | .revised view _ _ => some view
  | _ => none

/-- What holds of the updates of a run. -/
structure UpdatesSound (service : Service) (c : Config Shared Thread) : Prop where
  origins : ∀ id view, c.shared.views.find? id = some view →
    Origin service c.shared.generations.active view
  held : ∀ t ∈ c.threads, ∀ view, t.works = some view → Held service c view

omit [Platform] in
theorem generationJson_injective {n m : Nat} (hn : n < 2 ^ 64) (hm : m < 2 ^ 64)
    (h : (generationJson n).eqv (generationJson m) = true) : n = m := by
  have hsame : UInt64.ofNat n = UInt64.ofNat m := by simpa [generationJson, Json.eqv, Json.numberEqv] using h
  have hnat := congrArg UInt64.toNat hsame
  rwa [UInt64.toNat_ofNat_of_lt' hn, UInt64.toNat_ofNat_of_lt' hm] at hnat

/-- **A commit replaces the view that was read.** -/
theorem commit_exact (hsound : RunSound service constrained c) (hheld : Held service c view)
    {id : Bytes} {stored : Json} (hid : view.find? "view_id" = some (.str id))
    (hstored : c.shared.views.find? id = some stored) (hsame : stored.eqv view = true) :
    stored = view ∧ Origin service c.shared.generations.active view := by
  obtain ⟨id', generation, hid', -, hgeneration, hle, hcurrent⟩ := hheld
  obtain rfl : id = id' := by simpa using hid.symm.trans hid'
  have hkept := hsound.sound.kept id stored hstored
  obtain ⟨w, hw, heqv⟩ := Json.find?_of_eqv hsame hkept.generation
  obtain rfl := Option.some.inj (hgeneration.symm.trans hw)
  have hbounded := hsound.sound.bounded
  obtain ⟨horigin, horbit⟩ :=
    hcurrent (generationJson_injective hbounded (by omega) heqv).symm
  exact ⟨(orbit_back horigin (horbit stored hstored) .refl hsame).1, horigin⟩

/-- How a view that is stored after a section came to be. -/
inductive Written (service : Service) (s s' : Shared) (t : Thread) (id : Bytes) (view' : Json) :
    Prop where
  | kept (hg : s'.generations = s.generations) (h : s.views.find? id = some view')
  | new (hg : s'.generations = s.generations) (n : Nat) (hn : t.number? = some n)
      (hid : id = viewId service n) (h : Origin service s'.generations.active view')
  | revised (hg : s'.generations = s.generations) (view : Json)
      (h : s.views.find? id = some view)
      (hrevised : Revised service s.generations.active view view')
  | replaced (hg : s'.generations.active.generation = s.generations.active.generation + 1)
      (h : Origin service s'.generations.active view')

theorem Step.generations (h : Step service constrained s t s' t') :
    s'.generations = s.generations ∨
      s'.generations.active.generation = s.generations.active.generation + 1 := by
  cases h with
  | replaced => exact .inr rfl
  | _ => exact .inl rfl

theorem origin_composed {model : AcceptedModel} {task view : Json} {id : Bytes} {generation : Nat}
    (h : resolveTask model.json task = .ok view) :
    Origin service σ (stamped service id generation view) := by
  rw [resolveTask_eq] at h
  obtain ⟨p, hp⟩ := resolveTaskImpl_saved model.wellFormed h
  obtain ⟨composed, -, rfl⟩ := resolveTaskImpl_eq_ok.mp h
  refine .composed p (saved_stamped hp id generation) ?_
  rw [stamped, Json.find?_setFields hp.isObject, Composed.view_find? _ _ (by simp)]
  simp [composeView]

theorem Step.written (h : Step service constrained s t s' t') (hs : Sound s)
    (hwf : s.views.WellFormed (maximumSavedViews constrained)) (ht : ThreadKept s.generations t)
    (hexact : ∀ view, t.works = some view → ∀ id stored, view.find? "view_id" = some (.str id) →
      s.views.find? id = some stored → stored.eqv view = true → stored = view)
    {id : Bytes} (hview : s'.views.find? id = some view') : Written service s s' t id view' := by
  cases h with
  | @inserted caller σ n view kept hactive hkept =>
    rcases find?_save hwf hview with ⟨rfl, rfl⟩ | ⟨-, hold⟩
    · obtain ⟨-, task, hresolved⟩ := ht
      exact .new rfl n rfl rfl (hkept ▸ origin_composed hresolved)
    · exact .kept rfl hold
  | rolledBack id' e =>
    rcases Fifo.find?_remove hwf id' id with hold | hnone
    · exact .kept rfl (hold.symm.trans hview)
    · rw [show (s.views.remove id').find? id = some view' from hview] at hnone
      cases hnone
  | @committed view stored revised σ id' hactive hid hstored hsame =>
    rw [Fifo.find?_set] at hview
    split_ifs at hview with hk
    · subst hk
      obtain rfl := Option.some.inj hview
      obtain rfl := hexact view rfl id' stored hid hstored hsame
      obtain ⟨-, hσ, hrevised⟩ := ht
      obtain rfl := hs.generations.eq_of_generation (Generations.known_active _) hσ hactive
      exact .revised rfl stored hstored ⟨id', revised, hid, hrevised, rfl⟩
    · exact .kept rfl hview
  | @replaced cause candidate scenario path views hbound hcheck hviews =>
    obtain ⟨before, hbefore, hreplaced⟩ := replaced_find? hwf hviews hview
    have hkept := hs.kept id before hbefore
    obtain ⟨p, hp⟩ := hkept.saved
    refine .replaced rfl ?_
    rcases replaced_cases hreplaced with ⟨revised, hrevised, rfl⟩ | ⟨code, details, herror, rfl⟩
    · exact .revised before p hp ⟨id, revised, hkept.viewId, hrevised, rfl⟩
    · exact .refused fun _ => not_revised_refused hp herror
  | aborted hviews => exact (hs.replaceViews_ne hviews).elim
  | _ => exact .kept rfl hview

theorem Written.origin {id : Bytes} (h : Written service s s' t id view') (hs : Sound s)
    (horigins : ∀ id view, s.views.find? id = some view →
      Origin service s.generations.active view) :
    Origin service s'.generations.active view' := by
  cases h with
  | kept hg h => exact hg ▸ horigins id view' h
  | new hg n hn hid h => exact h
  | revised hg view h hrevised =>
    obtain ⟨p, hp⟩ := (hs.kept id view h).saved
    exact hg ▸ .revised view p hp hrevised
  | replaced hg h => exact h

theorem Held.step (h : Held service c view) {s' : Shared} {threads : List Thread}
    (hspent : ∀ id, Spent service c id → Spent service ⟨s', threads⟩ id)
    (hgenerations : s'.generations = c.shared.generations ∨
      s'.generations.active.generation = c.shared.generations.active.generation + 1)
    (hwritten : ∀ id stored, Spent service c id → s'.views.find? id = some stored →
      s'.generations = c.shared.generations → c.shared.views.find? id = some stored ∨
        ∃ before, c.shared.views.find? id = some before ∧
          Revised service c.shared.generations.active before stored) :
    Held service ⟨s', threads⟩ view := by
  obtain ⟨id, generation, hid, hspentId, hgeneration, hle, hcurrent⟩ := h
  refine ⟨id, generation, hid, hspent id hspentId, hgeneration, ?_, fun hactive => ?_⟩
  · rcases hgenerations with hg | hg
    · exact hle.trans_eq (congrArg (·.active.generation) hg.symm)
    · exact hle.trans (hg.symm ▸ Nat.le_succ _)
  · rcases hgenerations with hg | hg
    · have hactive' : generation = c.shared.generations.active.generation :=
        hactive.trans (congrArg (·.active.generation) hg)
      obtain ⟨horigin, horbit⟩ := hcurrent hactive'
      refine ⟨hg.symm ▸ horigin, fun stored hstored => hg.symm ▸ ?_⟩
      rcases hwritten id stored hspentId hstored hg with hold | ⟨before, hbefore, hrevised⟩
      · exact horbit stored hold
      · exact (horbit before hbefore).tail hrevised
    · rw [show generation = s'.generations.active.generation from hactive, hg] at hle
      exact absurd hle (Nat.not_succ_le_self _)

/-! ### Whole runs -/

/-- What every configuration of a run satisfies. -/
structure AllSound (service : Service) (constrained : Bool) (c : Config Shared Thread) : Prop where
  run : RunSound service constrained c
  updates : UpdatesSound service c

theorem AllSound.written (h : AllSound service constrained c)
    (hchange : Change (views service constrained) always c c') :
    (c'.shared.generations = c.shared.generations ∨
      c'.shared.generations.active.generation = c.shared.generations.active.generation + 1) ∧
    (∀ id view, c'.shared.views.find? id = some view →
      Origin service c'.shared.generations.active view) ∧
    ∀ id stored, Spent service c id → c'.shared.views.find? id = some stored →
      c'.shared.generations = c.shared.generations → c.shared.views.find? id = some stored ∨
        ∃ before, c.shared.views.find? id = some before ∧
          Revised service c.shared.generations.active before stored := by
  cases hchange with
  | start => exact ⟨.inl rfl, h.updates.origins, fun id stored _ hstored _ => .inl hstored⟩
  | @move pre post t t' s input hthreads hallowed hsection =>
    have hmem : t ∈ c.threads := hthreads ▸ List.mem_append_right _ List.mem_cons_self
    have hstep := section_cases hsection
    have hsound := h.run.sound
    have hwritten : ∀ {id view}, s.views.find? id = some view →
        Written service c.shared s t id view := fun hview =>
      hstep.written hsound h.run.numbered.store (h.run.threads t hmem)
        (fun view hview id stored hid hstored hsame =>
          (commit_exact h.run (h.updates.held t hmem view hview) hid hstored hsame).1) hview
    refine ⟨hstep.generations, fun id view hview =>
      (hwritten hview).origin hsound h.updates.origins, fun id stored hspent hstored hg => ?_⟩
    cases hwritten hstored with
    | kept hg' hold => exact .inl hold
    | new hg' n hn hid _ =>
      have hnumber : n ∈ numbers c.threads := mem_numbers.mpr ⟨t, hmem, hn⟩
      exact (hspent n (.inl hnumber) hid).elim
    | revised hg' before hbefore hrevised => exact .inr ⟨before, hbefore, hrevised⟩
    | replaced hg' _ =>
      rw [show s.generations = c.shared.generations from hg] at hg'
      exact absurd hg' (Nat.ne_of_lt (Nat.lt_succ_self _))

theorem AllSound.change (h : AllSound service constrained c)
    (hchange : Change (views service constrained) always c c') : AllSound service constrained c' := by
  have hrun := h.run.change hchange
  obtain ⟨hnumbered, hspent, -⟩ := h.run.numbered.change hchange
  obtain ⟨hgenerations, horigins, hwritten⟩ := h.written hchange
  have hheld : ∀ {view}, Held service c view → Held service c' view := fun hview =>
    hview.step hspent hgenerations hwritten
  refine ⟨hrun, horigins, fun u hu view hworks => ?_⟩
  cases hchange with
  | @start t hstarts =>
    rcases List.mem_append.mp hu with hu | hu
    · exact hheld (h.updates.held u hu view hworks)
    · obtain rfl := List.mem_singleton.mp hu
      cases u with
      | canonical => cases hstarts
      | revised => cases hstarts
      | _ => cases hworks
  | @move pre post t t' s input hthreads hallowed hsection =>
    have hmem : ∀ {u}, u ∈ pre ∨ u ∈ post → u ∈ c.threads := fun hu => by
      rw [hthreads]
      rcases hu with hu | hu
      · exact List.mem_append_left _ hu
      · exact List.mem_append_right _ (List.mem_cons_of_mem _ hu)
    rcases List.mem_append.mp hu with hu | hu
    · exact hheld (h.updates.held u (hmem (.inl hu)) view hworks)
    · rcases List.mem_cons.mp hu with rfl | hu
      · have ht : t ∈ c.threads := hthreads ▸ List.mem_append_right _ List.mem_cons_self
        cases section_cases hsection with
        | @read supplied id view' hfound =>
          obtain rfl : view' = view := Option.some.inj hworks
          have hkept := hrun.sound.kept id view' hfound
          refine ⟨id, _, hkept.viewId, hnumbered.spent id (Fifo.mem_keys_of_find? hfound),
            hkept.generation, Nat.le_refl _, fun _ => ⟨horigins id view' hfound, fun stored hstored => ?_⟩⟩
          obtain rfl := Option.some.inj (hfound.symm.trans hstored)
          exact .refl
        | revised hrevised =>
          exact hheld (h.updates.held _ ht view hworks)
        | _ => cases hworks
      · exact hheld (h.updates.held u (hmem (.inr hu)) view hworks)

variable {model : AcceptedModel} {scenario path : Bytes} {journal : Option OpenedJournal}

theorem started_allSound :
    AllSound service constrained (started service constrained model scenario path journal) := by
  refine ⟨⟨started_numbered, started_sound, List.forall_mem_nil _⟩, fun id view hview => ?_,
    List.forall_mem_nil _⟩
  obtain ⟨record, -, rfl, hrestored⟩ := (restored (savedRecords_distinct journal)).2 id view hview
  obtain ⟨task, resolved, hresolved, rfl⟩ := restoredView_eq_some hrestored
  exact origin_composed hresolved

theorem reachable_allSound (h : Reachable (views service constrained) always
    (started service constrained model scenario path journal) c) : AllSound service constrained c :=
  h.invariant started_allSound fun _ _ _ hsound hchange => hsound.change hchange

/-! ### From a configuration on -/

theorem AllSound.known (h : AllSound service constrained c)
    (hchange : Change (views service constrained) always c c') :
    ∀ σ, c.shared.generations.Known σ → c'.shared.generations.Known σ := by
  cases hchange with
  | start => exact fun _ h => h
  | @move pre post t t' s input hthreads hallowed hsection =>
    have ht : t ∈ c.threads := hthreads ▸ List.mem_append_right _ List.mem_cons_self
    exact ((section_cases hsection).sound h.run.sound h.run.numbered.store (h.run.threads t ht)).2.2

variable {c₀ : Config Shared Thread}

theorem AllSound.since (h₀ : AllSound service constrained c₀)
    (h : Reachable (views service constrained) always c₀ c) : AllSound service constrained c ∧
      (∀ σ, c₀.shared.generations.Known σ → c.shared.generations.Known σ) ∧
      (∀ view, Held service c₀ view → Held service c view) ∧
      ∀ id, Spent service c₀ id → Spent service c id ∧
        (id ∉ c₀.shared.views.keys → id ∉ c.shared.views.keys) := by
  refine h.invariant (I := fun c => AllSound service constrained c ∧
      (∀ σ, c₀.shared.generations.Known σ → c.shared.generations.Known σ) ∧
      (∀ view, Held service c₀ view → Held service c view) ∧
      ∀ id, Spent service c₀ id → Spent service c id ∧
        (id ∉ c₀.shared.views.keys → id ∉ c.shared.views.keys))
    ⟨h₀, fun _ h => h, fun _ h => h, fun _ h => ⟨h, fun h => h⟩⟩ ?_
  rintro c c' - ⟨hc, hknown, hheld, hspent⟩ hchange
  obtain ⟨hnumbered, hspent', hkeys⟩ := hc.run.numbered.change hchange
  obtain ⟨hgenerations, -, hwritten⟩ := hc.written hchange
  refine ⟨hc.change hchange, fun σ hσ => hc.known hchange σ (hknown σ hσ), fun view hview =>
    (hheld view hview).step hspent' hgenerations hwritten, fun id hid => ?_⟩
  obtain ⟨hidc, hgone⟩ := hspent id hid
  refine ⟨hspent' id hidc, fun hnot hmem => ?_⟩
  exact (hkeys id hmem).elim (hgone hnot) fun hfree => hfree hidc

theorem AllSound.held (h : AllSound service constrained c) {id : Bytes}
    (hstored : c.shared.views.find? id = some view) : Held service c view := by
  have hkept := h.run.sound.kept id view hstored
  refine ⟨id, _, hkept.viewId, h.run.numbered.spent id (Fifo.mem_keys_of_find? hstored),
    hkept.generation, Nat.le_refl _, fun _ => ⟨h.updates.origins id view hstored, fun w hw => ?_⟩⟩
  obtain rfl := Option.some.inj (hstored.symm.trans hw)
  exact .refl

/-- **What is stored again was there all the time**: where a view is stored that is `==` to one that
was stored before, it is that one, and it was stored in between. -/
theorem AllSound.unchanged {c₁ c₂ : Config Shared Thread} (h₁ : AllSound service constrained c₁)
    (hbetween : Reachable (views service constrained) always c₁ c)
    (hrest : Reachable (views service constrained) always c c₂) {id : Bytes} {stored : Json}
    (hview : c₁.shared.views.find? id = some view) (hstored : c₂.shared.views.find? id = some stored)
    (hsame : stored.eqv view = true) :
    stored = view ∧ c.shared.views.find? id = some view ∧
      c.shared.generations.active = c₂.shared.generations.active := by
  obtain ⟨hc, -, hheld, hspent⟩ := h₁.since hbetween
  obtain ⟨hc₂, hknown, hheld₂, hspent₂⟩ := hc.since hrest
  have hkept := h₁.run.sound.kept id view hview
  have hspentc := (hspent id (h₁.run.numbered.spent id (Fifo.mem_keys_of_find? hview))).1
  -- what is gone does not come back
  have hmem : id ∈ c.shared.views.keys := by
    by_contra hgone
    exact (hspent₂ id hspentc).2 hgone (Fifo.mem_keys_of_find? hstored)
  obtain ⟨w, hw⟩ := Fifo.find?_isSome hmem
  obtain ⟨id₁, g₁, hid₁, -, hg₁, hle₁, hcurrent₁⟩ := hheld view (h₁.held hview)
  obtain ⟨id₂, g₂, hid₂, -, hg₂, hle₂, hcurrent₂⟩ := hheld₂ w (hc.held hw)
  have hkeptw := hc.run.sound.kept id w hw
  obtain rfl : id = id₁ := by simpa using hkept.viewId.symm.trans hid₁
  obtain rfl : id = id₂ := by simpa using hkeptw.viewId.symm.trans hid₂
  have hbounded := hc.run.sound.bounded
  have hbounded₂ := hc₂.run.sound.bounded
  have hjson : ∀ {n m : Nat}, n < 2 ^ 64 → m < 2 ^ 64 →
      some (generationJson n) = some (generationJson m) → n = m := fun hn hm h =>
    generationJson_injective hn hm (by rw [Option.some.inj h]; simp [generationJson, Json.eqv, Json.numberEqv])
  have hgc : g₂ = c.shared.generations.active.generation :=
    hjson (by omega) hbounded (hg₂.symm.trans hkeptw.generation)
  obtain ⟨x, hx, heqv⟩ := Json.find?_of_eqv hsame (hc₂.run.sound.kept id stored hstored).generation
  obtain rfl := Option.some.inj (hg₁.symm.trans hx)
  have hg : c₂.shared.generations.active.generation = g₁ :=
    generationJson_injective hbounded₂ (by omega) heqv
  have hactive : c.shared.generations.active = c₂.shared.generations.active :=
    hc₂.run.sound.generations.eq_of_generation (hknown _ (Generations.known_active _))
      (Generations.known_active _) (by omega)
  obtain ⟨horigin, horbit⟩ := hcurrent₁ (by omega)
  obtain ⟨-, horbit₂⟩ := hcurrent₂ (by omega)
  have hback := orbit_back horigin (horbit w hw) (hactive ▸ horbit₂ stored hstored) hsame
  exact ⟨hback.2, hback.1 ▸ hw, hactive⟩

/-! ### Reconciliations -/

/-- The call is a reconciliation that has not ended. -/
def Thread.reconciles : Thread → Bool
  | .reconcile _ | .canonical _ | .revised .. => true
  | _ => false

/-- A call that has read a view works on it until it ends. -/
def Works (view : Json) : Thread → Prop
  | .canonical view' | .revised view' _ _ => view' = view
  | .reconciled _ | .failed _ => True
  | _ => False

theorem Step.works (h : Step service constrained s t s' t') (hview : Works view t) :
    Works view t' := by
  cases h with
  | failed => trivial
  | revised => exact hview
  | committed => trivial
  | rolledBack => trivial
  | aborted => trivial
  | _ => exact hview.elim

theorem Step.reconciles (h : Step service constrained s t s' t') (ht : t.reconciles = true)
    (hreturns : ∀ response, t' ≠ .reconciled response) : s' = s := by
  cases h with
  | committed => exact (hreturns _ rfl).elim
  | failed => rfl
  | read => rfl
  | revised => rfl
  | _ => cases ht

/-- **Reconciliations lose no update.** In every run, a reconciliation that returns has replaced, at
its commit, the stored view by what the active model makes of it: that view is the one the call read,
and it has been stored at every moment since. A section of a reconciliation that throws changes
nothing. -/
theorem reconcile_atomic {c₁ : Config Shared Thread}
    (h₁ : Reachable (views service constrained) always
      (started service constrained model scenario path journal) c₁) :
    (∀ {k : Nat} {supplied view response : Json} {input input' : Result Unit}
      {c₂ c c₃ c₄ : Config Shared Thread}, c₁.threads[k]? = some (.reconcile supplied) →
      next (views service constrained) c₁ (.move k input) = some c₂ →
      c₂.threads[k]? = some (.canonical view) →
      Reachable (views service constrained) always c₂ c →
      Reachable (views service constrained) always c c₃ →
      next (views service constrained) c₃ (.move k input') = some c₄ →
      c₄.threads[k]? = some (.reconciled response) →
      ∃ id revised, view.find? "view_id" = some (.str id) ∧
        c.shared.views.find? id = some view ∧ c₃.shared.views.find? id = some view ∧
        reconcileView c₃.shared.generations.active.model.json view = .ok revised ∧
        response = stamped service id c₃.shared.generations.active.generation revised ∧
        c₄.shared = { c₃.shared with views := c₃.shared.views.set id response }) ∧
    ∀ {k : Nat} {t : Thread} {input : Result Unit} {c₂ : Config Shared Thread},
      c₁.threads[k]? = some t → t.reconciles = true →
      next (views service constrained) c₁ (.move k input) = some c₂ →
      (∀ response, c₂.threads[k]? ≠ some (.reconciled response)) → c₂.shared = c₁.shared := by
  constructor
  · intro k supplied view response input input' c₂ c c₃ c₄ hk hread hcanonical hbetween hrest hcommit
      hreconciled
    have hnext₂ : Reachable (views service constrained) always
        (started service constrained model scenario path journal) c₂ :=
      h₁.next hread fun _ _ => trivial
    -- what the call read is stored then
    obtain ⟨t, s, t', ht, hsection, rfl, ht'⟩ := next_move hread
    obtain rfl := Option.some.inj (ht.symm.trans hk)
    obtain rfl := Option.some.inj (ht'.symm.trans hcanonical)
    cases section_cases hsection with
    | @read supplied id view hfound =>
      -- it is what the call commits
      obtain ⟨u, hu, hworks⟩ := (hbetween.trans hrest).thread hcanonical
        (show Works view (.canonical view) from rfl)
        (fun _ _ _ _ _ hworks hstep => (section_cases hstep).works hworks)
      obtain ⟨u', s', t', ht, hsection', rfl, ht'⟩ := next_move hcommit
      obtain rfl : u' = u := Option.some.inj (ht.symm.trans hu)
      obtain rfl := Option.some.inj (ht'.symm.trans hreconciled)
      have h₂ := reachable_allSound hnext₂
      cases section_cases hsection' with
      | @committed view' stored revised σ id' hactive hid hstored hsame =>
        obtain rfl : view' = view := hworks
        have hid' : id' = id := by
          simpa using hid.symm.trans (h₂.run.sound.kept id view' hfound).viewId
        subst hid'
        obtain ⟨rfl, hc, -⟩ := h₂.unchanged hbetween hrest hfound hstored hsame
        obtain ⟨-, hσ, hrevised⟩ :=
          ((h₂.since (hbetween.trans hrest)).1).run.threads _ (List.mem_of_getElem? ht)
        obtain rfl := ((h₂.since (hbetween.trans hrest)).1).run.sound.generations.eq_of_generation
          (Generations.known_active _) hσ hactive
        exact ⟨id', revised, hid, hc, hstored, hrevised, rfl, rfl⟩
  · intro k t input c₂ hk hreconciles hnext hreturns
    obtain ⟨t, s, t', ht, hsection, rfl, ht'⟩ := next_move hnext
    obtain rfl := Option.some.inj (ht.symm.trans hk)
    exact (section_cases hsection).reconciles hreconciles fun response e => hreturns response (e ▸ ht')

end

/-! ### A restored view, reconciled -/

section samples

local instance : Platform := samplePlatform

/-- The answer of a reconciliation. -/
def Thread.response? : Thread → Option Json
  | .reconciled response => some response
  | _ => none

theorem Thread.response?_eq_some {t : Thread} {response : Json} (h : t.response? = some response) :
    t = .reconciled response := by
  cases t with
  | reconciled => exact congrArg _ (Option.some.inj h)
  | _ => cases h

/-- The view a reconciliation has read. -/
def Thread.canonical? : Thread → Option Json
  | .canonical view => some view
  | _ => none

theorem Thread.canonical?_eq_some {t : Thread} {view : Json} (h : t.canonical? = some view) :
    t = .canonical view := by
  cases t with
  | canonical => exact congrArg _ (Option.some.inj h)
  | _ => cases h

def restoredAsk : Thread := .reconcile (.object [("view_id", .str (restoredId tankService 1))])

def stepOf (c : Config Shared Thread) : Option (Config Shared Thread) :=
  next (views tankService true) c (.move 0 (.ok ()))

theorem reconcile_atomic_restored : ∃ c₁ c₃ c₄ id view revised response,
    next (views tankService true) (tankStarted 1) (.start restoredAsk) = some c₁ ∧
      ((stepOf c₁).bind stepOf = some c₃) ∧ stepOf c₃ = some c₄ ∧
      c₃.shared.views.find? id = some view ∧
      reconcileView c₃.shared.generations.active.model.json view = .ok revised ∧
      c₄.shared = { c₃.shared with views := c₃.shared.views.set id response } := by
  have hfound : ((next (views tankService true) (tankStarted 1) (.start restoredAsk)).any fun c₁ =>
      (stepOf c₁).any fun c₂ => ((c₂.threads[0]?).bind Thread.canonical?).isSome &&
        (stepOf c₂).any fun c₃ => (stepOf c₃).any fun c₄ =>
          ((c₄.threads[0]?).bind Thread.response?).isSome) = true := by
    decide +kernel
  obtain ⟨c₁, hstart, h₁⟩ := (Option.any_eq_true _ _).mp hfound
  obtain ⟨c₂, hread, h₂⟩ := (Option.any_eq_true _ _).mp h₁
  rw [Bool.and_eq_true] at h₂
  obtain ⟨view, hview⟩ := Option.isSome_iff_exists.mp h₂.1
  obtain ⟨t₂, ht₂, hcanonical⟩ := Option.bind_eq_some_iff.mp hview
  obtain ⟨c₃, hrevise, h₃⟩ := (Option.any_eq_true _ _).mp h₂.2
  obtain ⟨c₄, hcommit, h₄⟩ := (Option.any_eq_true _ _).mp h₃
  obtain ⟨response, hresponse⟩ := Option.isSome_iff_exists.mp h₄
  obtain ⟨t₄, ht₄, hreconciled⟩ := Option.bind_eq_some_iff.mp hresponse
  rw [Thread.canonical?_eq_some hcanonical] at ht₂
  rw [Thread.response?_eq_some hreconciled] at ht₄
  have hreach : Reachable (views tankService true) always (tankStarted 1) c₁ :=
    .next .init hstart trivial
  have hask : c₁.threads[0]? = some restoredAsk := by
    obtain rfl := Option.some.inj hstart
    rfl
  have hbetween : Reachable (views tankService true) always c₂ c₃ :=
    .next .init hrevise fun _ _ => trivial
  obtain ⟨id, revised, -, -, hstored, hrevised, -, hshared⟩ :=
    (reconcile_atomic hreach).1 hask hread ht₂ hbetween .init hcommit ht₄
  refine ⟨c₁, c₃, c₄, id, view, revised, response, hstart, ?_, hcommit, hstored, hrevised, hshared⟩
  rw [hread]
  exact hrevise

end samples

end ContextHmi.Runtime.Views
