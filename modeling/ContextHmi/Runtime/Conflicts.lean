import ContextHmi.Engine.Chain
import ContextHmi.Runtime.Updates

/-!
# Conflicts of saved views

Reconciling never takes a conflict back: the status of the view before counts. A model change does
for the views it cannot reconcile, which it marks for review whatever their status was.

* `conflict_stays` : a conflict stays as long as no change refuses the view;
* `conflict_lost`  : a change to another model and back makes a conflict one to review.
-/

namespace ContextHmi.Runtime.Views

open Outcome Interleave

section
variable [Platform]

/-- The status of the view is `conflict`. -/
def InConflict (view : Json) : Prop := view.find? "status" = some (.str "conflict")

/-- What `reconcile_view` asks of a saved view, for a model: the view and its task name the model, its
lists are within the limit, its task resolves, and the fresh components that are new to it leave its
components within the limit. -/
def Accepts (candidate : AcceptedModel) (view : Json) : Prop :=
  ∃ p fresh, Saved view p ∧ ContextHmi.Fits candidate.index view p ∧
    resolveTaskImpl candidate.index (p.newTask candidate.index) = .ok fresh ∧
    p.components.length + ((SavedParts.itemsOf fresh "components").filter fun current =>
      fieldOf current "id" ∉ p.components.map (fieldOf · "id")).length ≤ kMaxComponents

variable {service : Service} {constrained : Bool} {model candidate : AcceptedModel}
  {view view' : Json} {p : SavedParts}

theorem accepts_iff (hs : Saved view p) :
    Accepts candidate view ↔ ∃ revised, reconcileView candidate.json view = .ok revised := by
  have hlength : ∀ (q : SavedParts) fresh, (q.next candidate.index fresh).components.length =
      q.components.length + ((SavedParts.itemsOf fresh "components").filter fun current =>
        fieldOf current "id" ∉ q.components.map (fieldOf · "id")).length := fun q fresh => by
    rw [SavedParts.next, keptComponents, List.length_append, List.length_map]
  simp only [reconcileView_eq]
  constructor
  · rintro ⟨q, fresh, hq, hfits, hfresh, hbound⟩
    refine ⟨reconciledFrom fresh (q.next candidate.index fresh),
      (hq.reconcileViewImpl_eq_ok candidate.wellFormed (index_isText candidate)).mpr ?_⟩
    exact ⟨hfits, fresh, hfresh, (hlength q fresh).trans_le hbound, rfl⟩
  · rintro ⟨revised, hrevised⟩
    obtain ⟨hfits, fresh, hfresh, hbound, -⟩ := hs.of_reconcileViewImpl candidate.wellFormed hrevised
    exact ⟨p, fresh, hs, hfits, hfresh, (hlength p fresh).symm.trans_le hbound⟩

theorem revised_conflict {revised : Json} (hs : Saved view p) (hconflict : InConflict view)
    (h : reconcileView model.json view = .ok revised) : InConflict revised := by
  rw [reconcileView_eq, hs.reconcileViewImpl_eq_ok model.wellFormed (index_isText model)] at h
  obtain ⟨-, fresh, hfresh, -, rfl⟩ := h
  obtain ⟨q, hq⟩ := resolveTaskImpl_saved model.wellFormed hfresh
  have hstatus : p.status = "conflict" := by simpa using hs.status.symm.trans hconflict
  have hprior : p.prior = true := by simp [SavedParts.prior, hstatus]
  have hnext : (p.next model.index fresh).status = "conflict" :=
    reconciledStatus_conflict (.inr hprior)
  rw [InConflict, reconciledFrom, Json.find?_setFields hq.isObject, hnext]
  simp

omit [Platform] in
theorem stamped_conflict {revised : Json} (hobj : revised.isObject = true)
    (h : InConflict revised) (id : Bytes) (generation : Nat) :
    InConflict (stamped service id generation revised) := by
  rw [InConflict, stamped, Json.find?_setFields hobj]
  simpa [InConflict] using h

variable {s s' : Shared} {t t' : Thread} {c c' : Config Shared Thread}

/-- **The condition**: a model change that is not refused accepts every saved view in conflict. -/
def ConflictsAccepted (s : Shared) (t : Thread) (_ : Result Unit) : Prop :=
  ∀ cause candidate scenario path, t = .change cause candidate scenario path →
    s.generations.checkChange cause candidate = .ok () →
    ∀ id view, s.views.find? id = some view → InConflict view → Accepts candidate view

theorem Step.conflict (h : Step service constrained s t s' t') (hs : Sound s)
    (hwf : s.views.WellFormed (maximumSavedViews constrained)) (ht : ThreadKept s.generations t)
    (hexact : ∀ view, t.works = some view → ∀ id stored, view.find? "view_id" = some (.str id) →
      s.views.find? id = some stored → stored.eqv view = true → stored = view)
    {append : Result Unit} (hcondition : ConflictsAccepted s t append) {id : Bytes}
    (hold : ∀ n, t.number? = some n → id ≠ viewId service n)
    (hbefore : ∀ view, s.views.find? id = some view → InConflict view)
    (hview : s'.views.find? id = some view') : InConflict view' := by
  cases h with
  | @inserted caller σ n view kept hactive hkept =>
    rcases find?_save hwf hview with ⟨rfl, -⟩ | ⟨-, hsame⟩
    · exact (hold n rfl rfl).elim
    · exact hbefore view' hsame
  | rolledBack id' e =>
    rcases Fifo.find?_remove hwf id' id with hsame | hnone
    · exact hbefore view' (hsame.symm.trans hview)
    · rw [show (s.views.remove id').find? id = some view' from hview] at hnone
      cases hnone
  | @committed view stored revised σ id' hactive hid hstored hsame =>
    rw [Fifo.find?_set] at hview
    split_ifs at hview with hk
    · subst hk
      obtain rfl := Option.some.inj hview
      obtain rfl := hexact view rfl id' stored hid hstored hsame
      obtain ⟨⟨p, hp⟩, -, hrevised⟩ := ht
      obtain ⟨p', hp'⟩ := revised_saved hp hrevised
      exact stamped_conflict hp'.isObject
        (revised_conflict hp (hbefore stored hstored) hrevised) _ _
    · exact hbefore view' hview
  | @replaced cause candidate scenario path views hbound hcheck hviews =>
    obtain ⟨before, hstored, hreplaced⟩ := replaced_find? hwf hviews hview
    obtain ⟨p, hp⟩ := (hs.kept id before hstored).saved
    have hconflict := hbefore before hstored
    obtain ⟨revised, hrevised⟩ := (accepts_iff hp).mp
      (hcondition cause candidate scenario path rfl hcheck id before hstored hconflict)
    rcases replaced_cases hreplaced with ⟨revised', hrevised', rfl⟩ | ⟨code, details, herror, -⟩
    · obtain ⟨p', hp'⟩ := revised_saved hp hrevised'
      exact stamped_conflict hp'.isObject (revised_conflict hp hconflict hrevised') _ _
    · rw [hrevised] at herror
      cases herror
  | aborted hviews => exact (hs.replaceViews_ne hviews).elim
  | _ => exact hbefore view' hview

theorem Step.demotes {cause : Cause} {scenario path : Bytes}
    (h : Step service constrained s (.change cause candidate scenario path) s' .changed)
    (hs : Sound s) (hwf : s.views.WellFormed (maximumSavedViews constrained)) {id : Bytes}
    (hview : s.views.find? id = some view) (hrefused : ¬ Accepts candidate view) :
    ∃ view', s'.views.find? id = some view' ∧
      view'.find? "status" = some (.str "needs-review") := by
  cases h with
  | @replaced _ _ _ _ views hbound hcheck hviews =>
    obtain ⟨-, hkeys⟩ := replaceViews_keys hwf (fun _ => mem_keys_of_bucketed) hviews
    obtain ⟨view', hview'⟩ := Fifo.find?_isSome
      (show id ∈ views.keys from hkeys ▸ Fifo.mem_keys_of_find? hview)
    refine ⟨view', hview', ?_⟩
    obtain ⟨before, hbefore, hreplaced⟩ := replaced_find? hwf hviews hview'
    obtain rfl := Option.some.inj (hview.symm.trans hbefore)
    obtain ⟨p, hp⟩ := (hs.kept id view hview).saved
    rcases replaced_cases hreplaced with ⟨revised, hrevised, -⟩ | ⟨code, details, -, rfl⟩
    · exact (hrefused ((accepts_iff hp).mpr ⟨revised, hrevised⟩)).elim
    · simp [refused, Json.find?_setFields hp.isObject]

variable {scenario path : Bytes} {journal : Option OpenedJournal}

/-- **A conflict stays.** In every run whose model changes accept the saved views in conflict, a view
in conflict is in conflict as long as it is kept. A change that does not accept one marks it for
review. -/
theorem conflict_stays {c₁ c₂ : Config Shared Thread}
    (h₁ : Reachable (views service constrained) always
      (started service constrained model scenario path journal) c₁) :
    (Reachable (views service constrained) ConflictsAccepted c₁ c₂ →
      ∀ id view view', c₁.shared.views.find? id = some view → InConflict view →
        c₂.shared.views.find? id = some view' → InConflict view') ∧
    ∀ k cause candidate scenario path input, c₁.threads[k]? =
        some (.change cause candidate scenario path) →
      next (views service constrained) c₁ (.move k input) = some c₂ →
      c₂.threads[k]? = some .changed → ∀ id view, c₁.shared.views.find? id = some view →
        ¬ Accepts candidate view → ∃ view', c₂.shared.views.find? id = some view' ∧
          view'.find? "status" = some (.str "needs-review") := by
  have hsound := reachable_allSound h₁
  constructor
  · intro h id view view' hview hconflict hview'
    have hspent := hsound.run.numbered.spent id (Fifo.mem_keys_of_find? hview)
    have hrun : AllSound service constrained c₂ ∧ Spent service c₂ id ∧
        ∀ view', c₂.shared.views.find? id = some view' → InConflict view' := by
      refine h.invariant (I := fun c => AllSound service constrained c ∧ Spent service c id ∧
        ∀ view', c.shared.views.find? id = some view' → InConflict view') ⟨hsound, hspent, ?_⟩ ?_
      · intro view' hview'
        obtain rfl := Option.some.inj (hview.symm.trans hview')
        exact hconflict
      · rintro c c' - ⟨hc, hspent, hbefore⟩ hchange
        refine ⟨hc.change hchange.always, (hc.run.numbered.change hchange.always).2.1 id hspent, ?_⟩
        cases hchange with
        | start => exact hbefore
        | @move pre post t t' s input hthreads hallowed hsection =>
          have ht : t ∈ c.threads := hthreads ▸ List.mem_append_right _ List.mem_cons_self
          intro view' hview'
          refine (section_cases hsection).conflict hc.run.sound hc.run.numbered.store
            (hc.run.threads t ht) (fun view hview id stored hid hstored hsame =>
              (commit_exact hc.run (hc.updates.held t ht view hview) hid hstored hsame).1) hallowed
            (fun n hn => hspent n (.inl (mem_numbers.mpr ⟨t, ht, hn⟩))) hbefore hview'
    exact hrun.2.2 view' hview'
  · intro k cause candidate scenario path input hk hnext hchanged id view hview hrefused
    obtain ⟨t, s, t', ht, hsection, rfl, ht'⟩ := next_move hnext
    obtain rfl := Option.some.inj (ht.symm.trans hk)
    obtain rfl := Option.some.inj (ht'.symm.trans hchanged)
    exact (section_cases hsection).demotes hsound.run.sound hsound.run.numbered.store hview hrefused

end

/-! ### To another model and back -/

section samples

local instance : Platform := samplePlatform

/-- The plant with another limit of its alarm. -/
def limitAccepted : AcceptedModel where
  json := sampleModel 2 (.int 90)
  index := (indexModel (sampleModel 2 (.int 90))).toOption.getD ⟨[], .null, [], [], [], []⟩
  accepted := accepted_of_isSome (by decide +kernel)
  isText := isText_of_isSome (by decide +kernel)

def otherModel : Json := (sampleModel 1 (.int 80)).setField "model_id" (.str "other")

/-- A model of another id. -/
def otherAccepted : AcceptedModel where
  json := otherModel
  index := (indexModel otherModel).toOption.getD ⟨[], .null, [], [], [], []⟩
  accepted := accepted_of_isSome (by decide +kernel)
  isText := isText_of_isSome (by decide +kernel)

/-- A saved task, for the alarms of the plant. -/
def savedAlarms : Json := .object [("task", alarmsTask.setField "model_id" (.str "plant"))]

set_option maxRecDepth 100000 in
def alarmsJournal : OpenedJournal := savedJournal savedAlarms 1 (by decide +kernel) rfl

def alarmsStarted : Config Shared Thread :=
  started tankService false tankAccepted "plant" "plant.json" (some alarmsJournal)

/-- A selected scenario. -/
def select (k : Nat) (c : Config Shared Thread) (candidate : AcceptedModel) :
    Option (Config Shared Thread) :=
  run (views tankService false) c
    [.start (.change .scenarioSelected candidate "s" "s.json"), .move k (.ok ())]

def alarmsId : Bytes := restoredId tankService 1

/-- The status of the restored view. -/
def alarmsStatus (status : Bytes) (c : Config Shared Thread) : Bool :=
  (c.shared.views.find? alarmsId).any (·.has "status" (Json.isStringWith (· == status)))

theorem alarmsStatus_eq_true {status : Bytes} {c : Config Shared Thread}
    (h : alarmsStatus status c = true) : ∃ view, c.shared.views.find? alarmsId = some view ∧
      view.find? "status" = some (.str status) := by
  obtain ⟨view, hview, hstatus⟩ := (Option.any_eq_true _ _).mp h
  exact ⟨view, hview, Json.has_string.mp hstatus⟩

theorem conflict_stays_limit : ∃ c₁ c₂ view view', select 0 alarmsStarted limitAccepted = some c₁ ∧
    next (views tankService false) c₁ (.start (.asked .resolve alarmsTask)) = some c₂ ∧
    c₁.shared.views.find? alarmsId = some view ∧ InConflict view ∧
      c₂.shared.views.find? alarmsId = some view' ∧ InConflict view' := by
  have hfound : ((select 0 alarmsStarted limitAccepted).any (alarmsStatus "conflict")) = true := by
    decide +kernel
  obtain ⟨c₁, hselect, hstatus⟩ := (Option.any_eq_true _ _).mp hfound
  obtain ⟨view, hview, hconflict⟩ := alarmsStatus_eq_true hstatus
  have hstay : Reachable (views tankService false) ConflictsAccepted c₁
      ⟨c₁.shared, c₁.threads ++ [.asked .resolve alarmsTask]⟩ :=
    .next (e := .start (.asked .resolve alarmsTask)) .init rfl trivial
  exact ⟨c₁, _, view, view, hselect, rfl, hview, hconflict, hview,
    (conflict_stays (reachable_run hselect)).1 hstay alarmsId view view hview hconflict hview⟩

/-- A view in conflict is one to review after a change to another model. -/
theorem conflict_lost : ∃ c₁ c₂ view view',
    Reachable (views tankService false) always alarmsStarted c₁ ∧
      Reachable (views tankService false) always c₁ c₂ ∧
      c₁.shared.views.find? alarmsId = some view ∧ InConflict view ∧
      c₂.shared.views.find? alarmsId = some view' ∧ ¬ InConflict view' := by
  have hfound : ((select 0 alarmsStarted limitAccepted).any fun c₁ => alarmsStatus "conflict" c₁ &&
      (select 1 c₁ otherAccepted).any (alarmsStatus "needs-review")) = true := by
    decide +kernel
  obtain ⟨c₁, hselect, hboth⟩ := (Option.any_eq_true _ _).mp hfound
  rw [Bool.and_eq_true] at hboth
  obtain ⟨c₂, hother, hstatus⟩ := (Option.any_eq_true _ _).mp hboth.2
  obtain ⟨view, hview, hconflict⟩ := alarmsStatus_eq_true hboth.1
  obtain ⟨view', hview', hreview⟩ := alarmsStatus_eq_true hstatus
  refine ⟨c₁, c₂, view, view', reachable_run hselect, reachable_run hother, hview, hconflict, hview',
    fun h => ?_⟩
  rw [InConflict, hreview] at h
  simp at h

end samples

end ContextHmi.Runtime.Views
