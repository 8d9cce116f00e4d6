import ContextHmi.Runtime.Requests
import ContextHmi.Runtime.Views

/-!
# The store of saved views

In every run, whatever calls interleave, the saved views are those in the order they came, no more
than the store takes, each under its own id and stamped with the generation of the active model. A
publisher that finds the journal failing takes its view back; it cannot take back the eviction that
made room for it.

* `store_invariant`    : what holds of the store in every run;
* `publish_undone_iff` : a failed publish restores the store exactly where it was not full.
-/

namespace ContextHmi.Runtime.Views

open Outcome Interleave

/-! ### Ids and keys -/

theorem viewId_injective {service : Service} {n m : Nat} (h : viewId service n = viewId service m) :
    n = m := Bytes.decimal_injective (List.append_cancel_left h)

theorem restoredId_injective {service : Service} {n m : UInt64}
    (h : restoredId service n = restoredId service m) : n = m :=
  UInt64.toNat_inj.mp (Bytes.decimal_injective (List.append_cancel_left h))

theorem restoredId_ne_viewId (service : Service) (n : UInt64) (m : Nat) :
    restoredId service n ≠ viewId service m := by
  intro h
  have hwhole : service.sessionId ++ (bytes "-restored-view-" ++ Bytes.decimal n.toNat) =
      service.sessionId ++ (bytes "-view-" ++ Bytes.decimal m) := by
    rw [← List.append_assoc, ← List.append_assoc]
    exact h
  have htail := List.append_cancel_left hwhole
  have hstart := congrArg (fun l : Bytes => l.take 2) htail
  rw [List.take_append_of_le_length (by decide), List.take_append_of_le_length (by decide)] at hstart
  exact absurd hstart (by decide)

theorem maximumSavedViews_pos (constrained : Bool) : 0 < maximumSavedViews constrained := by
  unfold maximumSavedViews
  split <;> omega

section
variable {constrained : Bool} {views : Fifo Bytes Json} {id k : Bytes} {view v : Json}

theorem wellFormed_save (h : views.WellFormed (maximumSavedViews constrained)) (hid : id ∉ views.keys)
    (view : Json) : (save constrained views id view).WellFormed (maximumSavedViews constrained) := by
  obtain ⟨hevict, hroom⟩ := h.evict (maximumSavedViews_pos constrained)
  exact hevict.push hroom (Fifo.notMem_evict h hid) view

theorem find?_save (h : views.WellFormed (maximumSavedViews constrained))
    (hfind : (save constrained views id view).find? k = some v) :
    k = id ∧ v = view ∨ k ≠ id ∧ views.find? k = some v := by
  rw [save, Fifo.find?_push] at hfind
  split_ifs at hfind with hk
  · exact .inl ⟨hk.symm, (Option.some.inj hfind).symm⟩
  · refine .inr ⟨fun e => hk e.symm, ?_⟩
    rcases Fifo.find?_evict h k with hsame | hnone
    · exact hsame.symm.trans hfind
    · rw [hnone] at hfind
      cases hfind

end

section
variable [Platform]

/-! ### Numbers of views -/

/-- The number a publisher has taken and not used. -/
def Thread.number? : Thread → Option Nat
  | .numbered _ _ n _ => some n
  | _ => none

def numbers (threads : List Thread) : List Nat := threads.filterMap Thread.number?

theorem mem_numbers {threads : List Thread} {n : Nat} :
    n ∈ numbers threads ↔ ∃ t ∈ threads, t.number? = some n := List.mem_filterMap

theorem numbers_split (pre post : List Thread) (t : Thread) :
    numbers (pre ++ t :: post) = numbers pre ++ (t.number?.toList ++ numbers post) := by
  rw [numbers, List.filterMap_append, List.filterMap_cons]
  cases t.number? <;> rfl

/-- The number is still to be used: a publisher has taken it, or one will. -/
def Open (threads : List Thread) (sequence n : Nat) : Prop := n ∈ numbers threads ∨ sequence < n

/-- No publisher is going to use the id. -/
def Spent (service : Service) (c : Config Shared Thread) (id : Bytes) : Prop :=
  ∀ n, Open c.threads c.shared.viewSequence n → id ≠ viewId service n

/-! ### Keys -/

section
variable {service : Service} {views : Fifo Bytes Json}

/-- The loop over the views keeps the keys, also when it ends half-way. -/
theorem replaceViews_keys {candidate : AcceptedModel} {generation : Nat} {l : List (Bytes × Json)}
    {r : Fifo Bytes Json × Option Error} {capacity : Nat} (h : views.WellFormed capacity)
    (hl : ∀ p ∈ l, p.1 ∈ views.keys) (hr : replaceViews service candidate generation l views = r) :
    r.1.WellFormed capacity ∧ r.1.keys = views.keys := by
  induction l generalizing views with
  | nil =>
    subst hr
    exact ⟨h, rfl⟩
  | cons p l ih =>
    obtain ⟨hp, hrest⟩ := List.forall_mem_cons.mp hl
    obtain ⟨id, view⟩ := p
    rw [replaceViews] at hr
    split at hr
    · subst hr
      exact ⟨h, rfl⟩
    · rename_i view' _
      have hkeys := Fifo.keys_set hp view'
      obtain ⟨hwf, hsame⟩ := ih (h.set hp view') (hkeys.symm ▸ hrest) hr
      exact ⟨hwf, hsame.trans hkeys⟩

theorem mem_keys_of_bucketed {p : Bytes × Json} (hp : p ∈ bucketed views.entries) :
    p.1 ∈ views.keys := by
  obtain ⟨id, view⟩ := p
  exact Fifo.mem_keys_of_find? (mem_bucketed.mp hp)

end

variable {service : Service} {constrained : Bool} {s s' : Shared} {t t' : Thread}

theorem Step.number (h : Step service constrained s t s' t') :
    t'.number? = none ∧ s'.viewSequence = s.viewSequence ∨
      t.number? = none ∧ t'.number? = some (s.viewSequence + 1) ∧
        s'.viewSequence = s.viewSequence + 1 := by
  cases h with
  | numbered => exact .inr ⟨rfl, rfl, rfl⟩
  | _ => exact .inl ⟨rfl, rfl⟩

theorem Step.keys (h : Step service constrained s t s' t')
    (hwf : s.views.WellFormed (maximumSavedViews constrained))
    (hfree : ∀ n, t.number? = some n → viewId service n ∉ s.views.keys) :
    s'.views.WellFormed (maximumSavedViews constrained) ∧
      ∀ k ∈ s'.views.keys, k ∈ s.views.keys ∨
        ∃ n, t.number? = some n ∧ t'.number? = none ∧ k = viewId service n := by
  have hsame : ∀ {views : Fifo Bytes Json} {P : Bytes → Prop},
      views.WellFormed (maximumSavedViews constrained) ∧ views.keys = s.views.keys →
      views.WellFormed (maximumSavedViews constrained) ∧ ∀ k ∈ views.keys, k ∈ s.views.keys ∨ P k :=
    fun h => ⟨h.1, fun k hk => .inl (h.2 ▸ hk)⟩
  cases h with
  | inserted hactive hkept =>
    rename_i n view kept
    refine ⟨wellFormed_save hwf (hfree n rfl) kept, fun k hk => ?_⟩
    obtain ⟨v, hv⟩ := Fifo.find?_isSome hk
    rcases find?_save hwf hv with ⟨rfl, -⟩ | ⟨-, hold⟩
    · exact .inr ⟨n, rfl, rfl, rfl⟩
    · exact .inl (Fifo.mem_keys_of_find? hold)
  | rolledBack id e =>
    refine ⟨hwf.remove id, fun k hk => .inl ?_⟩
    obtain ⟨v, hv⟩ := Fifo.find?_isSome hk
    rcases Fifo.find?_remove hwf id k with hold | hnone
    · exact Fifo.mem_keys_of_find? (hold.symm.trans hv)
    · rw [show (s.views.remove id).find? k = some v from hv] at hnone
      cases hnone
  | committed hactive hid hstored hmatch =>
    have hmem := Fifo.mem_keys_of_find? hstored
    exact hsame ⟨hwf.set hmem _, Fifo.keys_set hmem _⟩
  | replaced hbound hcheck hviews => exact hsame (replaceViews_keys hwf (fun _ => mem_keys_of_bucketed) hviews)
  | aborted hviews => exact hsame (replaceViews_keys hwf (fun _ => mem_keys_of_bucketed) hviews)
  | _ => exact hsame ⟨hwf, rfl⟩

/-- What a section does to the numbers: they stay apart, none that is used up comes back, and the one
it uses is used up. -/
theorem Step.numbers (h : Step service constrained s t s' t') {pre post : List Thread}
    (hnodup : (numbers (pre ++ t :: post)).Nodup)
    (hle : ∀ n ∈ numbers (pre ++ t :: post), n ≤ s.viewSequence) :
    (numbers (pre ++ t' :: post)).Nodup ∧
      (∀ n ∈ numbers (pre ++ t' :: post), n ≤ s'.viewSequence) ∧
      (∀ n, Open (pre ++ t' :: post) s'.viewSequence n → Open (pre ++ t :: post) s.viewSequence n) ∧
      ∀ n, t.number? = some n → t'.number? = none → ¬ Open (pre ++ t' :: post) s'.viewSequence n := by
  simp only [Open, numbers_split] at hnodup hle ⊢
  rcases h.number with ⟨hnone, hsequence⟩ | ⟨hnone, hnumber, hsequence⟩
  · simp only [hnone, hsequence, Option.toList_none, List.nil_append]
    have hsub : (Views.numbers pre ++ Views.numbers post).Sublist
        (Views.numbers pre ++ (t.number?.toList ++ Views.numbers post)) :=
      (List.Sublist.refl _).append (List.sublist_append_right _ _)
    refine ⟨hnodup.sublist hsub, fun n hn => hle n (hsub.subset hn),
      fun n hn => hn.imp_left fun hmem => hsub.subset hmem, fun n hn _ => ?_⟩
    rw [hn, Option.toList_some, List.singleton_append] at hnodup hle
    have hfresh := (List.nodup_cons.mp (List.perm_middle.nodup_iff.mp hnodup)).1
    have hbound := hle n (List.mem_append_right _ List.mem_cons_self)
    rintro (hmem | hlt)
    · exact hfresh hmem
    · omega
  · simp only [hnone, hnumber, hsequence, Option.toList_none, Option.toList_some, List.nil_append,
      List.singleton_append] at hnodup hle ⊢
    have hmem : ∀ n, n ∈ Views.numbers pre ++ (s.viewSequence + 1) :: Views.numbers post →
        n = s.viewSequence + 1 ∨ n ∈ Views.numbers pre ++ Views.numbers post := by
      intro n hn
      rw [List.mem_append, List.mem_cons] at hn
      rw [List.mem_append]
      tauto
    refine ⟨List.perm_middle.nodup_iff.mpr (List.nodup_cons.mpr ⟨fun hold => ?_, hnodup⟩),
      fun n hn => ?_, fun n hn => ?_, fun n hn => by cases hn⟩
    · have hbound := hle _ hold
      omega
    · rcases hmem n hn with rfl | hold
      · exact Nat.le_refl _
      · exact Nat.le_succ_of_le (hle n hold)
    · rcases hn with hn | hn
      · exact (hmem n hn).symm.imp_right fun e => by omega
      · exact .inr (by omega)

/-- What holds of the keys and the numbers of a run. -/
structure Numbered (service : Service) (constrained : Bool) (c : Config Shared Thread) : Prop where
  store : c.shared.views.WellFormed (maximumSavedViews constrained)
  nodup : (numbers c.threads).Nodup
  le : ∀ n ∈ numbers c.threads, n ≤ c.shared.viewSequence
  spent : ∀ id ∈ c.shared.views.keys, Spent service c id

variable {c c' : Config Shared Thread}

theorem number?_of_begins (h : begins t = true) : t.number? = none := by
  cases t with
  | numbered => cases h
  | _ => rfl

theorem Numbered.change (h : Numbered service constrained c)
    (hchange : Change (views service constrained) always c c') :
    Numbered service constrained c' ∧ (∀ id, Spent service c id → Spent service c' id) ∧
      ∀ id ∈ c'.shared.views.keys, id ∈ c.shared.views.keys ∨ ¬ Spent service c id := by
  cases hchange with
  | @start t hstarts =>
    have hnumbers : numbers (c.threads ++ [t]) = numbers c.threads := by
      rw [numbers_split, number?_of_begins hstarts]
      exact List.append_nil _
    have hspent : ∀ id, Spent service c id → Spent service ⟨c.shared, c.threads ++ [t]⟩ id :=
      fun id hid n hn => hid n (hn.imp_left fun hmem => hnumbers ▸ hmem)
    exact ⟨⟨h.store, hnumbers ▸ h.nodup, hnumbers ▸ h.le, fun id hid => hspent id (h.spent id hid)⟩,
      hspent, fun id hid => .inl hid⟩
  | @move pre post t t' s input hthreads hallowed hsection =>
    obtain ⟨shared, threads⟩ := c
    obtain rfl : threads = pre ++ t :: post := hthreads
    have hstep := section_cases hsection
    have hopen : ∀ n, t.number? = some n → Open (pre ++ t :: post) shared.viewSequence n :=
      fun n hn => .inl (mem_numbers.mpr ⟨t, List.mem_append_right _ List.mem_cons_self, hn⟩)
    obtain ⟨hwf, hkeys⟩ := hstep.keys h.store fun n hn hid => h.spent _ hid n (hopen n hn) rfl
    obtain ⟨hnodup, hle, hback, hown⟩ := hstep.numbers h.nodup h.le
    have hspent : ∀ id, Spent service ⟨shared, pre ++ t :: post⟩ id →
        Spent service ⟨s, pre ++ t' :: post⟩ id := fun id hid n hn => hid n (hback n hn)
    refine ⟨⟨hwf, hnodup, hle, fun id hid => ?_⟩, hspent, fun id hid => ?_⟩
    · rcases hkeys id hid with hold | ⟨n, hn, hn', rfl⟩
      · exact hspent id (h.spent id hold)
      · intro m hm heq
        obtain rfl := viewId_injective heq
        exact hown n hn hn' hm
    · refine (hkeys id hid).imp_right ?_
      rintro ⟨n, hn, -, rfl⟩ hid
      exact hid n (hopen n hn) rfl

/-! ### What becomes of the views -/

/-- What the loop over some of the views makes of a view. -/
theorem replaceViews_find? {candidate : AcceptedModel} {generation : Nat} {l : List (Bytes × Json)}
    {views views' : Fifo Bytes Json} (hl : (l.map Prod.fst).Nodup)
    (h : replaceViews service candidate generation l views = (views', none)) {id : Bytes} {view : Json}
    (hview : views'.find? id = some view) :
    (∃ old, (id, old) ∈ l ∧ replaced service candidate generation id old = .ok view) ∨
      id ∉ l.map Prod.fst ∧ views.find? id = some view := by
  induction l generalizing views with
  | nil =>
    obtain ⟨rfl, -⟩ := Prod.mk.inj h
    exact .inr ⟨List.not_mem_nil, hview⟩
  | cons p l ih =>
    obtain ⟨k, old⟩ := p
    obtain ⟨hk, hl⟩ := List.nodup_cons.mp hl
    rw [replaceViews] at h
    split at h
    · cases h
    · rename_i new hnew
      rcases ih hl h with ⟨old', hmem, hold'⟩ | ⟨hnot, hsame⟩
      · exact .inl ⟨old', List.mem_cons_of_mem _ hmem, hold'⟩
      · rw [Fifo.find?_set] at hsame
        split_ifs at hsame with hid
        · obtain rfl := Option.some.inj hsame
          subst hid
          exact .inl ⟨old, List.mem_cons_self, hnew⟩
        · refine .inr ⟨?_, hsame⟩
          rw [List.map_cons, List.mem_cons, not_or]
          exact ⟨fun e => hid e.symm, hnot⟩

theorem replaceViews_ends {candidate : AcceptedModel} {generation : Nat} {l : List (Bytes × Json)}
    {views : Fifo Bytes Json}
    (hl : ∀ p ∈ l, ∃ view, replaced service candidate generation p.1 p.2 = .ok view) :
    (replaceViews service candidate generation l views).2 = none := by
  induction l generalizing views with
  | nil => rfl
  | cons p l ih =>
    obtain ⟨⟨view, hview⟩, hrest⟩ := List.forall_mem_cons.mp hl
    rw [replaceViews, hview]
    exact ih hrest

theorem bucketed_nodup (map : List (Bytes × Json)) (h : (map.map Prod.fst).Nodup) :
    ((bucketed map).map Prod.fst).Nodup := by
  have hkeys : (bucketed map).map Prod.fst =
      (Platform.bucketOrder (map.map (·.1))).filter fun k => (Assoc.find? k map).isSome := by
    rw [bucketed]
    induction Platform.bucketOrder (map.map (·.1)) with
    | nil => rfl
    | cons k keys ih =>
      rw [List.filterMap_cons, List.filter_cons]
      cases hfind : Assoc.find? k map with
      | none => simpa using ih
      | some v => simpa using ih
  rw [hkeys]
  exact ((Platform.bucketOrder_perm _).nodup_iff.mpr h).filter _

/-- **What a model change makes of the store**: every view is replaced, and no other comes. -/
theorem replaced_find? {candidate : AcceptedModel} {generation : Nat} {old views : Fifo Bytes Json}
    {capacity : Nat} (hwf : old.WellFormed capacity)
    (h : replaceViews service candidate generation (bucketed old.entries) old = (views, none))
    {id : Bytes} {view : Json} (hview : views.find? id = some view) :
    ∃ before, old.find? id = some before ∧
      replaced service candidate generation id before = .ok view := by
  rcases replaceViews_find? (bucketed_nodup _ hwf.nodupKeys) h hview with
    ⟨before, hmem, hbefore⟩ | ⟨hnot, hsame⟩
  · exact ⟨before, mem_bucketed.mp hmem, hbefore⟩
  · exact absurd (List.mem_map.mpr ⟨_, mem_bucketed.mpr hsame, rfl⟩) hnot

/-! ### What every saved view holds -/

omit [Platform] in
theorem saved_stamped {view : Json} {p : SavedParts} (h : Saved view p) (id : Bytes)
    (generation : Nat) : Saved (stamped service id generation view) p := by
  refine h.congr (Json.isObject_setFields h.isObject _) fun k hk => ?_
  rw [stamped, Json.find?_setFields h.isObject]
  simp only [savedKeys, List.mem_cons, List.not_mem_nil, or_false] at hk
  rcases hk with rfl | rfl | rfl | rfl | rfl | rfl <;> simp

omit [Platform] in
theorem find?_stamped {view : Json} (hobj : view.isObject = true) (id : Bytes) (generation : Nat) :
    (stamped service id generation view).find? "view_id" = some (.str id) ∧
      (stamped service id generation view).find? "context_generation" =
        some (generationJson generation) := by
  simp [stamped, Json.find?_setFields hobj]

omit [Platform] in
theorem saved_refused {view : Json} {p : SavedParts} (h : Saved view p) (generation : Nat)
    (details : Bytes) : Saved (refused view generation details)
      { p with status := "needs-review", issues := p.issues ++ [replacementIssue details] } := by
  have hfind : ∀ k, (refused view generation details).find? k = _ := fun k =>
    Json.find?_setFields h.isObject _ k
  refine ⟨Json.isObject_setFields h.isObject _, ?_, ?_, ?_, ?_, ?_, ?_, h.component, h.plain,
    h.comparable, h.kinds⟩
  · rw [hfind]
    simpa using h.task
  · rw [hfind]
    simpa using h.components
  · rw [hfind]
    simpa using h.dependencies
  · rw [hfind]
    simpa using h.changes
  · rw [hfind]
    simp [h.issues]
  · rw [hfind]
    simp

omit [Platform] in
theorem find?_refused {view : Json} (hobj : view.isObject = true) (generation : Nat)
    (details : Bytes) :
    (refused view generation details).find? "view_id" = view.find? "view_id" ∧
      (refused view generation details).find? "context_generation" =
        some (generationJson generation) := by
  simp [refused, Json.find?_setFields hobj]

theorem reconcileView_eq (model : AcceptedModel) (view : Json) :
    reconcileView model.json view = reconcileViewImpl model.index view := by
  rw [reconcileView, model.accepted, ok_bind]

theorem resolveTask_eq (model : AcceptedModel) (task : Json) :
    resolveTask model.json task = resolveTaskImpl model.index task := by
  rw [resolveTask, model.accepted, ok_bind]

theorem index_isText (model : AcceptedModel) : model.index.IsText :=
  ⟨fun _ => model.tag_isText, fun _ => model.alarm_isText⟩

theorem revised_saved {model : AcceptedModel} {view revised : Json} {p : SavedParts}
    (hs : Saved view p) (h : reconcileView model.json view = .ok revised) :
    ∃ p', Saved revised p' := by
  rw [reconcileView_eq, hs.reconcileViewImpl_eq_ok model.wellFormed (index_isText model)] at h
  obtain ⟨-, fresh, hfresh, -, rfl⟩ := h
  obtain ⟨q, hq⟩ := resolveTaskImpl_saved model.wellFormed hfresh
  exact ⟨_, hs.next hq⟩

theorem replaced_cases {candidate : AcceptedModel} {generation : Nat} {id : Bytes} {view view' : Json}
    (h : replaced service candidate generation id view = .ok view') :
    (∃ revised, reconcileView candidate.json view = .ok revised ∧
      view' = stamped service id generation revised) ∨
    ∃ code details, reconcileView candidate.json view = .error (.domain code details) ∧
      view' = refused view generation details := by
  unfold replaced at h
  split at h
  · exact .inl ⟨_, ‹_›, (Except.ok.inj h).symm⟩
  · exact .inr ⟨_, _, ‹_›, (Except.ok.inj h).symm⟩
  · cases h

theorem replaced_isOk {candidate : AcceptedModel} {generation : Nat} {id : Bytes} {view : Json}
    {p : SavedParts} (hs : Saved view p) :
    ∃ view', replaced service candidate generation id view = .ok view' := by
  have hrefuses := hs.reconcileViewImpl_refuses candidate.wellFormed (index_isText candidate)
  rw [← reconcileView_eq] at hrefuses
  unfold replaced
  split
  · exact ⟨_, rfl⟩
  · exact ⟨_, rfl⟩
  · rename_i e hnot herror
    cases e with
    | domain code details => exact (hnot code details rfl).elim
    | _ => exact (hrefuses _ herror).elim

/-- A saved view, under its id, of the active generation. -/
structure Kept (g : Generations) (id : Bytes) (view : Json) : Prop where
  viewId : view.find? "view_id" = some (.str id)
  generation : view.find? "context_generation" = some (generationJson g.active.generation)
  saved : ∃ p, Saved view p

/-- What the views of a call hold. -/
def ThreadKept (g : Generations) : Thread → Prop
  | .publishing _ σ view | .numbered _ σ _ view =>
    g.Known σ ∧ ∃ task, resolveTask σ.model.json task = .ok view
  | .canonical view => ∃ p, Saved view p
  | .revised view σ revised =>
    (∃ p, Saved view p) ∧ g.Known σ ∧ reconcileView σ.model.json view = .ok revised
  | _ => True

theorem ThreadKept.mono {g g' : Generations} (hg : ∀ σ, g.Known σ → g'.Known σ)
    (h : ThreadKept g t) : ThreadKept g' t := by
  cases t with
  | publishing caller σ view => exact ⟨hg _ h.1, h.2⟩
  | numbered caller σ n view => exact ⟨hg _ h.1, h.2⟩
  | revised view σ revised => exact ⟨h.1, hg _ h.2.1, h.2.2⟩
  | _ => exact h

/-- What holds of the views of a run. -/
structure Sound (s : Shared) : Prop where
  generations : s.generations.Numbered
  bounded : s.generations.active.generation < 2 ^ 64
  kept : ∀ id view, s.views.find? id = some view → Kept s.generations id view

theorem Sound.replaceViews_ne (h : Sound s) {candidate : AcceptedModel} {generation : Nat}
    {views : Fifo Bytes Json} {e : Error} :
    replaceViews service candidate generation (bucketed s.views.entries) s.views ≠
      (views, some e) := by
  intro hviews
  have hends : (replaceViews service candidate generation (bucketed s.views.entries) s.views).2 =
      none := by
    refine replaceViews_ends fun p hp => ?_
    obtain ⟨q, hq⟩ := (h.kept p.1 p.2 (mem_bucketed.mp hp)).saved
    exact replaced_isOk hq
  rw [hviews] at hends
  cases hends

theorem kept_stamped {g : Generations} {view : Json} {p : SavedParts} (hs : Saved view p) (id : Bytes)
    {generation : Nat} (hactive : g.active.generation = generation) :
    Kept g id (stamped service id generation view) := by
  have hstamp : (stamped service id generation view).find? "view_id" = some (.str id) ∧
      (stamped service id generation view).find? "context_generation" =
        some (generationJson generation) := find?_stamped hs.isObject id generation
  exact ⟨hstamp.1, hactive ▸ hstamp.2, p, saved_stamped hs id generation⟩

theorem kept_replaced {g : Generations} {candidate : AcceptedModel} {id : Bytes} {before view : Json}
    (hkept : Kept g id before)
    (h : replaced service candidate (g.active.generation + 1) id before = .ok view) :
    Kept (g.advance candidate) id view := by
  obtain ⟨p, hs⟩ := hkept.saved
  rcases replaced_cases h with ⟨revised, hrevised, rfl⟩ | ⟨code, details, -, rfl⟩
  · obtain ⟨p', hs'⟩ := revised_saved hs hrevised
    exact kept_stamped hs' id rfl
  · obtain ⟨hid, hgeneration⟩ := find?_refused hs.isObject (g.active.generation + 1) details
    exact ⟨hid.trans hkept.viewId, hgeneration, _, saved_refused hs _ details⟩

/-- **A section keeps** what is known of the views. -/
theorem Step.sound (h : Step service constrained s t s' t') (hs : Sound s)
    (hwf : s.views.WellFormed (maximumSavedViews constrained)) (ht : ThreadKept s.generations t) :
    Sound s' ∧ ThreadKept s'.generations t' ∧ ∀ σ, s.generations.Known σ → s'.generations.Known σ := by
  cases h with
  | failed t e => exact ⟨hs, trivial, fun _ h => h⟩
  | resolved hview => exact ⟨hs, ⟨Generations.known_active _, _, hview⟩, fun _ h => h⟩
  | numbered caller σ view => exact ⟨⟨hs.generations, hs.bounded, hs.kept⟩, ht, fun _ h => h⟩
  | @inserted caller σ n view kept hactive hkept =>
    obtain ⟨hσ, task, hview⟩ := ht
    rw [resolveTask_eq] at hview
    obtain ⟨p, hp⟩ := resolveTaskImpl_saved σ.model.wellFormed hview
    refine ⟨⟨hs.generations, hs.bounded, fun id v hv => ?_⟩, trivial, fun _ h => h⟩
    rcases find?_save hwf hv with ⟨rfl, rfl⟩ | ⟨-, hold⟩
    · exact hkept ▸ kept_stamped hp _ hactive
    · exact hs.kept id v hold
  | recorded id view => exact ⟨hs, trivial, fun _ h => h⟩
  | unrecorded id view e => exact ⟨hs, trivial, fun _ h => h⟩
  | rolledBack id e =>
    refine ⟨⟨hs.generations, hs.bounded, fun k v hv => ?_⟩, trivial, fun _ h => h⟩
    rcases Fifo.find?_remove hwf id k with hold | hnone
    · exact hs.kept k v (hold.symm.trans hv)
    · rw [show (s.views.remove id).find? k = some v from hv] at hnone
      cases hnone
  | read hfound => exact ⟨hs, (hs.kept _ _ hfound).saved, fun _ h => h⟩
  | revised hrevised => exact ⟨hs, ⟨ht, Generations.known_active _, hrevised⟩, fun _ h => h⟩
  | @committed view stored revised σ id hactive hid hstored hsame =>
    obtain ⟨⟨p, hp⟩, -, hrevised⟩ := ht
    obtain ⟨p', hp'⟩ := revised_saved hp hrevised
    refine ⟨⟨hs.generations, hs.bounded, fun k v hv => ?_⟩, trivial, fun _ h => h⟩
    rw [Fifo.find?_set] at hv
    split_ifs at hv with hk
    · obtain rfl := Option.some.inj hv
      exact hk ▸ kept_stamped hp' id hactive
    · exact hs.kept k v hv
  | replaced hbound hcheck hviews =>
    refine ⟨⟨hs.generations.advance _, hbound, fun id view hview => ?_⟩, trivial,
      fun _ h => h.advance⟩
    obtain ⟨before, hbefore, hreplaced⟩ := replaced_find? hwf hviews hview
    exact kept_replaced (hs.kept id before hbefore) hreplaced
  | aborted hviews => exact (hs.replaceViews_ne hviews).elim

/-! ### Restored views -/

variable {model : AcceptedModel}

theorem restoredView_eq_some {record : Storage.JournalRecord} {view : Json}
    (h : restoredView service model record = .ok (some view)) :
    ∃ task resolved, resolveTask model.json task = .ok resolved ∧
      view = stamped service (restoredId service record.sequence) 0 resolved := by
  unfold restoredView at h
  split at h
  · split_ifs at h
    · obtain ⟨modelId, -, h⟩ := bind_eq_ok.mp h
      split_ifs at h
      · cases h
      · obtain ⟨resolved, hresolved, h⟩ := bind_eq_ok.mp h
        exact ⟨_, resolved, hresolved, (Option.some.inj (pure_eq_ok.mp h)).symm⟩
    · cases h
  · cases h

/-- The store holds what some records restore, each under its id. -/
def RestoredFrom (service : Service) (model : AcceptedModel) (records : List Storage.JournalRecord)
    (views : Fifo Bytes Json) : Prop :=
  ∀ id view, views.find? id = some view → ∃ record ∈ records,
    id = restoredId service record.sequence ∧ restoredView service model record = .ok (some view)

theorem restored {records : List Storage.JournalRecord}
    (hdistinct : records.Pairwise fun r r' => r.sequence ≠ r'.sequence) :
    (records.foldl (restoreRecord service constrained model) ⟨[], []⟩).WellFormed
      (maximumSavedViews constrained) ∧
    RestoredFrom service model records
      (records.foldl (restoreRecord service constrained model) ⟨[], []⟩) := by
  induction records using List.reverseRecOn with
  | nil => exact ⟨Fifo.wellFormed_empty _, fun id view hview => by cases hview⟩
  | append_singleton records record ih =>
    obtain ⟨hbefore, -, hlast⟩ := List.pairwise_append.mp hdistinct
    obtain ⟨hwf, hviews⟩ := ih hbefore
    rw [List.foldl_append, List.foldl_cons, List.foldl_nil]
    generalize records.foldl (restoreRecord service constrained model) ⟨[], []⟩ = views at hwf hviews
    have hold : RestoredFrom service model (records ++ [record]) views := fun id view hview => by
      obtain ⟨r, hr, hrest⟩ := hviews id view hview
      exact ⟨r, List.mem_append_left _ hr, hrest⟩
    unfold restoreRecord
    split
    · rename_i view hview
      have hnew : restoredId service record.sequence ∉ views.keys := by
        intro hmem
        obtain ⟨v, hv⟩ := Fifo.find?_isSome hmem
        obtain ⟨r, hr, hid, -⟩ := hviews _ v hv
        exact hlast r hr record (List.mem_singleton_self _) (restoredId_injective hid).symm
      refine ⟨wellFormed_save hwf hnew view, fun id v hv => ?_⟩
      rcases find?_save hwf hv with ⟨rfl, rfl⟩ | ⟨-, hv⟩
      · exact ⟨record, List.mem_append_right _ (List.mem_singleton_self _), rfl, hview⟩
      · exact hold id v hv
    · exact ⟨hwf, hold⟩

/-! ### Whole runs -/

variable {scenario path : Bytes} {journal : Option OpenedJournal}

theorem started_numbered :
    Numbered service constrained (started service constrained model scenario path journal) := by
  obtain ⟨hwf, hviews⟩ :
      (started service constrained model scenario path journal).shared.views.WellFormed _ ∧ _ :=
    restored (savedRecords_distinct journal)
  refine ⟨hwf, List.nodup_nil, List.forall_mem_nil _, fun id hid n _ => ?_⟩
  obtain ⟨view, hview⟩ := Fifo.find?_isSome hid
  obtain ⟨record, -, rfl, -⟩ := hviews id view hview
  exact restoredId_ne_viewId service record.sequence n

theorem started_sound : Sound (started service constrained model scenario path journal).shared := by
  refine ⟨Generations.numbered_start model, Nat.two_pow_pos 64, fun id view hview => ?_⟩
  obtain ⟨record, -, rfl, hrestored⟩ := (restored (savedRecords_distinct journal)).2 id view hview
  obtain ⟨task, resolved, hresolved, rfl⟩ := restoredView_eq_some hrestored
  rw [resolveTask_eq] at hresolved
  obtain ⟨p, hp⟩ := resolveTaskImpl_saved model.wellFormed hresolved
  exact kept_stamped hp _ rfl

/-- What holds of a configuration of a run. -/
structure RunSound (service : Service) (constrained : Bool) (c : Config Shared Thread) : Prop where
  numbered : Numbered service constrained c
  sound : Sound c.shared
  threads : ∀ t ∈ c.threads, ThreadKept c.shared.generations t

theorem RunSound.change (h : RunSound service constrained c)
    (hchange : Change (views service constrained) always c c') : RunSound service constrained c' := by
  have hnumbered := (h.numbered.change hchange).1
  cases hchange with
  | @start t hstarts =>
    refine ⟨hnumbered, h.sound, fun u hu => ?_⟩
    rcases List.mem_append.mp hu with hu | hu
    · exact h.threads u hu
    · obtain rfl := List.mem_singleton.mp hu
      cases u with
      | asked => trivial
      | reconcile => trivial
      | change => trivial
      | _ => cases hstarts
  | @move pre post t t' s input hthreads hallowed hsection =>
    obtain ⟨shared, threads⟩ := c
    obtain rfl : threads = pre ++ t :: post := hthreads
    have ht := h.threads t (List.mem_append_right _ List.mem_cons_self)
    obtain ⟨hsound, hown, hknown⟩ := (section_cases hsection).sound h.sound h.numbered.store ht
    refine ⟨hnumbered, hsound, fun u hu => ?_⟩
    rcases List.mem_append.mp hu with hu | hu
    · exact (h.threads u (List.mem_append_left _ hu)).mono hknown
    · rcases List.mem_cons.mp hu with rfl | hu
      · exact hown
      · exact (h.threads u (List.mem_append_right _ (List.mem_cons_of_mem _ hu))).mono hknown

theorem reachable_sound (h : Reachable (views service constrained) always
    (started service constrained model scenario path journal) c) : RunSound service constrained c :=
  h.invariant ⟨started_numbered, started_sound, List.forall_mem_nil _⟩
    fun _ _ _ hsound hchange => hsound.change hchange

/-- **The saved views in every run**: the keys are those of the order, once each, and no more than
the store takes; each view has its id, and the generation of the active model. -/
theorem store_invariant (h : Reachable (views service constrained) always
    (started service constrained model scenario path journal) c) :
    c.shared.views.WellFormed (maximumSavedViews constrained) ∧
      ∀ id view, c.shared.views.find? id = some view → view.find? "view_id" = some (.str id) ∧
        view.find? "context_generation" =
          some (generationJson c.shared.generations.active.generation) :=
  ⟨(reachable_sound h).numbered.store, fun id view hview =>
    have hkept := (reachable_sound h).sound.kept id view hview
    ⟨hkept.viewId, hkept.generation⟩⟩

/-! ### A publish that fails -/

/-- The sections of `publish_view` when the append of the record throws. -/
def failedPublish (k : Nat) (e : Error) : List (Event Thread (Result Unit)) :=
  [.move k (.ok ()), .move k (.ok ()), .move k (.error e), .move k (.ok ())]

/-- Two stores with the same views in the same order. -/
def SameViews (views views' : Fifo Bytes Json) : Prop :=
  (∀ id, views.find? id = views'.find? id) ∧ views.order = views'.order

theorem failedPublish_views {k : Nat} {e : Error} {caller : Caller} {σ : Snapshot} {view : Json}
    (h : Numbered service constrained c) (hk : c.threads[k]? = some (.publishing caller σ view))
    (hrun : run (views service constrained) c (failedPublish k e) = some c') :
    c'.shared.views = c.shared.views.evict (maximumSavedViews constrained) := by
  have hfree : viewId service (c.shared.viewSequence + 1) ∉ c.shared.views.keys := fun hmem =>
    h.spent _ hmem _ (.inr (Nat.lt_succ_self _)) rfl
  have hkeys := Fifo.notMem_evict h.store hfree
  have horder := fun hmem => hkeys (((h.store.evict
    (maximumSavedViews_pos constrained)).1.mem_keys _).mpr hmem)
  rw [failedPublish, run_move hk] at hrun
  have hk₁ := thread_set hk (.numbered caller σ (c.shared.viewSequence + 1) view)
  have hbound : c.shared.viewSequence + 1 < 2 ^ 64 := by
    by_contra hnot
    simp only [views, nextSection, if_neg hnot, Option.bind_none] at hrun
    cases hrun
  simp only [views, nextSection, if_pos hbound, Option.bind_some] at hrun
  rw [run_move hk₁] at hrun
  simp only [nextSection, insertView, Option.bind_some] at hrun
  split_ifs at hrun with hstale
  · rw [run_move (thread_set hk₁ _)] at hrun
    cases hrun
  · have hk₂ := thread_set hk₁ (.recording (viewId service (c.shared.viewSequence + 1))
      (stamped service (viewId service (c.shared.viewSequence + 1)) σ.generation view))
    rw [run_move hk₂] at hrun
    simp only [nextSection, Option.bind_some] at hrun
    rw [run_move (thread_set hk₂ _)] at hrun
    obtain rfl := Option.some.inj hrun
    exact Fifo.remove_push hkeys horder _

/-- **A failed publish restores the store** exactly where it was not full: the eviction that made room
for the view is not undone. -/
theorem publish_undone_iff {k : Nat} {e : Error} {caller : Caller} {σ : Snapshot} {view : Json}
    (h : Reachable (views service constrained) always
      (started service constrained model scenario path journal) c)
    (hk : c.threads[k]? = some (.publishing caller σ view))
    (hrun : run (views service constrained) c (failedPublish k e) = some c') :
    SameViews c'.shared.views c.shared.views ↔
      c.shared.views.entries.length < maximumSavedViews constrained := by
  have hnumbered := (reachable_sound h).numbered
  have hviews := failedPublish_views hnumbered hk hrun
  constructor
  · rintro ⟨-, horder⟩
    rw [hviews] at horder
    exact (Fifo.evict_order_eq_iff hnumbered.store (maximumSavedViews_pos constrained)).mp horder
  · intro hroom
    rw [hviews, Fifo.evict_of_room hroom]
    exact ⟨fun _ => rfl, rfl⟩

end

/-! ### A full store and an empty one -/

section samples

local instance : Platform := samplePlatform

/-- Records in a row that hold one payload. -/
def saves (payload : Json) (first : UInt64) : Nat → List Storage.JournalRecord
  | 0 => []
  | n + 1 => ⟨first, "saved_task", payload⟩ :: saves payload (first + 1) n

theorem numbered_saves (payload : Json) (first : UInt64) (n : Nat) :
    Storage.Numbered first (saves payload first n) := by
  induction n generalizing first with
  | zero => trivial
  | succ n ih => exact ⟨rfl, ih (first + 1)⟩

/-- The frames of these records. -/
def saveFrames (payload : Json) (n : Nat) : List Storage.Stored :=
  List.replicate n ⟨false, "saved_task", payload.dump.toOption.getD []⟩

/-- The store file of these records. -/
def saveFile (payload : Json) (n : Nat) : Bytes :=
  Storage.kFileMagic ++ (Storage.frames 1 (saveFrames payload n) ++ [])

/-- A limit that the file keeps to. -/
def saveConfig (payload : Json) (n : Nat) : Storage.JournalConfig :=
  ⟨65536, (saveFile payload n).length + 64, 512, false⟩

theorem recorded_saves {payload : Json} {n m : Nat} (first : UInt64)
    (hbound : (payload.dump.toOption.getD []).length ≤ 65536)
    (hparse : Storage.parsePayload (payload.dump.toOption.getD []) = .ok payload) :
    List.Forall₂ (Storage.Recorded (saveConfig payload m)) (saves payload first n)
      (saveFrames payload n) := by
  induction n generalizing first with
  | zero => exact .nil
  | succ n ih =>
    have hkind : Storage.validKind "saved_task" = true := by decide
    refine .cons ⟨⟨hkind, ?_⟩, hbound, rfl, hparse⟩ (ih (first + 1))
    exact hbound.trans_lt (by decide)

/-- A journal of saved tasks. -/
def savedJournal (payload : Json) (n : Nat)
    (hbound : (payload.dump.toOption.getD []).length ≤ 65536)
    (hparse : Storage.parsePayload (payload.dump.toOption.getD []) = .ok payload) : OpenedJournal where
  config := saveConfig payload n
  entry := .file (saveFile payload n)
  journal := ⟨saveConfig payload n, Storage.after 1 (saveFrames payload n), 0,
    (saves payload 1 n).rtake 512⟩
  opened := by
    have hvalid : (saveConfig payload n).Valid := by
      have hroom : 40 ≤ (saveFile payload n).length + 64 := by omega
      exact ⟨Nat.succ_ne_zero 65535, Nat.le_of_ble_eq_true rfl, hroom, Nat.succ_ne_zero 511⟩
    rw [saveFile, Storage.reopen_recorded hvalid (recorded_saves 1 hbound hparse)
      (numbered_saves payload 1 n) (.inl rfl) (Nat.le_add_right _ _)]
    rfl

/-- The payload of a saved task. -/
def savedTask : Json := .object [("task", Inference.levelTask.setField "model_id" (.str "plant"))]

set_option maxRecDepth 100000 in
def savedTasks (n : Nat) : OpenedJournal :=
  savedJournal savedTask n (by decide +kernel) rfl

/-- A constrained service that restored some views. -/
def tankStarted (n : Nat) : Config Shared Thread :=
  started tankService true tankAccepted "plant" "plant.json" (some (savedTasks n))

/-- Then a call that is about to publish a view. -/
def publishConfig (n : Nat) : Option (Config Shared Thread) :=
  run (views tankService true) (tankStarted n)
    [.start (.asked .resolve Inference.levelTask), .move 0 (.ok ())]

def diskFull : Error := .runtime "operational journal append failed"

/-- The view a call is about to publish. -/
def Thread.publishes : Thread → Option (Caller × Snapshot × Json)
  | .publishing caller σ view => some (caller, σ, view)
  | _ => none

theorem Thread.publishes_eq_some {t : Thread} {r : Caller × Snapshot × Json}
    (h : t.publishes = some r) : t = .publishing r.1 r.2.1 r.2.2 := by
  cases t with
  | publishing => exact (Option.some.inj h) ▸ rfl
  | _ => cases h

theorem exists_failedPublish {n : Nat} {p : Config Shared Thread → Config Shared Thread → Bool}
    (h : ((publishConfig n).any fun c => ((c.threads[0]?).bind Thread.publishes).isSome &&
      (run (views tankService true) c (failedPublish 0 diskFull)).any (p c)) = true) :
    ∃ c c' caller σ view, publishConfig n = some c ∧
      c.threads[0]? = some (.publishing caller σ view) ∧
      run (views tankService true) c (failedPublish 0 diskFull) = some c' ∧ p c c' = true := by
  obtain ⟨c, hrun, hc⟩ := (Option.any_eq_true _ _).mp h
  rw [Bool.and_eq_true] at hc
  obtain ⟨r, hr⟩ := Option.isSome_iff_exists.mp hc.1
  obtain ⟨t, ht, hpublishes⟩ := Option.bind_eq_some_iff.mp hr
  obtain ⟨c', hrun', hp⟩ := (Option.any_eq_true _ _).mp hc.2
  exact ⟨c, c', _, _, _, hrun, Thread.publishes_eq_some hpublishes ▸ ht, hrun', hp⟩

theorem store_invariant_level : ∃ c, publishConfig 2 = some c ∧ c.shared.views.order ≠ [] ∧
    c.shared.views.WellFormed (maximumSavedViews true) ∧
      ∀ id view, c.shared.views.find? id = some view → view.find? "view_id" = some (.str id) ∧
        view.find? "context_generation" =
          some (generationJson c.shared.generations.active.generation) := by
  have hfound : ((publishConfig 2).any fun c => !c.shared.views.order.isEmpty) = true := by
    decide +kernel
  obtain ⟨c, hrun, hc⟩ := (Option.any_eq_true _ _).mp hfound
  exact ⟨c, hrun, by simpa using hc, store_invariant (reachable_run hrun)⟩

theorem publish_undone_iff_level : ∃ c c', publishConfig 2 = some c ∧
    run (views tankService true) c (failedPublish 0 diskFull) = some c' ∧
      (SameViews c'.shared.views c.shared.views ↔
        c.shared.views.entries.length < maximumSavedViews true) := by
  obtain ⟨c, c', caller, σ, view, hreach, hk, hrun, -⟩ := exists_failedPublish (n := 2)
    (p := fun _ _ => true) (by decide +kernel)
  exact ⟨c, c', hreach, hrun, publish_undone_iff (reachable_run hreach) hk hrun⟩

/-- In a full store, a failed publish loses the oldest view. -/
theorem publish_forgets_oldest : ∃ c c' caller σ view,
    Reachable (views tankService true) always (tankStarted 24) c ∧
      c.threads[0]? = some (.publishing caller σ view) ∧
      run (views tankService true) c (failedPublish 0 diskFull) = some c' ∧
      ¬ SameViews c'.shared.views c.shared.views := by
  obtain ⟨c, c', caller, σ, view, hreach, hk, hrun, hp⟩ := exists_failedPublish (n := 24)
    (p := fun c c' => c'.shared.views.order.length != c.shared.views.order.length)
    (by decide +kernel)
  refine ⟨c, c', caller, σ, view, reachable_run hreach, hk, hrun, fun hsame => ?_⟩
  rw [hsame.2, bne_self_eq_false] at hp
  cases hp

end samples

end ContextHmi.Runtime.Views
