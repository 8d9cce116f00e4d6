import ContextHmi.Runtime.Key

/-!
# Generations of the active model

Every change of the active model takes the next generation. A request works on the snapshot it took
when it started, which may be one of an earlier generation by the time it ends; `earlier` is history,
kept to say which snapshots a request can still hold.

* `Numbered.advance` : a change keeps the generations apart;
* `Numbered.eq_of_generation` : a generation has one snapshot.
-/

namespace ContextHmi.Runtime

open Outcome

section
variable [Platform]

structure Generations where
  active : Snapshot
  earlier : List Snapshot

/-- Who asked for a change. -/
inductive Cause where
  | scenarioSelected
  | fileRescan
  deriving DecidableEq

/-- The content of a watched file changed, and its declared revision did not advance. -/
def staleRevision (active candidate : AcceptedModel) : Bool :=
  candidate.index.modelId == active.index.modelId &&
    revisionNumber candidate.index ≤ revisionNumber active.index

namespace Generations

/-- The first model. -/
def start (model : AcceptedModel) : Generations := ⟨⟨model, 0⟩, []⟩

/-- The part of `apply_model_change` that says whether a candidate is refused. -/
def checkChange (g : Generations) (cause : Cause) (candidate : AcceptedModel) : Result Unit :=
  throwIf (cause = .fileRescan ∧ staleRevision g.active.model candidate = true)
    (.domain "stale_model_revision" "changed model content must advance its declared revision")

/-- The candidate becomes the active model. -/
def advance (g : Generations) (candidate : AcceptedModel) : Generations :=
  ⟨⟨candidate, g.active.generation + 1⟩, g.active :: g.earlier⟩

/-- A snapshot that is or was the active one. -/
def Known (g : Generations) (σ : Snapshot) : Prop := σ ∈ g.active :: g.earlier

/-- Later snapshots have later generations. -/
def Numbered (g : Generations) : Prop :=
  (g.active :: g.earlier).Pairwise fun σ τ => τ.generation < σ.generation

variable {g : Generations} {σ τ : Snapshot} {candidate : AcceptedModel}

theorem known_active (g : Generations) : g.Known g.active := List.mem_cons_self

theorem Known.advance (h : g.Known σ) : (g.advance candidate).Known σ := List.mem_cons_of_mem _ h

theorem numbered_start (model : AcceptedModel) : (start model).Numbered := List.pairwise_singleton _ _

theorem Numbered.generation_le (h : g.Numbered) (hσ : g.Known σ) :
    σ.generation ≤ g.active.generation := by
  rcases List.mem_cons.mp hσ with rfl | hearlier
  · exact Nat.le_refl _
  · exact Nat.le_of_lt ((List.pairwise_cons.mp h).1 σ hearlier)

theorem Numbered.advance (h : g.Numbered) (candidate : AcceptedModel) :
    (g.advance candidate).Numbered := by
  refine List.pairwise_cons.mpr ⟨fun σ hσ => ?_, h⟩
  have hle := h.generation_le hσ
  show σ.generation < g.active.generation + 1
  omega

/-- **A generation has one snapshot.** -/
theorem Numbered.eq_of_generation (h : g.Numbered) (hσ : g.Known σ) (hτ : g.Known τ)
    (heq : σ.generation = τ.generation) : σ = τ := by
  have hnodup : ((g.active :: g.earlier).map (·.generation)).Nodup := by
    rw [List.Nodup, List.pairwise_map]
    exact List.Pairwise.imp (fun hlt => Nat.ne_of_gt hlt) h
  exact List.inj_on_of_nodup_map hnodup hσ hτ heq

end Generations

end

end ContextHmi.Runtime
