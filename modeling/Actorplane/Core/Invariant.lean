import Actorplane.Core.Blockers
import Actorplane.Core.Census
import Actorplane.Core.Controls
import Actorplane.Core.Draining
import Actorplane.Core.Operations
import Actorplane.Core.Quotas
import Actorplane.Core.Services
import Actorplane.Core.Staging

/-!
# The invariant of the core

Everything that holds between any two moves, and what a sequence of moves does to
the two invariants that only hold between calls.
-/

namespace Actorplane

variable {world : ℕ} {c c' c'' : Core} {m : Move} {P Q : Move → Prop}

structure Core.Valid (world : ℕ) (c : Core) : Prop where
  owned : c.Owned world
  columns : c.Columns
  operating : c.Operating world
  routed : c.Routed
  serving : c.Serving
  drains : c.Drains
  publishing : c.Publishing
  ordered : c.Ordered
  snapshots : c.Snapshots
  staging : c.Staging
  quiet : c.Quiet
  leased : c.Leased
  tallied : c.Tallied
  conserved : c.Conserved
  queued : c.Queued
  delivers : c.Delivers
  controlled : c.Controlled
  budgeted : c.Budgeted

theorem Core.Valid.step (h : c.Valid world) (hs : Step world c m c') : c'.Valid world where
  owned := h.owned.step hs
  columns := h.columns.step h.owned hs
  operating := h.operating.step h.owned hs
  routed := h.routed.step h.owned hs
  serving := h.serving.step h.owned hs
  drains := h.drains.step h.owned hs
  publishing := h.publishing.step h.routed hs
  ordered := h.ordered.step h.publishing hs
  snapshots := h.snapshots.step h.publishing h.routed hs
  staging := h.staging.step h.owned h.columns h.publishing hs
  quiet := h.quiet.step h.owned h.columns hs
  leased := h.leased.step h.owned h.columns hs
  tallied := h.tallied.step h.owned h.columns h.quiet hs
  conserved := h.conserved.step h.owned h.columns h.quiet hs
  queued := h.queued.step h.owned h.columns hs
  delivers := h.delivers.step hs
  controlled := h.controlled.step h.owned h.columns hs
  budgeted := h.budgeted.step h.publishing hs

theorem Steps.valid (hs : Steps world P c c') (h : c.Valid world) : c'.Valid world :=
  hs.invariant (fun _ _ _ hv _ hst => hv.step hst) h

theorem valid_init (w : World) : w.init.core.Valid w.id where
  owned := ownership_empty w.id
  columns := ⟨rfl, rfl⟩
  operating := by
    refine ⟨OperationTable.indexed_new _ _, rfl, fun id p hp => ?_⟩
    simp [World.init, State.core, OperationTable.new, OperationTable.locate] at hp
    split_ifs at hp
  routed := by
    refine ⟨RouteTable.indexed_new, fun id s hs => ?_, fun id s hs => ?_⟩ <;>
      simp [World.init, State.core, RouteTable.new, RouteTable.get] at hs
  serving := by
    constructor <;> simp [World.init, State.core, Registry.new]
  drains := by
    constructor <;> simp [World.init, State.core, Seated]
  publishing := by
    refine ⟨PublicationTable.sound_new _ _, ?_, ?_, fun id _ => ⟨rfl, rfl, rfl, rfl⟩, ?_⟩ <;>
      simp [World.init, State.core, PublicationTable.new, reportsOf, PublicationTable.statusOf]
  ordered := by
    constructor <;> simp [World.init, State.core, acceptedIds, attemptedBy, deliveredIds]
  snapshots := by
    simp [World.init, State.core, Core.Snapshots, PublicationTable.new]
  staging := by
    constructor <;> simp [World.init, State.core, PublicationTable.new]
  quiet := by simp [World.init, State.core, Core.Quiet]
  leased := by constructor <;> simp [World.init, State.core]
  tallied := by
    constructor <;> simp [World.init, State.core, Metrics.ledger, Core.stagedLosses, mailTotal]
  conserved := by
    constructor <;> simp [World.init, State.core, queuedCount, leasedCount]
  queued := by
    constructor <;> simp [World.init, State.core, claimedBy]
  delivers := by simp [World.init, State.core, Core.Delivers]
  controlled := by constructor <;> simp [World.init, State.core, Core.controls]
  budgeted := ⟨PublicationTable.budgeted_new _ _, rfl⟩

/-! ## Evolution -/

/-- A sequence of moves that keeps the invariants which only hold between calls. -/
structure Evolves (world : ℕ) (P : Move → Prop) (c c' : Core) : Prop where
  steps : Steps world P c c'
  draining : ∀ X, c.Draining X → c'.Draining X
  blocked : ∀ X, c.Blocked X → c'.Blocked X

namespace Evolves

theorem refl (c : Core) : Evolves world P c c := ⟨.refl c, fun _ h => h, fun _ h => h⟩

theorem still (h : c' = c) : Evolves world P c c' := by
  subst h
  exact .refl _

theorem trans (h : Evolves world P c c') (h' : Evolves world P c' c'') : Evolves world P c c'' :=
  ⟨h.steps.trans h'.steps, fun X hX => h'.draining X (h.draining X hX),
    fun X hX => h'.blocked X (h.blocked X hX)⟩

theorem mono (hPQ : ∀ m, P m → Q m) (h : Evolves world P c c') : Evolves world Q c c' :=
  ⟨h.steps.mono hPQ, h.draining, h.blocked⟩

theorem valid (h : Evolves world P c c') (hv : c.Valid world) : c'.Valid world := h.steps.valid hv

/-- One move that breaks neither invariant. -/
theorem single (hv : c.Valid world) (hP : P m) (hs : Step world c m c')
    (hdrain : ∀ slot, m ≠ .undrain slot) (hloose : ∀ x, ¬m.loosens c x) :
    Evolves world P c c' := by
  refine ⟨.single hP hs, fun X h => ?_, fun X h => ?_⟩
  · exact h.step hv.owned hs fun slot he => absurd he (hdrain slot)
  · exact (h.step hv.owned hv.columns hs).mono fun x hx => hx.resolve_right (hloose x)

end Evolves

end Actorplane
