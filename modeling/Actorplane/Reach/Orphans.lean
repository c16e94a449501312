import Actorplane.Reach.Blockers
import Actorplane.Supervision.Totals

/-!
# No orphaned actors

Once the last blocker of a stopping actor is gone the actor is finalized, once for every
generation, and its parent takes over its totals. So each failure of a run is counted by
its actor, by every finalized actor above it and by the first one above them.
-/

namespace Actorplane

namespace World

variable {w : World} {st : State} {r : ActorRef} {a : Actor} {l : List ActorRef}

/-- The actors that count what was noted at the start of a path: those up to the first one
that is not finalized. -/
def counting (st : State) : List ActorRef → List ActorRef
  | [] => []
  | q :: l => q :: if childDone st q then counting st l else []

theorem childDone_eq (q : ActorRef) : childDone st q = !st.roster.alive q := by
  unfold childDone Roster.alive
  rw [show st.roster.members[q.slot]? = (st.actors[q.slot]?).map Actor.member from
    List.getElem?_map]
  cases st.actors[q.slot]? with
  | none => rfl
  | some x => simp [Actor.member]

theorem mem_counting : r ∈ counting st l ↔ st.roster.holds r l = true := by
  induction l with
  | nil => simp [counting, Roster.holds]
  | cons q l ih =>
    unfold counting Roster.holds
    rw [childDone_eq, List.mem_cons, Bool.or_eq_true, decide_eq_true_eq, eq_comm]
    cases st.roster.alive q
    · simp [ih]
    · simp

/-- The totals of the actors after a run: what was noted at an actor has been added, once each, to
the totals of those that count it. -/
structure RolledUp (w : World) (actions : List Action) : Prop where
  errors : ∀ r a, w.checkRef r (w.exec w.init actions) = .ok a →
    a.errors = min ((w.marks w.init actions).countP
      fun e => r ∈ counting (w.exec w.init actions) e.path) u64Max
  lastError : ∀ r a, w.checkRef r (w.exec w.init actions) = .ok a →
    a.lastError = (((w.marks w.init actions).filter
      fun e => r ∈ counting (w.exec w.init actions) e.path).map (·.record)).getLast?
  drainTimedOut : ∀ r a, w.checkRef r (w.exec w.init actions) = .ok a →
    (a.drainTimedOut = true ↔
      ∃ l ∈ w.lates w.init actions, r ∈ counting (w.exec w.init actions) l)

theorem rolledUp (actions : List Action) : w.RolledUp actions := by
  have h : w.Rests (w.exec w.init actions) := rests actions
  have recorded := staffed_init.recorded_exec (w := w) recorded_init actions
  rw [List.nil_append, List.nil_append] at recorded
  have totals : ∀ r a, w.checkRef r (w.exec w.init actions) = .ok a →
      (w.exec w.init actions).roster.Totals (w.marks w.init actions) (w.lates w.init actions)
        r a.member := by
    intro r a check
    obtain ⟨found, current⟩ := h.check.mp check
    exact recorded.totals r a.member (State.seats_iff.mpr ⟨a, found, current, rfl⟩)
  refine ⟨fun r a check => ?_, fun r a check => ?_, fun r a check => ?_⟩
  · rw [show a.errors = a.member.errors from rfl, (totals r a check).errors]
    simp only [mem_counting, Bool.decide_eq_true]
  · rw [show a.lastError = a.member.lastError from rfl, (totals r a check).lastError, newest_eq]
    simp only [mem_counting, Bool.decide_eq_true]
  · rw [show a.drainTimedOut = a.member.drainTimedOut from rfl, (totals r a check).timedOut,
      List.any_eq_true]
    simp only [mem_counting]

/-- No stopping actor is left without a blocker, and every generation is finalized once, with its
totals handed to its parent. -/
theorem no_orphan (w : World) (before after : List Action) :
    (∀ r a, w.checkRef r (w.exec w.init before) = .ok a → a.state = .stopping →
      w.Blocked (w.exec w.init before) a) ∧
    w.FinalizedOnce (w.exec w.init before) ∧
    w.RolledUp before ∧
    ∀ r a, w.Living (w.exec w.init before) r a →
      (∃ b, w.Living (w.exec w.init (before ++ after)) r b) ∨
        (w.exec w.init (before ++ after)).log.count (.finalized r) = 1 := by
  have hi : w.Rests w.init := rests_init
  have hfin : ∀ actions, (w.exec w.init actions).core.Finalized :=
    fun actions => (hi.steps actions).finalized hi.valid finalized_init
  have h : w.Rests (w.exec w.init before) := rests before
  refine ⟨fun r a ha hs => h.blockedActor ha hs, h.finalizedOnce (hfin before), rolledUp before,
    fun r a ha => ?_⟩
  have h' : w.Rests (w.exec w.init (before ++ after)) := rests (before ++ after)
  have hsteps := h.steps after
  rw [← exec_append] at hsteps
  rcases hsteps.alive h.valid (h.living_iff.mpr ⟨a, ha, rfl⟩ |> fun hn => ⟨a.node, hn⟩) with
    ⟨n, hn⟩ | hr
  · obtain ⟨b, hb, -⟩ := h'.living_iff.mp hn
    exact .inl ⟨b, hb⟩
  · right
    have hone := (h'.finalizedOnce (hfin _)).once r
    have hpos := List.count_pos_iff.mpr ((mem_life rfl).mp hr)
    omega

end World

end Actorplane
