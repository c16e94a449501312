import Actorplane.Locked.World

/-!
# Reachable states

The invariant of the moves, and the two that only hold between calls, hold after
every sequence of calls on a fresh World. Along a run the core only changes by
moves.
-/

namespace Actorplane

namespace World

variable {w : World} {st : State}

theorem exec_append (before after : List Action) :
    w.exec st (before ++ after) = w.exec (w.exec st before) after := List.foldl_append

theorem rests_init : w.Rests w.init where
  valid := valid_init w
  draining := by simp [World.init, State.core, Core.Draining, Seated]
  blocked := by simp [World.init, State.core, Core.Blocked, Seated]

theorem Rests.exec (h : w.Rests st) (actions : List Action) : w.Rests (w.exec st actions) := by
  induction actions generalizing st with
  | nil => exact h
  | cons action actions ih => exact ih (h.step action)

/-- What holds after every sequence of calls on a fresh World. -/
theorem rests (actions : List Action) : w.Rests (w.exec w.init actions) :=
  rests_init.exec actions

theorem Rests.steps (h : w.Rests st) (actions : List Action) :
    Steps w.id (fun _ => True) st.core (w.exec st actions).core := by
  induction actions generalizing st with
  | nil => exact .refl _
  | cons action actions ih =>
    exact ((step_evolves h.valid action).steps.mono fun _ _ => trivial).trans (ih (h.step action))

/-- A measure of the state that every call raises by the outcomes it counts. -/
theorem Rests.countP {g : State → ℕ} {p : Outcome → Bool}
    (hstep : ∀ st action, w.Rests st →
      g (w.step action st).2 = g st + if p (w.step action st).1 then 1 else 0)
    (h : w.Rests st) (actions : List Action) :
    g (w.exec st actions) = g st + (w.outcomes st actions).countP p := by
  induction actions generalizing st with
  | nil => rfl
  | cons action actions ih =>
    have hone := hstep st action h
    have hrest := ih (h.step action)
    show g (w.exec (w.step action st).2 actions) = g st + (_ :: _ : List Outcome).countP p
    rw [hrest, hone, List.countP_cons]
    omega

/-- A history that every call extends by the outcome it gives. -/
theorem Rests.filterMap {α : Type} {g : State → List α} {f : Outcome → Option α}
    (hstep : ∀ st action, w.Rests st →
      g (w.step action st).2 = g st ++ (f (w.step action st).1).toList)
    (h : w.Rests st) (actions : List Action) :
    g (w.exec st actions) = g st ++ (w.outcomes st actions).filterMap f := by
  induction actions generalizing st with
  | nil => simp [World.exec, outcomes]
  | cons action actions ih =>
    have hone := hstep st action h
    have hrest := ih (h.step action)
    show g (w.exec (w.step action st).2 actions) = g st ++ (_ :: _ : List Outcome).filterMap f
    rw [hrest, hone, List.append_assoc, List.filterMap_cons]
    cases f (w.step action st).1 <;> rfl

/-! ## Checked references -/

theorem Rests.check (h : w.Rests st) {r : ActorRef} {a : Actor} :
    w.checkRef r st = .ok a ↔ st.actors[r.slot]? = some a ∧ a.reference = r :=
  checkRef_ok h.valid.owned

theorem Rests.check_iff_seated (h : w.Rests st) {r : ActorRef} {n : Node} :
    Seated st.core.nodes r n ↔ ∃ a, w.checkRef r st = .ok a ∧ a.node = n := by
  constructor
  · intro hn
    obtain ⟨a, ha, -, hnode⟩ := check_of_seated h.valid.owned hn
    exact ⟨a, ha, hnode⟩
  · rintro ⟨a, ha, rfl⟩
    exact seated_of_check h.valid.owned ha

end World

end Actorplane
