import Actorplane.Mailboxes.Fences
import Actorplane.Reach.Stops
import Actorplane.Supervision.Steps

/-!
# Drains and maintenance of mailboxes

A drain leaves the mailboxes alone until it stops its actors. A maintenance pass takes what
is due out of every mailbox, and then clears those of the actors it stops.
-/

namespace Actorplane

variable {st st' : State} {r : ActorRef} {a : Actor} {w : World} {now : Instant}

namespace World

/-! ## Drains -/

theorem mailroom_markAllQuiescing
    {mark : ActorRef → Instant → State → Except Error Instant × State}
    (hm : ∀ q d st, (mark q d st).2.mailroom = st.mailroom) (children : List ActorRef)
    (deadline : Instant) :
    (markAllQuiescing mark children deadline st).2.mailroom = st.mailroom := by
  induction children generalizing deadline st with
  | nil => rfl
  | cons q children ih =>
    have first := hm q deadline st
    unfold markAllQuiescing
    rcases hcall : mark q deadline st with ⟨e | d, st'⟩
    · rw [hcall] at first
      exact first
    · rw [hcall] at first
      exact (ih d).trans first

theorem mailroom_markQuiescing (root : ActorRef) (fuel : ℕ) (r : ActorRef) (deadline : Instant)
    (st : State) : (w.markQuiescing root fuel r deadline st).2.mailroom = st.mailroom := by
  induction fuel generalizing r deadline st with
  | zero => rfl
  | succ fuel ih =>
    unfold markQuiescing
    dsimp only
    cases check : w.checkRef r st with
    | error e => rfl
    | ok a =>
      dsimp only
      by_cases ended : a.state = .stopping ∨ a.state = .stopped
      · rw [if_pos ended]
      rw [if_neg ended]
      set mark : Actor → Actor := fun a =>
        { a with
          state := .quiescing
          publicationCutoff := some (a.publicationCutoff.getD st.publications.lastIssued)
          drainRoot := some root
          drainDeadline := none } with hmark
      set st₁ : State :=
        { st.modifyActor r mark with drainRoots := st.drainRoots.erase r.slot } with hst₁
      have marked : st₁.mailroom = st.mailroom := by
        apply State.mailroom_modify_at (checkRef_get check)
        obtain ⟨running, live⟩ := not_or.mp ended
        simp [hmark, Actor.tray, running, live]
      have walked := @mailroom_markAllQuiescing st₁ (w.markQuiescing root fuel) ih a.children
        (sooner a.drainDeadline deadline)
      split
      case h_1 e st' heq =>
        have same : markAllQuiescing (w.markQuiescing root fuel) a.children
          (sooner a.drainDeadline deadline) st₁ = (.error e, st') := heq
        rw [same] at walked
        exact walked.trans marked
      case h_2 d st' heq =>
        have same : markAllQuiescing (w.markQuiescing root fuel) a.children
          (sooner a.drainDeadline deadline) st₁ = (.ok d, st') := heq
        rw [same] at walked
        exact walked.trans marked

theorem drainLocked_empties (hv : st.core.Valid w.id) (deadline : Instant) :
    Empties w st (w.drainLocked r deadline st).2 := by
  unfold drainLocked
  cases w.checkRef r st with
  | error e => exact .refl st
  | ok a =>
    dsimp only
    cases a.state with
    | starting => exact stopLocked_empties hv
    | active =>
      have walked := @mailroom_markQuiescing w r walkFuel r deadline st
      dsimp only
      rcases hcall : w.markQuiescing r walkFuel r deadline st with ⟨e | d, st'⟩
      · rw [hcall] at walked
        exact .still walked
      · rw [hcall] at walked
        have started := @State.mailroom_modify st' r (fun a => { a with drainDeadline := some d })
          fun _ => rfl
        exact .still (started.trans walked)
    | quiescing =>
      dsimp only
      cases w.checkRef (a.drainRoot.getD r) st with
      | error e => exact .refl st
      | ok b => exact .still (State.mailroom_modify fun _ => rfl)
    | stopping => exact .refl st
    | stopped => exact .refl st

theorem drainRootsLocked_empties (hv : st.core.Valid w.id) (deadline : Instant) :
    Empties w st (w.drainRootsLocked deadline st) := by
  have fold : ∀ (roots : List ActorRef) (st : State), st.core.Valid w.id →
      Empties w st (roots.foldl (fun st r => (w.drainLocked r deadline st).2) st) := by
    intro roots
    induction roots with
    | nil => exact fun st _ => .refl st
    | cons root roots ih =>
      intro st hv
      have first := drainLocked_empties (r := root) hv deadline
      have valid := ((drainLocked_spec (w := w) (r := root) hv deadline).1.evolves hv).valid hv
      exact first.trans (ih _ valid)
  have closed : Empties w st { st with closed := true } := .still rfl
  exact closed.trans (fold _ { st with closed := true } hv)

/-! ## Maintenance -/

theorem maintainRoot_empties (hv : st.core.Valid w.id) (now : Instant) (root : ActorRef) :
    Empties w st (w.maintainRoot now st root) := by
  unfold maintainRoot
  split_ifs with stale
  · exact .refl st
  dsimp only
  split_ifs with due late
  · have core : (timedOut root st).core =
        { st.core with life := st.core.life ++ [.drainTimeout root] } := by
      have soft : (st.modifyActor root fun a => { a with drainTimedOut := true }).core = st.core :=
        State.core_modify_soft _ (fun _ => rfl) (fun _ => rfl) fun _ => rfl
      show ((st.modifyActor root fun a => { a with drainTimedOut := true }).note
        (.drainTimeout root)).core = _
      rw [State.core_note_life _ rfl, soft]
    have step : Step w.id st.core (.timeout root) (timedOut root st).core := by
      rw [core]
      exact .timeout
    have timed : Empties w st (timedOut root st) :=
      .still (@State.mailroom_modify st root (fun a => { a with drainTimedOut := true })
        fun _ => rfl)
    exact timed.trans (stopLocked_empties (hv.step step))
  · exact stopLocked_empties hv
  · exact .refl st

theorem maintainRoots_empties (roots : List ActorRef) (hv : st.core.Valid w.id) :
    Empties w st (roots.foldl (w.maintainRoot now) st) := by
  induction roots generalizing st with
  | nil => exact .refl st
  | cons root roots ih =>
    have first := maintainRoot_empties hv now root
    exact first.trans (ih ((@maintainRoot_upkeep root w st now hv).valid hv))

/-- Only the expiry of events touches the mailboxes. -/
theorem mailroom_expireAll :
    (w.expireAll now st).mailroom = (w.expireEventsLocked now st).mailroom := by
  have operations := @desk_expireOperationsLocked
    (w.expirePublicationsLocked now (w.expireEventsLocked now st)) w now
  have publications := @desk_expirePublicationsLocked (w.expireEventsLocked now st) w now
  unfold expireAll
  exact (State.mailroom_of_desk operations).trans (State.mailroom_of_desk publications)

theorem maintainLocked_posts (hv : st.core.Valid w.id) (now : Instant) :
    Posts w st (w.maintainLocked now st) := by
  have expired : Posts w st (w.expireAll now st) := by
    intro settled
    rw [mailroom_expireAll]
    exact expireEventsLocked_posts settled
  exact expired.trans (maintainRoots_empties _ ((expireAll_expires hv).valid hv)).posts

theorem requestDrain_posts (hv : st.core.Valid w.id) (deadline : Instant) :
    Posts w st (w.requestDrain r deadline st).2 := by
  have drained := (drainLocked_empties (r := r) hv deadline).posts
  have valid := ((drainLocked_spec (w := w) (r := r) hv deadline).1.evolves hv).valid hv
  unfold requestDrain
  rcases hcall : w.drainLocked r deadline st with ⟨e | u, st'⟩
  · rw [hcall] at drained
    exact drained
  · rw [hcall] at drained valid
    have ticked : Posts w st st'.tick := drained.after rfl
    have valid : st'.tick.core.Valid w.id := valid
    exact (ticked.trans (maintainLocked_posts valid (w.now st'))).after mailroom_touch

theorem drainAll_posts (hv : st.core.Valid w.id) (deadline : Instant) :
    Posts w st (w.drainAll deadline st) := by
  have drained := (drainRootsLocked_empties hv deadline).posts
  have valid := ((drainRootsLocked_requests hv deadline).drains hv).valid hv
  unfold drainAll
  generalize w.drainRootsLocked deadline st = st' at drained valid ⊢
  have ticked : Posts w st st'.tick := drained.after rfl
  have valid : st'.tick.core.Valid w.id := valid
  exact (ticked.trans (maintainLocked_posts valid (w.now st'))).after mailroom_touch

theorem maintain_posts (hv : st.core.Valid w.id) (now : Instant) :
    Posts w st (w.maintain now st) := by
  have maintained := maintainLocked_posts hv now
  unfold maintain
  dsimp only
  split_ifs
  · exact maintained
  · exact maintained.after mailroom_touch

end World

end Actorplane
