import Actorplane.Supervision.Fencing

/-!
# Calls on the roster

Most calls change the roster without a report, a claim or a lapse. A report changes it
by one failure first, a claim and an abandoned claim by one change of their own.
-/

namespace Actorplane

variable {t : Roster} {r : ActorRef} {m : Member}

/-- The changes of a call that seats nobody, reports no failure and delivers none. -/
def Change.calm : Change → Prop
  | .join _ _ | .fail _ _ | .claim _ _ | .lapse => False
  | _ => True

/-- The changes of a call that seats an actor. -/
def Change.seating : Change → Prop
  | .join _ _ | .enter _ _ | .lease _ _ => True
  | _ => False

/-- Changes that report no failure and deliver none. -/
def Change.mild : Change → Prop
  | .fail _ _ | .claim _ _ | .lapse => False
  | _ => True

theorem Change.calm.mild {x : Change} (h : x.calm) : x.mild := by
  cases x with
  | fail | claim | lapse => exact h.elim
  | _ => trivial

theorem Change.seating.mild {x : Change} (h : x.seating) : x.mild := by
  cases x with
  | fail | claim | lapse => exact h.elim
  | _ => trivial

/-- A call that makes changes of one kind. -/
structure Calls (w : World) (P : Change → Prop) (st st' : State) : Prop where
  alters : Alters w.cfg P st.roster st'.roster
  served : st.services.Served → st'.services.Served

/-- A call that seats nobody, reports no failure and delivers none. -/
abbrev Calm (w : World) (st st' : State) : Prop := Calls w Change.calm st st'

namespace Calls

variable {w : World} {P Q : Change → Prop} {st st' st'' : State}

theorem of_services (h : Alters w.cfg P st.roster st'.roster)
    (hs : st'.services = st.services) : Calls w P st st' := by
  refine ⟨h, ?_⟩
  rw [hs]
  exact id

theorem still (h : st'.roster = st.roster) : Calls w P st st' :=
  of_services (Alters.still h) (congrArg Roster.services h)

theorem refl (st : State) : Calls w P st st := still rfl

theorem trans (h : Calls w P st st') (h' : Calls w P st' st'') : Calls w P st st'' :=
  ⟨h.alters.trans h'.alters, h'.served ∘ h.served⟩

theorem mono (hPQ : ∀ x, P x → Q x) (h : Calls w P st st') : Calls w Q st st' :=
  ⟨h.alters.mono hPQ, h.served⟩

/-- What follows without a change of the roster. -/
theorem after (h : Calls w P st st') (hr : st''.roster = st'.roster) : Calls w P st st'' :=
  h.trans (still hr)

theorem single {x : Change} (hx : P x) (hm : st.roster.May w.cfg x)
    (hr : st'.roster = st.roster.after x) (hs : (st.roster.after x).services = st.services) :
    Calls w P st st' := by
  apply of_services
  · rw [hr]
    exact .single hx hm
  · exact (congrArg Roster.services hr).trans hs

theorem tidy (h : Calls w P st st') (ht : st.services.Tidy) : st'.services.Tidy :=
  h.alters.tidy ht

theorem retires (h : Alters w.cfg Change.retires st.roster st'.roster) : Calm w st st' := by
  apply of_services _ h.services
  apply h.mono
  intro x hx
  cases x with
  | retire r => trivial
  | _ => exact hx.elim

end Calls

theorem Falls.calm {w : World} {X : ActorRef → Prop} {st st' : State} (h : Falls w X st st') :
    Calm w st st' := by
  constructor
  · apply h.alters.mono
    intro x hx
    cases x with
    | join | fail | claim | lapse => exact hx.elim
    | _ => trivial
  · exact fun served => h.keeps.served served fun _ _ => h.leases

/-- Whoever owns its nodes owns them whatever the other columns hold. -/
theorem Core.Owned.congr {world : ℕ} {c c' : Core} (ho : c.Owned world) (hn : c'.nodes = c.nodes)
    (hl : c'.live = c.live) (hf : c'.free = c.free) : c'.Owned world := by
  unfold Core.Owned at ho ⊢
  rw [hn, hl, hf]
  exact ho

namespace State

variable {st : State}

theorem nodes_modifyActor {f : Actor → Actor} (hf : ∀ a, (f a).node = a.node) :
    (st.modifyActor r f).core.nodes = st.core.nodes := by
  show (st.actors.modify r.slot f).map Actor.node = st.actors.map Actor.node
  apply List.ext_getElem?
  intro i
  rw [List.getElem?_map, List.getElem?_map, List.getElem?_modify]
  cases st.actors[i]? with
  | none => rfl
  | some a =>
    by_cases here : r.slot = i
    · simp [here, hf]
    · simp [here]

theorem owned_modifyActor {world : ℕ} {f : Actor → Actor} (ho : st.core.Owned world)
    (hf : ∀ a, (f a).node = a.node) : (st.modifyActor r f).core.Owned world :=
  ho.congr (nodes_modifyActor hf) rfl rfl

end State

namespace World

variable {w : World} {st st' : State} {a : Actor}

/-! ## Actors -/

/-- An actor is settled after a change that the roster does not show. -/
theorem tryFinalize_calm (ho : st'.core.Owned w.id) (hr : st'.roster = st.roster) :
    Calm w st (w.tryFinalize walkFuel r st') :=
  (Calls.still hr).trans (.retires (tryFinalize_alters ho walkFuel))

theorem vacant_nextRef (ho : st.core.Owned w.id) : st.roster.Vacant (w.nextRef st) := by
  have fresh := @nextRef_fresh w st
  have bound : (w.nextRef st).slot ≤ st.actors.length := by
    have le := fresh.le ho
    simpa [State.core] using le
  have length : st.roster.members.length = st.actors.length := List.length_map _
  unfold Roster.Vacant
  rw [length]
  rcases bound.eq_or_lt with last | inside
  · exact .inl last
  · right
    obtain ⟨a, found⟩ : ∃ a, st.actors[(w.nextRef st).slot]? = some a :=
      ⟨_, List.getElem?_eq_getElem inside⟩
    have node := State.core_nodes_get found
    refine ⟨a.member, by simp [State.roster, found], ?_, ?_⟩
    · exact (fresh.old_stopped ho node).1
    · exact fresh.generation _ node

theorem present_parent (ho : st.core.Owned w.id) {parent : Option ActorRef}
    (h : w.parentAllows parent st = .ok ()) :
    ∀ p, parent = some p → st.roster.Present p ∧ p.slot ≠ (w.nextRef st).slot := by
  intro p hp
  obtain ⟨n, l, seated, state, -⟩ := parentAllows_ok ho h p hp
  obtain ⟨b, seat, -, rfl⟩ := State.seats_of_seated seated
  have running : b.state = .starting ∨ b.state = .active := state
  refine ⟨⟨b.member, seat, ?_⟩, ?_⟩
  · constructor
    · show b.state ≠ .stopping
      rcases running with h | h <;> simp [h]
    · show b.state ≠ .stopped
      rcases running with h | h <;> simp [h]
  · intro same
    have stopped := ((@nextRef_fresh w st).old_stopped ho (same ▸ seated.1)).1
    rcases state with h | h <;> simp [stopped] at h

/-- An actor joins below its parent, or nothing changes. -/
theorem roster_allocateLocked (ho : st.core.Owned w.id) (kind : EndpointKind)
    (parent : Option ActorRef) :
    (∃ e, w.allocateLocked kind parent st = (.error e, st)) ∨
      (w.allocateLocked kind parent st).1 = .ok (w.nextRef st) ∧
        (w.allocateLocked kind parent st).2.roster =
          st.roster.after (.join (w.nextRef st) parent) ∧
        st.roster.May w.cfg (.join (w.nextRef st) parent) := by
  unfold allocateLocked
  by_cases full : w.cfg.maxActors ≤ st.liveActors
  · exact .inl ⟨_, if_pos full⟩
  rw [if_neg full]
  cases allowed : w.parentAllows parent st with
  | error e => exact .inl ⟨e, rfl⟩
  | ok u =>
    dsimp only
    by_cases last : u64Max ≤ st.nextReadyOrder
    · exact .inl ⟨_, if_pos last⟩
    rw [if_neg last]
    right
    refine ⟨rfl, ?_, vacant_nextRef ho, present_parent ho allowed⟩
    dsimp only
    rw [roster_mark, roster_refresh]
    set x := newActor (w.nextRef st) st.nextReadyOrder kind parent
    have placed : ∀ actors : List Actor,
        (if x.reference.slot = actors.length then actors ++ [x]
          else actors.set x.reference.slot x).map Actor.member =
        if x.reference.slot = (actors.map Actor.member).length
          then actors.map Actor.member ++ [x.member]
          else (actors.map Actor.member).set x.reference.slot x.member := by
      intro actors
      rw [List.length_map]
      split_ifs
      · simp
      · rw [List.map_set]
    have joined : (placeActor x st).roster = { st.roster with
        members :=
          if x.reference.slot = st.roster.members.length then st.roster.members ++ [x.member]
          else st.roster.members.set x.reference.slot x.member } := by
      unfold placeActor
      dsimp only
      simp only [State.roster, placed]
      rfl
    cases parent with
    | none =>
      show ({ (placeActor x st).roster with nextOrder := st.nextReadyOrder + 1 } : Roster) = _
      rw [joined]
      rfl
    | some p =>
      have adopted := @State.roster_modify (placeActor x st) p
        (fun a => { a with children := a.children ++ [w.nextRef st] })
        (Member.adopt · (w.nextRef st)) fun _ => rfl
      rw [joined] at adopted
      show ({ ((placeActor x st).modifyActor p fun a =>
        { a with children := a.children ++ [w.nextRef st] }).roster with
          nextOrder := st.nextReadyOrder + 1 } : Roster) = _
      rw [adopted]
      rfl

theorem allocateLocked_seating (ho : st.core.Owned w.id) (kind : EndpointKind)
    (parent : Option ActorRef) : Calls w Change.seating st (w.allocateLocked kind parent st).2 := by
  obtain ⟨e, refused⟩ | ⟨-, joined, may⟩ := roster_allocateLocked ho kind parent
  · rw [refused]
    exact .refl st
  · exact .single (x := .join _ _) trivial may joined (Roster.services_join _ _)

theorem allocate_seating (ho : st.core.Owned w.id) {kind : EndpointKind}
    {parent : Option ActorRef} : Calls w Change.seating st (w.allocate kind parent st).2 := by
  unfold allocate
  split_ifs
  · exact .still rfl
  · exact (allocateLocked_seating ho kind parent).after roster_touch

theorem roster_refreshPythonSubtreeLocked :
    (w.refreshPythonSubtreeLocked r st).roster = st.roster := by
  unfold refreshPythonSubtreeLocked
  exact roster_foldl _ (fun _ _ => roster_refresh) _ _

theorem activate_calm (ho : st.core.Owned w.id) : Calm w st (w.activate r st).2 := by
  unfold activate
  cases allowed : w.activatable r st with
  | error e => exact .refl st
  | ok u =>
    obtain ⟨a, check, starting, -⟩ := activatable_ok ho allowed
    obtain ⟨found, current⟩ := (checkRef_ok ho).mp check
    dsimp only
    have entered : ((st.modifyActor r fun a => { a with state := .active }).note
        (.activated r)).roster = st.roster.after (.enter r .active) := by
      rw [State.roster_note rfl]
      exact State.roster_modify fun _ => rfl
    have may : st.roster.May w.cfg (.enter r .active) := by
      refine ⟨a.member, State.seats_iff.mpr ⟨a, found, current, rfl⟩, ?_, by decide, by decide, ?_,
        ?_⟩
      · show a.state ≠ .stopped
        rw [starting]
        decide
      · intro stopping
        exact absurd (starting.symm.trans stopping) (by decide)
      · exact fun impossible => absurd impossible (by decide)
    refine (Calls.single (x := .enter r .active) trivial may entered rfl).after ?_
    rw [roster_touch, roster_flushStagedLocked]
    exact roster_refreshPythonSubtreeLocked

/-! ## Leases on actors -/

theorem finishPython_calm (ho : st.core.Owned w.id) : Calm w st (w.finishPython r st).2 := by
  unfold finishPython
  cases w.checkRef r st with
  | error e => exact .still rfl
  | ok a =>
    have settled : Calm w st (w.tryFinalize walkFuel r
        (st.modifyActor r fun a => { a with pythonDone := true })) :=
      tryFinalize_calm (State.owned_modifyActor ho fun _ => rfl)
        (State.roster_modify_soft fun _ => rfl)
    exact settled.after roster_touch

theorem dropTask_calm (ho : st.core.Owned w.id) : Calm w st (w.dropTask r st) := by
  unfold dropTask
  dsimp only
  have ho : ({ st with taskLeases := st.taskLeases.erase r } : State).core.Owned w.id := ho
  refine Calls.after (@tryFinalize_calm r w st _ ?_ ?_) roster_touch
  · apply State.owned_modifyActor ho
    intro a
    split_ifs <;> rfl
  · apply @State.roster_modify_soft { st with taskLeases := st.taskLeases.erase r }
    intro a
    split_ifs <;> rfl

theorem owned_clearControl (ho : st.core.Owned w.id) : (w.clearControl r st).core.Owned w.id := by
  unfold clearControl
  cases w.checkRef r st with
  | error e => exact ho
  | ok a => exact State.owned_modifyActor ho fun _ => rfl

theorem dropCallback_calm (ho : st.core.Owned w.id) : Calm w st (w.dropCallback r st) := by
  unfold dropCallback
  dsimp only
  have ho : ({ st with callbackLeases := st.callbackLeases.erase r } : State).core.Owned w.id := ho
  refine Calls.after (@tryFinalize_calm r w st _ ?_ ?_) roster_touch
  · exact owned_clearControl ho
  · exact roster_clearControl

/-! ## Deliveries -/

/-- Work that neither the roster nor the ownership tree shows. -/
structure Aside (w : World) (st st' : State) : Prop where
  roster : st'.roster = st.roster
  owned : st.core.Owned w.id → st'.core.Owned w.id

theorem Aside.trans {st'' : State} (h : w.Aside st st') (h' : w.Aside st' st'') :
    w.Aside st st'' := ⟨h'.roster.trans h.roster, h'.owned ∘ h.owned⟩

theorem Aside.settle (h : w.Aside st st') (ho : st.core.Owned w.id) :
    Calm w st (w.tryFinalize walkFuel r st').touchActivity :=
  (tryFinalize_calm (h.owned ho) h.roster).after roster_touch

theorem endOperation_aside {id : OperationId} {outcome : TerminalOutcome} {won : State → State}
    (hwon : ∀ st : State, (won st).core =
      { st.core with ledger := st.core.ledger.endOperation outcome })
    (hr : ∀ st, (won st).roster = st.roster) :
    w.Aside st (w.endOperation id outcome won st) := by
  refine ⟨roster_endOperation id outcome won hr, ?_⟩
  intro ho
  rw [core_endOperation id outcome won hwon]
  apply ho.congr
  all_goals
    unfold Core.endOperation
    split_ifs <;> rfl

theorem clearInFlight_aside (lease : DeliveryLease) : w.Aside st (clearInFlight lease st) :=
  ⟨roster_clearInFlight lease,
    fun ho => @State.owned_modifyActor lease.target
      { st with deliveryLeases := st.deliveryLeases.erase lease } w.id _ ho fun _ => rfl⟩

theorem finishDelivery_calm (ho : st.core.Owned w.id) (lease : DeliveryLease) (success : Bool) :
    Calm w st (w.finishDelivery lease success st) := by
  unfold finishDelivery
  dsimp only
  have finished : w.Aside st (((clearInFlight lease st).addMetrics fun m =>
      { m with
        completed := m.completed + (if success then 1 else 0)
        failed := m.failed + (if success then 0 else 1) }).note
      (.finished lease.delivery.eventId success)) :=
    ⟨(State.roster_note rfl).trans (roster_clearInFlight lease), (clearInFlight_aside lease).owned⟩
  generalize ((clearInFlight lease st).addMetrics _).note _ = st₁ at finished ⊢
  have diagnosed : ∀ (b : Bool) (operation : Option OperationId), w.Aside st₁ (if b then
      st₁.diagnostic .handlerFailed (some lease.target) operation else st₁) := by
    intro b operation
    cases b
    · exact ⟨rfl, fun ho => ho⟩
    · exact ⟨rfl, fun ho => ho⟩
  refine Aside.settle ?_ ho
  cases lease.operation with
  | none => exact finished.trans (diagnosed _ none)
  | some operation =>
    cases success
    · apply (finished.trans (diagnosed (!false && !_) (some operation))).trans
      exact endOperation_aside (fun st => core_countCompleted) fun _ => rfl
    · exact finished.trans (diagnosed false (some operation))

theorem dropDelivery_calm (ho : st.core.Owned w.id) (lease : DeliveryLease) :
    Calm w st (w.dropDelivery lease st) := by
  unfold dropDelivery
  dsimp only
  have skipped : w.Aside st (skipDelivery lease.target lease.delivery .abandoned
      (clearInFlight lease st)) :=
    ⟨(roster_skipDelivery _ _).trans (roster_clearInFlight lease),
      (clearInFlight_aside lease).owned⟩
  refine Aside.settle ?_ ho
  cases lease.operation with
  | none => exact skipped
  | some operation =>
    apply skipped.trans
    exact endOperation_aside (fun _ => rfl) fun _ => rfl

/-! ## Stops -/

theorem stopLocked_falls (hv : st.core.Valid w.id) (ht : st.services.Tidy) :
    Falls w (fun _ => False) st (w.stopLocked r st).2 :=
  fenceLocked_faller fenceFuel r st hv ht (deep_of_le (by simp [fenceFuel, walkFuel]))

theorem closeLocked_falls (hv : st.core.Valid w.id) (ht : st.services.Tidy) :
    Falls w (fun _ => False) st (w.closeLocked st) := by
  have fold : ∀ (refs : List ActorRef) (st : State), st.core.Valid w.id → st.services.Tidy →
      Falls w (fun _ => False) st
        (refs.foldl (fun st r => (w.fenceLocked fenceFuel r st).2) st) := by
    intro refs
    induction refs with
    | nil => exact fun st _ _ => .refl st
    | cons r refs ih =>
      intro st hv ht
      have first : Falls w (fun _ => False) st (w.fenceLocked fenceFuel r st).2 :=
        stopLocked_falls hv ht
      have valid : (w.fenceLocked fenceFuel r st).2.core.Valid w.id :=
        (stopLocked_fences hv (st.core.closed_doomed r) .self).fenced.stops.valid hv
      exact first.trans (ih _ valid (first.tidy ht))
  have closed := fold ((st.actors.filter fun a => a.parent.isNone).map (·.reference))
    ({ st with closed := true } : State).closeRoutingLocked hv ht
  exact ⟨closed.alters, closed.reduces, closed.keeps⟩

theorem stop_calm (hv : st.core.Valid w.id) (ht : st.services.Tidy) :
    Calm w st (w.stop r st).2 := (stopLocked_falls hv ht).calm.after roster_touch

theorem close_calm (hv : st.core.Valid w.id) (ht : st.services.Tidy) :
    Calm w st (w.close st) := (closeLocked_falls hv ht).calm.after roster_touch

theorem applyFailureAction_calm (hv : st.core.Valid w.id) (ht : st.services.Tidy)
    (action : FailureAction) : Calm w st (w.applyFailureAction r action st).2 := by
  cases action with
  | «continue» => exact .refl st
  | stopWorld => exact (closeLocked_falls hv ht).calm
  | stopActor =>
    have stopped : Calm w st (w.stopLocked r st).2 := (stopLocked_falls hv ht).calm
    have same : (w.applyFailureAction r .stopActor st).2 = (w.stopLocked r st).2 := by
      unfold applyFailureAction
      rcases w.stopLocked r st with ⟨e | u, st'⟩
      · cases e <;> rfl
      · rfl
    rw [same]
    exact stopped

theorem releaseService_calm (hv : st.core.Valid w.id) (ht : st.services.Tidy)
    (lease : ServiceLease) : Calm w st (w.releaseService lease st).2 := by
  unfold releaseService
  split_ifs
  · exact .refl st
  cases st.services.leases.lookup lease.scope with
  | none => exact .refl st
  | some current =>
    dsimp only
    split_ifs
    · exact .refl st
    have stopped : Calm w st (w.stopLocked lease.scope st).2 := (stopLocked_falls hv ht).calm
    rcases hcall : w.stopLocked lease.scope st with ⟨e | u, st'⟩
    · rw [hcall] at stopped
      exact stopped
    · rw [hcall] at stopped
      exact stopped.after roster_touch

end World

end Actorplane
