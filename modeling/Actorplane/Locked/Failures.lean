import Actorplane.Locked.Handles

/-!
# Failures, stops and drains

A reported failure raises a notification at its actor and may fence actors. Claiming
the notification moves it to the supervisor, which stays under control until the
lease is finished or dropped.
-/

namespace Actorplane

variable {world : ℕ} {c c' c'' : Core} {r : ActorRef} {n : Node}

/-! ## Fences -/

/-- A fence that only cancels the work of actors it has ended. -/
abbrev Stops (world : ℕ) (c c' : Core) : Prop :=
  Evolves world (Move.byFence (Ended c'.nodes)) c c'

theorem Fenced.stops {D : ActorRef → Prop} (h : Fenced world D (fun _ => False) c c') :
    Stops world c c' :=
  h.mono fun _ hm => hm.mono fun _ hx => hx.2.resolve_left not_false

/-- The moves of a call on behalf of one actor: its blockers change, and fences. -/
def Move.byHandler (r : ActorRef) (D : ActorRef → Prop) (m : Move) : Prop :=
  m = .hold r ∨ m.byFence D

theorem Move.byHold.handler {m : Move} {D : ActorRef → Prop} (h : m.byHold r) :
    m.byHandler r D := by
  cases m <;> simp only [Move.byHold] at h
  case hold q =>
    subst h
    exact .inl rfl
  case finalize => exact .inr trivial

namespace World

variable {w : World} {st : State} {a : Actor}

theorem stop_stops (hv : st.core.Valid w.id) (r : ActorRef) :
    Stops w.id st.core (w.stop r st).2.core :=
  (stopLocked_fences hv (st.core.closed_doomed r) .self).fenced.stops

theorem close_stops (hv : st.core.Valid w.id) : Stops w.id st.core (w.close st).core :=
  (closeLocked_fenced hv).stops

theorem applyFailureAction_stops (hv : st.core.Valid w.id) (r : ActorRef) (action : FailureAction) :
    Stops w.id st.core (w.applyFailureAction r action st).2.core := by
  cases action with
  | «continue» => exact .refl _
  | stopWorld => exact (closeLocked_fenced hv).stops
  | stopActor =>
    have h : Stops w.id st.core (w.stopLocked r st).2.core :=
      (stopLocked_fences hv (st.core.closed_doomed r) .self).fenced.stops
    have hsame : (w.applyFailureAction r .stopActor st).2 = (w.stopLocked r st).2 := by
      unfold applyFailureAction
      rcases w.stopLocked r st with ⟨e | u, st'⟩
      · cases e <;> rfl
      · rfl
    rw [hsame]
    exact h

/-- The actor of a reported failure can always be stopped. -/
theorem applyFailureAction_ok (hv : st.core.Valid w.id) (hn : Seated st.core.nodes r n)
    (action : FailureAction) : (w.applyFailureAction r action st).1 = .ok () := by
  cases action with
  | «continue» => rfl
  | stopWorld => rfl
  | stopActor =>
    have h := ((stopLocked_fences (w := w) hv (st.core.closed_doomed r) .self).ended ⟨n, hn⟩).1
    unfold applyFailureAction
    rcases hs : w.stopLocked r st with ⟨e | u, st'⟩
    · rw [hs] at h
      cases h
    · rfl

/-! ## Reports -/

theorem core_failOperation (operation : Option OperationId) :
    (∃ now, (w.failOperation operation st).core =
      match operation with
      | none => st.core
      | some id => (st.core.timeOut id now).endOperation id failHandler) := by
  unfold failOperation
  rcases operation with - | id
  · exact ⟨0, rfl⟩
  · refine ⟨w.now st, ?_⟩
    dsimp only
    rw [core_endOperation id _ _ fun st => core_countCompleted, core_timeOutOperation]
    rfl

theorem failOperation_evolves {D : ActorRef → Prop} (hv : st.core.Valid w.id)
    (operation : Option OperationId) :
    Evolves w.id (Move.byHandler r D) st.core (w.failOperation operation st).core := by
  obtain ⟨now, h⟩ := @core_failOperation w st operation
  rw [h]
  rcases operation with - | id
  · exact .refl _
  · have h₁ : Evolves w.id (Move.byHandler r D) st.core (st.core.timeOut id now) :=
      hv.timeOut id now (.inr rfl)
    exact h₁.trans ((h₁.valid hv).endOperation id failHandler (.inr rfl))

/-- The actor of a failure its parent is told about. -/
def Actor.notify (record : FailureRecord) (a : Actor) : Actor :=
  { a with
    reportedFailure := record.eventId
    errors := min (a.errors + 1) u64Max
    lastError := some record
    notification :=
      match a.notification with
      | none => some ⟨record, 0⟩
      | some n => some { n with coalesced := min (n.coalesced + 1) u64Max } }

/-- A notification is raised at the actor of the record, or nothing changes. -/
theorem core_noteFailure {record : FailureRecord} (hget : st.actors[record.actor.slot]? = some a)
    (parent : Option ActorRef) (notify : Bool) :
    (noteFailure record parent notify st).core =
      if notify then st.core.setHold record.actor.slot { a.hold with notified := true }
      else st.core := by
  cases notify
  · exact State.core_modify_soft _ (fun _ => rfl) (fun _ => rfl) fun _ => rfl
  have hc : (st.modifyActor record.actor (Actor.notify record)).core =
      st.core.setHold record.actor.slot { a.hold with notified := true } := by
    rw [State.core_modify_hold _ hget rfl rfl]
    congr 1
    unfold Actor.notify
    rcases hn : a.notification with - | n <;> simp [Actor.hold, hn]
  unfold noteFailure
  simp only [Bool.not_true, Bool.false_eq_true, if_false, if_true]
  rw [← hc]
  split_ifs
  · rfl
  · rcases parent with - | p
    · rfl
    · exact State.core_modify_soft _ (fun _ => rfl) (fun _ => rfl) fun _ => rfl

theorem failureReportable_ok {operation : Option OperationId}
    (h : w.failureReportable r operation st = .ok a) :
    w.checkRef r st = .ok a ∧ a.state ≠ .stopped := by
  unfold failureReportable at h
  obtain ⟨x, hx, h⟩ := bind_ok.mp h
  by_cases hs : x.state = .stopped
  · rw [if_pos hs] at h
    cases h
  rw [if_neg hs] at h
  -- whatever the operation says, the actor is the one that was checked
  have hax : a = x := by
    rcases operation with - | id
    · exact (Except.ok.inj h).symm
    · dsimp only at h
      split_ifs at h
      · cases h
      · split at h
        · obtain ⟨u, -, h⟩ := bind_ok.mp h
          exact (Except.ok.inj h).symm
        · exact (Except.ok.inj h).symm
  rw [hax]
  exact ⟨hx, hs⟩

theorem nodes_failOperation (operation : Option OperationId) :
    (w.failOperation operation st).core.nodes = st.core.nodes := by
  obtain ⟨now, h⟩ := @core_failOperation w st operation
  rw [h]
  rcases operation with - | id
  · rfl
  · have hend : ∀ c : Core, (c.endOperation id failHandler).nodes = c.nodes := by
      intro c
      unfold Core.endOperation
      split_ifs <;> rfl
    exact (hend _).trans (Core.timeOutOf_columns (some id)).2.1

theorem noteFailure_evolves {D : ActorRef → Prop} {record : FailureRecord}
    (hv : st.core.Valid w.id) (hn : Seated st.core.nodes record.actor n) (hst : n.state ≠ .stopped)
    (parent : Option ActorRef) (notify : Bool) :
    Evolves w.id (Move.byHandler record.actor D) st.core
      (noteFailure record parent notify st).core := by
  obtain ⟨a, hget, rfl⟩ := State.actors_get_of_node hn.1
  rw [core_noteFailure hget]
  split_ifs
  swap
  · exact .refl _
  have hh := State.core_holds_get hget
  set h' : Hold := { a.hold with notified := true } with hh'
  have hs : Step w.id st.core (.hold record.actor) (st.core.setHold record.actor.slot h') :=
    .hold a.node a.hold h' _ _ _ hn hst hh .notify
  refine .settle (r := record.actor) hv (.inl rfl) hs (by simp)
    (fun x k hx hloose => @Seated.slot_eq _ _ st.core.nodes x k hx hn hloose) (.refl fun k _ _ => ?_)
  -- the notification holds the actor
  refine .inr (.inl ⟨h', ?_, by simp [hh']⟩)
  simp [Core.setHold, (List.getElem?_eq_some_iff.mp hh).1]

/-- A failure is noted, and its operation failed, before its action is applied. -/
theorem noted_spec {D : ActorRef → Prop} {record : FailureRecord} (hv : st.core.Valid w.id)
    (hn : Seated st.core.nodes record.actor n) (hst : n.state ≠ .stopped)
    (operation : Option OperationId) (parent : Option ActorRef) (notify : Bool) :
    Evolves w.id (Move.byHandler record.actor D) st.core
        (noteFailure record parent notify (w.failOperation operation st)).core ∧
      (noteFailure record parent notify (w.failOperation operation st)).core.nodes =
        st.core.nodes := by
  have hnodes := @nodes_failOperation w st operation
  have h₁ : Evolves w.id (Move.byHandler record.actor D) st.core (w.failOperation operation st).core :=
    failOperation_evolves hv operation
  have hn₁ : Seated (w.failOperation operation st).core.nodes record.actor n := by
    rw [hnodes]
    exact hn
  obtain ⟨a, hget, -⟩ := State.actors_get_of_node hn₁.1
  refine ⟨h₁.trans (noteFailure_evolves (h₁.valid hv) hn₁ hst parent notify), ?_⟩
  rw [← hnodes, core_noteFailure hget]
  split_ifs <;> rfl

/-- The answer to a report, once its action was applied. -/
def reported (w : World) (record : FailureRecord) (parent : Option ActorRef)
    (x : Except Error Unit × State) : Except Error FailureRecord × State :=
  match x with
  | (.error e, st) => (.error e, st.touchActivity)
  | (.ok _, st) => (.ok record, (match parent with
    | none => st
    | some parent => w.refreshPythonReadyLocked parent st).touchActivity)

@[simp] theorem core_reported (record : FailureRecord) (parent : Option ActorRef)
    (x : Except Error Unit × State) : (w.reported record parent x).2.core = x.2.core := by
  obtain ⟨e | u, st'⟩ := x
  · rfl
  · cases parent <;> rfl

theorem reportFailure_evolves (hv : st.core.Valid w.id) {eventId schema : Option ℕ}
    {operation : Option OperationId} {phase : FailurePhase} {action : FailureAction} :
    Evolves w.id (Move.byHandler r
        (Ended (w.reportFailure r eventId schema operation phase action st).2.core.nodes))
      st.core (w.reportFailure r eventId schema operation phase action st).2.core := by
  unfold reportFailure
  rcases ha : w.failureReportable r operation st with e | a
  · exact .refl _
  obtain ⟨hcheck, hst⟩ := failureReportable_ok ha
  dsimp only
  split_ifs
  · exact .refl _
  set record : FailureRecord :=
    ⟨st.nextFailure, r, eventId, schema, operation, phase, action⟩
  set st₁ : State := (((({ st with
    nextFailure := st.nextFailure + 1
    lastError := some record } : State).tick).addMetrics fun m =>
      { m with failures := m.failures + 1 }).observe fun o =>
        { o with diagnostics := o.diagnostics.recordFailure record })
  have hc₁ : st₁.core = st.core := rfl
  clear_value st₁
  have hn := seated_of_check hv.owned hcheck
  rw [← hc₁] at hv hn ⊢
  set st₂ := noteFailure record a.parent (w.failureNotifies a.parent phase st)
    (w.failOperation operation st₁)
  show Evolves w.id (Move.byHandler r (Ended (w.reported record a.parent _).2.core.nodes)) st₁.core
    (w.reported record a.parent _).2.core
  rw [core_reported]
  set final := (w.applyFailureAction r action (w.markActivityDependentsLocked r st₂)).2
  have h₂ : Evolves w.id (Move.byHandler r (Ended final.core.nodes)) st₁.core st₂.core :=
    (@noted_spec a.node _ _ _ record hv hn hst operation a.parent _).1
  have h₃ : Stops w.id st₂.core final.core :=
    @applyFailureAction_stops _ (w.markActivityDependentsLocked r st₂) (h₂.valid hv) r action
  exact h₂.trans (h₃.mono fun m hm => .inr hm)

/-! ## Failure leases -/

theorem firstFailing_some {children : List ActorRef} {source : ActorRef} {x : Notification}
    (h : w.firstFailing children st = some (source, x)) :
    source ∈ children ∧ ∃ a, w.checkRef source st = .ok a ∧ a.notification = some x := by
  unfold firstFailing at h
  have hmem := List.mem_of_mem_head? h
  rw [List.mem_insertionSort, List.mem_filterMap] at hmem
  obtain ⟨child, hc, hx⟩ := hmem
  rcases ha : w.checkRef child st with e | a
  · simp [ha] at hx
  · simp only [ha, Option.map_eq_some_iff, Prod.mk.injEq] at hx
    obtain ⟨y, hy, rfl, rfl⟩ := hx
    exact ⟨hc, a, ha, hy⟩

theorem running_execution (ho : st.core.Owned w.id) (hn : Seated st.core.nodes r n)
    {s : Lifecycle} (hs : w.executionStateLocked r st = .ok s)
    (hrun : s = .active ∨ s = .quiescing) : n.state = .active ∨ n.state = .quiescing := by
  obtain ⟨m, hm, heff⟩ := seated_of_execution ho hs
  obtain ⟨k, hk, hst⟩ := heff.running hm hrun
  rwa [hk.unique hn] at hst

theorem claimFailure_evolves (hv : st.core.Valid w.id) :
    Evolves w.id (Move.byHandler r fun _ => False) st.core (w.claimFailure r st).2.core := by
  unfold claimFailure
  rcases ha : w.checkRef r st with e | a
  · exact .refl _
  dsimp only
  by_cases hbusy : (a.inFlight || a.controlInFlight) = true
  · rw [if_pos hbusy]
    exact .refl _
  rw [if_neg hbusy]
  simp only [Bool.or_eq_true, not_or, Bool.not_eq_true] at hbusy
  obtain ⟨hfl, hcl⟩ := hbusy
  rcases hexec : w.executionStateLocked r st with e | s
  · exact .refl _
  dsimp only
  split_ifs with hrun
  · exact .refl _
  have hn := seated_of_check hv.owned ha
  obtain ⟨hget, -⟩ := (checkRef_ok hv.owned).mp ha
  have hstate := running_execution hv.owned hn hexec (by tauto)
  rcases hfirst : w.firstFailing a.children st with - | ⟨source, x⟩
  · exact .refl _
  obtain ⟨-, b, hb, hbx⟩ := firstFailing_some hfirst
  obtain ⟨hgetb, -⟩ := (checkRef_ok hv.owned).mp hb
  have hsource := seated_of_check hv.owned hb
  dsimp only
  rw [State.core_touchActivity]
  set quiet : Actor → Actor := fun a => { a with notification := none }
  set grip : Actor → Actor := fun a =>
    { a with pendingFailures := a.pendingFailures - 1, controlInFlight := true }
  -- the notification leaves its source
  set st₁ := st.modifyActor source quiet with hst₁
  have hc₁ : st₁.core = st.core.setHold source.slot { b.hold with notified := false } :=
    State.core_modify_hold quiet hgetb rfl rfl
  have hs₁ : Step w.id st.core (.silence source) st₁.core := by
    rw [hc₁]
    exact .silence b.hold (State.core_holds_get hgetb)
  have hv₁ := hv.step hs₁
  -- and puts the supervisor under control
  obtain ⟨a₁, hget₁, hsame⟩ : ∃ a₁, st₁.actors[r.slot]? = some a₁ ∧
      a₁.inFlight = a.inFlight ∧ a₁.controlInFlight = a.controlInFlight ∧ a₁.node = a.node := by
    by_cases hs : source.slot = r.slot
    · exact ⟨quiet a, by simp [hst₁, State.modifyActor, hs, hget], rfl, rfl, rfl⟩
    · exact ⟨a, by simp [hst₁, State.modifyActor, hs, hget], rfl, rfl, rfl⟩
  set l : FailureLease := ⟨r, x⟩ with hl
  set st₂ : State := { (((w.refreshPythonReadyLocked r (w.markActivityDependentsLocked r
      (st₁.modifyActor r grip))).addMetrics fun m =>
        { m with notificationsDelivered := m.notificationsDelivered + 1 })) with
      failureLeases := l :: (((w.refreshPythonReadyLocked r (w.markActivityDependentsLocked r
        (st₁.modifyActor r grip))).addMetrics fun m =>
          { m with notificationsDelivered := m.notificationsDelivered + 1 })).failureLeases } with hst₂
  have hc₂ : st₂.core = { st₁.core.setHold r.slot { a₁.hold with control := true } with
      failures := l :: st₁.core.failures } := by
    have : (st₁.modifyActor r grip).core = st₁.core.setHold r.slot { a₁.hold with control := true } :=
      State.core_modify_hold grip hget₁ rfl rfl
    show ({ (st₁.modifyActor r grip).core with
      failures := l :: (st₁.modifyActor r grip).core.failures } : Core) = _
    rw [this]
    rfl
  have hn₁ : Seated st₁.core.nodes r a.node := by
    rw [hc₁]
    exact hn
  have hs₂ : Step w.id st₁.core (.hold r) st₂.core := by
    rw [hc₂]
    refine .hold a.node a₁.hold _ _ _ _ hn₁ (by rcases hstate with h | h <;> simp [h])
      (State.core_holds_get hget₁) (.failure l rfl (hsame.2.1.trans hcl) fun b hb => ?_)
    rw [State.core_boxes_get hget₁] at hb
    cases hb
    exact hsame.1.trans hfl
  have h₂ : Evolves w.id (Move.byHandler r fun _ => False) st₁.core st₂.core := by
    refine (grip_evolves hv₁ hs₂ fun k hk => ?_).mono fun m hm => hm.handler
    rw [hk.unique hn₁]
    rcases hstate with h | h <;> simp [h]
  -- the source may have waited for its notification only
  refine .settle (r := source) hv (m := .silence source) (.inr trivial) hs₁ (by simp) ?_
    (h₂.settles (tryFinalize_settles (h₂.valid hv₁) fun x => .inr trivial))
  intro y k hy hloose
  rw [hc₁] at hy
  exact @Seated.slot_eq _ _ st.core.nodes _ _ hy hsource hloose

/-- An outstanding failure lease ends. -/
theorem endFailure_evolves {D : ActorRef → Prop} {l : FailureLease} (hv : st.core.Valid w.id)
    (hl : l ∈ st.core.failures) {st₁ : State}
    (hc : ∀ h, st.core.holds[l.supervisor.slot]? = some h → st₁.core =
      { st.core.setHold l.supervisor.slot { h with control := false } with
        failures := st.core.failures.erase l }) :
    Evolves w.id (Move.byHandler l.supervisor D) st.core
      (w.tryFinalize walkFuel l.supervisor st₁).core := by
  have hmem : l.supervisor ∈ st.core.controls :=
    List.mem_append_left _ (List.mem_map.mpr ⟨l, hl, rfl⟩)
  obtain ⟨n, hn, hst⟩ := hv.controlled.not_stopped hv.columns (.inl hmem)
  obtain ⟨a, hget, rfl⟩ := State.actors_get_of_node hn.1
  have hh := State.core_holds_get hget
  refine (hold_evolves hv (r := l.supervisor) ?_).mono fun m hm => hm.handler
  rw [hc _ hh]
  exact .hold a.node a.hold _ _ _ _ hn hst hh (.endFailure l hl rfl)

theorem dropFailure_evolves {l : FailureLease} (hv : st.core.Valid w.id)
    (hl : l ∈ st.core.failures) :
    Evolves w.id (Move.byHandler l.supervisor fun _ => False) st.core
      (w.dropFailure l st).core := by
  unfold dropFailure
  dsimp only
  rw [State.core_touchActivity]
  refine endFailure_evolves hv hl fun h hh => ?_
  have hmem : l.supervisor ∈ st.core.controls :=
    List.mem_append_left _ (List.mem_map.mpr ⟨l, hl, rfl⟩)
  obtain ⟨n, hn, -⟩ := hv.controlled.not_stopped hv.columns (.inl hmem)
  set st₁ : State := { st with failureLeases := st.failureLeases.erase l }
  show (w.clearControl l.supervisor st₁).core = _
  rw [@core_clearControl _ _ _ _ _ hn hh st₁ rfl rfl hv.owned]
  rfl

end World

/-- Only an allocation replaces an ended actor. -/
theorem Core.Owned.ended (ho : c.Owned world) {m : Move} (hs : Step world c m c')
    (hm : ∀ q, m ≠ .allocate q) {x : ActorRef} (hx : Ended c.nodes x) : Ended c'.nodes x := by
  obtain ⟨k, hk, hst⟩ := hx
  obtain ⟨k', hk', hf⟩ := ho.forward hs _ _ hk.1
  have href := hs.references hm x.slot
  rw [hk.1, hk'] at href
  have href : k'.reference = k.reference := Option.some.inj href
  refine ⟨k', ⟨hk', href.trans hk.2⟩, ?_⟩
  rcases hf with ⟨-, -, hrank⟩ | hg
  · revert hrank
    rcases hst with h | h <;> rw [h] <;> cases k'.state <;> simp [Lifecycle.rank]
  · rw [href] at hg
    exact absurd hg (lt_irrefl _)

theorem Steps.ended {P : Move → Prop} (hs : Steps world P c c') (hP : ∀ q, ¬P (.allocate q))
    (hv : c.Valid world) {x : ActorRef} (hx : Ended c.nodes x) : Ended c'.nodes x := by
  refine (hs.invariant (I := fun c => c.Valid world ∧ Ended c.nodes x) ?_ ⟨hv, hx⟩).2
  rintro c m c' ⟨hv, hx⟩ hm hst
  exact ⟨hv.step hst, hv.owned.ended hst (fun q he => hP q (he ▸ hm)) hx⟩

namespace World

variable {w : World} {st : State} {a : Actor}

/-- The part of `FailureLease::finish` after its action. -/
def endSupervision (w : World) (l : FailureLease) (result : Except Error Unit) (st : State) :
    Except Error Unit × State :=
  match w.checkRef l.supervisor { st with failureLeases := st.failureLeases.erase l } with
  | .error e => (.error e, { st with failureLeases := st.failureLeases.erase l }.touchActivity)
  | .ok _ =>
    (result, (w.tryFinalize walkFuel l.supervisor
      (({ st with failureLeases := st.failureLeases.erase l } : State).modifyActor l.supervisor
        fun a => { a with controlInFlight := false })).touchActivity)

theorem finishFailure_eq {l : FailureLease} (action : Option FailureAction) :
    w.finishFailure l action st =
      match action with
      | none => w.endSupervision l (.ok ()) st
      | some action =>
        w.endSupervision l (w.applyFailureAction l.notification.failure.actor action st).1
          (w.applyFailureAction l.notification.failure.actor action st).2 := by
  cases action <;> rfl

theorem endSupervision_evolves {l : FailureLease} (hv : st.core.Valid w.id)
    (hl : l ∈ st.core.failures) (result : Except Error Unit) :
    Evolves w.id (Move.byHandler l.supervisor fun _ => False) st.core
      (w.endSupervision l result st).2.core := by
  have hmem : l.supervisor ∈ st.core.controls :=
    List.mem_append_left _ (List.mem_map.mpr ⟨l, hl, rfl⟩)
  obtain ⟨n, hn, -⟩ := hv.controlled.not_stopped hv.columns (.inl hmem)
  unfold endSupervision
  set st₁ : State := { st with failureLeases := st.failureLeases.erase l } with hst₁
  obtain ⟨a, ha, hget, rfl⟩ := @check_of_seated w st₁ _ _ hv.owned hn
  rw [ha]
  dsimp only
  rw [State.core_touchActivity]
  set put : Actor → Actor := fun a => { a with controlInFlight := false }
  refine endFailure_evolves hv hl fun h hh => ?_
  have hh' := State.core_holds_get hget
  have : a.hold = h := Option.some.inj (hh'.symm.trans hh)
  rw [State.core_modify_hold put hget rfl rfl, ← this]
  rfl

theorem finishFailure_evolves {l : FailureLease} (hv : st.core.Valid w.id)
    (hl : l ∈ st.core.failures) (action : Option FailureAction) :
    Evolves w.id (Move.byHandler l.supervisor (Ended (w.finishFailure l action st).2.core.nodes))
      st.core (w.finishFailure l action st).2.core := by
  rw [finishFailure_eq]
  rcases action with - | action
  · exact (endSupervision_evolves hv hl _).mono fun m hm => hm.imp_right fun hm =>
      hm.mono fun _ hx => hx.elim
  dsimp only
  have h₁ := applyFailureAction_stops hv l.notification.failure.actor action
  generalize w.applyFailureAction l.notification.failure.actor action st = call at h₁ ⊢
  have hv₁ := h₁.valid hv
  have hl₁ : l ∈ call.2.core.failures := by
    rw [(h₁.steps.reduces (fun _ hm => hm.fencing) hv).failures]
    exact hl
  have h₂ := endSupervision_evolves hv₁ hl₁ call.1
  refine (h₁.mono fun m hm => .inr (hm.mono fun x hx => ?_)).trans
    (h₂.mono fun m hm => hm.imp_right fun hm => hm.mono fun _ hx => hx.elim)
  exact h₂.steps.ended (fun q hq => hq.elim (by simp) not_false) hv₁ hx

/-! ## Drains and maintenance -/

theorem maintain_core (now : Instant) : (w.maintain now st).core = (w.maintainLocked now st).core := by
  unfold maintain
  dsimp only
  generalize w.maintainLocked now st = st'
  split_ifs
  · rfl
  · rfl

end World

/-- The moves of a maintenance pass. -/
def Move.byMaintenance (now : Instant) (c₀ : Core) (D : ActorRef → Prop) (m : Move) : Prop :=
  m.byExpiry now c₀ ∨ m.byUpkeep D

/-- What a maintenance pass does. -/
abbrev Maintains (world : ℕ) (now : Instant) (c c' : Core) : Prop :=
  Evolves world (Move.byMaintenance now c (Ended c'.nodes)) c c'

namespace World

variable {w : World} {st : State} {a : Actor} {now : Instant}

theorem maintainLocked_maintains (hv : st.core.Valid w.id) :
    Maintains w.id now st.core (w.maintainLocked now st).core := by
  obtain ⟨h₁, h₂⟩ := @maintainLocked_spec _ _ now hv
  exact (h₁.mono fun m hm => .inl hm).trans (h₂.mono fun m hm => .inr hm)

end World

/-- Drain requests for several roots, one after the other. -/
inductive DrainRequests (world : ℕ) (deadline : Instant) : List ActorRef → Core → Core → Prop
  | nil (c : Core) : DrainRequests world deadline [] c c
  | cons {root : ActorRef} {roots : List ActorRef} {c c' c'' : Core} :
      DrainRequest world root deadline c c' → DrainRequests world deadline roots c' c'' →
      DrainRequests world deadline (root :: roots) c c''

/-- The moves of a drain request with the maintenance pass behind it. -/
def Move.byDraining (D : ActorRef → Prop) (m : Move) : Prop :=
  m.byDrain D ∨ ∃ now c₀, m.byMaintenance now c₀ D

theorem Move.byDrain.mono {D D' : ActorRef → Prop} {m : Move} (hD : ∀ x, D x → D' x)
    (h : m.byDrain D) : m.byDrain D' :=
  h.imp_right (Move.byFence.mono hD)

theorem Move.byDrain.not_allocate {D : ActorRef → Prop} {q : ActorRef} :
    ¬Move.byDrain D (.allocate q) := by
  rintro (⟨root, h | h⟩ | h)
  · cases h
  · cases h
  · exact h

theorem Move.byMaintenance.not_allocate {D : ActorRef → Prop} {q : ActorRef} {now : Instant}
    {c₀ : Core} : ¬Move.byMaintenance now c₀ D (.allocate q) := by
  rintro (h | ⟨root, h⟩ | h)
  · exact h
  · cases h
  · exact h

/-- Drain requests, with what they fence. -/
abbrev Drains (world : ℕ) (c c' : Core) : Prop :=
  Evolves world (Move.byDrain (Ended c'.nodes)) c c'

theorem DrainRequest.drains {deadline : Instant} (h : DrainRequest world r deadline c c')
    (hv : c.Valid world) : Drains world c c' :=
  (h.evolves hv).mono fun _ hm => hm.mono fun _ hx => hx.2

theorem DrainRequests.drains {deadline : Instant} {roots : List ActorRef}
    (h : DrainRequests world deadline roots c c') (hv : c.Valid world) : Drains world c c' := by
  induction h with
  | nil => exact .refl _
  | cons h hs ih =>
    have h₁ := h.drains hv
    have h₂ := ih (h₁.valid hv)
    refine (h₁.mono fun m hm => hm.mono fun x hx => ?_).trans h₂
    exact h₂.steps.ended (fun q => Move.byDrain.not_allocate) (h₁.valid hv) hx

/-- A drain request for some roots, with the maintenance pass behind it. -/
theorem Drains.maintained {now : Instant} (h : Drains world c c') (hv : c.Valid world)
    (hm : Maintains world now c' c'') :
    Evolves world (Move.byDraining (Ended c''.nodes)) c c'' := by
  refine (h.mono fun m hx => .inl (hx.mono fun x hx => ?_)).trans
    (hm.mono fun m hx => .inr ⟨now, c', hx⟩)
  exact hm.steps.ended (fun q => Move.byMaintenance.not_allocate) (h.valid hv) hx

namespace World

variable {w : World} {st : State} {a : Actor} {now : Instant}

/-- A drain request that is refused changes nothing; else a maintenance pass follows. -/
theorem requestDrain_spec (hv : st.core.Valid w.id) (deadline : Instant) :
    ∃ c₁, DrainRequest w.id r deadline st.core c₁ ∧
      ((w.requestDrain r deadline st).2.core = c₁ ∨
        Maintains w.id (w.now (w.drainLocked r deadline st).2) c₁
          (w.requestDrain r deadline st).2.core) := by
  obtain ⟨h, -⟩ := drainLocked_spec (w := w) (r := r) hv deadline
  have hv₁ := (h.evolves hv).valid hv
  unfold requestDrain
  refine ⟨_, h, ?_⟩
  generalize w.drainLocked r deadline st = call at hv₁ ⊢
  obtain ⟨e | u, st₁⟩ := call
  · exact .inl rfl
  · dsimp only
    rw [State.core_touchActivity]
    exact .inr (@maintainLocked_maintains _ st₁.tick _ hv₁)

theorem requestDrain_evolves (hv : st.core.Valid w.id) (deadline : Instant) :
    Evolves w.id (Move.byDraining (Ended (w.requestDrain r deadline st).2.core.nodes)) st.core
      (w.requestDrain r deadline st).2.core := by
  obtain ⟨c₁, h, hc | hm⟩ := requestDrain_spec (w := w) (r := r) hv deadline
  · rw [hc]
    exact (h.drains hv).mono fun m hm => .inl hm
  · exact (h.drains hv).maintained hv hm

theorem drainRootsLocked_requests (hv : st.core.Valid w.id) (deadline : Instant) :
    DrainRequests w.id deadline (liveRoots st) st.core (w.drainRootsLocked deadline st).core := by
  have hfold : ∀ (roots : List ActorRef) (st : State), st.core.Valid w.id →
      DrainRequests w.id deadline roots st.core
        (roots.foldl (fun st r => (w.drainLocked r deadline st).2) st).core := by
    intro roots
    induction roots with
    | nil => exact fun st _ => .nil _
    | cons root roots ih =>
      intro st hv
      obtain ⟨h, -⟩ := drainLocked_spec (w := w) (r := root) hv deadline
      exact .cons h (ih _ ((h.evolves hv).valid hv))
  exact hfold _ { st with closed := true } hv

theorem drainAll_spec (hv : st.core.Valid w.id) (deadline : Instant) :
    ∃ c₁, DrainRequests w.id deadline (liveRoots st) st.core c₁ ∧
      Maintains w.id (w.now (w.drainRootsLocked deadline st)) c₁ (w.drainAll deadline st).core := by
  have h := drainRootsLocked_requests hv deadline
  have hv₁ := (h.drains hv).valid hv
  unfold drainAll
  refine ⟨_, h, ?_⟩
  generalize w.drainRootsLocked deadline st = st₁ at hv₁ ⊢
  dsimp only
  rw [State.core_touchActivity]
  exact @maintainLocked_maintains _ st₁.tick _ hv₁

theorem drainAll_evolves (hv : st.core.Valid w.id) (deadline : Instant) :
    Evolves w.id (Move.byDraining (Ended (w.drainAll deadline st).core.nodes)) st.core
      (w.drainAll deadline st).core := by
  obtain ⟨c₁, h, hm⟩ := drainAll_spec (w := w) hv deadline
  exact (h.drains hv).maintained hv hm

end World

end Actorplane
