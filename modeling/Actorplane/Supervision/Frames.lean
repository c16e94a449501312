import Actorplane.Supervision.Desk

/-!
# Calls that leave the roster alone

Expiry, publications, operations, admission and routing do not change the roster.
-/

namespace Actorplane

variable {st : State} {r : ActorRef}

namespace State

/-- An update of a record, seen from the roster. -/
theorem roster_modify {f : Actor → Actor} {g : Member → Member}
    (h : ∀ a, (f a).member = g a.member) :
    (st.modifyActor r f).roster = st.roster.modify r g := by
  have members : (st.actors.modify r.slot f).map Actor.member =
      (st.actors.map Actor.member).modify r.slot g := by
    apply List.ext_getElem?
    intro i
    simp only [List.getElem?_map, List.getElem?_modify]
    cases st.actors[i]? with
    | none => rfl
    | some a =>
      by_cases here : r.slot = i
      · simp [here, h]
      · simp [here]
  simp only [roster, modifyActor, Roster.modify, members]

theorem roster_modify_soft {f : Actor → Actor} (h : ∀ a, (f a).member = a.member) :
    (st.modifyActor r f).roster = st.roster := by
  rw [roster_modify (g := fun m => m) h]
  unfold Roster.modify
  rw [show st.roster.members.modify r.slot (fun m => m) = st.roster.members from
    List.modify_id _ _]

theorem roster_addMetrics {f : Metrics → Metrics}
    (h : ∀ m, (f m).failures = m.failures ∧
      (f m).notificationsCoalesced = m.notificationsCoalesced ∧
      (f m).notificationsDelivered = m.notificationsDelivered ∧
      (f m).notificationsDiscarded = m.notificationsDiscarded ∧
      (f m).drainTimeouts = m.drainTimeouts) : (st.addMetrics f).roster = st.roster := by
  obtain ⟨h1, h2, h3, h4, h5⟩ := h st.metrics
  simp only [roster, addMetrics, h1, h2, h3, h4, h5]

theorem roster_note {e : Event} (h : e.late = none) : (st.note e).roster = st.roster := by
  have late : (st.log ++ [e]).filterMap Event.late = st.log.filterMap Event.late := by
    rw [List.filterMap_append]
    simp [h]
  simp only [roster, note, late]

end State

namespace World

variable {w : World}

/-- A fold of updates outside the roster. -/
theorem roster_foldl {α : Type} (f : State → α → State)
    (hf : ∀ st x, (f st x).roster = st.roster) (xs : List α) (st : State) :
    (xs.foldl f st).roster = st.roster := by
  induction xs generalizing st with
  | nil => rfl
  | cons x xs ih => exact (ih (f st x)).trans (hf st x)

theorem roster_touch : st.touchActivity.roster = st.roster := rfl

theorem roster_refresh : (w.refreshPythonReadyLocked r st).roster = st.roster := rfl

theorem roster_mark : (w.markActivityDependentsLocked r st).roster = st.roster := rfl

/-! ## Operations -/

theorem roster_completeOperationLocked (id : OperationId) (outcome : TerminalOutcome) :
    (w.completeOperationLocked id outcome st).2.roster = st.roster :=
  congrArg Desk.roster (desk_completeOperationLocked id outcome)

theorem roster_endOperation (id : OperationId) (outcome : TerminalOutcome) (won : State → State)
    (hwon : ∀ st, (won st).roster = st.roster) :
    (w.endOperation id outcome won st).roster = st.roster := by
  have completed := @roster_completeOperationLocked st w id outcome
  unfold endOperation
  dsimp only
  split_ifs
  · rw [hwon, completed]
  · exact completed

theorem roster_failOperation (operation : Option OperationId) :
    (w.failOperation operation st).roster = st.roster :=
  congrArg Desk.roster (desk_failOperation operation)

theorem roster_cancelOperationsOf : (w.cancelOperationsOf r st).roster = st.roster :=
  congrArg Desk.roster desk_cancelOperationsOf

theorem roster_expireOperationsLocked (now : Instant) :
    (w.expireOperationsLocked now st).roster = st.roster :=
  congrArg Desk.roster (desk_expireOperationsLocked now)

/-! ## Publications -/

theorem roster_finishPublicationLocked (p : Publication) (outcome : PublicationOutcome) :
    (w.finishPublicationLocked p outcome st).roster = st.roster :=
  congrArg Desk.roster (desk_finishPublicationLocked p outcome)

theorem roster_cancelPublicationLocked (id : ℕ) (outcome : PublicationOutcome) :
    (w.cancelPublicationLocked id outcome st).roster = st.roster :=
  congrArg Desk.roster (desk_cancelPublicationLocked id outcome)

theorem roster_cancelSourcePublicationsLocked :
    (w.cancelSourcePublicationsLocked r st).roster = st.roster :=
  congrArg Desk.roster desk_cancelSourcePublicationsLocked

theorem roster_expirePublicationsLocked (now : Instant) :
    (w.expirePublicationsLocked now st).roster = st.roster :=
  congrArg Desk.roster (desk_expirePublicationsLocked now)

/-! ## Routes -/

theorem roster_removeActorRoutes : (w.removeActorRoutes r st).roster = st.roster :=
  congrArg Desk.roster desk_removeActorRoutes

/-! ## Events -/

theorem roster_removeDeadline (deadline : Option Instant) :
    (removeDeadline r deadline st).roster = st.roster := by
  unfold removeDeadline
  cases st.actors[r.slot]? with
  | none => rfl
  | some a =>
    dsimp only
    cases a.deadlines.remove? deadline with
    | none => rfl
    | some deadlines => exact State.roster_modify_soft fun _ => rfl

theorem roster_refreshEarliest : (refreshEarliest r st).roster = st.roster := by
  unfold refreshEarliest
  cases st.actors[r.slot]? <;> rfl

theorem roster_expireDeliveryLocked (d : Delivery) (now : Instant) :
    (w.expireDeliveryLocked d now st).roster = st.roster :=
  congrArg Desk.roster (desk_expireDeliveryLocked d now)

theorem roster_expireQueued (now : Instant) (queue : List Delivery) :
    (w.expireQueued r now queue st).roster = st.roster := by
  induction queue generalizing st with
  | nil => rfl
  | cons d queue ih =>
    unfold expireQueued
    split_ifs
    · rw [ih, State.roster_note rfl, roster_expireDeliveryLocked, roster_removeDeadline]
    · exact ih

theorem roster_expireStagedDeadlines (staged : List StagedOutput) :
    (expireStagedDeadlines r staged st).roster = st.roster := by
  induction staged generalizing st with
  | nil => rfl
  | cons s staged ih =>
    unfold expireStagedDeadlines
    rw [ih, roster_removeDeadline]

theorem roster_stagedLost (lost : List StagedOutput) :
    (lost.foldl (fun st s => st.note (.stagedLost s.publication)) st).roster = st.roster :=
  congrArg Desk.roster (desk_stagedLost lost)

theorem roster_expireOwner (now : Instant) : (w.expireOwner now r st).roster = st.roster := by
  unfold expireOwner
  cases w.checkRef r st with
  | error e => rfl
  | ok a =>
    dsimp only
    have unstaged : ∀ (p : Prop) [Decidable p] (st : State),
        (if p then { st with stagedActors := st.stagedActors.erase r.slot } else st).roster =
          st.roster := by
      intro p _ st
      split_ifs <;> rfl
    rw [roster_foldl (fun st _ => st.diagnostic (.rejected .deadlineExpired) (some r) none)
      fun _ _ => rfl, roster_stagedLost,
      State.roster_addMetrics, roster_refresh, roster_mark,
      roster_foldl (fun st (s : StagedOutput) =>
        w.cancelPublicationLocked s.publication .expired st) fun _ s =>
          roster_cancelPublicationLocked s.publication .expired, unstaged,
      roster_refreshEarliest, State.roster_modify_soft, roster_expireStagedDeadlines,
      State.roster_modify_soft, roster_expireQueued, State.roster_modify_soft]
    · exact fun _ => rfl
    · exact fun _ => rfl
    · exact fun _ => rfl
    · exact fun _ => ⟨rfl, rfl, rfl, rfl, rfl⟩

theorem roster_expireEventsLocked (now : Instant) :
    (w.expireEventsLocked now st).roster = st.roster := by
  unfold expireEventsLocked
  exact roster_foldl (fun st owner => w.expireOwner now owner st)
    (fun _ _ => roster_expireOwner now) _ _

theorem roster_expireAll (now : Instant) : (w.expireAll now st).roster = st.roster := by
  unfold expireAll
  rw [roster_expireOperationsLocked, roster_expirePublicationsLocked, roster_expireEventsLocked]

/-! ## Admission -/

theorem roster_makeStoredWith (p : Payload) (o : MessageOptions) (d : Option PortRef) :
    (w.makeStoredWith p o d st).2.roster = st.roster :=
  congrArg Desk.roster (desk_makeStoredWith p o d)

theorem roster_enqueue (d : Delivery) : (w.enqueue r d st).roster = st.roster := by
  unfold enqueue
  dsimp only
  rw [State.roster_note rfl, roster_mark, State.roster_addMetrics, roster_refresh,
    roster_refreshEarliest, State.roster_modify_soft]
  · exact fun _ => rfl
  · exact fun _ => ⟨rfl, rfl, rfl, rfl, rfl⟩

theorem roster_admitMessage (stored : Stored) (sub : Option ℕ) (completion : Bool)
    (operation : Option OperationId) :
    (w.admitMessage r stored sub completion operation st).2.roster = st.roster := by
  unfold admitMessage nextEventId
  dsimp only
  cases checkDeadline stored.options (w.now st) with
  | error e => rfl
  | ok u =>
    dsimp only
    cases w.validateSource stored.options st.tick completion with
    | error e => rfl
    | ok u =>
      dsimp only
      split_ifs
      · rfl
      · dsimp only
        cases w.envelopeFor r stored sub st.tick.nextEvent (w.now st)
            { st.tick with nextEvent := st.tick.nextEvent + 1 } with
        | error e => rfl
        | ok envelope =>
          dsimp only
          cases w.admissible r stored completion
              { st.tick with nextEvent := st.tick.nextEvent + 1 } with
          | error e => rfl
          | ok u => exact roster_enqueue _

theorem roster_deliver (stored : Stored) : (w.deliver r stored st).2.roster = st.roster := by
  have admitted := @roster_admitMessage st r w stored none false none
  unfold deliver
  cases result : w.admitMessage r stored none false none st with
  | mk answer st' =>
    rw [result] at admitted
    cases answer <;> exact admitted

theorem roster_sendWith (p : Payload) (o : MessageOptions) :
    (w.sendWith r p o st).2.roster = st.roster := by
  have stored := @roster_makeStoredWith (countSubmitted st) w p o none
  unfold sendWith
  dsimp only
  cases result : w.makeStoredWith p o none (countSubmitted st) with
  | mk answer st' =>
    rw [result] at stored
    cases answer with
    | error e => exact stored
    | ok s => exact (roster_deliver s).trans stored

theorem roster_sendHeld (held : HeldPayload) : (w.sendHeld r held st).2.roster = st.roster := by
  unfold sendHeld
  dsimp only
  split_ifs
  · rfl
  · exact roster_deliver held.stored

theorem roster_sendHeldFrom (owner : ActorRef) (held : HeldPayload) :
    (w.sendHeldFrom owner r held st).2.roster = st.roster := by
  unfold sendHeldFrom
  dsimp only
  split_ifs
  · rfl
  cases w.checkRef owner (countSubmitted st) with
  | error e => rfl
  | ok a =>
    dsimp only
    split_ifs
    · rfl
    split
    · rfl
    · exact roster_deliver held.stored
    · rfl

theorem roster_setDestinationPort (port : PortRef) :
    (setDestinationPort r port st).roster = st.roster := State.roster_modify_soft fun _ => rfl

theorem roster_sendPortWith (port : PortRef) (p : Payload) (o : MessageOptions) :
    (w.sendPortWith port p o st).2.roster = st.roster := by
  unfold sendPortWith
  dsimp only
  cases w.inputPort port p (countSubmitted st) with
  | error e => rfl
  | ok u =>
    dsimp only
    have stored := @roster_makeStoredWith (countSubmitted st) w p o none
    cases result : w.makeStoredWith p o none (countSubmitted st) with
    | mk answer st' =>
      rw [result] at stored
      cases answer with
      | error e => exact stored
      | ok s =>
        dsimp only
        have admitted := @roster_admitMessage st' port.owner w s none false none
        cases result' : w.admitMessage port.owner s none false none st' with
        | mk answer' st'' =>
          rw [result'] at admitted
          cases answer' with
          | error e => exact admitted.trans stored
          | ok id => exact (roster_setDestinationPort port).trans (admitted.trans stored)

theorem roster_holdWith (p : Payload) (o : MessageOptions) :
    (w.holdWith p o st).2.roster = st.roster :=
  congrArg Desk.roster (desk_holdWith p o)

theorem roster_holdContext (id : OperationId) (stored : Stored) :
    (w.holdContext id r stored st).2.roster = st.roster := by
  unfold holdContext
  cases w.checkRef r st with
  | error e => rfl
  | ok a =>
    dsimp only
    cases a.queue.getLast? <;> rfl

theorem roster_requestLocked (owner target : ActorRef) (p : Payload) (deadline : Instant)
    (o : MessageOptions) (port : Option PortRef) :
    (w.requestLocked owner target p deadline o port st).2.roster = st.roster := by
  unfold requestLocked
  cases w.executionStateLocked owner st with
  | error e => rfl
  | ok ownerReady =>
  dsimp only
  cases w.executionStateLocked target st with
  | error e => rfl
  | ok targetReady =>
  dsimp only
  split_ifs
  · rfl
  cases st.operations.reserve owner target deadline with
  | mk answer operations =>
  cases answer with
  | error e => rfl
  | ok id =>
  dsimp only
  have stored := @roster_makeStoredWith { st with operations := operations } w p o none
  cases result : w.makeStoredWith p o none { st with operations := operations } with
  | mk answer st' =>
  rw [result] at stored
  have stored : st'.roster = st.roster := stored
  cases answer with
  | error e => exact stored
  | ok s =>
  dsimp only
  have admitted := @roster_admitMessage st' target w s none false (some id)
  cases result' : w.admitMessage target s none false (some id) st' with
  | mk answer' st'' =>
  rw [result'] at admitted
  have kept : st''.roster = st.roster := admitted.trans stored
  cases answer' with
  | error e => exact kept
  | ok event =>
  dsimp only
  cases port with
  | none =>
    have held := @roster_holdContext st'' target w id s
    dsimp only
    cases result'' : w.holdContext id target s st'' with
    | mk answer'' st₃ =>
    rw [result''] at held
    cases answer'' <;> exact held.trans kept
  | some port =>
    have held := @roster_holdContext (setDestinationPort target port st'') target w id s
    have addressed := @roster_setDestinationPort st'' target port
    dsimp only
    cases result'' : w.holdContext id target s (setDestinationPort target port st'') with
    | mk answer'' st₃ =>
    rw [result''] at held
    cases answer'' <;> exact held.trans (addressed.trans kept)

theorem roster_requestWithPort (owner target : ActorRef) (p : Payload) (deadline : Instant)
    (o : MessageOptions) (port : Option PortRef) :
    (w.requestWithPort owner target p deadline o port st).2.roster = st.roster := by
  unfold requestWithPort
  split_ifs
  · rfl
  · exact roster_requestLocked owner target p _ _ port

theorem roster_resumeRequest (call : ServiceCall) :
    (w.resumeRequest call st).2.roster = st.roster :=
  roster_requestWithPort call.owner call.target call.payload call.deadline call.options _

/-! ## Replies -/

theorem roster_completeOperationWith (id : OperationId) (target : ActorRef) (p : Payload)
    (o : Option MessageOptions) :
    (w.completeOperationWith id target p o st).2.roster = st.roster :=
  congrArg Desk.roster (desk_completeOperationWith id target p o)

theorem roster_cancelOperation (id : OperationId) :
    (w.cancelOperation id st).2.roster = st.roster :=
  congrArg Desk.roster (desk_cancelOperation id)

theorem roster_takeOperation (id : OperationId) :
    (w.takeOperation id st).2.roster = st.roster :=
  congrArg Desk.roster (desk_takeOperation id)

/-! ## Routes and components -/

theorem roster_subscribe (source target : ActorRef) :
    (w.subscribe source target st).2.roster = st.roster :=
  congrArg Desk.roster (desk_subscribe source target)

theorem roster_unsubscribe (id : ℕ) : (w.unsubscribe id st).2.roster = st.roster :=
  congrArg Desk.roster (desk_unsubscribe id)

theorem roster_link (owner : ActorRef) (source target : PortRef) :
    (w.link owner source target st).2.roster = st.roster :=
  congrArg Desk.roster (desk_link owner source target)

theorem roster_registerComponent (owner : ActorRef) (d : ComponentDescriptor) :
    (w.registerComponent owner d st).2.roster = st.roster := by
  unfold registerComponent
  cases w.registrable owner d st with
  | error e => rfl
  | ok incoming =>
    dsimp only
    rw [State.roster_modify_soft]
    · rfl
    · exact fun _ => rfl

/-! ## Publication ingress -/

theorem roster_stageOutput (port : ℕ) (stored : Stored) (ticket : ℕ) :
    (w.stageOutput r port stored ticket st).2.roster = st.roster := by
  unfold stageOutput
  cases w.checkRef r st with
  | error e => rfl
  | ok a =>
    dsimp only
    split_ifs
    · rfl
    · dsimp only
      have refreshed := @roster_refreshEarliest
      have staged : (refreshEarliest r (st.modifyActor r fun a =>
          { a with
            stagedBytes := a.stagedBytes + stored.bytes
            deadlines := a.deadlines.add stored.options.deadline
            staged := a.staged ++ [⟨port, stored, ticket⟩] })).roster = st.roster := by
        rw [roster_refreshEarliest, State.roster_modify_soft]
        exact fun _ => rfl
      exact staged

theorem roster_acceptPublication (p : Publication) :
    (w.acceptPublication p st).roster = st.roster :=
  congrArg Desk.roster (desk_acceptPublication p)

theorem roster_submitPublicationLocked (source : ActorRef) (port : Option ℕ) (p : Payload)
    (o : MessageOptions) (completion : Bool) :
    (w.submitPublicationLocked source port p o completion st).2.roster = st.roster := by
  unfold submitPublicationLocked
  cases w.executionStateLocked source st with
  | error e => rfl
  | ok execution =>
  dsimp only
  cases st.publications.reserve source (execution = .starting) with
  | mk answer publications =>
  cases answer with
  | error e => rfl
  | ok ticket =>
  dsimp only
  have stored := @roster_makeStoredWith { st with publications := publications } w p o
    (port.map fun index => ⟨source, index⟩)
  cases result : w.makeStoredWith p o (port.map fun index => ⟨source, index⟩)
      { st with publications := publications } with
  | mk answer st' =>
  rw [result] at stored
  have kept : st'.roster = st.roster := stored
  cases answer with
  | error e => exact kept
  | ok s =>
  dsimp only
  split_ifs
  · cases port with
    | none => exact (roster_acceptPublication _).trans kept
    | some index =>
      dsimp only
      have staged := @roster_stageOutput st' source w index s ticket
      cases result' : w.stageOutput source index s ticket st' with
      | mk answer' st'' =>
      rw [result'] at staged
      cases answer' with
      | error e => exact staged.trans kept
      | ok u => exact (roster_acceptPublication _).trans (staged.trans kept)
  · exact (roster_acceptPublication _).trans kept

theorem roster_publishInternal (source : ActorRef) (p : Payload) (owner : Option ActorRef)
    (port : Option ℕ) (o : MessageOptions) :
    (w.publishInternal source p owner port o st).2.roster = st.roster := by
  have published : ∀ st : State,
      (w.publishLocked source p owner port o st).2.roster = st.roster := by
    intro st
    unfold publishLocked
    cases w.publishMetadata source o st with
    | error e => rfl
    | ok options =>
      dsimp only
      cases checkDeadline options (w.now st) with
      | error e => rfl
      | ok u =>
        dsimp only
        cases w.publishable source p owner port st.tick with
        | error e => rfl
        | ok u => exact roster_submitPublicationLocked source port p options owner.isSome
  unfold publishInternal
  dsimp only
  have submitted := published (st.addMetrics fun m =>
    { m with publicationSubmitted := m.publicationSubmitted + 1, submitted := m.submitted + 1 })
  cases result : w.publishLocked source p owner port o _ with
  | mk answer st' =>
    rw [result] at submitted
    cases answer <;> exact submitted

theorem roster_deliveryPublish (lease : DeliveryLease) (source : PortRef) (p : Payload)
    (o : MessageOptions) : (w.deliveryPublish lease source p o st).2.roster = st.roster := by
  unfold deliveryPublish
  cases o.validate with
  | error e => rfl
  | ok u =>
    dsimp only
    split_ifs
    · rfl
    · exact roster_publishInternal _ _ _ _ _

/-! ## Staged outputs and turns -/

theorem roster_enqueuePublicationLocked (id : ℕ) :
    (w.enqueuePublicationLocked id st).roster = st.roster :=
  congrArg Desk.roster (desk_enqueuePublicationLocked id)

theorem roster_flushSource (source : ActorRef) : (w.flushSource st source).roster = st.roster := by
  unfold flushSource
  cases w.checkRef source st with
  | error e => rfl
  | ok a =>
    dsimp only
    rw [roster_mark, roster_foldl
      (fun st (s : StagedOutput) => w.enqueuePublicationLocked s.publication st)
      fun _ s => roster_enqueuePublicationLocked s.publication]
    have flushed : (refreshEarliest source (expireStagedDeadlines source a.staged
        (st.modifyActor source fun a => { a with staged := [], stagedBytes := 0 }))).roster =
        st.roster := by
      rw [roster_refreshEarliest, roster_expireStagedDeadlines, State.roster_modify_soft]
      exact fun _ => rfl
    exact flushed

theorem roster_flushStagedLocked : (w.flushStagedLocked st).roster = st.roster := by
  unfold flushStagedLocked
  dsimp only
  rw [roster_foldl w.flushSource fun _ source => roster_flushSource source,
    roster_expireEventsLocked]
  rfl

theorem roster_attemptRoute (p : Publication) (route : ℕ) (target : ActorRef) :
    (w.attemptRoute p route target st).2.roster = st.roster := by
  unfold attemptRoute
  dsimp only
  cases w.routeFence { p with cursor := p.cursor + 1 } route target st with
  | error e => exact State.roster_note rfl
  | ok u =>
    dsimp only
    have admitted := @roster_admitMessage st target w p.stored (some route) true none
    cases result : w.admitMessage target p.stored (some route) true none st with
    | mk answer st' =>
      rw [result] at admitted
      cases answer with
      | error e => exact (State.roster_note rfl).trans admitted
      | ok event => exact (State.roster_note rfl).trans admitted

theorem roster_attemptRoutes (batch : ℕ) (routes : List (ℕ × ActorRef)) (p : Publication) :
    (w.attemptRoutes batch routes p st).2.2.2.roster = st.roster := by
  induction routes generalizing batch p st with
  | nil => cases batch <;> rfl
  | cons route routes ih =>
    cases batch with
    | zero => rfl
    | succ batch =>
      unfold attemptRoutes
      dsimp only
      split_ifs
      · rfl
      · dsimp only
        rw [ih, roster_attemptRoute]
        rfl

theorem roster_routeTurn (p : Publication) : (w.routeTurn p st).2.2.2.roster = st.roster := by
  unfold routeTurn turnOutcome captureRoutes
  split_ifs
  · rfl
  dsimp only
  split_ifs
  · rfl
  dsimp only
  cases p.routes with
  | some routes => exact roster_attemptRoutes _ _ _
  | none =>
    dsimp only
    split_ifs
    · rfl
    · rfl
    · exact (roster_attemptRoutes _ _ _).trans (State.roster_note rfl)

theorem roster_requeuePublication (p : Publication) :
    (requeuePublication p st).roster = st.roster := rfl

theorem roster_routeBatch : (w.routeBatch st).2.roster = st.roster := by
  unfold routeBatch
  cases st.publications.ready with
  | nil => rfl
  | cons source ready =>
    dsimp only
    split
    · rfl
    · split
      · rfl
      · dsimp only
        split
        · rw [roster_touch, roster_finishPublicationLocked, roster_routeTurn]
          rfl
        · rw [roster_touch, roster_requeuePublication, roster_routeTurn]
          rfl

/-! ## Claims and leases -/

theorem roster_popDelivery (d : Delivery) (rest : List Delivery) :
    (w.popDelivery r d rest st).roster = st.roster := by
  unfold popDelivery
  dsimp only
  rw [roster_mark, roster_refresh, roster_refreshEarliest, roster_removeDeadline,
    State.roster_modify_soft]
  exact fun _ => rfl

theorem roster_operationLive (d : Delivery) : (w.operationLive r d st).2.roster = st.roster :=
  congrArg Desk.roster (desk_operationLive d)

theorem roster_skipDelivery (d : Delivery) (reason : CancelReason) :
    (skipDelivery r d reason st).roster = st.roster :=
  congrArg Desk.roster (desk_skipDelivery d reason)

theorem roster_startDelivery (d : Delivery) : (w.startDelivery r d st).2.roster = st.roster := by
  unfold startDelivery
  dsimp only
  rw [State.roster_note rfl]
  exact State.roster_modify_soft fun _ => rfl

theorem roster_claimNext (queue : List Delivery) :
    (w.claimNext r queue st).2.roster = st.roster := by
  induction queue generalizing st with
  | nil => rfl
  | cons d rest ih =>
    have popped : (w.popDelivery r d rest st).tick.roster = st.roster :=
      @roster_popDelivery st r w d rest
    have live := @roster_operationLive (w.popDelivery r d rest st).tick r w d
    unfold claimNext
    dsimp only
    split_ifs
    · rw [ih, State.roster_note rfl, roster_expireDeliveryLocked, popped]
    · rw [ih, roster_skipDelivery, live, popped]
    · rw [ih, roster_skipDelivery, live, popped]
    · rw [roster_startDelivery, live, popped]

theorem roster_claim : (w.claim r st).2.roster = st.roster := by
  unfold claim
  cases w.checkRef r st with
  | error e => rfl
  | ok a =>
    dsimp only
    cases w.executionStateLocked r st with
    | error e => rfl
    | ok execution =>
      dsimp only
      split_ifs
      · rfl
      · exact roster_claimNext a.queue

theorem roster_clearInFlight (lease : DeliveryLease) :
    (clearInFlight lease st).roster = st.roster := by
  unfold clearInFlight
  dsimp only
  rw [State.roster_modify_soft]
  · rfl
  · exact fun _ => rfl

theorem roster_clearControl : (w.clearControl r st).roster = st.roster := by
  unfold clearControl
  cases w.checkRef r st with
  | error e => rfl
  | ok a => exact State.roster_modify_soft fun _ => rfl

theorem roster_trackTask : (w.trackTask r st).2.roster = st.roster := by
  unfold trackTask
  cases w.checkRef r st with
  | error e => rfl
  | ok a =>
    dsimp only
    split_ifs
    · rfl
    · exact State.roster_modify_soft fun _ => rfl

theorem roster_claimNativeHook (expected : Lifecycle) :
    (w.claimNativeHook r expected st).2.roster = st.roster := by
  unfold claimNativeHook
  cases w.hookEligible r expected st with
  | error e => rfl
  | ok eligible =>
    cases eligible with
    | false => rfl
    | true => exact State.roster_modify_soft fun _ => rfl

theorem roster_serviceRequest (lease : ServiceLease) (port : String) (p : Payload)
    (deadline : Instant) (o : MessageOptions) :
    (w.serviceRequest lease port p deadline o st).2.roster = st.roster :=
  congrArg Desk.roster (desk_serviceRequest lease port p deadline o)

end World

end Actorplane
