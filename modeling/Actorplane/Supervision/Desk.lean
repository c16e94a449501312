import Actorplane.Supervision.Roster

/-!
# Calls that touch no actor

Operations, publications, routes, stored payloads and replies have tables of their own.
What works on these leaves the rest of the state on its desk: the actors with their
deadlines, the services, and the totals of the failures.
-/

namespace Actorplane

variable {st : State} {r : ActorRef}

structure Desk where
  actors : List Actor
  nextReadyOrder : ℕ
  eventDeadlines : DeadlineIndex
  stagedActors : Assoc ℕ ActorRef
  services : Registry
  nextFailure : ℕ
  lastError : Option FailureRecord
  failures : ℕ
  coalesced : ℕ
  delivered : ℕ
  discarded : ℕ
  timeouts : ℕ
  late : List ActorRef
  poisoned : Bool

def Desk.roster (d : Desk) : Roster where
  members := d.actors.map Actor.member
  nextOrder := d.nextReadyOrder
  services := d.services
  nextFailure := d.nextFailure
  lastError := d.lastError
  failures := d.failures
  coalesced := d.coalesced
  delivered := d.delivered
  discarded := d.discarded
  timeouts := d.timeouts
  late := d.late

namespace State

def desk (st : State) : Desk where
  actors := st.actors
  nextReadyOrder := st.nextReadyOrder
  eventDeadlines := st.eventDeadlines
  stagedActors := st.stagedActors
  services := st.services
  nextFailure := st.nextFailure
  lastError := st.lastError
  failures := st.metrics.failures
  coalesced := st.metrics.notificationsCoalesced
  delivered := st.metrics.notificationsDelivered
  discarded := st.metrics.notificationsDiscarded
  timeouts := st.metrics.drainTimeouts
  late := st.log.filterMap Event.late
  poisoned := st.poisoned

theorem desk_addMetrics {f : Metrics → Metrics}
    (h : ∀ m, (f m).failures = m.failures ∧
      (f m).notificationsCoalesced = m.notificationsCoalesced ∧
      (f m).notificationsDelivered = m.notificationsDelivered ∧
      (f m).notificationsDiscarded = m.notificationsDiscarded ∧
      (f m).drainTimeouts = m.drainTimeouts) : (st.addMetrics f).desk = st.desk := by
  obtain ⟨h1, h2, h3, h4, h5⟩ := h st.metrics
  simp only [desk, addMetrics, h1, h2, h3, h4, h5]

theorem desk_with_publications (t : PublicationTable) :
    ({ st with publications := t } : State).desk = st.desk := rfl

theorem desk_note {e : Event} (h : e.late = none) : (st.note e).desk = st.desk := by
  have late : (st.log ++ [e]).filterMap Event.late = st.log.filterMap Event.late := by
    rw [List.filterMap_append]
    simp [h]
  simp only [desk, note, late]

end State

namespace World

variable {w : World}

/-- A fold of updates outside the desk. -/
theorem desk_foldl {α : Type} (f : State → α → State)
    (hf : ∀ st x, (f st x).desk = st.desk) (xs : List α) (st : State) :
    (xs.foldl f st).desk = st.desk := by
  induction xs generalizing st with
  | nil => rfl
  | cons x xs ih => exact (ih (f st x)).trans (hf st x)

theorem desk_mark : (w.markActivityDependentsLocked r st).desk = st.desk := rfl

/-! ## Operations -/

theorem desk_completeOperationLocked (id : OperationId) (outcome : TerminalOutcome) :
    (w.completeOperationLocked id outcome st).2.desk = st.desk := by
  unfold completeOperationLocked
  cases st.operations.participants id with
  | error e => rfl
  | ok p =>
    dsimp only
    split_ifs <;> rfl

theorem desk_expireOperationLocked (id : OperationId) (now : Instant) :
    (w.expireOperationLocked id now st).2.desk = st.desk := by
  unfold expireOperationLocked
  cases st.operations.participants id with
  | error e => rfl
  | ok p =>
    dsimp only
    split_ifs <;> rfl

theorem desk_timeOutOperation (id : OperationId) (now : Instant) (actor : Option ActorRef) :
    (w.timeOutOperation id now actor st).desk = st.desk := by
  have expired := @desk_expireOperationLocked st w id now
  unfold timeOutOperation
  dsimp only
  split_ifs
  · exact expired
  · exact expired

theorem desk_endOperation (id : OperationId) (outcome : TerminalOutcome) (won : State → State)
    (hwon : ∀ st, (won st).desk = st.desk) :
    (w.endOperation id outcome won st).desk = st.desk := by
  have completed := @desk_completeOperationLocked st w id outcome
  unfold endOperation
  dsimp only
  split_ifs
  · rw [hwon, completed]
  · exact completed

theorem desk_failOperation (operation : Option OperationId) :
    (w.failOperation operation st).desk = st.desk := by
  unfold failOperation
  cases operation with
  | none => rfl
  | some id =>
    dsimp only
    rw [desk_endOperation id failHandler countCompleted fun _ => rfl, desk_timeOutOperation]
    rfl

theorem desk_cancelOperationsOf : (w.cancelOperationsOf r st).desk = st.desk := by
  unfold cancelOperationsOf
  dsimp only
  rw [desk_foldl (fun st _ => st.diagnostic .cancelled (some r) none) fun _ _ => rfl]
  exact desk_foldl (fun st (p : OperationOwner) =>
    w.markOperationActivityLocked p.owner (some p.target) st) (fun _ _ => rfl) _ _

theorem desk_expireOperationsLocked (now : Instant) :
    (w.expireOperationsLocked now st).desk = st.desk := by
  unfold expireOperationsLocked
  dsimp only
  rw [desk_foldl (fun st id => st.diagnostic .operationTimedOut none (some id)) fun _ _ => rfl]
  exact desk_foldl (fun st (p : OperationOwner) =>
    w.markOperationActivityLocked p.owner (some p.target) st) (fun _ _ => rfl) _ _

/-! ## Publications -/

theorem desk_finishPublicationLocked (p : Publication) (outcome : PublicationOutcome) :
    (w.finishPublicationLocked p outcome st).desk = st.desk := by
  have concluded : ∀ st : State, (st.addMetrics (concludedMetrics outcome)).desk = st.desk := by
    intro st
    apply State.desk_addMetrics
    intro m
    cases outcome <;> exact ⟨rfl, rfl, rfl, rfl, rfl⟩
  have marked : ∀ st : State,
      (if st.publications.ready ≠ [] then st.markRoutingLocked else st).desk = st.desk := by
    intro st
    split_ifs <;> rfl
  unfold finishPublicationLocked
  dsimp only
  rw [State.desk_note rfl, State.desk_with_publications, marked, desk_mark, concluded]
  rfl

theorem desk_cancelPublicationLocked (id : ℕ) (outcome : PublicationOutcome) :
    (w.cancelPublicationLocked id outcome st).desk = st.desk := by
  unfold cancelPublicationLocked
  cases st.publications.entries.lookup id with
  | none => rfl
  | some p => exact desk_finishPublicationLocked p outcome

theorem desk_cancelSourcePublicationsLocked :
    (w.cancelSourcePublicationsLocked r st).desk = st.desk :=
  desk_foldl (fun st id => w.cancelPublicationLocked id .cancelled st)
    (fun _ id => desk_cancelPublicationLocked id .cancelled) _ st

theorem desk_expirePublicationsLocked (now : Instant) :
    (w.expirePublicationsLocked now st).desk = st.desk :=
  desk_foldl (fun st id => w.cancelPublicationLocked id .expired st)
    (fun _ id => desk_cancelPublicationLocked id .expired) _ st

/-! ## Routes -/

theorem desk_removeActorRoutes : (w.removeActorRoutes r st).desk = st.desk := by
  unfold removeActorRoutes
  apply desk_foldl
  intro st id
  cases st.subs.remove id with
  | mk route subs => cases route <;> rfl

/-! ## Events -/

theorem desk_expireDeliveryLocked (d : Delivery) (now : Instant) :
    (w.expireDeliveryLocked d now st).desk = st.desk := by
  unfold expireDeliveryLocked
  dsimp only
  cases d.operation with
  | none => rfl
  | some id =>
    dsimp only
    rw [desk_timeOutOperation]
    rfl

theorem desk_stagedLost (lost : List StagedOutput) :
    (lost.foldl (fun st s => st.note (.stagedLost s.publication)) st).desk = st.desk :=
  desk_foldl (fun st (s : StagedOutput) => st.note (.stagedLost s.publication))
    (fun _ _ => State.desk_note rfl) lost st

/-! ## Admission -/

theorem desk_makeStoredWith (p : Payload) (o : MessageOptions) (d : Option PortRef) :
    (w.makeStoredWith p o d st).2.desk = st.desk := by
  unfold makeStoredWith reserveBytes
  cases w.storedCharge p o with
  | error e => rfl
  | ok n =>
    dsimp only
    split_ifs <;> rfl

theorem desk_holdWith (p : Payload) (o : MessageOptions) :
    (w.holdWith p o st).2.desk = st.desk := by
  unfold holdWith
  split_ifs
  · rfl
  cases w.validateSource o st true with
  | error e => rfl
  | ok u =>
    dsimp only
    cases checkDeadline o (w.now st) with
    | error e => rfl
    | ok u =>
      dsimp only
      have stored := @desk_makeStoredWith st.tick w p o none
      cases result : w.makeStoredWith p o none st.tick with
      | mk answer st' =>
        rw [result] at stored
        cases answer <;> exact stored

/-! ## Replies -/

theorem desk_replyTimedOut (id : OperationId) (target : ActorRef) :
    (w.replyTimedOut id target st).2.desk = st.desk := by
  have completed := @desk_completeOperationLocked st w id .timedOut
  unfold replyTimedOut
  cases result : w.completeOperationLocked id .timedOut st with
  | mk answer st' =>
    rw [result] at completed
    cases answer with
    | error e => exact completed
    | ok won => cases won <;> exact completed

theorem desk_replyTooLarge (id : OperationId) :
    (w.replyTooLarge id st).2.desk = st.desk := by
  have completed := @desk_completeOperationLocked st w id
    (.failed .resultTooLarge "operation result exceeds configured budget")
  unfold replyTooLarge
  dsimp only
  cases result : w.completeOperationLocked id
      (.failed .resultTooLarge "operation result exceeds configured budget") st with
  | mk answer st' =>
    rw [result] at completed
    cases answer with
    | error e => exact completed
    | ok won => cases won <;> exact completed

theorem desk_replyCompleted (id : OperationId) (target : ActorRef) (held : HeldPayload) :
    (w.replyCompleted id target held st).2.desk = st.desk := by
  have completed := @desk_completeOperationLocked st w id (.completed held)
  unfold replyCompleted
  cases result : w.completeOperationLocked id (.completed held) st with
  | mk answer st' =>
    rw [result] at completed
    cases answer with
    | error e => exact completed
    | ok won => cases won <;> exact completed

theorem desk_replyWith (id : OperationId) (owner target : ActorRef) (p : Payload)
    (o : MessageOptions) : (w.replyWith id owner target p o st).2.desk = st.desk := by
  unfold replyWith
  dsimp only
  split_ifs
  · exact desk_replyTimedOut id target
  have stored := @desk_makeStoredWith st.tick w p o none
  cases result : w.makeStoredWith p o none st.tick with
  | mk answer st' =>
  rw [result] at stored
  have kept : st'.desk = st.desk := stored
  cases answer with
  | error e => exact (desk_replyTooLarge id).trans kept
  | ok s =>
  unfold nextEventId
  dsimp only
  split_ifs
  · exact kept
  dsimp only
  cases w.envelopeFor owner s none st'.nextEvent
      (w.now { st' with nextEvent := st'.nextEvent + 1 })
      ({ st' with nextEvent := st'.nextEvent + 1 } : State).tick with
  | error e => exact kept
  | ok envelope =>
    dsimp only
    split_ifs
    · exact (desk_replyTimedOut id target).trans kept
    · exact (desk_replyCompleted id target _).trans kept

theorem desk_completeOperationWith (id : OperationId) (target : ActorRef) (p : Payload)
    (o : Option MessageOptions) :
    (w.completeOperationWith id target p o st).2.desk = st.desk := by
  have timed := @desk_timeOutOperation st.tick w id (w.now st) (some target)
  have timed : (w.timeOutOperation id (w.now st) (some target) st.tick).desk = st.desk := timed
  unfold completeOperationWith
  dsimp only
  generalize w.timeOutOperation id (w.now st) (some target) st.tick = st₁ at timed ⊢
  split
  · exact timed
  · exact timed
  · exact timed
  · split
    · exact timed
    · exact (desk_replyWith id _ target p _).trans timed

theorem desk_cancelOperation (id : OperationId) :
    (w.cancelOperation id st).2.desk = st.desk := by
  have completed := @desk_completeOperationLocked st w id .cancelled
  unfold cancelOperation
  cases result : w.completeOperationLocked id .cancelled st with
  | mk answer st' =>
    rw [result] at completed
    cases answer with
    | error e => exact completed
    | ok won => cases won <;> exact completed

theorem desk_takeOperation (id : OperationId) :
    (w.takeOperation id st).2.desk = st.desk := by
  unfold takeOperation
  cases st.operations.participants id with
  | error e => rfl
  | ok p =>
    dsimp only
    split <;> rfl

/-! ## Routes and components -/

theorem desk_subscribe (source target : ActorRef) :
    (w.subscribe source target st).2.desk = st.desk := by
  unfold subscribe
  cases w.subscribable source target st <;> rfl

theorem desk_unsubscribe (id : ℕ) : (w.unsubscribe id st).2.desk = st.desk := by
  unfold unsubscribe
  cases st.subs.remove id with
  | mk route subs => cases route <;> rfl

theorem desk_link (owner : ActorRef) (source target : PortRef) :
    (w.link owner source target st).2.desk = st.desk := by
  unfold link
  cases w.linkable owner source target st <;> rfl

/-! ## Publication ingress -/

theorem desk_acceptPublication (p : Publication) :
    (w.acceptPublication p st).desk = st.desk := by
  unfold acceptPublication
  dsimp only
  rw [State.desk_note rfl]
  split_ifs <;> rfl

/-! ## Staged outputs and turns -/

theorem desk_enqueuePublicationLocked (id : ℕ) :
    (w.enqueuePublicationLocked id st).desk = st.desk := by
  unfold enqueuePublicationLocked
  cases st.publications.entries.lookup id <;> rfl

/-! ## Claims and leases -/

theorem desk_operationLive (d : Delivery) : (w.operationLive r d st).2.desk = st.desk := by
  unfold operationLive
  cases d.operation with
  | none => rfl
  | some id =>
    dsimp only
    split
    · exact desk_timeOutOperation _ _ _
    · exact desk_timeOutOperation _ _ _

theorem desk_skipDelivery (d : Delivery) (reason : CancelReason) :
    (skipDelivery r d reason st).desk = st.desk := State.desk_note rfl

theorem desk_serviceRequest (lease : ServiceLease) (port : String) (p : Payload)
    (deadline : Instant) (o : MessageOptions) :
    (w.serviceRequest lease port p deadline o st).2.desk = st.desk := by
  unfold serviceRequest
  cases w.serviceRequestable lease port p st <;> rfl

end World

end Actorplane
