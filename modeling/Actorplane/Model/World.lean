import Actorplane.Model.Services

/-!
# Runs of a World

Every call that takes the World lock is one action. A run is a sequence of
actions from the initial state; each step keeps the state and what the call
returned. A lease may only be used while it is outstanding, since it moves into
the call that ends it.
-/

namespace Actorplane

inductive Action
  | allocate (kind : EndpointKind) (parent : Option ActorRef)
  | activate (actor : ActorRef)
  | finishPython (actor : ActorRef)
  | registerSchema (version : ℕ)
  | registerComponent (owner : ActorRef) (descriptor : ComponentDescriptor)
  | subscribe (source target : ActorRef)
  | unsubscribe (route : ℕ)
  | link (owner : ActorRef) (source target : PortRef)
  | hold (payload : Payload) (options : MessageOptions)
  | send (target : ActorRef) (payload : Payload) (options : MessageOptions)
  | sendPort (target : PortRef) (payload : Payload) (options : MessageOptions)
  | sendHeld (target : ActorRef) (held : HeldPayload)
  | sendHeldFrom (owner target : ActorRef) (held : HeldPayload)
  | request (owner target : ActorRef) (payload : Payload) (deadline : Instant)
      (options : MessageOptions)
  | serviceRequest (lease : ServiceLease) (port : String) (payload : Payload)
      (deadline : Instant) (options : MessageOptions)
  | resumeRequest (call : ServiceCall)
  | completeOperation (id : OperationId) (target : ActorRef) (payload : Payload)
      (options : Option MessageOptions)
  | cancelOperation (id : OperationId)
  | takeOperation (id : OperationId)
  | publish (source : ActorRef) (payload : Payload) (options : MessageOptions)
  | publishPort (source : PortRef) (payload : Payload) (options : MessageOptions)
  | deliveryPublish (lease : DeliveryLease) (source : PortRef) (payload : Payload)
      (options : MessageOptions)
  | taskPublish (owner source : ActorRef) (sourcePort : Option ℕ) (payload : Payload)
      (options : MessageOptions)
  | cloneTicket (ticket : ℕ)
  | dropTicket (ticket : ℕ)
  | routeBatch
  | claim (actor : ActorRef)
  | finishDelivery (lease : DeliveryLease) (success : Bool)
  | dropDelivery (lease : DeliveryLease)
  | trackTask (actor : ActorRef)
  | dropTask (actor : ActorRef)
  | claimNativeCallback (actor : ActorRef) (startup : Bool)
  | claimNativeDrainCallback (actor : ActorRef)
  | dropCallback (actor : ActorRef)
  | reportFailure (actor : ActorRef) (eventId schema : Option ℕ)
      (operation : Option OperationId) (phase : FailurePhase) (action : FailureAction)
  | claimFailure (supervisor : ActorRef)
  | finishFailure (lease : FailureLease) (action : Option FailureAction)
  | dropFailure (lease : FailureLease)
  | registerService (name : String) (target : ActorRef) (required : InterfaceSpec)
  | acquireService (owner : ActorRef) (name : String) (required : InterfaceSpec)
  | acquireServiceFrom (owner : ActorRef) (name : String) (required : InterfaceSpec)
      (expected : ActorRef)
  | releaseService (lease : ServiceLease)
  | stop (actor : ActorRef)
  | close
  | requestDrain (actor : ActorRef) (deadline : Instant)
  | drainAll (deadline : Instant)
  | maintain (now : Instant)
  | activity (actor : ActorRef)
  | pollActivity (actor : ActorRef) (observed waker : ℕ)

/-- What a call returns. -/
inductive Outcome
  | unit (result : Except Error Unit)
  | actor (result : Except Error ActorRef)
  | number (result : Except Error ℕ)
  | flag (result : Except Error Bool)
  | ports (result : Except Error (List PortRef))
  | held (result : Except Error HeldPayload)
  | operation (result : Except Error OperationId)
  | terminal (result : Except Error (Option TerminalOutcome))
  | delivery (result : Except Error (Option DeliveryLease))
  | failureRecord (result : Except Error FailureRecord)
  | failure (result : Except Error (Option FailureLease))
  | service (result : Except Error ServiceLease)
  | progress (result : RoutingProgress)
  | poll (result : Option (Except Error ℕ))
  /-- The lease is not outstanding, so no such call can be made. -/
  | unavailable

namespace World

variable (w : World)

/-- Schemas enter in batches; their layouts are not part of this model. -/
def registerSchema (version : ℕ) (st : State) : State :=
  if !st.closed || st.actors.any fun a => a.state = .quiescing || a.inFlight then
    { st with schemas := st.schemas ++ [version] } else st

def activity (r : ActorRef) (st : State) : Except Error ℕ × State :=
  match w.checkRef r st with
  | .error e => (.error e, st)
  | .ok _ =>
    let (result, registry) := st.obs.activity.version r
    (result, st.observe fun o => { o with activity := registry })

def pollActivity (r : ActorRef) (observed waker : ℕ) (st : State) :
    Option (Except Error ℕ) × State :=
  match w.checkRef r st with
  | .error e => (some (.error e), st)
  | .ok a =>
    let (result, registry) :=
      if a.state = .stopping ∨ a.state = .stopped then
        let (result, registry) := st.obs.activity.version r
        (some result, registry)
      else st.obs.activity.poll r observed waker
    (result, st.observe fun o => { o with activity := registry })

/-- Wrap the result of a call. -/
def returning {α : Type} (wrap : α → Outcome) (call : α × State) : Outcome × State :=
  (wrap call.1, call.2)

/-- Use a lease only while it is outstanding. -/
def outstanding {α : Type} [DecidableEq α] (leases : List α) (lease : α)
    (act : Outcome × State) (st : State) : Outcome × State :=
  if lease ∈ leases then act else (.unavailable, st)

/-- One call on the World. -/
def step (action : Action) (st : State) : Outcome × State :=
  match action with
  | .allocate kind parent => returning .actor (w.allocate kind parent st)
  | .activate r => returning .unit (w.activate r st)
  | .finishPython r => returning .unit (w.finishPython r st)
  | .registerSchema version => (.unit (.ok ()), registerSchema version st)
  | .registerComponent owner d => returning .ports (w.registerComponent owner d st)
  | .subscribe source target => returning .number (w.subscribe source target st)
  | .unsubscribe route => returning .unit (w.unsubscribe route st)
  | .link owner source target => returning .number (w.link owner source target st)
  | .hold p o => returning .held (w.holdWith p o st)
  | .send r p o => returning .number (w.sendWith r p o st)
  | .sendPort port p o => returning .number (w.sendPortWith port p o st)
  | .sendHeld r held => returning .number (w.sendHeld r held st)
  | .sendHeldFrom owner r held => returning .number (w.sendHeldFrom owner r held st)
  | .request owner r p deadline o => returning .operation (w.requestWith owner r p deadline o st)
  | .serviceRequest lease port p deadline o =>
    returning .unit (w.serviceRequest lease port p deadline o st)
  | .resumeRequest call =>
    outstanding st.serviceCalls call (returning .operation (w.resumeRequest call st)) st
  | .completeOperation op r p o => returning .flag (w.completeOperationWith op r p o st)
  | .cancelOperation op => returning .flag (w.cancelOperation op st)
  | .takeOperation op => returning .terminal (w.takeOperation op st)
  | .publish source p o => returning .number (w.publishWith source p o st)
  | .publishPort source p o => returning .number (w.publishPortWith source p o st)
  | .deliveryPublish lease source p o =>
    outstanding st.deliveryLeases lease
      (returning .number (w.deliveryPublish lease source p o st)) st
  | .taskPublish owner source port p o =>
    outstanding st.taskLeases owner
      (returning .number (w.taskPublish owner source port p o st)) st
  | .cloneTicket ticket =>
    (.unit (.ok ()), { st with publications := st.publications.cloneHandle ticket })
  | .dropTicket ticket =>
    (.unit (.ok ()), { st with publications := st.publications.dropHandle ticket })
  | .routeBatch => returning .progress (w.routeBatch st)
  | .claim r => returning .delivery (w.claim r st)
  | .finishDelivery lease success =>
    outstanding st.deliveryLeases lease
      (.unit (.ok ()), w.finishDelivery lease success st) st
  | .dropDelivery lease =>
    outstanding st.deliveryLeases lease (.unit (.ok ()), w.dropDelivery lease st) st
  | .trackTask r => returning .unit (w.trackTask r st)
  | .dropTask r => outstanding st.taskLeases r (.unit (.ok ()), w.dropTask r st) st
  | .claimNativeCallback r startup => returning .flag (w.claimNativeCallback r startup st)
  | .claimNativeDrainCallback r => returning .flag (w.claimNativeDrainCallback r st)
  | .dropCallback r => outstanding st.callbackLeases r (.unit (.ok ()), w.dropCallback r st) st
  | .reportFailure r event schema op phase action =>
    returning .failureRecord (w.reportFailure r event schema op phase action st)
  | .claimFailure r => returning .failure (w.claimFailure r st)
  | .finishFailure lease action =>
    outstanding st.failureLeases lease (returning .unit (w.finishFailure lease action st)) st
  | .dropFailure lease =>
    outstanding st.failureLeases lease (.unit (.ok ()), w.dropFailure lease st) st
  | .registerService name target required =>
    returning .unit (w.registerService name target required st)
  | .acquireService owner name required =>
    returning .service (w.acquireService owner name required st)
  | .acquireServiceFrom owner name required expected =>
    returning .service (w.acquireServiceFrom owner name required expected st)
  | .releaseService lease => returning .flag (w.releaseService lease st)
  | .stop r => returning .unit (w.stop r st)
  | .close => (.unit (.ok ()), w.close st)
  | .requestDrain r deadline => returning .unit (w.requestDrain r deadline st)
  | .drainAll deadline => (.unit (.ok ()), w.drainAll deadline st)
  | .maintain now => (.unit (.ok ()), w.maintain now st)
  | .activity r => returning .number (w.activity r st)
  | .pollActivity r observed waker => returning .poll (w.pollActivity r observed waker st)

/-- The state after a sequence of calls. -/
def exec (st : State) (actions : List Action) : State :=
  actions.foldl (fun st a => (w.step a st).2) st

/-- What the calls of a sequence return. -/
def outcomes (st : State) : List Action → List Outcome
  | [] => []
  | a :: actions => (w.step a st).1 :: outcomes (w.step a st).2 actions

/-- The states that calls can lead to from a fresh World. -/
def Reachable (st : State) : Prop := ∃ actions, st = w.exec w.init actions

end World

end Actorplane
