import Actorplane.Model.Deadlines
import Actorplane.Model.Observers
import Actorplane.Model.Publications
import Actorplane.Model.Routing

/-!
# The World state

The state guarded by the World lock, together with the handles that callers hold
on it: delivery, failure and callback leases, and task registrations. `log` is a
history variable. Operations append to it and never read it.

Reads of the moving clock and of the shared retained-byte counter are answered by
the streams of `World`; `reads` and `reservations` count the answers consumed.
-/

namespace Actorplane

structure World where
  id : ℕ
  cfg : Config
  valid : cfg.Valid
  clock : ℕ → Instant
  retained : ℕ → ℕ

structure Delivery where
  eventId : ℕ
  envelope : Envelope
  payload : Stored
  subscription : Option ℕ
  operation : Option OperationId
  deriving DecidableEq, Repr

structure StagedOutput where
  port : ℕ
  stored : Stored
  publication : ℕ
  deriving DecidableEq, Repr

structure Actor where
  reference : ActorRef
  readyOrder : ℕ
  kind : EndpointKind
  state : Lifecycle
  parent : Option ActorRef
  children : List ActorRef
  queue : List Delivery
  queueBytes : ℕ
  staged : List StagedOutput
  stagedBytes : ℕ
  deadlines : ActorDeadlines
  inFlight : Bool
  controlInFlight : Bool
  notification : Option Notification
  pendingFailures : ℕ
  reportedFailure : Option ℕ
  nativeTasks : ℕ
  pythonDone : Bool
  drainRoot : Option ActorRef
  drainDeadline : Option Instant
  publicationCutoff : Option ℕ
  drainTimedOut : Bool
  errors : ℕ
  lastError : Option FailureRecord
  component : Option ComponentDescriptor

structure ServiceLease where
  scope : ActorRef
  owner : ActorRef
  service : ActorRef
  deriving DecidableEq, Repr

structure ServiceRecord where
  name : String
  service : ActorRef
  contract : InterfaceSpec
  scopes : List ActorRef
  deriving DecidableEq, Repr

structure Registry where
  records : Assoc String ServiceRecord
  byTarget : Assoc ActorRef String
  leases : Assoc ActorRef ServiceLease
  byHolder : Index ActorRef ActorRef

def Registry.new : Registry := ⟨∅, ∅, ∅, ∅⟩

structure DeliveryLease where
  target : ActorRef
  operation : Option OperationId
  delivery : Delivery
  deriving DecidableEq, Repr

structure FailureLease where
  supervisor : ActorRef
  notification : Notification
  deriving DecidableEq, Repr

/-- A `service_request` between its two locks. -/
structure ServiceCall where
  owner : ActorRef
  target : ActorRef
  payload : Payload
  deadline : Instant
  options : MessageOptions
  port : PortRef
  deriving DecidableEq, Repr

/-- Why an admitted delivery was cancelled. -/
inductive CancelReason
  | expired
  | operationEnded
  | routeRemoved
  | fenced
  | abandoned
  deriving DecidableEq, Repr

/-- Entries of the history variable. -/
inductive Event
  | activated (actor : ActorRef)
  | leased (scope : ActorRef)
  | finalized (actor : ActorRef)
  | admitted (event : ℕ) (target : ActorRef)
  | claimed (event : ℕ) (target : ActorRef)
  | finished (event : ℕ) (success : Bool)
  | cancelled (event : ℕ) (target : ActorRef) (reason : CancelReason)
  | stagedLost (publication : ℕ)
  | accepted (publication : ℕ) (source : ActorRef)
  | captured (publication : ℕ) (routes : List (ℕ × ActorRef))
  | attempted (publication : ℕ) (source : ActorRef) (route : ℕ) (target : ActorRef)
      (delivery : Option ℕ)
  | concluded (publication : ℕ) (report : DeliveryReport)
  | drainTimeout (root : ActorRef)
  deriving DecidableEq, Repr

structure State where
  actors : List Actor
  liveActors : ℕ
  nextReadyOrder : ℕ
  eventDeadlines : DeadlineIndex
  stagedActors : Assoc ℕ ActorRef
  drainRoots : Assoc ℕ ActorRef
  free : List ℕ
  subs : RouteTable
  metrics : Metrics
  closed : Bool
  operations : OperationTable
  publications : PublicationTable
  nextFailure : ℕ
  lastError : Option FailureRecord
  schemas : List ℕ
  interfaces : Assoc (String × ℕ) InterfaceSpec
  services : Registry
  nextEvent : ℕ
  nextSub : ℕ
  obs : Observers
  deliveryLeases : List DeliveryLease
  failureLeases : List FailureLease
  callbackLeases : List ActorRef
  taskLeases : List ActorRef
  serviceCalls : List ServiceCall
  reads : ℕ
  reservations : ℕ
  poisoned : Bool
  log : List Event

/-- `World::with_clock` -/
def World.init (w : World) : State where
  actors := []
  liveActors := 0
  nextReadyOrder := 1
  eventDeadlines := .new
  stagedActors := ∅
  drainRoots := ∅
  free := []
  subs := .new
  metrics := {}
  closed := false
  operations := .new w.id w.cfg.maxOperations
  publications := .new w.cfg.maxPublications w.cfg.maxPublicationsPerSource
  nextFailure := 1
  lastError := none
  schemas := []
  interfaces := ∅
  services := .new
  nextEvent := 1
  nextSub := 1
  obs := .new w.cfg.diagnosticCapacity
  deliveryLeases := []
  failureLeases := []
  callbackLeases := []
  taskLeases := []
  serviceCalls := []
  reads := 0
  reservations := 0
  poisoned := false
  log := []

/-- Ancestor chains have at most 129 actors; every walk over them gets one step more. -/
def walkFuel : ℕ := 130

namespace State

variable (st : State)

def modifyActor (r : ActorRef) (f : Actor → Actor) : State :=
  { st with actors := st.actors.modify r.slot f }

def note (e : Event) : State := { st with log := st.log ++ [e] }

/-- An `expect` of the source fails; the World lock is poisoned. -/
def poison : State := { st with poisoned := true }

def tick : State := { st with reads := st.reads + 1 }

def addMetrics (f : Metrics → Metrics) : State := { st with metrics := f st.metrics }

def observe (f : Observers → Observers) : State := { st with obs := f st.obs }

def diagnostic (code : DiagnosticCode) (actor : Option ActorRef)
    (operation : Option OperationId) : State :=
  st.observe fun o => { o with diagnostics := o.diagnostics.record code actor operation }

/-- Forget the dirty marks once the lock is released, waking their observers. -/
def touchActivity : State :=
  st.observe fun o =>
    { o with
      routing := { o.routing with dirty := false }
      activity := o.activity.notifyMarked }

def markRoutingLocked : State :=
  st.observe fun o => { o with routing := { o.routing with dirty := true } }

def closeRoutingLocked : State :=
  st.observe fun o => { o with routing := ⟨true, true⟩ }

/-- Version of a registered schema. -/
def schemaVersion (id : ℕ) : Option ℕ := if id = 0 then none else st.schemas[id - 1]?

end State

namespace World

variable (w : World)

def now (st : State) : Instant := w.clock st.reads

def reject (error : Error) (actor : ActorRef) (st : State) : State :=
  (st.addMetrics fun m => { m with rejected := m.rejected + 1 }).diagnostic
    (.rejected error) (some actor) none

def checkRef (r : ActorRef) (st : State) : Except Error Actor :=
  if r.world ≠ w.id then .error .crossWorld
  else match st.actors[r.slot]? with
    | none => .error .staleReference
    | some a => if a.reference.generation ≠ r.generation then .error .staleReference else .ok a

/-- The loop of `execution_state_locked`, from one actor up its ancestor chain. -/
def executionWalk (st : State) : ℕ → Actor → Bool → Bool → Except Error Lifecycle
  | 0, _, _, _ => .error .staleReference
  | fuel + 1, current, sawStarting, sawQuiescing =>
    if current.state = .stopping ∨ current.state = .stopped then .ok .stopping
    else
      let sawStarting := sawStarting || current.state = .starting
      let sawQuiescing := sawQuiescing || current.state = .quiescing
      match current.parent with
      | none =>
        .ok (if sawQuiescing then .quiescing else if sawStarting then .starting else .active)
      | some parent =>
        match w.checkRef parent st with
        | .error e => .error e
        | .ok a => executionWalk st fuel a sawStarting sawQuiescing

def executionStateLocked (r : ActorRef) (st : State) : Except Error Lifecycle :=
  match w.checkRef r st with
  | .error e => .error e
  | .ok a => w.executionWalk st walkFuel a false false

/-- Is the effective state Active or Quiescing? -/
def runs (r : ActorRef) (st : State) : Bool :=
  match w.executionStateLocked r st with
  | .ok .active | .ok .quiescing => true
  | _ => false

/-! ## Observers -/

def pythonReadyAfter (r : ActorRef) (st : State) : PythonReadyIndex :=
  match w.checkRef r st with
  | .error _ => st.obs.pythonReady
  | .ok a =>
    if a.kind ≠ .python then st.obs.pythonReady
    else
      let registered := !a.pythonDone
      let executable := registered && !a.inFlight && !a.controlInFlight && w.runs r st
      st.obs.pythonReady.set a.readyOrder r
        (registered && a.state = .starting)
        (executable && 0 < a.pendingFailures)
        (executable && !a.queue.isEmpty)
        (registered && (a.state = .stopping ∨ a.state = .stopped))

def refreshPythonReadyLocked (r : ActorRef) (st : State) : State :=
  st.observe fun o => { o with pythonReady := w.pythonReadyAfter r st }

/-- The actors of an ownership subtree, parents first. -/
def subtree (st : State) : ℕ → ActorRef → List ActorRef
  | 0, _ => []
  | fuel + 1, r =>
    match w.checkRef r st with
    | .error _ => []
    | .ok a => r :: a.children.flatMap (subtree st fuel)

def refreshPythonSubtreeLocked (r : ActorRef) (st : State) : State :=
  (w.subtree st walkFuel r).foldl (fun st r => w.refreshPythonReadyLocked r st) st

def ancestors (st : State) : ℕ → ActorRef → List ActorRef
  | 0, _ => []
  | fuel + 1, r =>
    match w.checkRef r st with
    | .error _ => []
    | .ok a =>
      match a.parent with
      | none => [r]
      | some p => r :: ancestors st fuel p

/-- Draining consumers of an actor that is itself past Active, with their ancestors. -/
def drainingConsumers (st : State) (r : ActorRef) : List ActorRef :=
  match w.checkRef r st with
  | .error _ => []
  | .ok a =>
    if a.state = .starting ∨ a.state = .active then []
    else (st.subs.sourceActorIds r).flatMap fun id =>
      match st.subs.get id with
      | none => []
      | some route =>
        match w.checkRef route.target st with
        | .ok target =>
          if target.state = .quiescing then w.ancestors st walkFuel route.target else []
        | .error _ => []

def activityDependents (st : State) (r : ActorRef) : List ActorRef :=
  (w.ancestors st walkFuel r).flatMap fun x => x :: w.drainingConsumers st x

def markAll (refs : List ActorRef) (st : State) : State :=
  st.observe fun o => { o with activity := refs.foldl ActivityRegistry.mark o.activity }

def markActivityDependentsLocked (r : ActorRef) (st : State) : State :=
  markAll (w.activityDependents st r) st

def markActivityTreeLocked (r : ActorRef) (st : State) : State :=
  markAll ((w.subtree st walkFuel r).flatMap (w.activityDependents st)) st

def markRouteActivityLocked (route : Sub) (st : State) : State :=
  let refs := w.activityDependents st route.owner
  let refs :=
    if route.source ≠ route.owner then refs ++ w.activityDependents st route.source else refs
  let refs :=
    if route.target ≠ route.owner ∧ route.target ≠ route.source then
      refs ++ w.activityDependents st route.target
    else refs
  markAll refs st

def markOperationActivityLocked (owner : ActorRef) (target : Option ActorRef)
    (st : State) : State :=
  let refs := w.activityDependents st owner
  let refs :=
    match target with
    | none => refs
    | some target =>
      if target ≠ owner then refs ++ w.activityDependents st target else refs
  markAll refs st

/-! ## Operations under the World lock -/

def completeOperationLocked (id : OperationId) (outcome : TerminalOutcome) (st : State) :
    Except Error Bool × State :=
  match st.operations.participants id with
  | .error e => (.error e, st)
  | .ok (owner, target) =>
    let (changed, operations) := st.operations.complete id outcome
    let st := { st with operations := operations }
    (changed, if changed = .ok true then w.markOperationActivityLocked owner target st else st)

def expireOperationLocked (id : OperationId) (now : Instant) (st : State) :
    Except Error Bool × State :=
  match st.operations.participants id with
  | .error e => (.error e, st)
  | .ok (owner, target) =>
    let (changed, operations) := st.operations.expireOne id now
    let st := { st with operations := operations }
    (changed, if changed = .ok true then w.markOperationActivityLocked owner target st else st)

/-- Expire one operation and count the timeout if this call established it. -/
def timeOutOperation (id : OperationId) (now : Instant) (actor : Option ActorRef)
    (st : State) : State :=
  let (changed, st) := w.expireOperationLocked id now st
  if changed = .ok true then
    (st.addMetrics fun m => { m with operationTimedOut := m.operationTimedOut + 1 }).diagnostic
      .operationTimedOut actor (some id)
  else st

end World

end Actorplane
