import Actorplane.Model.Publishing

/-!
# Actors, claims and leases

Allocation and activation, the claims that hand out leases, and what finishing or
dropping each lease does to the World.
-/

namespace Actorplane

namespace World

variable (w : World)

/-! ## Actors -/

/-- The depth check of `allocate_locked`: at most 128 actors from the parent up. -/
def depthAllowed (st : State) : ℕ → Option ActorRef → Except Error Unit
  | _, none => .ok ()
  | 0, some _ => .error .limitExceeded
  | steps + 1, some next =>
    match w.checkRef next st with
    | .error e => .error e
    | .ok a => depthAllowed st steps a.parent

def parentAllows (parent : Option ActorRef) (st : State) : Except Error Unit := do
  match parent with
  | none => return
  | some p =>
    let a ← w.checkRef p st
    if !mayConnect a.state then throw .actorStopped
    w.depthAllowed st 127 a.parent

def newActor (r : ActorRef) (readyOrder : ℕ) (kind : EndpointKind) (parent : Option ActorRef) :
    Actor where
  reference := r
  readyOrder := readyOrder
  kind := kind
  state := .starting
  parent := parent
  children := []
  queue := []
  queueBytes := 0
  staged := []
  stagedBytes := 0
  deadlines := .new
  inFlight := false
  controlInFlight := false
  notification := none
  pendingFailures := 0
  reportedFailure := none
  nativeTasks := 0
  pythonDone := kind = .native
  drainRoot := none
  drainDeadline := none
  publicationCutoff := none
  drainTimedOut := false
  errors := 0
  lastError := none
  component := none

/-- The slot of the next actor: the last freed one, or a new one at the end. -/
def nextSlot (st : State) : ℕ := st.free.headD st.actors.length

def nextRef (st : State) : ActorRef :=
  let slot := nextSlot st
  let generation :=
    match st.actors[slot]? with
    | none => 1
    | some a => a.reference.generation + 1
  ⟨w.id, slot, generation⟩

def placeActor (a : Actor) (st : State) : State :=
  let slot := a.reference.slot
  { st with
    free := st.free.tail
    actors := if slot = st.actors.length then st.actors ++ [a] else st.actors.set slot a }

def allocateLocked (kind : EndpointKind) (parent : Option ActorRef) (st : State) :
    Except Error ActorRef × State :=
  if w.cfg.maxActors ≤ st.liveActors then (.error .limitExceeded, st)
  else match w.parentAllows parent st with
    | .error e => (.error e, st)
    | .ok _ =>
      if u64Max ≤ st.nextReadyOrder then (.error .limitExceeded, st)
      else
        let r := w.nextRef st
        let st := placeActor (newActor r st.nextReadyOrder kind parent) st
        let st :=
          match parent with
          | none => st
          | some p => st.modifyActor p fun a => { a with children := a.children ++ [r] }
        let st := { st with
          liveActors := st.liveActors + 1
          nextReadyOrder := st.nextReadyOrder + 1 }
        let st := w.refreshPythonReadyLocked r st
        (.ok r, w.markActivityDependentsLocked r st)

def allocate (kind : EndpointKind) (parent : Option ActorRef) (st : State) :
    Except Error ActorRef × State :=
  if st.closed then (.error .actorStopped, st.touchActivity)
  else
    let (result, st) := w.allocateLocked kind parent st
    (result, st.touchActivity)

def activatable (r : ActorRef) (st : State) : Except Error Unit := do
  let a ← w.checkRef r st
  match a.parent with
  | none => pure ()
  | some p =>
    let parent ← w.checkRef p st
    if !mayConnect parent.state then throw .actorStopped
  if a.state ≠ .starting then throw .actorStopped

def activate (r : ActorRef) (st : State) : Except Error Unit × State :=
  match w.activatable r st with
  | .error e => (.error e, st)
  | .ok _ =>
    let st := st.modifyActor r fun a => { a with state := .active }
    let st := st.note (.activated r)
    let st := w.refreshPythonSubtreeLocked r st
    let st := w.markActivityTreeLocked r st
    (.ok (), (w.flushStagedLocked st).touchActivity)

def finishPython (r : ActorRef) (st : State) : Except Error Unit × State :=
  match w.checkRef r st with
  | .error e => (.error e, st.touchActivity)
  | .ok _ =>
    let st := st.modifyActor r fun a => { a with pythonDone := true }
    (.ok (), (w.tryFinalize walkFuel r st).touchActivity)

/-! ## Tasks -/

def trackTask (r : ActorRef) (st : State) : Except Error Unit × State :=
  match w.checkRef r st with
  | .error e => (.error e, st)
  | .ok a =>
    if !mayConnect a.state then (.error .actorStopped, st)
    else
      let st := st.modifyActor r fun a => { a with nativeTasks := a.nativeTasks + 1 }
      let st := w.markActivityDependentsLocked r st
      (.ok (), ({ st with taskLeases := r :: st.taskLeases }).touchActivity)

/-- The last clone of a task lease is dropped. -/
def dropTask (owner : ActorRef) (st : State) : State :=
  let st := { st with taskLeases := st.taskLeases.erase owner }
  let st := st.modifyActor owner fun a =>
    if a.reference = owner ∧ 0 < a.nativeTasks then
      { a with nativeTasks := a.nativeTasks - 1 }
    else a
  (w.tryFinalize walkFuel owner st).touchActivity

/-! ## Delivery claims -/

/-- Is the popped delivery's operation, if any, still pending after its deadline check? -/
def operationLive (r : ActorRef) (d : Delivery) (st : State) : Bool × State :=
  match d.operation with
  | none => (true, st)
  | some operation =>
    let now := w.now st
    let st := w.timeOutOperation operation now (some r) st.tick
    match st.operations.status operation with
    | .ok (.pending _) => (true, st)
    | _ => (false, st)

def routeLive (d : Delivery) (st : State) : Bool :=
  match d.subscription with
  | none => true
  | some id => st.subs.containsActive id

def skipDelivery (r : ActorRef) (d : Delivery) (reason : CancelReason) (st : State) : State :=
  (st.addMetrics fun m => { m with cancelled := m.cancelled + 1 }).note
    (.cancelled d.eventId r reason)

def startDelivery (r : ActorRef) (d : Delivery) (st : State) : DeliveryLease × State :=
  let st := st.modifyActor r fun a => { a with inFlight := true }
  let st := w.refreshPythonReadyLocked r st
  let st := st.addMetrics fun m => { m with started := m.started + 1 }
  let lease : DeliveryLease := ⟨r, d.operation, d⟩
  (lease, ({ st with deliveryLeases := lease :: st.deliveryLeases }).note (.claimed d.eventId r))

def popDelivery (r : ActorRef) (d : Delivery) (rest : List Delivery) (st : State) : State :=
  let st := st.modifyActor r fun a =>
    { a with queue := rest, queueBytes := a.queueBytes - d.payload.bytes }
  let st := removeDeadline r d.envelope.deadline st
  let st := refreshEarliest r st
  let st := w.refreshPythonReadyLocked r st
  w.markActivityDependentsLocked r st

/-- The claim loop: pop until a delivery may start or the mailbox is empty. -/
def claimNext (r : ActorRef) : List Delivery → State → Option DeliveryLease × State
  | [], st => (none, st)
  | d :: rest, st =>
    let st := w.popDelivery r d rest st
    let now := w.now st
    let st := st.tick
    if isDue now d.envelope.deadline then
      claimNext r rest
        ((w.expireDeliveryLocked d now st).note (.cancelled d.eventId r .expired))
    else
      let (live, st) := w.operationLive r d st
      if !live then claimNext r rest (skipDelivery r d .operationEnded st)
      else if !routeLive d st then claimNext r rest (skipDelivery r d .routeRemoved st)
      else
        let (lease, st) := w.startDelivery r d st
        (some lease, st)

def claim (r : ActorRef) (st : State) : Except Error (Option DeliveryLease) × State :=
  match w.checkRef r st with
  | .error e => (.error e, st.touchActivity)
  | .ok a =>
    match w.executionStateLocked r st with
    | .error e => (.error e, st.touchActivity)
    | .ok execution =>
      if (execution ≠ .active ∧ execution ≠ .quiescing) ∨ a.inFlight ∨ a.controlInFlight then
        (.ok none, st.touchActivity)
      else
        let (lease, st) := w.claimNext r a.queue st
        (.ok lease, st.touchActivity)

/-- Clear the delivery flag of whatever actor sits in the slot. -/
def clearInFlight (lease : DeliveryLease) (st : State) : State :=
  let st := { st with deliveryLeases := st.deliveryLeases.erase lease }
  st.modifyActor lease.target fun a => { a with inFlight := false }

def failHandler : TerminalOutcome := .failed .handlerFailed "operation handler failed"

/-- Complete the lease's operation and count the transition if it wins. -/
def endOperation (id : OperationId) (outcome : TerminalOutcome) (won : State → State)
    (st : State) : State :=
  let (changed, st) := w.completeOperationLocked id outcome st
  if changed = .ok true then won st else st

/-- `DeliveryLease::finish` -/
def finishDelivery (lease : DeliveryLease) (success : Bool) (st : State) : State :=
  let d := lease.delivery
  let st := clearInFlight lease st
  let st := st.addMetrics fun m =>
    { m with
      completed := m.completed + (if success then 1 else 0)
      failed := m.failed + (if success then 0 else 1) }
  let st := st.note (.finished d.eventId success)
  let reported : Bool :=
    match st.actors[lease.target.slot]? with
    | none => false
    | some a => a.reportedFailure = some d.eventId
  let st :=
    if !success && !reported then st.diagnostic .handlerFailed (some lease.target) lease.operation
    else st
  let st :=
    match lease.operation with
    | none => st
    | some operation =>
      if success then st else w.endOperation operation failHandler countCompleted st
  (w.tryFinalize walkFuel lease.target st).touchActivity

def countOperationCancelled (st : State) : State :=
  st.addMetrics fun m => { m with operationCancelled := m.operationCancelled + 1 }

/-- `DeliveryLease::drop` of an unfinished lease. -/
def dropDelivery (lease : DeliveryLease) (st : State) : State :=
  let st := clearInFlight lease st
  let st := skipDelivery lease.target lease.delivery .abandoned st
  let st :=
    match lease.operation with
    | none => st
    | some operation =>
      w.endOperation operation .cancelled
        (fun st =>
          (countOperationCancelled st).diagnostic .cancelled (some lease.target)
            (some operation)) st
  (w.tryFinalize walkFuel lease.target st).touchActivity

/-! ## Completion publications -/

/-- `DeliveryLease::publish_port_completion_with` -/
def deliveryPublish (lease : DeliveryLease) (source : PortRef) (payload : Payload)
    (options : MessageOptions) (st : State) : Except Error ℕ × State :=
  match options.validate with
  | .error e => (.error e, st)
  | .ok _ =>
    if options.source.any fun owner => owner ≠ source.owner then (.error .invalidMetadata, st)
    else
      let inherited := lease.delivery.envelope.childOptions source.owner
      let metadata : MessageOptions :=
        { source := inherited.source
          deadline := earlierDeadline inherited.deadline options.deadline
          correlationId := options.correlationId.or inherited.correlationId
          causationId := options.causationId.or inherited.causationId
          trace := options.trace.or inherited.trace }
      w.publishInternal source.owner payload (some lease.target) (some source.index) metadata st

/-- `TaskLease::publish_completion` and its port variant. -/
def taskPublish (owner source : ActorRef) (sourcePort : Option ℕ) (payload : Payload)
    (options : MessageOptions) (st : State) : Except Error ℕ × State :=
  w.publishInternal source payload (some owner) sourcePort options st

/-! ## Native callbacks -/

def hookEligible (owner : ActorRef) (expected : Lifecycle) (st : State) : Except Error Bool := do
  let execution ← w.executionStateLocked owner st
  let a ← w.checkRef owner st
  let eligible := execution = expected ∧ (expected ≠ .starting ∨ a.state = .starting)
  return a.kind = .native && eligible && !a.inFlight && !a.controlInFlight &&
    a.notification.isNone

/-- `claim_native_hook`, with the expected effective state of the hook. -/
def claimNativeHook (owner : ActorRef) (expected : Lifecycle) (st : State) :
    Except Error Bool × State :=
  match w.hookEligible owner expected st with
  | .error e => (.error e, st.touchActivity)
  | .ok false => (.ok false, st.touchActivity)
  | .ok true =>
    let st := st.modifyActor owner fun a => { a with controlInFlight := true }
    let st := w.markActivityDependentsLocked owner st
    let st := w.refreshPythonReadyLocked owner st
    (.ok true, ({ st with callbackLeases := owner :: st.callbackLeases }).touchActivity)

def claimNativeCallback (owner : ActorRef) (startup : Bool) (st : State) :
    Except Error Bool × State :=
  w.claimNativeHook owner (if startup then .starting else .active) st

def claimNativeDrainCallback (owner : ActorRef) (st : State) : Except Error Bool × State :=
  w.claimNativeHook owner .quiescing st

/-- Release the control claim of an actor that is still this generation. -/
def clearControl (owner : ActorRef) (st : State) : State :=
  match w.checkRef owner st with
  | .error _ => st
  | .ok _ => st.modifyActor owner fun a => { a with controlInFlight := false }

def dropCallback (owner : ActorRef) (st : State) : State :=
  let st := { st with callbackLeases := st.callbackLeases.erase owner }
  (w.tryFinalize walkFuel owner (w.clearControl owner st)).touchActivity

/-! ## Failures -/

/-- Does the failing actor own the target of the operation it names? -/
def failureOwned (st : State) (reference : ActorRef) : ℕ → ActorRef → Except Error Unit
  | 0, _ => .error .staleReference
  | fuel + 1, current =>
    if current = reference then .ok ()
    else match w.checkRef current st with
      | .error e => .error e
      | .ok a =>
        match a.parent with
        | none => .error .invalidConfig
        | some parent => failureOwned st reference fuel parent

def failureReportable (reference : ActorRef) (operation : Option OperationId) (st : State) :
    Except Error Actor := do
  let a ← w.checkRef reference st
  if a.state = .stopped then throw .actorStopped
  match operation with
  | none => return a
  | some id =>
    if id.world ≠ w.id then throw .crossWorld
    match st.operations.status id with
    | .ok (.pending pending) =>
      w.failureOwned st reference walkFuel pending.target
      return a
    | _ => return a

/-- A parent that is not fenced is told about the failure, unless it supervises. -/
def failureNotifies (parent : Option ActorRef) (phase : FailurePhase) (st : State) : Bool :=
  phase ≠ .supervisor &&
    match parent with
    | none => false
    | some p =>
      match w.checkRef p st with
      | .error _ => false
      | .ok a => a.state = .starting || a.state = .active || a.state = .quiescing

/-- Record the failure on its actor and raise or coalesce the notification. -/
def noteFailure (record : FailureRecord) (parent : Option ActorRef) (notify : Bool)
    (st : State) : State :=
  let r := record.actor
  let pending : Bool :=
    match st.actors[r.slot]? with
    | none => false
    | some a => a.notification.isSome
  let st := st.modifyActor r fun a =>
    { a with
      reportedFailure := record.eventId
      errors := min (a.errors + 1) u64Max
      lastError := some record
      notification :=
        if !notify then a.notification
        else match a.notification with
          | none => some ⟨record, 0⟩
          | some n => some { n with coalesced := min (n.coalesced + 1) u64Max } }
  if !notify then st
  else if pending then
    st.addMetrics fun m => { m with notificationsCoalesced := m.notificationsCoalesced + 1 }
  else match parent with
    | none => st
    | some p => st.modifyActor p fun a => { a with pendingFailures := a.pendingFailures + 1 }

/-- A stale source is left alone; every other error is passed on. -/
def applyFailureAction (reference : ActorRef) (action : FailureAction) (st : State) :
    Except Error Unit × State :=
  match action with
  | .continue => (.ok (), st)
  | .stopWorld => (.ok (), w.closeLocked st)
  | .stopActor =>
    match w.stopLocked reference st with
    | (.ok _, st) | (.error .staleReference, st) => (.ok (), st)
    | (.error e, st) => (.error e, st)

def failOperation (operation : Option OperationId) (st : State) : State :=
  match operation with
  | none => st
  | some id =>
    let now := w.now st
    let st := w.timeOutOperation id now none st.tick
    w.endOperation id failHandler countCompleted st

def reportFailure (reference : ActorRef) (eventId schema : Option ℕ)
    (operation : Option OperationId) (phase : FailurePhase) (action : FailureAction)
    (st : State) : Except Error FailureRecord × State :=
  match w.failureReportable reference operation st with
  | .error e => (.error e, st.touchActivity)
  | .ok a =>
    if u64Max ≤ st.nextFailure then (.error .limitExceeded, st.touchActivity)
    else
      let notify := w.failureNotifies a.parent phase st
      let record : FailureRecord :=
        ⟨st.nextFailure, reference, eventId, schema, operation, phase, action⟩
      let st := { st with nextFailure := st.nextFailure + 1, lastError := some record }
      let st := st.tick
      let st := st.addMetrics fun m => { m with failures := m.failures + 1 }
      let st := st.observe fun o => { o with diagnostics := o.diagnostics.recordFailure record }
      let st := w.failOperation operation st
      let st := noteFailure record a.parent notify st
      let st := w.markActivityDependentsLocked reference st
      match w.applyFailureAction reference action st with
      | (.error e, st) => (.error e, st.touchActivity)
      | (.ok _, st) =>
        let st :=
          match a.parent with
          | none => st
          | some parent => w.refreshPythonReadyLocked parent st
        (.ok record, st.touchActivity)

/-- The pending child with the smallest failure sequence. -/
def firstFailing (children : List ActorRef) (st : State) : Option (ActorRef × Notification) :=
  let pending := children.filterMap fun child =>
    match w.checkRef child st with
    | .error _ => none
    | .ok a => a.notification.map fun n => (child, n)
  (pending.insertionSort fun a b => a.2.failure.sequence ≤ b.2.failure.sequence).head?

def claimFailure (supervisor : ActorRef) (st : State) :
    Except Error (Option FailureLease) × State :=
  match w.checkRef supervisor st with
  | .error e => (.error e, st.touchActivity)
  | .ok a =>
    if a.inFlight || a.controlInFlight then (.ok none, st.touchActivity)
    else match w.executionStateLocked supervisor st with
      | .error e => (.error e, st.touchActivity)
      | .ok execution =>
        if execution ≠ .active ∧ execution ≠ .quiescing then (.ok none, st.touchActivity)
        else match w.firstFailing a.children st with
          | none => (.ok none, st.touchActivity)
          | some (source, notification) =>
            let st := st.modifyActor source fun a => { a with notification := none }
            let st := st.modifyActor supervisor fun a =>
              { a with pendingFailures := a.pendingFailures - 1, controlInFlight := true }
            let st := w.markActivityDependentsLocked supervisor st
            let st := w.refreshPythonReadyLocked supervisor st
            let st := st.addMetrics fun m =>
              { m with notificationsDelivered := m.notificationsDelivered + 1 }
            let lease : FailureLease := ⟨supervisor, notification⟩
            let st := { st with failureLeases := lease :: st.failureLeases }
            (.ok (some lease), (w.tryFinalize walkFuel source st).touchActivity)

/-- `FailureLease::finish` -/
def finishFailure (lease : FailureLease) (action : Option FailureAction) (st : State) :
    Except Error Unit × State :=
  let (result, st) : Except Error Unit × State :=
    match action with
    | none => (.ok (), st)
    | some action => w.applyFailureAction lease.notification.failure.actor action st
  let st := { st with failureLeases := st.failureLeases.erase lease }
  match w.checkRef lease.supervisor st with
  | .error e => (.error e, st.touchActivity)
  | .ok _ =>
    let st := st.modifyActor lease.supervisor fun a => { a with controlInFlight := false }
    (result, (w.tryFinalize walkFuel lease.supervisor st).touchActivity)

/-- `FailureLease::drop` of an unfinished lease. -/
def dropFailure (lease : FailureLease) (st : State) : State :=
  let st := { st with failureLeases := st.failureLeases.erase lease }
  let st := w.clearControl lease.supervisor st
  let st := st.addMetrics fun m => { m with notificationsDiscarded := m.notificationsDiscarded + 1 }
  (w.tryFinalize walkFuel lease.supervisor st).touchActivity

/-! ## Stopping and draining -/

def stop (r : ActorRef) (st : State) : Except Error Unit × State :=
  let (result, st) := w.stopLocked r st
  (result, st.touchActivity)

def close (st : State) : State := (w.closeLocked st).touchActivity

def requestDrain (r : ActorRef) (deadline : Instant) (st : State) : Except Error Unit × State :=
  match w.drainLocked r deadline st with
  | (.error e, st) => (.error e, st)
  | (.ok _, st) =>
    let now := w.now st
    (.ok (), (w.maintainLocked now st.tick).touchActivity)

def liveRoots (st : State) : List ActorRef :=
  (st.actors.filter fun a => a.parent.isNone && a.state ≠ .stopped).map (·.reference)

/-- Start the drain of every root. -/
def drainRootsLocked (deadline : Instant) (st : State) : State :=
  let st := { st with closed := true }
  (liveRoots st).foldl (fun st r => (w.drainLocked r deadline st).2) st

def drainAll (deadline : Instant) (st : State) : State :=
  let st := w.drainRootsLocked deadline st
  let now := w.now st
  (w.maintainLocked now st.tick).touchActivity

/-- `maintain` flushes the activity marks when one of its four counters moved. -/
def maintain (now : Instant) (st : State) : State :=
  let stamp (st : State) : ℕ × ℕ × ℕ × ℕ :=
    (st.metrics.expired, st.metrics.operationTimedOut, st.metrics.publicationExpired,
      st.drainRoots.keys.length)
  let st' := w.maintainLocked now st
  if stamp st = stamp st' then st' else st'.touchActivity

end World

end Actorplane
