import Actorplane.Model.State

/-!
# Fencing, draining and maintenance

Ending publications, expiring events, finalizing and fencing actors, draining
ownership trees, and the maintenance pass. Recursion over the ownership tree
carries a step budget; the invariants show that it never runs out.
-/

namespace Actorplane

namespace World

variable (w : World)

/-! ## Publications -/

def concludedMetrics (outcome : PublicationOutcome) (m : Metrics) : Metrics :=
  match outcome with
  | .routed => { m with publicationCompleted := m.publicationCompleted + 1 }
  | .expired => { m with publicationExpired := m.publicationExpired + 1 }
  | .fanoutLimit | .snapshotFull => { m with publicationFailed := m.publicationFailed + 1 }
  | _ => { m with publicationCancelled := m.publicationCancelled + 1 }

/-- `finish_publication_locked`, on a publication already taken out of `entries`. -/
def finishPublicationLocked (publication : Publication) (outcome : PublicationOutcome)
    (st : State) : State :=
  let report := publication.closing outcome
  let st := st.addMetrics fun m =>
    { m with rejected := m.rejected + (report.rejected - publication.report.rejected) }
  let st := { st with publications := st.publications.removeIndexes publication }
  let st := { st with
    publications := st.publications.setStatus publication.ticket (.terminal report) }
  let st := st.addMetrics (concludedMetrics outcome)
  let st := w.markActivityDependentsLocked publication.source st
  let st := if st.publications.ready ≠ [] then st.markRoutingLocked else st
  let st := { st with publications := st.publications.settle publication.ticket }
  st.note (.concluded publication.ticket report)

def cancelPublicationLocked (id : ℕ) (outcome : PublicationOutcome) (st : State) : State :=
  match st.publications.entries.lookup id with
  | none => st
  | some publication =>
    let st := { st with
      publications := { st.publications with entries := st.publications.entries.erase id } }
    w.finishPublicationLocked publication outcome st

def cancelSourcePublicationsLocked (source : ActorRef) (st : State) : State :=
  (st.publications.queueOf source).foldl
    (fun st id => w.cancelPublicationLocked id .cancelled st) st

def expirePublicationsLocked (now : Instant) (st : State) : State :=
  (st.publications.due now).foldl (fun st id => w.cancelPublicationLocked id .expired st) st

/-! ## Event expiry -/

def isDue (now : Instant) : Option Instant → Bool
  | none => false
  | some deadline => deadline ≤ now

def expireDeliveryLocked (delivery : Delivery) (now : Instant) (st : State) : State :=
  let st := st.addMetrics fun m =>
    { m with
      expired := m.expired + 1
      cancelled := m.cancelled + 1
      discarded := m.discarded + 1 }
  let st := st.observe fun o =>
    { o with
      diagnostics :=
        o.diagnostics.recordEvent (.rejected .deadlineExpired) delivery.envelope
          delivery.operation }
  match delivery.operation with
  | none => st
  | some operation => w.timeOutOperation operation now (some delivery.envelope.destination) st

/-- Drop one counted deadline of an actor. -/
def removeDeadline (owner : ActorRef) (deadline : Option Instant) (st : State) : State :=
  match st.actors[owner.slot]? with
  | none => st.poison
  | some a =>
    match a.deadlines.remove? deadline with
    | none => st.poison
    | some deadlines => st.modifyActor owner fun a => { a with deadlines := deadlines }

/-- `queue.retain(..)` over the queue taken out of the actor: expire what is due. -/
def expireQueued (owner : ActorRef) (now : Instant) : List Delivery → State → State
  | [], st => st
  | d :: queue, st =>
    if isDue now d.envelope.deadline then
      let st := w.expireDeliveryLocked d now (removeDeadline owner d.envelope.deadline st)
      expireQueued owner now queue (st.note (.cancelled d.eventId owner .expired))
    else expireQueued owner now queue st

def expireStagedDeadlines (owner : ActorRef) : List StagedOutput → State → State
  | [], st => st
  | s :: staged, st =>
    expireStagedDeadlines owner staged (removeDeadline owner s.stored.options.deadline st)

def refreshEarliest (owner : ActorRef) (st : State) : State :=
  match st.actors[owner.slot]? with
  | none => st.poison
  | some a => { st with eventDeadlines := st.eventDeadlines.set owner a.deadlines.first }

/-- One owner of `expire_events_locked`: its queue, then its staged outputs. -/
def expireOwner (now : Instant) (owner : ActorRef) (st : State) : State :=
  match w.checkRef owner st with
  | .error _ => st.poison
  | .ok a =>
    let due := a.queue.filter fun d => isDue now d.envelope.deadline
    let kept := a.queue.filter fun d => ¬isDue now d.envelope.deadline
    let st := st.modifyActor owner fun a => { a with queue := [] }
    let st := w.expireQueued owner now a.queue st
    let st := st.modifyActor owner fun a =>
      { a with
        queue := kept
        queueBytes := a.queueBytes - (due.map fun d => d.payload.bytes).sum }
    let lost := a.staged.filter fun s => isDue now s.stored.options.deadline
    let st := expireStagedDeadlines owner lost st
    let st := st.modifyActor owner fun a =>
      { a with
        staged := a.staged.filter fun s => ¬isDue now s.stored.options.deadline
        stagedBytes := a.stagedBytes - (lost.map fun s => s.stored.bytes).sum }
    let st := refreshEarliest owner st
    let st :=
      if a.staged.all fun s => isDue now s.stored.options.deadline then
        { st with stagedActors := st.stagedActors.erase owner.slot }
      else st
    let st := lost.foldl (fun st s => w.cancelPublicationLocked s.publication .expired st) st
    let st := w.markActivityDependentsLocked owner st
    let st := w.refreshPythonReadyLocked owner st
    let st := st.addMetrics fun m =>
      { m with
        expired := m.expired + lost.length
        cancelled := m.cancelled + lost.length
        discarded := m.discarded + lost.length }
    let st := lost.foldl (fun st s => st.note (.stagedLost s.publication)) st
    lost.foldl (fun st _ => st.diagnostic (.rejected .deadlineExpired) (some owner) none) st

def expireEventsLocked (now : Instant) (st : State) : State :=
  let (owners, index) := st.eventDeadlines.takeDue now
  owners.foldl (fun st owner => w.expireOwner now owner st) { st with eventDeadlines := index }

/-! ## Finalization -/

/-- Retire a stopped actor: its operations, its slot, and its place below its parent. -/
def finalizeActor (r : ActorRef) (st : State) : State :=
  let st := st.modifyActor r fun a => { a with state := .stopped }
  let st := w.refreshPythonReadyLocked r st
  let st := { st with
    liveActors := st.liveActors - 1
    operations := (st.operations.retireOwner r).2
    free := r.slot :: st.free }
  let st := st.note (.finalized r)
  match st.actors[r.slot]? with
  | none => st.poison
  | some retired =>
    match retired.parent with
    | none => st
    | some p =>
      match st.actors[p.slot]? with
      | none => st
      | some parent =>
        if parent.reference ≠ p then st
        else st.modifyActor p fun parent =>
          { parent with
            children := parent.children.filter (· ≠ r)
            drainTimedOut := parent.drainTimedOut || retired.drainTimedOut
            errors := min (parent.errors + retired.errors) u64Max
            lastError := keepLatest parent.lastError retired.lastError }

def childDone (st : State) (c : ActorRef) : Bool :=
  match st.actors[c.slot]? with
  | none => true
  | some x => x.reference ≠ c || x.state = .stopped

/-- Nothing keeps a stopping actor from being finalized. -/
def finalizable (st : State) (a : Actor) : Bool :=
  a.state = .stopping && !a.inFlight && !a.controlInFlight && a.notification.isNone &&
    a.nativeTasks = 0 && a.pythonDone && a.children.all (childDone st)

/-- `try_finalize`, cascading to the parent. -/
def tryFinalize : ℕ → ActorRef → State → State
  | 0, _, st => st
  | fuel + 1, r, st =>
    let st := w.refreshPythonReadyLocked r st
    let st := w.markActivityDependentsLocked r st
    match st.actors[r.slot]? with
    | none => st
    | some a =>
      if a.reference ≠ r then st
      else if finalizable st a then
        let st := w.finalizeActor r st
        match a.parent with
        | none => st
        | some p => tryFinalize fuel p st
      else st

/-! ## Fencing -/

def detachScope (scope : ActorRef) (st : State) : State :=
  match st.services.leases.lookup scope with
  | none => st
  | some lease =>
    let services := { st.services with leases := st.services.leases.erase scope }
    let services :=
      match services.byTarget.lookup lease.service with
      | none => services
      | some name =>
        match services.records.lookup name with
        | none => services
        | some record =>
          { services with
            records :=
              AList.insert name { record with scopes := record.scopes.erase scope }
                services.records }
    let services := { services with byHolder := services.byHolder.drop lease.owner scope }
    let st := { st with services := services }
    let st := w.markActivityDependentsLocked lease.owner st
    w.markActivityDependentsLocked lease.service st

/-- Drop the lease of one scope of a service that is going away, then fence the scope. -/
def revokeScope (fence : ActorRef → State → Except Error Unit × State) (service : ActorRef)
    (st : State) (scope : ActorRef) : State :=
  let st :=
    match st.services.leases.lookup scope with
    | none => st
    | some lease =>
      let st := { st with
        services :=
          { st.services with
            leases := st.services.leases.erase scope
            byHolder := st.services.byHolder.drop lease.owner scope } }
      w.markActivityDependentsLocked lease.owner st
  let st := w.markActivityDependentsLocked service st
  (fence scope st).2

def detachService (fence : ActorRef → State → Except Error Unit × State) (service : ActorRef)
    (st : State) : State :=
  match st.services.byTarget.lookup service with
  | none => st
  | some name =>
    let st := { st with
      services := { st.services with byTarget := st.services.byTarget.erase service } }
    match st.services.records.lookup name with
    | none => st
    | some record =>
      let st := { st with
        services := { st.services with records := st.services.records.erase name } }
      (record.scopes.insertionSort ActorRef.before).foldl (w.revokeScope fence service) st

/-- Discard one child's pending notification. -/
def discardNotification (supervisor : ActorRef) (st : State) (source : ActorRef) : State :=
  let st := st.modifyActor source fun a => { a with notification := none }
  let st := st.modifyActor supervisor fun a =>
    { a with pendingFailures := a.pendingFailures - 1 }
  let st := st.addMetrics fun m => { m with notificationsDiscarded := m.notificationsDiscarded + 1 }
  w.tryFinalize walkFuel source st

def notifying (st : State) (child : ActorRef) : Bool :=
  match w.checkRef child st with
  | .error _ => false
  | .ok a => a.notification.isSome

def discardNotificationsFor (supervisor : ActorRef) (st : State) : State :=
  match w.checkRef supervisor st with
  | .error _ => st
  | .ok a =>
    let sources := a.children.filter (w.notifying st)
    let st := sources.foldl (w.discardNotification supervisor) st
    let st := if sources ≠ [] then w.markActivityDependentsLocked supervisor st else st
    w.refreshPythonReadyLocked supervisor st

/-- Cancel the pending operations that `r` owns or serves. -/
def cancelOperationsOf (r : ActorRef) (st : State) : State :=
  let participants := st.operations.pendingParticipantsFor r
  let (owned, operations) := st.operations.cancelOwner r
  let (served, operations) := operations.stopTarget r
  let st := { st with operations := operations }
  let st := participants.foldl
    (fun st p => w.markOperationActivityLocked p.owner (some p.target) st) st
  let st := st.addMetrics fun m =>
    { m with operationCancelled := m.operationCancelled + (owned + served) }
  (List.range (owned + served)).foldl (fun st _ => st.diagnostic .cancelled (some r) none) st

def removeActorRoutes (r : ActorRef) (st : State) : State :=
  (st.subs.actorRouteIds r).foldl
    (fun st id =>
      match st.subs.remove id with
      | (none, _) => st
      | (some route, subs) => w.markRouteActivityLocked route { st with subs := subs }) st

/-- Discard the mailbox and the staged outputs of an actor that becomes Stopping. -/
def stopActor (r : ActorRef) (a : Actor) (st : State) : State :=
  let st := st.modifyActor r fun a =>
    { a with
      state := .stopping
      staged := []
      stagedBytes := 0
      deadlines := .new
      queue := []
      queueBytes := 0 }
  let st := a.staged.foldl (fun st s => st.note (.stagedLost s.publication)) st
  let st := a.queue.foldl (fun st d => st.note (.cancelled d.eventId r .fenced)) st
  let discarded := a.staged.length + a.queue.length
  st.addMetrics fun m =>
    { m with cancelled := m.cancelled + discarded, discarded := m.discarded + discarded }

def fenceAll (fence : ActorRef → State → Except Error Unit × State) :
    List ActorRef → State → Except Error Unit × State
  | [], st => (.ok (), st)
  | c :: children, st =>
    match fence c st with
    | (.error e, st) => (.error e, st)
    | (.ok _, st) => fenceAll fence children st

/-- `fence_locked`: children before parents, then the actor itself. -/
def fenceLocked : ℕ → ActorRef → State → Except Error Unit × State
  | 0, _, st => (.error .staleReference, st)
  | fuel + 1, r, st =>
    match w.checkRef r st with
    | .error e => (.error e, st)
    | .ok _ =>
      let st := w.cancelSourcePublicationsLocked r st
      let st := { st with
        eventDeadlines := st.eventDeadlines.remove r
        stagedActors := st.stagedActors.erase r.slot
        drainRoots := st.drainRoots.erase r.slot }
      let st := w.detachScope r st
      let st := w.detachService (fenceLocked fuel) r st
      let st := w.discardNotificationsFor r st
      let st := w.cancelOperationsOf r st
      match w.checkRef r st with
      | .error e => (.error e, st)
      | .ok a =>
        match fenceAll (fenceLocked fuel) a.children st with
        | (.error e, st) => (.error e, st)
        | (.ok _, st) =>
          match w.checkRef r st with
          | .error e => (.error e, st)
          | .ok a =>
            if a.state = .stopped then (.ok (), st)
            else
              let st := w.removeActorRoutes r st
              let st := stopActor r a st
              (.ok (), w.tryFinalize walkFuel r st)

/-- A service root and the subtrees of its scopes each need one walk. -/
def fenceFuel : ℕ := 2 * walkFuel

def stopLocked (r : ActorRef) (st : State) : Except Error Unit × State :=
  w.fenceLocked fenceFuel r st

def closeLocked (st : State) : State :=
  let st := { st with closed := true }
  let st := st.closeRoutingLocked
  let refs := (st.actors.filter fun a => a.parent.isNone).map (·.reference)
  refs.foldl (fun st r => (w.fenceLocked fenceFuel r st).2) st

/-! ## Draining -/

def markAllQuiescing (mark : ActorRef → Instant → State → Except Error Instant × State) :
    List ActorRef → Instant → State → Except Error Instant × State
  | [], deadline, st => (.ok deadline, st)
  | c :: children, deadline, st =>
    match mark c deadline st with
    | (.error e, st) => (.error e, st)
    | (.ok deadline, st) => markAllQuiescing mark children deadline st

def markQuiescing (root : ActorRef) : ℕ → ActorRef → Instant → State →
    Except Error Instant × State
  | 0, _, _, st => (.error .staleReference, st)
  | fuel + 1, r, deadline, st =>
    let cutoff := st.publications.lastIssued
    match w.checkRef r st with
    | .error e => (.error e, st)
    | .ok a =>
      if a.state = .stopping ∨ a.state = .stopped then (.ok deadline, st)
      else
        let deadline :=
          match a.drainDeadline with
          | none => deadline
          | some previous => min deadline previous
        let st := st.modifyActor r fun a =>
          { a with
            state := .quiescing
            publicationCutoff := some (a.publicationCutoff.getD cutoff)
            drainRoot := some root
            drainDeadline := none }
        let st := { st with drainRoots := st.drainRoots.erase r.slot }
        match markAllQuiescing (markQuiescing root fuel) a.children deadline st with
        | (.error e, st) => (.error e, st)
        | (.ok deadline, st) =>
          let st := w.refreshPythonReadyLocked r st
          (.ok deadline, w.markActivityDependentsLocked r st)

def drainLocked (r : ActorRef) (deadline : Instant) (st : State) : Except Error Unit × State :=
  match w.checkRef r st with
  | .error e => (.error e, st)
  | .ok a =>
    match a.state with
    | .stopping | .stopped => (.ok (), st)
    | .starting => w.stopLocked r st
    | .quiescing =>
      let root := a.drainRoot.getD r
      match w.checkRef root st with
      | .error e => (.error e, st)
      | .ok _ =>
        let st := st.modifyActor root fun a =>
          { a with
            drainDeadline :=
              some (match a.drainDeadline with
                | none => deadline
                | some old => min old deadline) }
        (.ok (), w.markActivityDependentsLocked root st)
    | .active =>
      match w.markQuiescing r walkFuel r deadline st with
      | (.error e, st) => (.error e, st)
      | (.ok deadline, st) =>
        let st := st.modifyActor r fun a => { a with drainDeadline := some deadline }
        (.ok (), { st with drainRoots := AList.insert r.slot r st.drainRoots })

def drained (st : State) : ℕ → ActorRef → Bool
  | 0, _ => false
  | fuel + 1, r =>
    match w.checkRef r st with
    | .error _ => true
    | .ok a =>
      a.queue.isEmpty && a.staged.isEmpty && st.publications.pendingFor r = 0 &&
        !a.inFlight && !a.controlInFlight && a.notification.isNone && a.nativeTasks = 0 &&
        st.operations.pendingFor a.reference = 0 &&
        st.operations.pendingForTarget a.reference = 0 &&
        a.children.all (drained st fuel)

def drainedLocked (r : ActorRef) (st : State) : Bool := w.drained st walkFuel r

/-! ## Maintenance -/

def expireOperationsLocked (now : Instant) (st : State) : State :=
  let participants := st.operations.dueParticipants now
  let (expired, operations) := st.operations.expireIds now
  let st := { st with operations := operations }
  let st := participants.foldl
    (fun st p => w.markOperationActivityLocked p.owner (some p.target) st) st
  let st := st.addMetrics fun m =>
    { m with operationTimedOut := m.operationTimedOut + expired.length }
  expired.foldl (fun st id => st.diagnostic .operationTimedOut none (some id)) st

/-- One drain root of the maintenance pass: stop it when drained or out of time. -/
def maintainRoot (now : Instant) (st : State) (root : ActorRef) : State :=
  if st.drainRoots.lookup root.slot ≠ some root then st
  else
    let expired : Bool :=
      match w.checkRef root st with
      | .error _ => false
      | .ok a =>
        match a.drainDeadline with
        | none => false
        | some deadline => deadline ≤ now
    let drained := w.drainedLocked root st
    if expired ∨ drained then
      let st :=
        if expired ∧ ¬drained then
          let st := st.modifyActor root fun a => { a with drainTimedOut := true }
          let st := st.addMetrics fun m => { m with drainTimeouts := m.drainTimeouts + 1 }
          (st.diagnostic .drainTimeout (some root) none).note (.drainTimeout root)
        else st
      (w.stopLocked root st).2
    else st

/-- Everything `maintain_locked` expires before it looks at the drain roots. -/
def expireAll (now : Instant) (st : State) : State :=
  w.expireOperationsLocked now (w.expirePublicationsLocked now (w.expireEventsLocked now st))

def maintainLocked (now : Instant) (st : State) : State :=
  let st := w.expireAll now st
  (st.drainRoots.ordered (· ≤ ·)).foldl (w.maintainRoot now) st

end World

end Actorplane
