import Actorplane.Model.World

/-!
# Shutdown reports

Read-only accounts of what an actor and everything it owns still has to do. A report
walks the actors of the scope, and asks the operation and publication tables what is
outstanding for them.
-/

namespace Actorplane

structure StopReport where
  nativeDone : Bool := false
  pythonDone : Bool := false
  inFlight : ℕ := 0
  discarded : ℕ := 0
  timedOut : Bool := false
  queued : ℕ := 0
  deliveryInFlight : ℕ := 0
  controlInFlight : ℕ := 0
  nativeTasks : ℕ := 0
  pythonPending : ℕ := 0
  pendingNotifications : ℕ := 0
  outstandingOperations : ℕ := 0
  retainedOperations : ℕ := 0
  outstandingPublications : ℕ := 0
  retainedPublications : ℕ := 0
  errors : ℕ := 0
  lastError : Option FailureRecord := none
  deriving DecidableEq, Repr

namespace StopReport

variable (report : StopReport)

def addActor (a : Actor) : StopReport :=
  { report with
    queued := report.queued + (a.queue.length + a.staged.length)
    deliveryInFlight := report.deliveryInFlight + a.inFlight.toNat
    controlInFlight := report.controlInFlight + a.controlInFlight.toNat
    nativeTasks := report.nativeTasks + a.nativeTasks
    pythonPending := report.pythonPending + (!a.pythonDone).toNat
    pendingNotifications := report.pendingNotifications + a.notification.isSome.toNat
    errors := min (report.errors + a.errors) u64Max
    lastError := keepLatest report.lastError a.lastError
    timedOut := report.timedOut || a.drainTimedOut }

def finishCounts : StopReport :=
  let inFlight := report.deliveryInFlight + report.controlInFlight + report.nativeTasks
  { report with
    inFlight := inFlight
    nativeDone := report.queued = 0 && inFlight = 0 && report.pendingNotifications = 0 &&
      report.outstandingOperations = 0 && report.outstandingPublications = 0
    pythonDone := report.pythonPending = 0 }

end StopReport

/-- Each operation counts once, even if both of its ends belong to the scope. -/
def OperationTable.countsForScope (t : OperationTable) (scope : List ActorRef) : ℕ × ℕ :=
  let ids := (scope.flatMap fun r => t.ownerIndex.members r ++ t.targetIndex.members r).dedup
  let pending (id : OperationId) : Bool :=
    match t.locate id with
    | .ok (.pending _) => true
    | _ => false
  let retained (id : OperationId) : Bool :=
    match t.locate id with
    | .ok (.terminal _) => ((t.owners[id.slot]?).join).any (· ∈ scope)
    | _ => false
  (ids.countP pending, ids.countP retained)

def PublicationTable.countsForScope (t : PublicationTable) (scope : List ActorRef) : ℕ × ℕ :=
  let pending := (scope.map t.pendingFor).sum
  let total := (scope.map fun source => (t.ticketCounts.lookup source).getD 0).sum
  (pending, total - pending)

namespace World

variable (w : World)

/-- The loop of `report_locked`, with the top of its stack first. An actor enters the
stack once, so that the fuel of all actors is enough. -/
def reportScope (st : State) : ℕ → List ActorRef → List ActorRef → StopReport →
    Except Error (List ActorRef × StopReport)
  | _, [], scope, report => .ok (scope, report)
  | 0, _ :: _, _, _ => .error .staleReference
  | fuel + 1, r :: pending, scope, report =>
    match w.checkRef r st with
    | .error e => .error e
    | .ok a =>
      reportScope st fuel (a.children.reverse ++ pending) (scope.insert r) (report.addActor a)

def reportLocked (r : ActorRef) (st : State) : Except Error StopReport :=
  match w.reportScope st (st.actors.length + 1) [r] [] {} with
  | .error e => .error e
  | .ok (scope, report) =>
    let (pending, retained) := st.operations.countsForScope scope
    let (published, kept) := st.publications.countsForScope scope
    .ok { report with
      outstandingOperations := pending
      retainedOperations := retained
      outstandingPublications := published
      retainedPublications := kept }.finishCounts

def stopReport (r : ActorRef) (st : State) : Except Error StopReport := w.reportLocked r st

def worldReportLocked (st : State) : StopReport :=
  { st.actors.foldl StopReport.addActor {} with
    errors := st.metrics.failures
    lastError := st.lastError
    timedOut := st.metrics.drainTimeouts ≠ 0
    outstandingOperations := st.operations.pendingCount
    retainedOperations := st.operations.retainedTerminalCount
    outstandingPublications := st.publications.pending
    retainedPublications := st.publications.retained }.finishCounts

def shutdownReport (st : State) : StopReport := worldReportLocked st

/-! ## The reports of the calls that stop -/

/-- `stop`, with what it returns. -/
def stopReporting (r : ActorRef) (st : State) : Except Error StopReport × State :=
  match w.stopLocked r st with
  | (.error e, st') => (.error e, st'.touchActivity)
  | (.ok _, st') =>
    match w.reportLocked r st' with
    | .error e => (.error e, st'.touchActivity)
    | .ok report =>
      (.ok { report with discarded := st'.metrics.discarded - st.metrics.discarded },
        st'.touchActivity)

/-- `request_drain`, with what it returns. -/
def requestDrainReporting (r : ActorRef) (deadline : Instant) (st : State) :
    Except Error StopReport × State :=
  match w.drainLocked r deadline st with
  | (.error e, st) => (.error e, st)
  | (.ok _, st) =>
    let st := w.maintainLocked (w.now st) st.tick
    (w.reportLocked r st, st.touchActivity)

end World

end Actorplane
