import Actorplane.Lib.Assoc
import Actorplane.Model.Basic

/-!
# The publication table

Accepted publications, their order per source, the round-robin queue of routable
sources, and the tickets. A ticket lives while its publication is pending or a
handle to it is held outside; its permit returns the quota with the last of these.
-/

namespace Actorplane

inductive PublicationOutcome
  | pending
  | routed
  | cancelled
  | expired
  | fanoutLimit
  | snapshotFull
  deriving DecidableEq, Repr

structure DeliveryReport where
  admitted : ℕ := 0
  rejected : ℕ := 0
  staged : ℕ := 0
  matched : ℕ := 0
  outcome : PublicationOutcome := .pending
  deriving DecidableEq, Repr

inductive PublicationStatus
  | staged
  | queued
  | routing (report : DeliveryReport)
  | terminal (report : DeliveryReport)
  deriving DecidableEq, Repr

/-- The shared ticket state, with the number of handles held by callers. -/
structure TicketState where
  source : ActorRef
  status : PublicationStatus
  handles : ℕ
  deriving DecidableEq, Repr

structure Publication where
  source : ActorRef
  sourcePort : Option ℕ
  stored : Stored
  staged : Bool
  completion : Bool
  ticket : ℕ
  routes : Option (List (ℕ × ActorRef))
  cursor : ℕ
  report : DeliveryReport
  deriving DecidableEq, Repr

/-- Count the unattempted tail of a captured snapshot as rejected. -/
def Publication.closing (publication : Publication) (outcome : PublicationOutcome) :
    DeliveryReport :=
  let report := { publication.report with outcome := outcome }
  match publication.routes with
  | none => report
  | some _ =>
    { report with rejected := report.rejected + (report.matched - publication.cursor) }

structure RoutingProgress where
  destinations : ℕ
  publications : ℕ
  pending : ℕ
  ready : Bool
  deriving DecidableEq, Repr

structure PublicationTable where
  entries : Assoc ℕ Publication
  bySource : Assoc ActorRef (List ℕ)
  ready : List ActorRef
  readySet : List ActorRef
  deadlines : List (Instant × ℕ)
  nextId : ℕ
  limit : ℕ
  perSource : ℕ
  ticketTotal : ℕ
  ticketCounts : Assoc ActorRef ℕ
  tickets : Assoc ℕ TicketState
  snapshotEntries : ℕ

/-- The order of the publication deadline set. -/
def dueBefore (a b : Instant × ℕ) : Prop := a.1 < b.1 ∨ a.1 = b.1 ∧ a.2 ≤ b.2

instance : DecidableRel dueBefore := fun _ _ => inferInstanceAs (Decidable (_ ∨ _))

namespace PublicationTable

def new (limit perSource : ℕ) : PublicationTable where
  entries := ∅
  bySource := ∅
  ready := []
  readySet := []
  deadlines := []
  nextId := 1
  limit := limit
  perSource := perSource
  ticketTotal := 0
  ticketCounts := ∅
  tickets := ∅
  snapshotEntries := 0

variable (t : PublicationTable)

def queueOf (source : ActorRef) : List ℕ := (t.bySource.lookup source).getD []

/-- Take one ticket of the quota; the caller receives the first handle. -/
def reserve (source : ActorRef) (staged : Bool) : Except Error ℕ × PublicationTable :=
  if u64Max ≤ t.nextId then (.error .limitExceeded, t)
  else if t.limit ≤ t.ticketTotal ∨ t.perSource ≤ (t.ticketCounts.lookup source).getD 0 then
    (.error .queueFull, t)
  else
    let status := if staged then PublicationStatus.staged else .queued
    (.ok t.nextId,
      { t with
        ticketTotal := t.ticketTotal + 1
        ticketCounts :=
          AList.insert source ((t.ticketCounts.lookup source).getD 0 + 1) t.ticketCounts
        tickets := AList.insert t.nextId ⟨source, status, 1⟩ t.tickets
        nextId := t.nextId + 1 })

/-- `TicketPermit::drop` -/
def releasePermit (id : ℕ) : PublicationTable :=
  match t.tickets.lookup id with
  | none => t
  | some ticket =>
    let count := (t.ticketCounts.lookup ticket.source).getD 0 - 1
    { t with
      tickets := t.tickets.erase id
      ticketTotal := t.ticketTotal - 1
      ticketCounts :=
        if count = 0 then t.ticketCounts.erase ticket.source
        else AList.insert ticket.source count t.ticketCounts }

def setStatus (id : ℕ) (status : PublicationStatus) : PublicationTable :=
  match t.tickets.lookup id with
  | none => t
  | some ticket => { t with tickets := AList.insert id { ticket with status } t.tickets }

/-- The table drops its own clone of a ticket. -/
def settle (id : ℕ) : PublicationTable :=
  match t.tickets.lookup id with
  | some ⟨_, _, 0⟩ => t.releasePermit id
  | _ => t

/-- A caller clones a handle it holds. -/
def cloneHandle (id : ℕ) : PublicationTable :=
  match t.tickets.lookup id with
  | some ⟨source, status, handles + 1⟩ =>
    { t with tickets := AList.insert id ⟨source, status, handles + 2⟩ t.tickets }
  | _ => t

/-- A caller drops one handle; the last owner of the ticket returns the permit. -/
def dropHandle (id : ℕ) : PublicationTable :=
  match t.tickets.lookup id with
  | some ⟨source, status, handles + 1⟩ =>
    let t := { t with tickets := AList.insert id ⟨source, status, handles⟩ t.tickets }
    if handles = 0 ∧ (t.entries.lookup id).isNone then t.releasePermit id else t
  | _ => t

/-- Is the oldest publication of the source routable? -/
def routable (source : ActorRef) : Bool :=
  match (t.queueOf source).head? with
  | none => false
  | some id =>
    match t.entries.lookup id with
    | none => false
    | some publication => !publication.staged

def readySource (source : ActorRef) : PublicationTable :=
  if t.routable source ∧ source ∉ t.readySet then
    { t with readySet := source :: t.readySet, ready := t.ready ++ [source] }
  else t

def addDeadline (publication : Publication) : PublicationTable :=
  match publication.stored.options.deadline with
  | none => t
  | some deadline => { t with deadlines := (deadline, publication.ticket) :: t.deadlines }

def insert (publication : Publication) : PublicationTable :=
  let id := publication.ticket
  let source := publication.source
  let t := t.addDeadline publication
  let t := { t with bySource := AList.insert source (t.queueOf source ++ [id]) t.bySource }
  let t := { t with entries := AList.insert id publication t.entries }
  t.readySource source

def dropDeadline (publication : Publication) : PublicationTable :=
  match publication.stored.options.deadline with
  | none => t
  | some deadline => { t with deadlines := t.deadlines.erase (deadline, publication.ticket) }

def dropSnapshot (publication : Publication) : PublicationTable :=
  match publication.routes with
  | none => t
  | some routes => { t with snapshotEntries := t.snapshotEntries - routes.length }

/-- Take an identity out of its source's queue, and the source out with its last one. -/
def dropQueued (source : ActorRef) (id : ℕ) : PublicationTable :=
  match t.bySource.lookup source with
  | none => t
  | some queue =>
    let queue := queue.filter (· ≠ id)
    if queue = [] then { t with bySource := t.bySource.erase source }
    else { t with bySource := AList.insert source queue t.bySource }

def unready (source : ActorRef) : PublicationTable :=
  if source ∈ t.readySet then
    { t with
      readySet := t.readySet.erase source
      ready := t.ready.filter (· ≠ source) }
  else t

def removeIndexes (publication : Publication) : PublicationTable :=
  let source := publication.source
  let t := (t.dropDeadline publication).dropSnapshot publication
  ((t.dropQueued source publication.ticket).unready source).readySource source

def pendingFor (source : ActorRef) : ℕ := (t.queueOf source).length

def lastIssued : ℕ := t.nextId - 1

def pending : ℕ := t.entries.keys.length

def retained : ℕ := t.ticketTotal - t.pending

/-- The due part of the deadline set, in its order. -/
def due (now : Instant) : List ℕ :=
  ((t.deadlines.filter (·.1 ≤ now)).insertionSort dueBefore).map Prod.snd

end PublicationTable

end Actorplane
