import Mathlib.Tactic

/-!
# Identities, limits, payloads and message metadata

The plain data of the runtime core. Identities and counters are natural numbers;
where the code checks for exhaustion the bound `u64Max` appears in the check.
Instants are nanoseconds on the monotonic clock.
-/

namespace Actorplane

abbrev Instant := ℕ

def u64Max : ℕ := 2 ^ 64 - 1

def u32Max : ℕ := 2 ^ 32 - 1

structure ActorRef where
  world : ℕ
  slot : ℕ
  generation : ℕ
  deriving DecidableEq, Repr

inductive EndpointKind
  | native
  | python
  deriving DecidableEq, Repr

inductive Lifecycle
  | starting
  | active
  | quiescing
  | stopping
  | stopped
  deriving DecidableEq, Repr

inductive Error
  | queueFull
  | budgetExceeded
  | actorNotReady
  | actorStopped
  | staleReference
  | crossWorld
  | limitExceeded
  | invalidConfig
  | notFound
  | duplicateSubscription
  | schemaMismatch
  | invalidPort
  | interfaceMismatch
  | invalidMetadata
  | deadlineExpired
  deriving DecidableEq, Repr

structure Config where
  maxActors : ℕ := 1024
  mailboxCapacity : ℕ := 64
  mailboxBytes : ℕ := 2 ^ 20
  nativePayloadBudget : ℕ := 16 * 2 ^ 20
  maxSubscriptions : ℕ := 4096
  maxEventBytes : ℕ := 2 ^ 20
  maxOperations : ℕ := 1024
  diagnosticCapacity : ℕ := 1024
  maxServices : ℕ := 64
  maxServiceLeases : ℕ := 1024
  maxLeasesPerActor : ℕ := 16
  maxPublications : ℕ := 256
  maxPublicationsPerSource : ℕ := 32
  maxPublicationFanout : ℕ := 4096
  maxRoutingSnapshotEntries : ℕ := 16384
  routingBatchSize : ℕ := 32
  deriving DecidableEq, Repr

/-- The limits accepted by `World::with_clock` and `OperationTable::new`. -/
def Config.Valid (cfg : Config) : Prop :=
  cfg.maxActors ≠ 0 ∧ cfg.maxActors ≤ u32Max ∧ cfg.mailboxCapacity ≠ 0 ∧
    cfg.mailboxBytes ≠ 0 ∧ cfg.nativePayloadBudget ≠ 0 ∧ cfg.maxEventBytes ≠ 0 ∧
    cfg.maxOperations ≠ 0 ∧ cfg.maxOperations ≤ u32Max ∧
    cfg.maxServices ≤ 4096 ∧ cfg.maxServiceLeases ≤ 65536 ∧ cfg.maxLeasesPerActor ≤ 1024 ∧
    (1 ≤ cfg.maxPublications ∧ cfg.maxPublications ≤ 65536) ∧
    (1 ≤ cfg.maxPublicationsPerSource ∧
      cfg.maxPublicationsPerSource ≤ cfg.maxPublications) ∧
    (1 ≤ cfg.maxPublicationFanout ∧ cfg.maxPublicationFanout ≤ 65536) ∧
    (1 ≤ cfg.maxRoutingSnapshotEntries ∧ cfg.maxRoutingSnapshotEntries ≤ 1048576) ∧
    (1 ≤ cfg.routingBatchSize ∧ cfg.routingBatchSize ≤ 4096)

instance (cfg : Config) : Decidable cfg.Valid := by
  unfold Config.Valid
  infer_instance

/-! ## Payloads and metadata -/

structure StructuredRecord where
  world : ℕ
  schema : ℕ
  bytes : List UInt8
  deriving DecidableEq, Repr

inductive Payload
  | pulse (value : ℤ)
  | countSnapshot (count : ℕ) (total : ℤ)
  | record (schema : ℕ) (integers : List ℤ) (capacity : ℕ)
  | structured (record : StructuredRecord)
  deriving DecidableEq, Repr

/-- A record is charged for the capacity of its vector, not for its length. -/
def Payload.bytes : Payload → ℕ
  | .pulse _ => 8
  | .countSnapshot _ _ => 16
  | .record _ _ capacity => 4 + capacity * 8
  | .structured r => 4 + r.bytes.length

structure TraceContext where
  traceId : List UInt8
  spanId : List UInt8
  sampled : Bool
  baggage : List (String × String)
  deriving DecidableEq, Repr

def TraceContext.chargedBytes (t : TraceContext) : ℕ :=
  24 + 1 + (t.baggage.map fun kv => kv.1.utf8ByteSize + kv.2.utf8ByteSize).sum

structure MessageOptions where
  source : Option ActorRef := none
  deadline : Option Instant := none
  correlationId : Option ℕ := none
  causationId : Option ℕ := none
  trace : Option TraceContext := none
  deriving DecidableEq, Repr

def MessageOptions.validate (o : MessageOptions) : Except Error Unit :=
  if o.correlationId = some 0 ∨ o.causationId = some 0 then .error .invalidMetadata else .ok ()

def MessageOptions.chargedBytes (o : MessageOptions) : ℕ :=
  match o.trace with
  | none => 0
  | some t => t.chargedBytes

inductive SchemaKind
  | pulse
  | countSnapshot
  | record
  | structured
  deriving DecidableEq, Repr

structure SchemaIdentity where
  kind : SchemaKind
  id : ℕ
  version : ℕ
  deriving DecidableEq, Repr

structure PortRef where
  owner : ActorRef
  index : ℕ
  deriving DecidableEq, Repr

structure Envelope where
  eventId : ℕ
  schema : SchemaIdentity
  source : Option ActorRef
  destination : ActorRef
  dispatcher : Option PortRef
  destinationPort : Option PortRef
  owner : ActorRef
  enqueuedAt : Instant
  deadline : Option Instant
  correlationId : Option ℕ
  causationId : Option ℕ
  trace : Option TraceContext
  deriving DecidableEq, Repr

def Envelope.childOptions (e : Envelope) (source : ActorRef) : MessageOptions :=
  { source := some source
    deadline := e.deadline
    correlationId := some (e.correlationId.getD e.eventId)
    causationId := some e.eventId
    trace := e.trace }

/-- The earlier of two optional deadlines. -/
def earlierDeadline : Option Instant → Option Instant → Option Instant
  | some a, some b => some (min a b)
  | a, b => a.or b

/-- A payload behind a reference count. `allocation` tells one `Arc` from another: it is the
number of the reservation that paid for it. -/
structure Stored where
  allocation : ℕ
  payload : Payload
  options : MessageOptions
  dispatcher : Option PortRef
  bytes : ℕ
  deriving DecidableEq, Repr

structure HeldPayload where
  stored : Stored
  world : ℕ
  envelope : Option Envelope
  deriving DecidableEq, Repr

/-! ## Component contracts -/

inductive PayloadType
  | pulse
  | countSnapshot
  | structured (schema : ℕ)
  deriving DecidableEq, Repr

def PayloadType.accepts : PayloadType → Payload → Bool
  | .pulse, .pulse _ => true
  | .countSnapshot, .countSnapshot _ _ => true
  | .structured id, .structured r => id = r.schema
  | _, _ => false

inductive PortDirection
  | input
  | output
  deriving DecidableEq, Repr

structure PortSpec where
  name : String
  direction : PortDirection
  schema : PayloadType
  deriving DecidableEq, Repr

structure InterfaceSpec where
  name : String
  version : ℕ
  ports : List PortSpec
  deriving DecidableEq, Repr

structure ComponentDescriptor where
  name : String
  version : ℕ
  ports : List PortSpec
  interfaces : List InterfaceSpec
  deriving DecidableEq, Repr

/-- Index of the first input port that accepts the payload. -/
def ComponentDescriptor.inputFor (d : ComponentDescriptor) (p : Payload) : Option ℕ :=
  d.ports.findIdx? fun port => port.direction = .input && port.schema.accepts p

/-! ## Failure records -/

inductive FailurePhase
  | construction
  | configure
  | start
  | handler
  | stop
  | supervisor
  deriving DecidableEq, Repr

inductive FailureAction
  | stopActor
  | stopWorld
  | continue
  deriving DecidableEq, Repr

structure OperationId where
  world : ℕ
  slot : ℕ
  generation : ℕ
  deriving DecidableEq, Repr

structure FailureRecord where
  sequence : ℕ
  actor : ActorRef
  eventId : Option ℕ
  schema : Option ℕ
  operation : Option OperationId
  phase : FailurePhase
  action : FailureAction
  deriving DecidableEq, Repr

structure Notification where
  failure : FailureRecord
  coalesced : ℕ
  deriving DecidableEq, Repr

/-- Replace the retained failure by a later one. -/
def keepLatest (current candidate : Option FailureRecord) : Option FailureRecord :=
  match candidate with
  | none => current
  | some c =>
    match current with
    | none => some c
    | some old => if old.sequence < c.sequence then some c else current

structure Metrics where
  publicationSubmitted : ℕ := 0
  publicationAdmitted : ℕ := 0
  publicationRejected : ℕ := 0
  publicationCompleted : ℕ := 0
  publicationCancelled : ℕ := 0
  publicationExpired : ℕ := 0
  publicationFailed : ℕ := 0
  submitted : ℕ := 0
  admitted : ℕ := 0
  rejected : ℕ := 0
  started : ℕ := 0
  completed : ℕ := 0
  failed : ℕ := 0
  cancelled : ℕ := 0
  discarded : ℕ := 0
  expired : ℕ := 0
  drainTimeouts : ℕ := 0
  operationCompleted : ℕ := 0
  operationTimedOut : ℕ := 0
  operationCancelled : ℕ := 0
  operationLateResults : ℕ := 0
  failures : ℕ := 0
  notificationsCoalesced : ℕ := 0
  notificationsDelivered : ℕ := 0
  notificationsDiscarded : ℕ := 0
  deriving DecidableEq, Repr

end Actorplane
