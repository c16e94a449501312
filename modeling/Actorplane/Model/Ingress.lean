import Actorplane.Model.Lifecycle

/-!
# Admission, messages and requests

Every way into a mailbox ends in `admitMessage`, the `admit` of the source. Checks
that only read are computations in `Except`; the state they leave behind is the
state they were given.
-/

namespace Actorplane

/-- Change the last element of a list. -/
def mapLast {α : Type} (f : α → α) : List α → List α
  | [] => []
  | [a] => [f a]
  | a :: b :: l => a :: mapLast f (b :: l)

namespace World

variable (w : World)

/-- One successful or refused compare-and-exchange on the retained-byte counter. -/
def reserveBytes (n : ℕ) (st : State) : Except Error Unit × State :=
  let old := w.retained st.reservations
  let st := { st with reservations := st.reservations + 1 }
  if w.cfg.nativePayloadBudget - old < n then (.error .budgetExceeded, st) else (.ok (), st)

/-- The checks of `make_stored_with` before it reserves bytes; their charge. -/
def storedCharge (p : Payload) (options : MessageOptions) : Except Error ℕ := do
  options.validate
  if options.source.any fun source => source.world ≠ w.id then throw .crossWorld
  match p with
  | .structured record => if record.world ≠ w.id then throw .crossWorld
  | _ => pure ()
  let n := p.bytes + options.chargedBytes
  if w.cfg.maxEventBytes < n then throw .limitExceeded
  return n

def makeStoredWith (p : Payload) (options : MessageOptions) (dispatcher : Option PortRef)
    (st : State) : Except Error Stored × State :=
  match w.storedCharge p options with
  | .error e => (.error e, st)
  | .ok n =>
    match w.reserveBytes n st with
    | (.error e, st) => (.error e, st)
    | (.ok _, st) => (.ok ⟨st.reservations, p, options, dispatcher, n⟩, st)

def checkDeadline (options : MessageOptions) (now : Instant) : Except Error Unit :=
  if isDue now options.deadline then .error .deadlineExpired else .ok ()

def validateSource (options : MessageOptions) (st : State) (allowPending : Bool) :
    Except Error Unit := do
  options.validate
  match options.source with
  | none => return
  | some source =>
    match ← w.executionStateLocked source st with
    | .active => return
    | .starting => if allowPending then return else throw .actorNotReady
    | .quiescing => if allowPending then return else throw .actorStopped
    | _ => throw .actorStopped

def nextEventId (st : State) : Except Error ℕ × State :=
  if u64Max ≤ st.nextEvent then (.error .limitExceeded, st)
  else (.ok st.nextEvent, { st with nextEvent := st.nextEvent + 1 })

def schemaIdentity (p : Payload) (st : State) : Except Error SchemaIdentity :=
  match p with
  | .pulse _ => .ok ⟨.pulse, 0, 1⟩
  | .countSnapshot _ _ => .ok ⟨.countSnapshot, 0, 1⟩
  | .record schema _ _ => .ok ⟨.record, schema, 0⟩
  | .structured record =>
    match st.schemaVersion record.schema with
    | none => .error .schemaMismatch
    | some version => .ok ⟨.structured, record.schema, version⟩

def envelopeFor (target : ActorRef) (stored : Stored) (subscription : Option ℕ) (eventId : ℕ)
    (now : Instant) (st : State) : Except Error Envelope := do
  let actor ← w.checkRef target st
  let routed := (subscription.bind st.subs.get).bind (·.targetPort)
  let port := routed.or (actor.component.bind fun c => c.inputFor stored.payload)
  let schema ← schemaIdentity stored.payload st
  return {
    eventId := eventId
    schema := schema
    source := stored.options.source
    destination := target
    dispatcher := stored.dispatcher
    destinationPort := port.map fun index => ⟨target, index⟩
    owner := target
    enqueuedAt := now
    deadline := stored.options.deadline
    correlationId := stored.options.correlationId
    causationId := stored.options.causationId
    trace := stored.options.trace }

/-- The lifecycle, contract and capacity checks of `admitMessage`. -/
def admissible (r : ActorRef) (stored : Stored) (completion : Bool) (st : State) :
    Except Error Unit := do
  let execution ← w.executionStateLocked r st
  let a ← w.checkRef r st
  if execution ≠ .active ∧ ¬(completion ∧ execution = .quiescing) then
    throw (if execution = .starting ∨ a.state = .starting then .actorNotReady else .actorStopped)
  if a.component.any fun c => (c.inputFor stored.payload).isNone then throw .schemaMismatch
  if w.cfg.mailboxCapacity ≤ a.queue.length ∨
      w.cfg.mailboxBytes < a.queueBytes + stored.bytes then
    throw .queueFull

def enqueue (r : ActorRef) (d : Delivery) (st : State) : State :=
  let st := st.modifyActor r fun a =>
    { a with
      queueBytes := a.queueBytes + d.payload.bytes
      deadlines := a.deadlines.add d.envelope.deadline
      queue := a.queue ++ [d] }
  let st := refreshEarliest r st
  let st := w.refreshPythonReadyLocked r st
  let st := st.addMetrics fun m => { m with admitted := m.admitted + 1 }
  (w.markActivityDependentsLocked r st).note (.admitted d.eventId r)

def admitMessage (r : ActorRef) (stored : Stored) (sub : Option ℕ) (completion : Bool)
    (operation : Option OperationId) (st : State) : Except Error ℕ × State :=
  let now := w.now st
  let st := st.tick
  match checkDeadline stored.options now with
  | .error e => (.error e, st)
  | .ok _ =>
    match w.validateSource stored.options st completion with
    | .error e => (.error e, st)
    | .ok _ =>
      match nextEventId st with
      | (.error e, st) => (.error e, st)
      | (.ok id, st) =>
        match w.envelopeFor r stored sub id now st with
        | .error e => (.error e, st)
        | .ok envelope =>
          let envelope :=
            if operation.isSome ∧ envelope.correlationId.isNone then
              { envelope with correlationId := some id }
            else envelope
          match w.admissible r stored completion st with
          | .error e => (.error e, st)
          | .ok _ => (.ok id, w.enqueue r ⟨id, envelope, stored, sub, operation⟩ st)

def countSubmitted (st : State) : State :=
  st.addMetrics fun m => { m with submitted := m.submitted + 1 }

/-- Record a refused submission. -/
def refuse {α : Type} (error : Error) (actor : ActorRef) (st : State) : Except Error α × State :=
  (.error error, reject error actor st)

/-- Admit a plain message and account for a refusal. -/
def deliver (r : ActorRef) (stored : Stored) (st : State) : Except Error ℕ × State :=
  match w.admitMessage r stored none false none st with
  | (.ok id, st) => (.ok id, st.touchActivity)
  | (.error e, st) => refuse e r st

def sendWith (r : ActorRef) (p : Payload) (options : MessageOptions) (st : State) :
    Except Error ℕ × State :=
  let st := countSubmitted st
  match w.makeStoredWith p options none st with
  | (.error e, st) => refuse e r st
  | (.ok stored, st) => w.deliver r stored st

def sendHeld (r : ActorRef) (held : HeldPayload) (st : State) : Except Error ℕ × State :=
  let st := countSubmitted st
  if held.world ≠ w.id then refuse .crossWorld r st else w.deliver r held.stored st

def sendHeldFrom (owner target : ActorRef) (held : HeldPayload) (st : State) :
    Except Error ℕ × State :=
  let st := countSubmitted st
  if held.world ≠ w.id then refuse .crossWorld target st
  else match w.checkRef owner st with
    | .error e => refuse e owner st
    | .ok a =>
      if a.state ≠ .active then refuse .actorStopped owner st
      else match w.executionStateLocked owner st with
        | .error e => (.error e, st)
        | .ok .active => w.deliver target held.stored st
        | .ok _ => refuse .actorStopped owner st

/-- `hold_with`: retain a payload outside any mailbox. -/
def holdWith (p : Payload) (options : MessageOptions) (st : State) :
    Except Error HeldPayload × State :=
  if st.closed then (.error .actorStopped, st)
  else match w.validateSource options st true with
    | .error e => (.error e, st)
    | .ok _ =>
      let now := w.now st
      let st := st.tick
      match checkDeadline options now with
      | .error e => (.error e, st)
      | .ok _ =>
        match w.makeStoredWith p options none st with
        | (.error e, st) => (.error e, st)
        | (.ok stored, st) => (.ok ⟨stored, w.id, none⟩, st)

def portLocked (port : PortRef) (st : State) : Except Error PortSpec := do
  let a ← w.checkRef port.owner st
  match a.component.bind fun c => c.ports[port.index]? with
  | none => throw .invalidPort
  | some spec => return spec

/-- Address the delivery just admitted to a port. -/
def setDestinationPort (r : ActorRef) (port : PortRef) (st : State) : State :=
  st.modifyActor r fun a =>
    { a with
      queue := mapLast
        (fun d => { d with envelope := { d.envelope with destinationPort := some port } })
        a.queue }

def inputPort (port : PortRef) (payload : Payload) (st : State) : Except Error Unit := do
  let spec ← w.portLocked port st
  if spec.direction ≠ .input then throw .invalidPort
  if !spec.schema.accepts payload then throw .schemaMismatch

def sendPortWith (port : PortRef) (payload : Payload) (options : MessageOptions) (st : State) :
    Except Error ℕ × State :=
  let st := countSubmitted st
  let result : Except Error ℕ × State :=
    match w.inputPort port payload st with
    | .error e => (.error e, st)
    | .ok _ =>
      match w.makeStoredWith payload options none st with
      | (.error e, st) => (.error e, st)
      | (.ok stored, st) =>
        match w.admitMessage port.owner stored none false none st with
        | (.error e, st) => (.error e, st)
        | (.ok id, st) => (.ok id, setDestinationPort port.owner port st)
  match result with
  | (.error e, st) => (.error e, (reject e port.owner st).touchActivity)
  | (.ok id, st) => (.ok id, st.touchActivity)

/-! ## Requests -/

/-- Undo the reservation of a request whose admission failed. -/
def releaseOperation (id : OperationId) (st : State) : State :=
  { st with operations := (st.operations.releaseUnsubmitted id).2 }

/-- Store the admitted request's payload and envelope as the operation's context. -/
def holdContext (id : OperationId) (target : ActorRef) (stored : Stored) (st : State) :
    Except Error Unit × State :=
  match w.checkRef target st with
  | .error e => (.error e, st)
  | .ok a =>
    match a.queue.getLast? with
    | none => (.ok (), st.poison)
    | some d =>
      let (result, operations) :=
        st.operations.setContext id ⟨stored, w.id, some d.envelope⟩
      (result, { st with operations := operations })

def requestLocked (owner target : ActorRef) (payload : Payload) (deadline : Instant)
    (options : MessageOptions) (destinationPort : Option PortRef) (st : State) :
    Except Error OperationId × State :=
  match w.executionStateLocked owner st with
  | .error e => refuse e owner st
  | .ok ownerReady =>
    match w.executionStateLocked target st with
    | .error e => refuse e target st
    | .ok targetReady =>
      if ownerReady ≠ .active ∨ targetReady ≠ .active then refuse .actorNotReady target st
      else match st.operations.reserve owner target deadline with
        | (.error e, _) => refuse e owner st
        | (.ok id, operations) =>
          let st := { st with operations := operations }
          match w.makeStoredWith payload options none st with
          | (.error e, st) => refuse e target (releaseOperation id st)
          | (.ok stored, st) =>
            match w.admitMessage target stored none false (some id) st with
            | (.error e, st) => refuse e target (releaseOperation id st)
            | (.ok _, st) =>
              let st :=
                match destinationPort with
                | none => st
                | some port => setDestinationPort target port st
              match w.holdContext id target stored st with
              | (.error e, st) => (.error e, st)
              | (.ok _, st) => (.ok id, w.markActivityDependentsLocked owner st)

def requestWithPort (owner target : ActorRef) (payload : Payload) (deadline : Instant)
    (options : MessageOptions) (destinationPort : Option PortRef) (st : State) :
    Except Error OperationId × State :=
  if options.source.any fun source => source ≠ owner then
    (.error .invalidMetadata, st.touchActivity)
  else
    let deadline :=
      match options.deadline with
      | none => deadline
      | some other => min other deadline
    let options := { options with source := some owner, deadline := some deadline }
    let (result, st) :=
      w.requestLocked owner target payload deadline options destinationPort (countSubmitted st)
    (result, st.touchActivity)

def requestWith (owner target : ActorRef) (payload : Payload) (deadline : Instant)
    (options : MessageOptions) (st : State) : Except Error OperationId × State :=
  w.requestWithPort owner target payload deadline options none st

/-! ## Replies -/

def countLate (id : OperationId) (target : ActorRef) (st : State) : State :=
  (st.addMetrics fun m =>
    { m with operationLateResults := m.operationLateResults + 1 }).diagnostic
      .operationLateResult (some target) (some id)

/-- The metadata of a reply: inherited from the request, overridden by the options. -/
def replyOptions (pending : PendingOperation) (target : ActorRef)
    (options : Option MessageOptions) (st : State) : Except Error MessageOptions := do
  if pending.target ≠ target then throw .staleReference
  let owner ← w.executionStateLocked pending.owner st
  if owner ≠ .active ∧ owner ≠ .quiescing then throw .actorStopped
  let responder ← w.executionStateLocked target st
  if responder ≠ .active ∧ responder ≠ .quiescing then throw .actorStopped
  let inherited : MessageOptions :=
    match pending.context.bind (·.envelope) with
    | none => {}
    | some envelope => envelope.childOptions target
  match options with
  | none => return { inherited with source := some target }
  | some options =>
    options.validate
    if options.source.any fun source => source ≠ target then throw .invalidMetadata
    return {
      source := some target
      deadline := earlierDeadline inherited.deadline options.deadline
      correlationId := options.correlationId.or inherited.correlationId
      causationId := options.causationId.or inherited.causationId
      trace := options.trace.or inherited.trace }

/-- Offer a timeout as the operation's outcome. -/
def replyTimedOut (id : OperationId) (target : ActorRef) (st : State) :
    Except Error Bool × State :=
  match w.completeOperationLocked id .timedOut st with
  | (.error e, st) => (.error e, st)
  | (.ok won, st) =>
    (.ok false,
      if won then
        (st.addMetrics fun m =>
          { m with operationTimedOut := m.operationTimedOut + 1 }).diagnostic
            .operationTimedOut (some target) (some id)
      else st)

def countCompleted (st : State) : State :=
  st.addMetrics fun m => { m with operationCompleted := m.operationCompleted + 1 }

def replyTooLarge (id : OperationId) (st : State) : Except Error Bool × State :=
  let outcome := TerminalOutcome.failed .resultTooLarge
    "operation result exceeds configured budget"
  match w.completeOperationLocked id outcome st with
  | (.error e, st) => (.error e, st)
  | (.ok won, st) => (.ok won, if won then countCompleted st else st)

def replyCompleted (id : OperationId) (target : ActorRef) (result : HeldPayload) (st : State) :
    Except Error Bool × State :=
  match w.completeOperationLocked id (.completed result) st with
  | (.error e, st) => (.error e, st)
  | (.ok won, st) => (.ok won, if won then countCompleted st else countLate id target st)

/-- The part of a reply after its metadata is known. -/
def replyWith (id : OperationId) (owner target : ActorRef) (payload : Payload)
    (metadata : MessageOptions) (st : State) : Except Error Bool × State :=
  let now := w.now st
  let st := st.tick
  if isDue now metadata.deadline then w.replyTimedOut id target st
  else match w.makeStoredWith payload metadata none st with
    | (.error _, st) => w.replyTooLarge id st
    | (.ok stored, st) =>
      match nextEventId st with
      | (.error e, st) => (.error e, st)
      | (.ok eventId, st) =>
        let now := w.now st
        let st := st.tick
        match w.envelopeFor owner stored none eventId now st with
        | .error e => (.error e, st)
        | .ok envelope =>
          let now := w.now st
          let st := st.tick
          if isDue now stored.options.deadline then w.replyTimedOut id target st
          else w.replyCompleted id target ⟨stored, w.id, some envelope⟩ st

def completeOperationWith (id : OperationId) (target : ActorRef) (payload : Payload)
    (options : Option MessageOptions) (st : State) : Except Error Bool × State :=
  let now := w.now st
  let st := w.timeOutOperation id now (some target) st.tick
  let (result, st) : Except Error Bool × State :=
    match st.operations.status id with
    | .ok (.terminal _) | .error .staleReference => (.ok false, countLate id target st)
    | .error e => (.error e, st)
    | .ok (.pending pending) =>
      match w.replyOptions pending target options st with
      | .error e => (.error e, st)
      | .ok metadata => w.replyWith id pending.owner target payload metadata st
  (result, st.touchActivity)

def cancelOperation (id : OperationId) (st : State) : Except Error Bool × State :=
  match w.completeOperationLocked id .cancelled st with
  | (.error e, st) => (.error e, st.touchActivity)
  | (.ok won, st) =>
    let st :=
      if won then
        st.addMetrics fun m => { m with operationCancelled := m.operationCancelled + 1 }
      else st
    (.ok won, st.touchActivity)

def takeOperation (id : OperationId) (st : State) :
    Except Error (Option TerminalOutcome) × State :=
  match st.operations.participants id with
  | .error e => (.error e, st.touchActivity)
  | .ok (owner, _) =>
    let (result, operations) := st.operations.take id
    let st := { st with operations := operations }
    let st :=
      match result with
      | .ok (some _) => w.markActivityDependentsLocked owner st
      | _ => st
    (result, st.touchActivity)

end World

end Actorplane
