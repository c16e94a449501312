import Actorplane.Model.Ingress

/-!
# Routes, publications and routing turns
-/

namespace Actorplane

namespace World

variable (w : World)

/-! ## Routes -/

/-- Allocate a route identity and insert the route. -/
def insertRoute (route : Sub) (st : State) : ℕ × State :=
  let id := st.nextSub
  let st := { st with nextSub := st.nextSub + 1, subs := st.subs.insert id route }
  (id, w.markRouteActivityLocked route st)

def mayConnect (state : Lifecycle) : Bool := state = .starting ∨ state = .active

def subscribable (source target : ActorRef) (st : State) : Except Error Unit := do
  let s ← w.checkRef source st
  let t ← w.checkRef target st
  if !mayConnect s.state || !mayConnect t.state then throw .actorStopped
  if w.cfg.maxSubscriptions ≤ st.subs.activeLen then throw .limitExceeded
  if st.subs.sourceTargetExists source target then throw .duplicateSubscription

def subscribe (source target : ActorRef) (st : State) : Except Error ℕ × State :=
  match w.subscribable source target st with
  | .error e => (.error e, st)
  | .ok _ =>
    let (id, st) := w.insertRoute ⟨source, source, target, none, none⟩ st
    (.ok id, st.touchActivity)

def unsubscribe (id : ℕ) (st : State) : Except Error Unit × State :=
  match st.subs.remove id with
  | (none, _) => (.error .notFound, st)
  | (some route, subs) =>
    (.ok (), (w.markRouteActivityLocked route { st with subs := subs }).touchActivity)

def connectable (r : ActorRef) (st : State) : Except Error Unit := do
  let execution ← w.executionStateLocked r st
  if !mayConnect execution then throw .actorStopped

def linkable (owner : ActorRef) (source target : PortRef) (st : State) : Except Error Unit := do
  w.connectable owner st
  w.connectable source.owner st
  w.connectable target.owner st
  let src ← w.portLocked source st
  let dst ← w.portLocked target st
  if src.direction ≠ .output ∨ dst.direction ≠ .input then throw .invalidPort
  if src.schema ≠ dst.schema then throw .schemaMismatch
  if w.cfg.maxSubscriptions ≤ st.subs.activeLen then throw .limitExceeded
  if st.subs.typedDuplicate source target then throw .duplicateSubscription

def link (owner : ActorRef) (source target : PortRef) (st : State) : Except Error ℕ × State :=
  match w.linkable owner source target st with
  | .error e => (.error e, st.touchActivity)
  | .ok _ =>
    let route : Sub := ⟨owner, source.owner, target.owner, some source.index, some target.index⟩
    let (id, st) := w.insertRoute route st
    (.ok id, st.touchActivity)

/-! ## Component registration -/

def validName (name : String) : Bool := 0 < name.utf8ByteSize ∧ name.utf8ByteSize ≤ 128

def maxPorts : ℕ := 64

def maxInterfaces : ℕ := 16

def maxWorldInterfaces : ℕ := 1024

/-- The loop of `validate_ports`, with the names and input schemas seen so far. -/
def validatePortList (st : State) (names : List String) (inputs : List PayloadType) :
    List PortSpec → Except Error Unit
  | [] => .ok ()
  | port :: ports =>
    if !validName port.name || port.name ∈ names then .error .invalidPort
    else if port.direction = .input ∧ port.schema ∈ inputs then .error .invalidPort
    else
      let known :=
        match port.schema with
        | .structured id => (st.schemaVersion id).isSome
        | _ => true
      if !known then .error .schemaMismatch
      else
        let inputs := if port.direction = .input then port.schema :: inputs else inputs
        validatePortList st (port.name :: names) inputs ports

def validatePorts (ports : List PortSpec) (st : State) : Except Error Unit :=
  if maxPorts < ports.length then .error .limitExceeded else validatePortList st [] [] ports

def portBefore (a b : PortSpec) : Prop := a.name ≤ b.name

instance : DecidableRel portBefore := fun a b => inferInstanceAs (Decidable (a.name ≤ b.name))

/-- The loop over the declared interfaces; returns the identities new to the World. -/
def newInterfaces (ports : List PortSpec) (st : State)
    (incoming : Assoc (String × ℕ) InterfaceSpec) (identities : List (String × ℕ)) :
    List InterfaceSpec → Except Error (Assoc (String × ℕ) InterfaceSpec)
  | [] => .ok incoming
  | interface :: rest => do
    if !validName interface.name || interface.version = 0 then throw .interfaceMismatch
    validatePorts interface.ports st
    if interface.ports.any fun port => port ∉ ports then throw .interfaceMismatch
    let key := (interface.name, interface.version)
    if key ∈ identities then throw .interfaceMismatch
    let normalized := { interface with ports := interface.ports.insertionSort portBefore }
    match st.interfaces.lookup key with
    | some prior =>
      if prior ≠ normalized then throw .interfaceMismatch
      newInterfaces ports st incoming (key :: identities) rest
    | none =>
      if key ∈ incoming then throw .interfaceMismatch
      newInterfaces ports st (AList.insert key normalized incoming) (key :: identities) rest

def registrable (owner : ActorRef) (descriptor : ComponentDescriptor) (st : State) :
    Except Error (Assoc (String × ℕ) InterfaceSpec) := do
  let a ← w.checkRef owner st
  if st.closed || a.state ≠ .starting || a.component.isSome then throw .actorNotReady
  let execution ← w.executionStateLocked owner st
  if !mayConnect execution then throw .actorStopped
  if !validName descriptor.name || descriptor.version = 0 ||
      maxInterfaces < descriptor.interfaces.length then
    throw .invalidConfig
  validatePorts descriptor.ports st
  let incoming ← newInterfaces descriptor.ports st ∅ [] descriptor.interfaces
  if maxWorldInterfaces < st.interfaces.keys.length + incoming.keys.length then
    throw .limitExceeded
  return incoming

def registerComponent (owner : ActorRef) (descriptor : ComponentDescriptor) (st : State) :
    Except Error (List PortRef) × State :=
  match w.registrable owner descriptor st with
  | .error e => (.error e, st)
  | .ok incoming =>
    let st := { st with
      interfaces := incoming.entries.foldl
        (fun (m : Assoc (String × ℕ) InterfaceSpec)
          (e : Sigma fun _ : String × ℕ => InterfaceSpec) => AList.insert e.1 e.2 m)
        st.interfaces }
    let st := st.modifyActor owner fun a => { a with component := some descriptor }
    (.ok ((List.range descriptor.ports.length).map fun index => ⟨owner, index⟩), st)

/-! ## Publication ingress -/

/-- Push a staged output below its actor's startup limits. -/
def stageOutput (source : ActorRef) (port : ℕ) (stored : Stored) (ticket : ℕ) (st : State) :
    Except Error Unit × State :=
  match w.checkRef source st with
  | .error e => (.error e, st)
  | .ok a =>
    if w.cfg.mailboxCapacity ≤ a.staged.length ∨
        w.cfg.mailboxBytes - a.stagedBytes < stored.bytes then
      (.error .queueFull, st)
    else
      let st := st.modifyActor source fun a =>
        { a with
          stagedBytes := a.stagedBytes + stored.bytes
          deadlines := a.deadlines.add stored.options.deadline
          staged := a.staged ++ [⟨port, stored, ticket⟩] }
      let st := refreshEarliest source st
      (.ok (), { st with stagedActors := AList.insert source.slot source st.stagedActors })

/-- A ticket whose submission failed is dropped with its only handle. -/
def abandonTicket (ticket : ℕ) (st : State) : State :=
  { st with publications := st.publications.dropHandle ticket }

def acceptPublication (publication : Publication) (st : State) : State :=
  let st := { st with publications := st.publications.insert publication }
  let st := st.addMetrics fun m => { m with publicationAdmitted := m.publicationAdmitted + 1 }
  let st := w.markActivityDependentsLocked publication.source st
  let st := if publication.staged then st else st.markRoutingLocked
  st.note (.accepted publication.ticket publication.source)

def submitPublicationLocked (source : ActorRef) (sourcePort : Option ℕ) (payload : Payload)
    (options : MessageOptions) (completion : Bool) (st : State) : Except Error ℕ × State :=
  match w.executionStateLocked source st with
  | .error e => (.error e, st)
  | .ok execution =>
    let staged : Bool := execution = .starting
    match st.publications.reserve source staged with
    | (.error e, _) => (.error e, st)
    | (.ok ticket, publications) =>
      let st := { st with publications := publications }
      let dispatcher := sourcePort.map fun index => (⟨source, index⟩ : PortRef)
      match w.makeStoredWith payload options dispatcher st with
      | (.error e, st) => (.error e, abandonTicket ticket st)
      | (.ok stored, st) =>
        let (result, st) : Except Error Unit × State :=
          if staged then
            match sourcePort with
            | none => (.ok (), st.poison)
            | some port => w.stageOutput source port stored ticket st
          else (.ok (), st)
        match result with
        | .error e => (.error e, abandonTicket ticket st)
        | .ok _ =>
          let publication : Publication :=
            { source := source
              sourcePort := sourcePort
              stored := stored
              staged := staged
              completion := completion
              ticket := ticket
              routes := none
              cursor := 0
              report := { staged := if staged then 1 else 0 } }
          (.ok ticket, w.acceptPublication publication st)

/-- Climb from `current` to `owner`; failing that, the root is foreign. -/
def ownedBy (st : State) (owner : ActorRef) : ℕ → ActorRef → Except Error Unit
  | 0, _ => .error .staleReference
  | fuel + 1, current =>
    if current = owner then .ok ()
    else match w.checkRef current st with
      | .error e => .error e
      | .ok a =>
        match a.parent with
        | none => .error .crossWorld
        | some parent => ownedBy st owner fuel parent

/-- The checks of `publish_internal` before and after it reads the clock. -/
def publishMetadata (source : ActorRef) (options : MessageOptions) (st : State) :
    Except Error MessageOptions := do
  if options.source.any fun owner => owner ≠ source then throw .invalidMetadata
  let options := { options with source := some source }
  w.validateSource options st true
  return options

def publishable (source : ActorRef) (p : Payload) (completionOwner : Option ActorRef)
    (sourcePort : Option ℕ) (st : State) : Except Error Unit := do
  match p with
  | .structured record => if record.world ≠ w.id then throw .crossWorld
  | _ => pure ()
  match sourcePort with
  | none => pure ()
  | some index =>
    let spec ← w.portLocked ⟨source, index⟩ st
    if spec.direction ≠ .output || !spec.schema.accepts p then throw .schemaMismatch
  let execution ← w.executionStateLocked source st
  let staged := execution = .starting ∧ completionOwner.isNone ∧ sourcePort.isSome
  if ¬staged ∧ execution ≠ .active ∧ ¬(completionOwner.isSome ∧ execution = .quiescing) then
    throw .actorNotReady
  match completionOwner with
  | none => return
  | some owner =>
    let ownerState ← w.executionStateLocked owner st
    if ownerState ≠ .active ∧ ownerState ≠ .quiescing then throw .actorStopped
    w.ownedBy st owner walkFuel source

def publishLocked (source : ActorRef) (p : Payload) (completionOwner : Option ActorRef)
    (sourcePort : Option ℕ) (options : MessageOptions) (st : State) : Except Error ℕ × State :=
  match w.publishMetadata source options st with
  | .error e => (.error e, st)
  | .ok options =>
    let now := w.now st
    let st := st.tick
    match checkDeadline options now with
    | .error e => (.error e, st)
    | .ok _ =>
      match w.publishable source p completionOwner sourcePort st with
      | .error e => (.error e, st)
      | .ok _ =>
        w.submitPublicationLocked source sourcePort p options completionOwner.isSome st

def publishInternal (source : ActorRef) (p : Payload) (completionOwner : Option ActorRef)
    (sourcePort : Option ℕ) (options : MessageOptions) (st : State) : Except Error ℕ × State :=
  let st := st.addMetrics fun m =>
    { m with
      publicationSubmitted := m.publicationSubmitted + 1
      submitted := m.submitted + 1 }
  match w.publishLocked source p completionOwner sourcePort options st with
  | (.ok ticket, st) => (.ok ticket, st.touchActivity)
  | (.error e, st) =>
    let st := st.addMetrics fun m => { m with publicationRejected := m.publicationRejected + 1 }
    (.error e, (reject e source st).touchActivity)

def publishWith (source : ActorRef) (p : Payload) (options : MessageOptions) (st : State) :
    Except Error ℕ × State :=
  w.publishInternal source p none none options st

def publishPortWith (source : PortRef) (p : Payload) (options : MessageOptions) (st : State) :
    Except Error ℕ × State :=
  w.publishInternal source.owner p none (some source.index) options st

/-! ## Staged outputs -/

def enqueuePublicationLocked (id : ℕ) (st : State) : State :=
  match st.publications.entries.lookup id with
  | none => st
  | some publication =>
    let t := st.publications
    let t := { t with entries := AList.insert id { publication with staged := false } t.entries }
    let t := t.setStatus id .queued
    let st := { st with publications := t.readySource publication.source }
    (w.markActivityDependentsLocked publication.source st).markRoutingLocked

/-- Release the staged outputs of one effectively active source. -/
def flushSource (st : State) (source : ActorRef) : State :=
  match w.checkRef source st with
  | .error _ => st.poison
  | .ok a =>
    let st := st.modifyActor source fun a => { a with staged := [], stagedBytes := 0 }
    let st := expireStagedDeadlines source a.staged st
    let st := refreshEarliest source st
    let st := { st with stagedActors := st.stagedActors.erase source.slot }
    let st := a.staged.foldl (fun st s => w.enqueuePublicationLocked s.publication st) st
    w.markActivityDependentsLocked source st

def flushStagedLocked (st : State) : State :=
  let now := w.now st
  let st := w.expireEventsLocked now st.tick
  let ready := (st.stagedActors.ordered (· ≤ ·)).filter fun source =>
    match w.executionStateLocked source st with
    | .ok .active => true
    | _ => false
  ready.foldl w.flushSource st

/-! ## Routing turns -/

/-- The route and lifecycle checks before one destination attempt. -/
def routeFence (publication : Publication) (route : ℕ) (target : ActorRef) (st : State) :
    Except Error Unit := do
  match st.subs.get route with
  | none => throw .notFound
  | some sub =>
    match ← w.executionStateLocked sub.owner st with
    | .active => pure ()
    | .quiescing => pure ()
    | .starting => throw .actorNotReady
    | _ => throw .actorStopped
  let a ← w.checkRef target st
  let execution ← w.executionStateLocked target st
  let late : Bool :=
    match a.publicationCutoff with
    | none => true
    | some cutoff => cutoff < publication.ticket
  if execution = .quiescing ∧ !publication.completion ∧ late then throw .actorStopped

/-- One destination attempt and its place in the publication's report. -/
def attemptRoute (publication : Publication) (route : ℕ) (target : ActorRef) (st : State) :
    Publication × State :=
  let publication := { publication with cursor := publication.cursor + 1 }
  let report := publication.report
  let (result, st) : Except Error ℕ × State :=
    match w.routeFence publication route target st with
    | .error e => (.error e, st)
    | .ok _ => w.admitMessage target publication.stored (some route) true none st
  let attempted := Event.attempted publication.ticket publication.source route target
  match result with
  | .ok event =>
    ({ publication with report := { report with admitted := report.admitted + 1 } },
      st.note (attempted (some event)))
  | .error e =>
    ({ publication with report := { report with rejected := report.rejected + 1 } },
      (reject e target st).note (attempted none))

/-- The destination loop of one turn: at most `batch` attempts on the remaining routes. -/
def attemptRoutes : ℕ → List (ℕ × ActorRef) → Publication → State →
    Option PublicationOutcome × ℕ × Publication × State
  | 0, _, publication, st => (none, 0, publication, st)
  | _, [], publication, st => (none, 0, publication, st)
  | batch + 1, (route, target) :: rest, publication, st =>
    let now := w.now st
    let st := st.tick
    if isDue now publication.stored.options.deadline then (some .expired, 0, publication, st)
    else
      let (publication, st) := w.attemptRoute publication route target st
      let (outcome, destinations, publication, st) := attemptRoutes batch rest publication st
      (outcome, destinations + 1, publication, st)

/-- The routes a first turn captures. -/
def snapshotRoutes (publication : Publication) (st : State) : List (ℕ × ActorRef) :=
  (st.subs.sourceIds publication.source publication.sourcePort).filterMap fun id =>
    (st.subs.get id).map fun route => (id, route.target)

/-- Capture the snapshot within the fan-out and aggregate limits. -/
def captureRoutes (publication : Publication) (st : State) :
    Except PublicationOutcome Publication × State :=
  match publication.routes with
  | some _ => (.ok publication, st)
  | none =>
    let count := st.subs.sourceCount publication.source publication.sourcePort
    if w.cfg.maxPublicationFanout < count then (.error .fanoutLimit, st)
    else if w.cfg.maxRoutingSnapshotEntries - st.publications.snapshotEntries < count then
      (.error .snapshotFull, st)
    else
      let routes := snapshotRoutes publication st
      let st := { st with
        publications :=
          { st.publications with
            snapshotEntries := st.publications.snapshotEntries + count } }
      (.ok
        { publication with
          routes := some routes
          report := { publication.report with matched := count } },
        st.note (.captured publication.ticket routes))

/-- May the turn go on: source effectively running and deadline not reached? -/
def turnOutcome (publication : Publication) (st : State) : Option PublicationOutcome × State :=
  if !w.runs publication.source st then (some .cancelled, st)
  else
    let now := w.now st
    let st := st.tick
    (if isDue now publication.stored.options.deadline then some .expired else none, st)

/-- A turn on the publication taken out of the table, up to its outcome. -/
def routeTurn (publication : Publication) (st : State) :
    Option PublicationOutcome × ℕ × Publication × State :=
  match w.turnOutcome publication st with
  | (some outcome, st) => (some outcome, 0, publication, st)
  | (none, st) =>
    match w.captureRoutes publication st with
    | (.error outcome, st) => (some outcome, 0, publication, st)
    | (.ok publication, st) =>
      let routes := publication.routes.getD []
      let (outcome, destinations, publication, st) :=
        w.attemptRoutes w.cfg.routingBatchSize (routes.drop publication.cursor) publication st
      let outcome :=
        if outcome = none ∧ publication.cursor = routes.length then some .routed else outcome
      (outcome, destinations, publication, st)

/-- Put an unfinished publication back behind the other ready sources. -/
def requeuePublication (publication : Publication) (st : State) : State :=
  let t := st.publications.setStatus publication.ticket (.routing publication.report)
  let t := { t with entries := AList.insert publication.ticket publication t.entries }
  { st with publications := t.readySource publication.source }

def routeBatch (st : State) : RoutingProgress × State :=
  match st.publications.ready with
  | [] => (⟨0, 0, st.publications.pending, false⟩, st.touchActivity)
  | source :: ready =>
    let st := { st with
      publications :=
        { st.publications with
          ready := ready
          readySet := st.publications.readySet.erase source } }
    match (st.publications.queueOf source).head? with
    | none => (⟨0, 0, st.publications.pending, false⟩, st.poison)
    | some id =>
      match st.publications.entries.lookup id with
      | none => (⟨0, 0, st.publications.pending, false⟩, st.poison)
      | some publication =>
        let st := { st with
          publications :=
            { st.publications with entries := st.publications.entries.erase id } }
        let (outcome, destinations, publication, st) := w.routeTurn publication st
        let st :=
          match outcome with
          | some outcome => w.finishPublicationLocked publication outcome st
          | none => requeuePublication publication st
        let progress : RoutingProgress :=
          ⟨destinations, if outcome.isSome then 1 else 0, st.publications.pending,
            st.publications.ready ≠ []⟩
        (progress, st.touchActivity)

end World

end Actorplane
