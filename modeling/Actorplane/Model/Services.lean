import Actorplane.Model.Handles

/-!
# Services and scoped leases

A registered service is an active native root. A lease is an active child scope
of its holder; releasing the lease stops the scope. `service_request` checks its
lease under one lock and sends the request under another, so the checked call is
kept in between.
-/

namespace Actorplane

def contractMatches (descriptor : ComponentDescriptor) (required : InterfaceSpec) : Bool :=
  World.validName required.name && required.version ≠ 0 && required.ports.length ≤ 64 &&
    decide (required.ports.map (·.name)).Nodup &&
    descriptor.interfaces.any fun contract =>
      contract.name = required.name && contract.version = required.version &&
        contract.ports.length = required.ports.length &&
        required.ports.all fun port => port ∈ contract.ports

def contractsEqual (left right : InterfaceSpec) : Bool :=
  left.name = right.name && left.version = right.version &&
    left.ports.length = right.ports.length &&
    decide (left.ports.map (·.name)).Nodup && decide (right.ports.map (·.name)).Nodup &&
    right.ports.all fun port => port ∈ left.ports

/-- Index of the port with a name and direction. -/
def ComponentDescriptor.portNamed (d : ComponentDescriptor) (name : String)
    (direction : PortDirection) : Option ℕ :=
  d.ports.findIdx? fun spec => spec.name = name && spec.direction = direction

namespace World

variable (w : World)

def leaseForeign (lease : ServiceLease) : Bool :=
  lease.scope.world ≠ w.id || lease.owner.world ≠ w.id || lease.service.world ≠ w.id

def validateLease (lease : ServiceLease) (st : State) : Except Error ServiceRecord := do
  if w.leaseForeign lease then throw .crossWorld
  if st.services.leases.lookup lease.scope ≠ some lease then throw .staleReference
  let scope ← w.executionStateLocked lease.scope st
  if !mayConnect scope then throw .actorStopped
  let service ← w.executionStateLocked lease.service st
  if service ≠ .active then throw .actorStopped
  match st.services.byTarget.lookup lease.service with
  | none => throw .staleReference
  | some name =>
    match st.services.records.lookup name with
    | none => throw .staleReference
    | some record =>
      if lease.scope ∉ record.scopes then throw .staleReference
      return record

/-- The port of the service's own descriptor that carries a contract port. -/
def servicePort (record : ServiceRecord) (name : String) (direction : PortDirection)
    (st : State) : Except Error (PortRef × PortSpec) := do
  let service ← w.checkRef record.service st
  match service.component with
  | none => throw .interfaceMismatch
  | some descriptor =>
    match descriptor.portNamed name direction with
    | none => throw .invalidPort
    | some index =>
      match descriptor.ports[index]? with
      | none => throw .invalidPort
      | some spec => return (⟨record.service, index⟩, spec)

/-- The locked part of `service_request`. -/
def serviceRequestable (lease : ServiceLease) (port : String) (payload : Payload) (st : State) :
    Except Error PortRef := do
  let record ← w.validateLease lease st
  let scope ← w.executionStateLocked lease.scope st
  if scope ≠ .active then throw .actorNotReady
  match record.contract.ports.find? fun spec => spec.name = port && spec.direction = .input with
  | none => throw .invalidPort
  | some declared => if !declared.schema.accepts payload then throw .schemaMismatch
  let (portRef, spec) ← w.servicePort record port .input st
  if !spec.schema.accepts payload then throw .schemaMismatch
  return portRef

/-- The checks of `service_request`; a checked call waits for its second lock. -/
def serviceRequest (lease : ServiceLease) (port : String) (payload : Payload)
    (deadline : Instant) (options : MessageOptions) (st : State) : Except Error Unit × State :=
  match w.serviceRequestable lease port payload st with
  | .error e => (.error e, st)
  | .ok portRef =>
    let call : ServiceCall := ⟨lease.scope, lease.service, payload, deadline, options, portRef⟩
    (.ok (), { st with serviceCalls := call :: st.serviceCalls })

/-- The rest of `service_request`. -/
def resumeRequest (call : ServiceCall) (st : State) : Except Error OperationId × State :=
  w.requestWithPort call.owner call.target call.payload call.deadline call.options
    (some call.port) { st with serviceCalls := st.serviceCalls.erase call }

def serviceRegistrable (name : String) (target : ActorRef) (required : InterfaceSpec)
    (st : State) : Except Error Unit := do
  if !validName name then throw .invalidConfig
  if (st.services.records.lookup name).isSome || (st.services.byTarget.lookup target).isSome then
    throw .invalidConfig
  if w.cfg.maxServices ≤ st.services.records.keys.length then throw .limitExceeded
  let a ← w.checkRef target st
  if a.kind ≠ .native || a.parent.isSome || a.state ≠ .active then throw .interfaceMismatch
  match a.component with
  | none => throw .interfaceMismatch
  | some descriptor => if !contractMatches descriptor required then throw .interfaceMismatch

def registerService (name : String) (target : ActorRef) (required : InterfaceSpec)
    (st : State) : Except Error Unit × State :=
  match w.serviceRegistrable name target required st with
  | .error e => (.error e, st)
  | .ok _ =>
    let record : ServiceRecord := ⟨name, target, required, []⟩
    let st := { st with
      services :=
        { st.services with
          byTarget := AList.insert target name st.services.byTarget
          records := AList.insert name record st.services.records } }
    (.ok (), (w.markActivityDependentsLocked target st).touchActivity)

/-- The checks of `acquire_service`, in order; the record that will hold the scope. -/
def acquirable (owner : ActorRef) (name : String) (required : InterfaceSpec)
    (expected : Option ActorRef) (st : State) : Except Error ServiceRecord := do
  if st.closed then throw .actorStopped
  if !validName name then throw .invalidConfig
  let execution ← w.executionStateLocked owner st
  if !mayConnect execution then throw .actorStopped
  match st.services.records.lookup name with
  | none => throw (if expected.isSome then .staleReference else .notFound)
  | some record =>
    if expected.any fun service => service ≠ record.service then throw .staleReference
    if !contractsEqual record.contract required then throw .interfaceMismatch
    let service ← w.checkRef record.service st
    if service.state ≠ .active then throw .actorStopped
    if w.cfg.maxServiceLeases ≤ st.services.leases.keys.length ||
        w.cfg.maxLeasesPerActor ≤ (st.services.byHolder.members owner).length then
      throw .limitExceeded
    return record

/-- Record a lease under its service and its holder. -/
def placeLease (name : String) (lease : ServiceLease) (st : State) : State :=
  match st.services.records.lookup name with
  | none => st.poison
  | some record =>
    { st with
      services :=
        { st.services with
          records :=
            AList.insert name { record with scopes := record.scopes.insert lease.scope }
              st.services.records
          leases := AList.insert lease.scope lease st.services.leases
          byHolder := st.services.byHolder.add lease.owner lease.scope } }

def acquireServiceLockedTarget (owner : ActorRef) (name : String) (required : InterfaceSpec)
    (expected : Option ActorRef) (st : State) : Except Error ServiceLease × State :=
  match w.acquirable owner name required expected st with
  | .error e => (.error e, st)
  | .ok record =>
    match w.allocateLocked .native (some owner) st with
    | (.error e, st) => (.error e, st)
    | (.ok scope, st) =>
      let st := st.modifyActor scope fun a => { a with state := .active }
      let st := w.refreshPythonReadyLocked scope st
      let lease : ServiceLease := ⟨scope, owner, record.service⟩
      let st := placeLease name lease st
      let st := w.markActivityDependentsLocked scope st
      let st := w.markActivityDependentsLocked record.service st
      (.ok lease, (st.note (.leased scope)).touchActivity)

def acquireService (owner : ActorRef) (name : String) (required : InterfaceSpec) (st : State) :
    Except Error ServiceLease × State :=
  w.acquireServiceLockedTarget owner name required none st

def acquireServiceFrom (owner : ActorRef) (name : String) (required : InterfaceSpec)
    (expected : ActorRef) (st : State) : Except Error ServiceLease × State :=
  if expected.world ≠ w.id then (.error .crossWorld, st)
  else w.acquireServiceLockedTarget owner name required (some expected) st

def releaseService (lease : ServiceLease) (st : State) : Except Error Bool × State :=
  if w.leaseForeign lease then (.error .crossWorld, st)
  else match st.services.leases.lookup lease.scope with
    | none => (.ok false, st)
    | some current =>
      if current ≠ lease then (.error .staleReference, st)
      else match w.stopLocked lease.scope st with
        | (.error e, st) => (.error e, st)
        | (.ok _, st) => (.ok true, st.touchActivity)

end World

end Actorplane
