import Actorplane.Core.Tree
import Actorplane.Operations.Batches

/-!
# Moves of the core

Every call on a World changes the core by a sequence of the moves below. A move
carries what an observer of the run may ask about it; its rule states the facts
under which the code makes it. Fencing moves only take work away.
-/

namespace Actorplane

/-- The outcome is a result. -/
def TerminalOutcome.isCompleted : TerminalOutcome → Bool
  | .completed _ => true
  | _ => false

inductive Move
  | conclude (publication : ℕ) (source : ActorRef) (outcome : PublicationOutcome)
  | lose (actor : ActorRef) (lost : List ℕ)
  | cancel (actor : ActorRef) (mail : Mail) (reason : CancelReason)
  | silence (actor : ActorRef)
  | endOperation (operation : OperationId) (outcome : TerminalOutcome)
  | expireOperations (now : Instant)
  | unroute (route : ℕ) (sub : Sub)
  | unserve
  | undrain (slot : ℕ)
  | timeout (root : ActorRef)
  | stop (actor : ActorRef)
  | finalize (actor : ActorRef)
  | allocate (actor : ActorRef)
  | activate (actor : ActorRef)
  | lease (scope : ActorRef)
  | quiesce (root : ActorRef)
  | setDeadline (root : ActorRef)
  | hold (actor : ActorRef)
  | burn
  | enqueue (actor : ActorRef) (mail : Mail)
  | start (actor : ActorRef) (mail : Mail)
  | finish (lease : DeliveryLease) (success : Bool)
  | abandon (lease : DeliveryLease)
  | reserve (operation : OperationId)
  | release (operation : OperationId)
  | context (operation : OperationId)
  | take (operation : OperationId)
  | ticket
  | submit
  | refuse
  | accept (publication : Publication)
  | flush (actor : ActorRef) (publication : ℕ)
  | capture (publication : ℕ) (routes : List (ℕ × ActorRef)) (entries : ℕ)
  | attempt (publication : ℕ) (route : ℕ) (target : ActorRef) (delivery : Option Mail)
  | requeue (publication : ℕ)
  | connect (route : Sub)
  | serve

/-- The moves that fencing and expiry are made of. -/
def Move.fencing : Move → Prop
  | .conclude _ _ _ | .lose _ _ | .cancel _ _ _ | .silence _ | .endOperation _ _
  | .expireOperations _ | .unroute _ _ | .unserve | .undrain _ | .timeout _ | .stop _
  | .finalize _ => True
  | _ => False

/-! ## What the moves compute -/

namespace Ledger

variable (l : Ledger)

def cancel (reason : CancelReason) : Ledger :=
  { l with
    cancelled := l.cancelled + 1
    discarded := l.discarded + (if reason = .expired ∨ reason = .fenced then 1 else 0)
    expired := l.expired + (if reason = .expired then 1 else 0) }

/-- Staged outputs are lost by expiry or by a stop. -/
def lose (lost : ℕ) (late : Bool) : Ledger :=
  { l with
    cancelled := l.cancelled + lost
    discarded := l.discarded + lost
    expired := l.expired + (if late then lost else 0) }

def endOperation (outcome : TerminalOutcome) : Ledger :=
  match outcome with
  | .completed _ | .failed _ _ => { l with operationCompleted := l.operationCompleted + 1 }
  | .timedOut => { l with operationTimedOut := l.operationTimedOut + 1 }
  | _ => { l with operationCancelled := l.operationCancelled + 1 }

def conclude (outcome : PublicationOutcome) : Ledger :=
  match outcome with
  | .routed => { l with publicationCompleted := l.publicationCompleted + 1 }
  | .expired => { l with publicationExpired := l.publicationExpired + 1 }
  | .fanoutLimit | .snapshotFull => { l with publicationFailed := l.publicationFailed + 1 }
  | _ => { l with publicationCancelled := l.publicationCancelled + 1 }

end Ledger

namespace PublicationTable

variable (t : PublicationTable)

/-- Take a publication out of the table and settle its ticket. -/
def conclude (p : Publication) (outcome : PublicationOutcome) : PublicationTable :=
  let t := ({ t with entries := t.entries.erase p.ticket } : PublicationTable).removeIndexes p
  (t.setStatus p.ticket (.terminal (p.closing outcome))).settle p.ticket

/-- Release a staged publication. -/
def unstage (id : ℕ) : PublicationTable :=
  match t.entries.lookup id with
  | none => t
  | some p =>
    (({ t with entries := AList.insert id { p with staged := false } t.entries } :
      PublicationTable).setStatus id .queued).readySource p.source

def update (p : Publication) : PublicationTable :=
  { t with entries := AList.insert p.ticket p t.entries }

/-- Put the publication of the first ready source back behind the other sources. -/
def requeue (p : Publication) : PublicationTable :=
  (({ t with
      ready := t.ready.tail
      readySet := t.readySet.erase p.source } : PublicationTable).setStatus p.ticket
        (.routing p.report)).readySource p.source

end PublicationTable

def RouteTable.snapshot (t : RouteTable) (source : ActorRef) (port : Option ℕ) :
    List (ℕ × ActorRef) :=
  (t.sourceIds source port).filterMap fun id => (t.get id).map fun route => (id, route.target)

/-- Leases, registered targets and scopes only disappear. -/
structure Registry.Shrinks (s s' : Registry) : Prop where
  targets : ∀ service name, s'.byTarget.lookup service = some name →
    s.byTarget.lookup service = some name
  leases : ∀ scope lease, s'.leases.lookup scope = some lease → s.leases.lookup scope = some lease
  records : ∀ name record, s'.records.lookup name = some record →
    ∃ old, s.records.lookup name = some old ∧ record.service = old.service ∧
      ∀ scope ∈ record.scopes, scope ∈ old.scopes

/-- The attempted destination in the report. -/
def Publication.attempted (p : Publication) (delivered : Bool) : Publication :=
  { p with
    cursor := p.cursor + 1
    report :=
      if delivered then { p.report with admitted := p.report.admitted + 1 }
      else { p.report with rejected := p.report.rejected + 1 } }

/-- The snapshot was captured, and every route of it attempted. -/
def Publication.Exhausted (p : Publication) : Prop :=
  ∃ routes, p.routes = some routes ∧ p.cursor = routes.length

namespace Core

variable (c : Core)

/-- Put a delivery at the end of a mailbox under a new event identity. -/
def enqueue (r : ActorRef) (b : Box) (m : Mail) : Core :=
  { c with
    boxes := c.boxes.set r.slot { b with queue := b.queue ++ [m] }
    ledger := { c.ledger with admitted := c.ledger.admitted + 1 }
    nextEvent := m.eventId + 1
    mail := c.mail ++ [.admitted m.eventId r] }

/-- An outstanding delivery lease ends. -/
def release (l : DeliveryLease) (b : Box) : Core :=
  { c with
    boxes := c.boxes.set l.target.slot { b with inFlight := false }
    leases := c.leases.erase l }

end Core

/-! ## The rules -/

/-- The actor may take part in an operation or receive a delivery. -/
def Running (nodes : List Node) (r : ActorRef) : Prop :=
  ∃ n, Seated nodes r n ∧ (n.state = .active ∨ n.state = .quiescing)

/-- The actor is neither stopping nor stopped. -/
def Present (nodes : List Node) (r : ActorRef) : Prop :=
  ∃ n, Seated nodes r n ∧ n.state ≠ .stopping ∧ n.state ≠ .stopped

/-- The actor is neither stopping nor stopped, and the root is on its ownership path. -/
def Covered (nodes : List Node) (root : ActorRef) (n : Node) : Prop :=
  n.state ≠ .stopping ∧ n.state ≠ .stopped ∧ ∃ l, Lineage nodes n.reference l ∧ root ∈ l

def Node.quiesce (lastIssued : ℕ) (root : ActorRef) (deadline : Instant) (n : Node) : Node :=
  { n with
    state := .quiescing
    drainRoot := some root
    drainDeadline := if n.reference = root then some deadline else none
    cutoff := some (n.cutoff.getD lastIssued) }

/-- Everything the root covers becomes quiescing under it, and nothing else changes. -/
structure Quiesced (lastIssued : ℕ) (root : ActorRef) (deadline : Instant)
    (nodes nodes' : List Node) : Prop where
  length_eq : nodes'.length = nodes.length
  node : ∀ (i : ℕ) (n n' : Node), nodes[i]? = some n → nodes'[i]? = some n' →
    n' = n ∧ ¬Covered nodes root n ∨
      Covered nodes root n ∧ n' = n.quiesce lastIssued root deadline ∧
        ∀ t, n.drainDeadline = some t → deadline ≤ t

/-- What happens to the blockers of one actor and to the leases on them. -/
inductive Core.Grips (c : Core) (r : ActorRef) (h : Hold) :
    Hold → List FailureLease → List ActorRef → List ActorRef → Prop
  | failure (l : FailureLease) : l.supervisor = r → h.control = false →
      (∀ b, c.boxes[r.slot]? = some b → b.inFlight = false) →
      c.Grips r h { h with control := true } (l :: c.failures) c.callbacks c.tasks
  | callback : h.control = false → (∀ b, c.boxes[r.slot]? = some b → b.inFlight = false) →
      c.Grips r h { h with control := true } c.failures (r :: c.callbacks) c.tasks
  | endFailure (l : FailureLease) : l ∈ c.failures → l.supervisor = r →
      c.Grips r h { h with control := false } (c.failures.erase l) c.callbacks c.tasks
  | endCallback : r ∈ c.callbacks →
      c.Grips r h { h with control := false } c.failures (c.callbacks.erase r) c.tasks
  | task : c.Grips r h { h with tasks := h.tasks + 1 } c.failures c.callbacks (r :: c.tasks)
  | endTask : r ∈ c.tasks →
      c.Grips r h { h with tasks := h.tasks - 1 } c.failures c.callbacks (c.tasks.erase r)
  | notify : c.Grips r h { h with notified := true } c.failures c.callbacks c.tasks
  | cleanup : c.Grips r h { h with pythonDone := true } c.failures c.callbacks c.tasks

inductive Step (world : ℕ) : Core → Move → Core → Prop
  | conclude {c : Core} {id : ℕ} {outcome : PublicationOutcome} (p : Publication) :
      c.publications.entries.lookup id = some p → (outcome = .routed → p.Exhausted) →
      Step world c (.conclude id p.source outcome)
        { c with
          publications := c.publications.conclude p outcome
          ledger := c.ledger.conclude outcome
          published := c.published ++ [.concluded p.ticket (p.closing outcome)] }
  | lose {c : Core} {r : ActorRef} {lost : List ℕ} (b : Box) (n : Node)
      (kept : List StagedOutput)
      (late : Bool) :
      Seated c.nodes r n → c.boxes[r.slot]? = some b →
      kept.Sublist b.staged → (∀ s ∈ b.staged, s ∈ kept ∨ s.publication ∈ lost) →
      (∀ id ∈ lost, c.publications.entries.lookup id = none) →
      Step world c (.lose r lost)
        { c with
          boxes := c.boxes.set r.slot { b with staged := kept }
          ledger := c.ledger.lose lost.length late
          mail := c.mail ++ lost.map .stagedLost }
  | cancel {c : Core} {r : ActorRef} {m : Mail} {reason : CancelReason} (b : Box) (n : Node)
      (before after : List Mail) :
      Seated c.nodes r n → c.boxes[r.slot]? = some b → b.queue = before ++ m :: after →
      reason ≠ .abandoned →
      Step world c (.cancel r m reason)
        { c with
          boxes := c.boxes.set r.slot { b with queue := before ++ after }
          ledger := c.ledger.cancel reason
          mail := c.mail ++ [.cancelled m.eventId r reason] }
  | silence {c : Core} {r : ActorRef} (h : Hold) :
      c.holds[r.slot]? = some h →
      Step world c (.silence r) (c.setHold r.slot { h with notified := false })
  | endOperation {c : Core} {id : OperationId} {outcome : TerminalOutcome} :
      c.operations.isPending id = true → c.operations.foreign outcome = false →
      Step world c (.endOperation id outcome)
        { c with
          operations := (c.operations.complete id outcome).2
          ledger := c.ledger.endOperation outcome }
  | expireOperations {c : Core} {now : Instant} :
      Step world c (.expireOperations now)
        { c with
          operations := (c.operations.expireIds now).2
          ledger :=
            { c.ledger with
              operationTimedOut :=
                c.ledger.operationTimedOut + (c.operations.expireIds now).1.length } }
  | unroute {c : Core} {id : ℕ} (route : Sub) :
      c.subs.get id = some route →
      Step world c (.unroute id route) { c with subs := c.subs.erase id route }
  | unserve {c : Core} (services : Registry) :
      c.services.Shrinks services → Step world c .unserve { c with services := services }
  | undrain {c : Core} {slot : ℕ} :
      Step world c (.undrain slot) { c with drainRoots := c.drainRoots.erase slot }
  | timeout {c : Core} {root : ActorRef} :
      Step world c (.timeout root) { c with life := c.life ++ [.drainTimeout root] }
  | stop {c : Core} {r : ActorRef} (n : Node) (b : Box) :
      Seated c.nodes r n → n.state ≠ .stopped → c.boxes[r.slot]? = some b → b.queue = [] →
      b.staged = [] →
      (∀ q ∈ n.children, ∀ k, Seated c.nodes q k → k.state = .stopping ∨ k.state = .stopped) →
      (∀ id p, c.operations.locate id = .ok (.pending p) → p.owner ≠ r ∧ p.target ≠ r) →
      c.publications.queueOf r = [] →
      (∀ id route, c.subs.get id = some route →
        route.owner ≠ r ∧ route.source ≠ r ∧ route.target ≠ r) →
      c.services.byTarget.lookup r = none → c.services.leases.lookup r = none →
      c.drainRoots.lookup r.slot = none →
      Step world c (.stop r) (c.setNode r.slot { n with state := .stopping })
  | finalize {c : Core} {r : ActorRef} (n : Node) (b : Box) (h : Hold) :
      Seated c.nodes r n → n.state = .stopping → c.boxes[r.slot]? = some b →
      b.inFlight = false → c.holds[r.slot]? = some h → h = ⟨false, false, 0, true⟩ →
      (∀ q ∈ n.children, ∀ k, Seated c.nodes q k → k.state = .stopped) →
      Step world c (.finalize r)
        { c with
          nodes := retireNodes c.nodes n
          live := c.live - 1
          free := r.slot :: c.free
          operations := (c.operations.retireOwner r).2
          life := c.life ++ [.finalized r] }
  | allocate {c : Core} {r : ActorRef} (parent : Option ActorRef) (pythonDone : Bool) :
      FreshSlot c.nodes c.free r → r.world = world →
      (∀ p, parent = some p → ∃ m l, Seated c.nodes p m ∧
        (m.state = .starting ∨ m.state = .active) ∧ Lineage c.nodes p l ∧ l.length ≤ 128) →
      Step world c (.allocate r)
        { c with
          nodes := allocNodes c.nodes r parent
          boxes := put c.boxes r.slot ⟨[], [], false⟩
          holds := put c.holds r.slot ⟨false, false, 0, pythonDone⟩
          live := c.live + 1
          free := c.free.tail }
  | activate {c : Core} {r : ActorRef} (n : Node) :
      Seated c.nodes r n → n.state = .starting →
      (∀ p m, n.parent = some p → Seated c.nodes p m → m.state = .starting ∨ m.state = .active) →
      Step world c (.activate r)
        { c with
          nodes := c.nodes.set r.slot { n with state := .active }
          life := c.life ++ [.activated r] }
  | lease {c : Core} {scope : ActorRef} (n : Node) (services : Registry) (lease : ServiceLease) :
      Seated c.nodes scope n → n.state = .starting → n.parent = some lease.owner →
      (∀ m, Seated c.nodes lease.owner m → m.state = .starting ∨ m.state = .active) →
      services.byTarget = c.services.byTarget →
      services.leases = AList.insert scope lease c.services.leases →
      (∀ name record, services.records.lookup name = some record →
        ∃ old, c.services.records.lookup name = some old ∧ record.service = old.service ∧
          ∀ x ∈ record.scopes, x ∈ old.scopes ∨ x = scope) →
      Step world c (.lease scope)
        { c with
          nodes := c.nodes.set scope.slot { n with state := .active }
          services := services
          life := c.life ++ [.leased scope] }
  | quiesce {c : Core} {root : ActorRef} (n : Node) (deadline : Instant) (nodes : List Node)
      (drainRoots : Assoc ℕ ActorRef) :
      Seated c.nodes root n → n.state = .active →
      Quiesced c.publications.lastIssued root deadline c.nodes nodes →
      drainRoots.lookup root.slot = some root →
      (∀ i m, c.nodes[i]? = some m → i ≠ root.slot → Covered c.nodes root m →
        drainRoots.lookup i = none) →
      (∀ i m, c.nodes[i]? = some m → i ≠ root.slot → ¬Covered c.nodes root m →
        drainRoots.lookup i = c.drainRoots.lookup i) →
      (∀ i, c.nodes[i]? = none → drainRoots.lookup i = c.drainRoots.lookup i) →
      Step world c (.quiesce root) { c with nodes := nodes, drainRoots := drainRoots }
  | setDeadline {c : Core} {root : ActorRef} (n : Node) (deadline : Instant) :
      Seated c.nodes root n → (∀ old, n.drainDeadline = some old → deadline ≤ old) →
      Step world c (.setDeadline root)
        (c.setNode root.slot { n with drainDeadline := some deadline })
  | hold {c : Core} {r : ActorRef} (n : Node) (h h' : Hold) (failures : List FailureLease)
      (callbacks tasks : List ActorRef) :
      Seated c.nodes r n → n.state ≠ .stopped → c.holds[r.slot]? = some h →
      c.Grips r h h' failures callbacks tasks →
      Step world c (.hold r)
        { c.setHold r.slot h' with
          failures := failures
          callbacks := callbacks
          tasks := tasks }
  | burn {c : Core} : Step world c .burn { c with nextEvent := c.nextEvent + 1 }
  | enqueue {c : Core} {r : ActorRef} {m : Mail} (b : Box) :
      Running c.nodes r → c.boxes[r.slot]? = some b → m.eventId = c.nextEvent →
      Step world c (.enqueue r m) (c.enqueue r b m)
  | start {c : Core} {r : ActorRef} {m : Mail} (b : Box) (rest : List Mail) (l : DeliveryLease) :
      Running c.nodes r → c.boxes[r.slot]? = some b → b.queue = m :: rest → b.inFlight = false →
      (∀ h, c.holds[r.slot]? = some h → h.control = false) → l.target = r →
      l.delivery.mail = m →
      Step world c (.start r m)
        { c with
          boxes := c.boxes.set r.slot { b with queue := rest, inFlight := true }
          ledger := { c.ledger with started := c.ledger.started + 1 }
          leases := l :: c.leases
          mail := c.mail ++ [.claimed m.eventId r] }
  | finish {c : Core} {l : DeliveryLease} {success : Bool} (b : Box) :
      l ∈ c.leases → c.boxes[l.target.slot]? = some b →
      Step world c (.finish l success)
        { c.release l b with
          ledger :=
            { c.ledger with
              completed := c.ledger.completed + (if success then 1 else 0)
              failed := c.ledger.failed + (if success then 0 else 1) }
          mail := c.mail ++ [.finished l.delivery.eventId success] }
  | abandon {c : Core} {l : DeliveryLease} (b : Box) :
      l ∈ c.leases → c.boxes[l.target.slot]? = some b →
      Step world c (.abandon l)
        { c.release l b with
          ledger := c.ledger.cancel .abandoned
          mail := c.mail ++ [.cancelled l.delivery.eventId l.target .abandoned] }
  | reserve {c : Core} {id : OperationId} (owner target : ActorRef) (deadline : Instant) :
      Running c.nodes owner → Running c.nodes target →
      (c.operations.reserve owner target deadline).1 = .ok id →
      Step world c (.reserve id)
        { c with operations := (c.operations.reserve owner target deadline).2 }
  | release {c : Core} {id : OperationId} :
      c.operations.isPending id = true →
      Step world c (.release id) { c with operations := (c.operations.releaseUnsubmitted id).2 }
  | context {c : Core} {id : OperationId} (held : HeldPayload) :
      Step world c (.context id) { c with operations := (c.operations.setContext id held).2 }
  | take {c : Core} {id : OperationId} :
      Step world c (.take id) { c with operations := (c.operations.take id).2 }
  | reserveTicket {c : Core} (source : ActorRef) (staged : Bool) :
      Step world c .ticket
        { c with publications := (c.publications.reserve source staged).2 }
  | cloneHandle {c : Core} (id : ℕ) :
      Step world c .ticket { c with publications := c.publications.cloneHandle id }
  | dropHandle {c : Core} (id : ℕ) :
      Step world c .ticket { c with publications := c.publications.dropHandle id }
  | submit {c : Core} :
      Step world c .submit
        { c with
          ledger :=
            { c.ledger with publicationSubmitted := c.ledger.publicationSubmitted + 1 } }
  | refuse {c : Core} :
      Step world c .refuse
        { c with
          ledger := { c.ledger with publicationRejected := c.ledger.publicationRejected + 1 } }
  | accept {c : Core} {p : Publication} (n : Node) (b : Box) (s : StagedOutput) :
      (c.publications.reserve p.source p.staged).1 = .ok p.ticket →
      p.routes = none → p.cursor = 0 → p.report.admitted = 0 → p.report.rejected = 0 →
      p.report.matched = 0 →
      Seated c.nodes p.source n → n.state ≠ .stopping → n.state ≠ .stopped →
      c.boxes[p.source.slot]? = some b →
      (p.staged = true → s.publication = p.ticket ∧ s.stored = p.stored ∧
        p.sourcePort = some s.port) →
      Step world c (.accept p)
        { c with
          publications := (c.publications.reserve p.source p.staged).2.insert p
          boxes :=
            if p.staged then
              c.boxes.set p.source.slot { b with staged := b.staged ++ [s] }
            else c.boxes
          ledger :=
            { c.ledger with publicationAdmitted := c.ledger.publicationAdmitted + 1 }
          published := c.published ++ [.accepted p.ticket p.source] }
  | flush {c : Core} {r : ActorRef} {id : ℕ} (n : Node) (b : Box) (s : StagedOutput)
      (rest : List StagedOutput) :
      Seated c.nodes r n → c.boxes[r.slot]? = some b → b.staged = s :: rest →
      s.publication = id →
      Step world c (.flush r id)
        { c with
          boxes := c.boxes.set r.slot { b with staged := rest }
          publications := c.publications.unstage id }
  | capture {c : Core} {id : ℕ} {routes : List (ℕ × ActorRef)} (p : Publication) :
      c.publications.entries.lookup id = some p →
      c.publications.routable p.source = true →
      c.publications.queueOf p.source = id :: (c.publications.queueOf p.source).tail →
      p.routes = none → routes = c.subs.snapshot p.source p.sourcePort →
      Step world c (.capture id routes (c.publications.snapshotEntries + routes.length))
        { c with
          publications :=
            { c.publications.update
                { p with
                  routes := some routes
                  report := { p.report with matched := routes.length } } with
              snapshotEntries := c.publications.snapshotEntries + routes.length }
          published := c.published ++ [.captured p.ticket routes] }
  | attempt {c : Core} {id route : ℕ} {target : ActorRef} (p : Publication)
      (routes : List (ℕ × ActorRef)) :
      c.publications.entries.lookup id = some p →
      c.publications.queueOf p.source = id :: (c.publications.queueOf p.source).tail →
      p.routes = some routes → routes[p.cursor]? = some (route, target) →
      Step world c (.attempt id route target none)
        { c with
          publications := c.publications.update (p.attempted false)
          published := c.published ++ [.attempted p.ticket p.source route target none] }
  | deliver {c : Core} {id route : ℕ} {target : ActorRef} {m : Mail} (p : Publication)
      (routes : List (ℕ × ActorRef)) (b : Box) (sub : Sub) :
      c.publications.entries.lookup id = some p →
      c.publications.queueOf p.source = id :: (c.publications.queueOf p.source).tail →
      p.routes = some routes → routes[p.cursor]? = some (route, target) →
      c.subs.get route = some sub → Running c.nodes target →
      c.boxes[target.slot]? = some b → m.eventId = c.nextEvent → m.subscription = some route →
      Step world c (.attempt id route target (some m))
        { c.enqueue target b m with
          publications := c.publications.update (p.attempted true)
          published :=
            c.published ++ [.attempted p.ticket p.source route target (some m.eventId)] }
  | requeue {c : Core} {id : ℕ} (p : Publication) (ready : List ActorRef) :
      c.publications.entries.lookup id = some p →
      c.publications.queueOf p.source = id :: (c.publications.queueOf p.source).tail →
      c.publications.ready = p.source :: ready →
      Step world c (.requeue id) { c with publications := c.publications.requeue p }
  | connect {c : Core} {route : Sub} :
      Present c.nodes route.owner → Present c.nodes route.source →
      Present c.nodes route.target →
      Step world c (.connect route)
        { c with subs := c.subs.insert c.nextSub route, nextSub := c.nextSub + 1 }
  | serve {c : Core} (services : Registry) (target : ActorRef) (name : String) (n : Node) :
      Seated c.nodes target n → n.parent = none → n.state ≠ .stopping → n.state ≠ .stopped →
      services.byTarget = AList.insert target name c.services.byTarget →
      services.leases = c.services.leases →
      (∀ name' record, services.records.lookup name' = some record →
        record.scopes = [] ∨ c.services.records.lookup name' = some record) →
      Step world c .serve { c with services := services }

/-! ## Sequences of moves -/

/-- Finitely many moves, each of an allowed kind. -/
inductive Steps (world : ℕ) (P : Move → Prop) : Core → Core → Prop
  | refl (c : Core) : Steps world P c c
  | tail {c c' c'' : Core} {m : Move} :
      Steps world P c c' → P m → Step world c' m c'' → Steps world P c c''

namespace Steps

variable {world : ℕ} {P Q : Move → Prop} {c c' c'' : Core} {m : Move}

theorem single (hP : P m) (h : Step world c m c') : Steps world P c c' := .tail (.refl c) hP h

theorem trans (h : Steps world P c c') (h' : Steps world P c' c'') : Steps world P c c'' := by
  induction h' with
  | refl => exact h
  | tail _ hP hs ih => exact .tail ih hP hs

theorem mono (hPQ : ∀ m, P m → Q m) (h : Steps world P c c') : Steps world Q c c' := by
  induction h with
  | refl => exact .refl _
  | tail _ hP hs ih => exact .tail ih (hPQ _ hP) hs

/-- An invariant of the allowed moves. -/
theorem invariant {I : Core → Prop} (hI : ∀ c m c', I c → P m → Step world c m c' → I c')
    (h : Steps world P c c') (h0 : I c) : I c' := by
  induction h with
  | refl => exact h0
  | tail _ hP hs ih => exact hI _ _ _ ih hP hs

/-- A preorder respected by the allowed moves from states of an invariant. -/
theorem relates {I : Core → Prop} {R : Core → Core → Prop} (hrefl : ∀ c, R c c)
    (htrans : ∀ c c' c'', R c c' → R c' c'' → R c c'')
    (hI : ∀ c m c', I c → P m → Step world c m c' → I c' ∧ R c c')
    (h : Steps world P c c') (h0 : I c) : R c c' := by
  have key : I c' ∧ R c c' := by
    induction h with
    | refl => exact ⟨h0, hrefl _⟩
    | tail _ hP hs ih =>
      obtain ⟨hi, hr⟩ := hI _ _ _ ih.1 hP hs
      exact ⟨hi, htrans _ _ _ ih.2 hr⟩
  exact key.2

end Steps

end Actorplane
