import Actorplane.Model.World

/-!
# The core of a World state

The part of the state that the ownership, delivery, routing and operation
invariants speak about. Actor records are split into three columns, the log into
the three histories that those invariants read. Byte counts, deadline indexes,
diagnostics, readiness and activity marks are left out: an operation that only
touches these does not change the core.
-/

namespace Actorplane

/-- Ownership and lifecycle of the actor in a slot. -/
structure Node where
  reference : ActorRef
  state : Lifecycle
  parent : Option ActorRef
  children : List ActorRef
  drainRoot : Option ActorRef
  drainDeadline : Option Instant
  cutoff : Option ℕ

/-- A delivery waiting in a mailbox. -/
structure Mail where
  eventId : ℕ
  deadline : Option Instant
  subscription : Option ℕ
  operation : Option OperationId
  deriving DecidableEq

structure Box where
  queue : List Mail
  staged : List StagedOutput
  inFlight : Bool

/-- What else keeps an actor from being finalized. -/
structure Hold where
  control : Bool
  notified : Bool
  tasks : ℕ
  pythonDone : Bool

structure Ledger where
  admitted : ℕ
  started : ℕ
  completed : ℕ
  failed : ℕ
  cancelled : ℕ
  discarded : ℕ
  expired : ℕ
  operationCompleted : ℕ
  operationTimedOut : ℕ
  operationCancelled : ℕ
  publicationSubmitted : ℕ
  publicationAdmitted : ℕ
  publicationRejected : ℕ
  publicationCompleted : ℕ
  publicationCancelled : ℕ
  publicationExpired : ℕ
  publicationFailed : ℕ

def Delivery.mail (d : Delivery) : Mail :=
  ⟨d.eventId, d.envelope.deadline, d.subscription, d.operation⟩

namespace Actor

variable (a : Actor)

def node : Node where
  reference := a.reference
  state := a.state
  parent := a.parent
  children := a.children
  drainRoot := a.drainRoot
  drainDeadline := a.drainDeadline
  cutoff := a.publicationCutoff

def box : Box where
  queue := a.queue.map Delivery.mail
  staged := a.staged
  inFlight := a.inFlight

def hold : Hold where
  control := a.controlInFlight
  notified := a.notification.isSome
  tasks := a.nativeTasks
  pythonDone := a.pythonDone

end Actor

def Metrics.ledger (m : Metrics) : Ledger where
  admitted := m.admitted
  started := m.started
  completed := m.completed
  failed := m.failed
  cancelled := m.cancelled
  discarded := m.discarded
  expired := m.expired
  operationCompleted := m.operationCompleted
  operationTimedOut := m.operationTimedOut
  operationCancelled := m.operationCancelled
  publicationSubmitted := m.publicationSubmitted
  publicationAdmitted := m.publicationAdmitted
  publicationRejected := m.publicationRejected
  publicationCompleted := m.publicationCompleted
  publicationCancelled := m.publicationCancelled
  publicationExpired := m.publicationExpired
  publicationFailed := m.publicationFailed

namespace Event

def isMail : Event → Bool
  | .admitted _ _ | .claimed _ _ | .finished _ _ | .cancelled _ _ _ | .stagedLost _ => true
  | _ => false

def isPublication : Event → Bool
  | .accepted _ _ | .captured _ _ | .attempted _ _ _ _ _ | .concluded _ _ => true
  | _ => false

def isLife : Event → Bool
  | .activated _ | .leased _ | .finalized _ | .drainTimeout _ => true
  | _ => false

end Event

structure Core where
  nodes : List Node
  boxes : List Box
  holds : List Hold
  live : ℕ
  free : List ℕ
  drainRoots : Assoc ℕ ActorRef
  subs : RouteTable
  operations : OperationTable
  publications : PublicationTable
  services : Registry
  ledger : Ledger
  leases : List DeliveryLease
  failures : List FailureLease
  callbacks : List ActorRef
  tasks : List ActorRef
  nextEvent : ℕ
  nextSub : ℕ
  mail : List Event
  published : List Event
  life : List Event

def State.core (st : State) : Core where
  nodes := st.actors.map Actor.node
  boxes := st.actors.map Actor.box
  holds := st.actors.map Actor.hold
  live := st.liveActors
  free := st.free
  drainRoots := st.drainRoots
  subs := st.subs
  operations := st.operations
  publications := st.publications
  services := st.services
  ledger := st.metrics.ledger
  leases := st.deliveryLeases
  failures := st.failureLeases
  callbacks := st.callbackLeases
  tasks := st.taskLeases
  nextEvent := st.nextEvent
  nextSub := st.nextSub
  mail := st.log.filter Event.isMail
  published := st.log.filter Event.isPublication
  life := st.log.filter Event.isLife

namespace State

variable (st : State)

/-! ## Updates outside the core -/

@[simp] theorem core_tick : st.tick.core = st.core := rfl

@[simp] theorem core_touchActivity : st.touchActivity.core = st.core := rfl

@[simp] theorem core_markRoutingLocked : st.markRoutingLocked.core = st.core := rfl

@[simp] theorem core_addMetrics (f : Metrics → Metrics) :
    (st.addMetrics f).core = { st.core with ledger := (f st.metrics).ledger } := rfl

theorem core_with_publications (t : PublicationTable) :
    ({ st with publications := t } : State).core = { st.core with publications := t } := rfl

/-! ## The three histories -/

theorem core_note_mail {e : Event} (h : e.isMail = true) :
    (st.note e).core = { st.core with mail := st.core.mail ++ [e] } := by
  cases e <;> simp_all [core, note, Event.isMail, Event.isPublication, Event.isLife]

theorem core_note_published {e : Event} (h : e.isPublication = true) :
    (st.note e).core = { st.core with published := st.core.published ++ [e] } := by
  cases e <;> simp_all [core, note, Event.isMail, Event.isPublication, Event.isLife]

theorem core_note_life {e : Event} (h : e.isLife = true) :
    (st.note e).core = { st.core with life := st.core.life ++ [e] } := by
  cases e <;> simp_all [core, note, Event.isMail, Event.isPublication, Event.isLife]

@[simp] theorem note_actors (e : Event) : (st.note e).actors = st.actors := rfl

end State

/-! ## Slots of the columns -/

namespace Core

variable (c : Core)

def setNode (i : ℕ) (n : Node) : Core := { c with nodes := c.nodes.set i n }

def setBox (i : ℕ) (b : Box) : Core := { c with boxes := c.boxes.set i b }

def setHold (i : ℕ) (h : Hold) : Core := { c with holds := c.holds.set i h }

end Core

/-- The slot of the reference holds this very generation. -/
def Seated (nodes : List Node) (r : ActorRef) (n : Node) : Prop :=
  nodes[r.slot]? = some n ∧ n.reference = r

theorem Seated.unique {nodes : List Node} {r : ActorRef} {n m : Node} (h : Seated nodes r n)
    (h' : Seated nodes r m) : n = m :=
  Option.some.inj (h.1.symm.trans h'.1)

namespace State

variable {st : State} {r : ActorRef} {a : Actor}

theorem core_nodes_get {i : ℕ} (h : st.actors[i]? = some a) : st.core.nodes[i]? = some a.node := by
  simp [core, h]

theorem core_boxes_get {i : ℕ} (h : st.actors[i]? = some a) : st.core.boxes[i]? = some a.box := by
  simp [core, h]

theorem core_holds_get {i : ℕ} (h : st.actors[i]? = some a) : st.core.holds[i]? = some a.hold := by
  simp [core, h]

theorem actors_get_of_node {i : ℕ} {n : Node} (h : st.core.nodes[i]? = some n) :
    ∃ a, st.actors[i]? = some a ∧ a.node = n := by
  simpa [core] using h

theorem actors_get_of_box {i : ℕ} {b : Box} (h : st.core.boxes[i]? = some b) :
    ∃ a, st.actors[i]? = some a ∧ a.box = b := by
  simpa [core] using h

theorem map_modify_eq_set {β : Type} (p : Actor → β) (f : Actor → Actor) {l : List Actor} {i : ℕ}
    (h : l[i]? = some a) : (l.modify i f).map p = (l.map p).set i (p (f a)) := by
  refine List.ext_getElem? fun j => ?_
  rw [List.getElem?_map, List.getElem?_modify, List.getElem?_set]
  by_cases hj : i = j
  · subst hj
    obtain ⟨hlt, rfl⟩ := List.getElem?_eq_some_iff.mp h
    simp [hlt]
  · cases hl : l[j]? <;> simp [hj, hl]

theorem set_map_self {β : Type} (p : Actor → β) {l : List Actor} {i : ℕ} (h : l[i]? = some a) :
    (l.map p).set i (p a) = l.map p := by
  refine List.ext_getElem? fun j => ?_
  rw [List.getElem?_set]
  by_cases hj : i = j
  · subst hj
    obtain ⟨hlt, rfl⟩ := List.getElem?_eq_some_iff.mp h
    simp [hlt]
  · simp [hj]

/-- An update of a record whose value is known. -/
theorem core_modifyActor (f : Actor → Actor) (h : st.actors[r.slot]? = some a) :
    (st.modifyActor r f).core =
      ((st.core.setNode r.slot (f a).node).setBox r.slot (f a).box).setHold r.slot
        (f a).hold := by
  simp only [core, modifyActor, Core.setNode, Core.setBox, Core.setHold, map_modify_eq_set _ f h]

theorem core_modify_node (f : Actor → Actor) (h : st.actors[r.slot]? = some a)
    (hb : (f a).box = a.box) (hh : (f a).hold = a.hold) :
    (st.modifyActor r f).core = st.core.setNode r.slot (f a).node := by
  rw [core_modifyActor f h, hb, hh]
  simp only [core, Core.setNode, Core.setBox, Core.setHold, set_map_self _ h]

theorem core_modify_box (f : Actor → Actor) (h : st.actors[r.slot]? = some a)
    (hn : (f a).node = a.node) (hh : (f a).hold = a.hold) :
    (st.modifyActor r f).core = st.core.setBox r.slot (f a).box := by
  rw [core_modifyActor f h, hn, hh]
  simp only [core, Core.setNode, Core.setBox, Core.setHold, set_map_self _ h]

theorem core_modify_hold (f : Actor → Actor) (h : st.actors[r.slot]? = some a)
    (hn : (f a).node = a.node) (hb : (f a).box = a.box) :
    (st.modifyActor r f).core = st.core.setHold r.slot (f a).hold := by
  rw [core_modifyActor f h, hn, hb]
  simp only [core, Core.setNode, Core.setBox, Core.setHold, set_map_self _ h]

theorem core_modify_none (f : Actor → Actor) (h : st.actors[r.slot]? = none) :
    (st.modifyActor r f).core = st.core := by
  have : st.actors.modify r.slot f = st.actors := by
    refine List.ext_getElem? fun j => ?_
    rw [List.getElem?_modify]
    by_cases hj : r.slot = j
    · simp [← hj, h]
    · cases hl : st.actors[j]? <;> simp [hj]
  simp only [modifyActor, this]

/-- An update of fields outside the core. -/
@[simp] theorem core_modify_soft (f : Actor → Actor) (hn : ∀ a, (f a).node = a.node)
    (hb : ∀ a, (f a).box = a.box) (hh : ∀ a, (f a).hold = a.hold) :
    (st.modifyActor r f).core = st.core := by
  rcases h : st.actors[r.slot]? with - | a
  · exact core_modify_none f h
  · rw [core_modifyActor f h, hn, hb, hh]
    simp only [core, Core.setNode, Core.setBox, Core.setHold, set_map_self _ h]

@[simp] theorem modifyActor_get (f : Actor → Actor) (h : st.actors[r.slot]? = some a) :
    (st.modifyActor r f).actors[r.slot]? = some (f a) := by
  simp [modifyActor, h]

end State

end Actorplane
