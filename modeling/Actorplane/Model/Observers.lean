import Actorplane.Lib.Assoc
import Actorplane.Model.Operations

/-!
# Readiness, activity and diagnostics

State that other parties observe and that no operation of the core reads back:
the Python readiness index, the activity versions, the routing signal, and the
diagnostic history.
-/

namespace Actorplane

structure PythonReadyIndex where
  start : Assoc ℕ ActorRef
  failure : Assoc ℕ ActorRef
  delivery : Assoc ℕ ActorRef
  cleanup : Assoc ℕ ActorRef

namespace PythonReadyIndex

def new : PythonReadyIndex := ⟨∅, ∅, ∅, ∅⟩

def setEntry (map : Assoc ℕ ActorRef) (order : ℕ) (actor : ActorRef) (present : Bool) :
    Assoc ℕ ActorRef :=
  if present then AList.insert order actor map else map.erase order

def set (x : PythonReadyIndex) (order : ℕ) (actor : ActorRef)
    (start failure delivery cleanup : Bool) : PythonReadyIndex where
  start := setEntry x.start order actor start
  failure := setEntry x.failure order actor failure
  delivery := setEntry x.delivery order actor delivery
  cleanup := setEntry x.cleanup order actor cleanup

end PythonReadyIndex

structure ActivitySlot where
  actor : ActorRef
  version : ℕ
  overflow : Bool
  waker : Option ℕ
  deriving DecidableEq, Repr

structure ActivityRegistry where
  slots : Assoc ℕ ActivitySlot
  dirty : List ℕ

namespace ActivityRegistry

def new : ActivityRegistry := ⟨∅, []⟩

variable (x : ActivityRegistry)

/-- The slot of the actor, registered or replacing an older generation if need be. -/
def register (actor : ActorRef) : ActivityRegistry :=
  match x.slots.lookup actor.slot with
  | none => { x with slots := AList.insert actor.slot ⟨actor, 1, false, none⟩ x.slots }
  | some slot =>
    if slot.actor = actor then x
    else
      { slots := AList.insert actor.slot ⟨actor, 1, false, none⟩ x.slots
        dirty := x.dirty.erase actor.slot }

def read (actor : ActorRef) : Except Error ℕ :=
  match x.slots.lookup actor.slot with
  | none => .error .staleReference
  | some slot => if slot.overflow then .error .limitExceeded else .ok slot.version

def version (actor : ActorRef) : Except Error ℕ × ActivityRegistry :=
  ((x.register actor).read actor, x.register actor)

/-- One poll: an answer, or `none` after registering the waker. -/
def poll (actor : ActorRef) (observed waker : ℕ) :
    Option (Except Error ℕ) × ActivityRegistry :=
  let replaced : Bool := (x.slots.lookup actor.slot).any fun slot => slot.actor ≠ actor
  let x := x.register actor
  match x.slots.lookup actor.slot with
  | none => (some (.error .staleReference), x)
  | some slot =>
    if replaced then (some (.ok slot.version), x)
    else if slot.overflow then (some (.error .limitExceeded), x)
    else if slot.version ≠ observed then (some (.ok slot.version), x)
    else (none, { x with slots := AList.insert actor.slot { slot with waker := some waker } x.slots })

/-- Mark an already registered actor; an older generation only becomes dirty. -/
def mark (actor : ActorRef) : ActivityRegistry :=
  match x.slots.lookup actor.slot with
  | none => x
  | some slot =>
    if slot.actor ≠ actor then { x with dirty := x.dirty.insert actor.slot }
    else
      let slot :=
        if slot.version = u64Max then { slot with overflow := true }
        else { slot with version := slot.version + 1 }
      { slots := AList.insert actor.slot slot x.slots
        dirty := x.dirty.insert actor.slot }

/-- Forget the dirty marks and hand out the wakers of the marked slots. -/
def notifyMarked : ActivityRegistry where
  slots := x.dirty.foldl
    (fun slots key =>
      match slots.lookup key with
      | none => slots
      | some slot => AList.insert key { slot with waker := none } slots) x.slots
  dirty := []

end ActivityRegistry

inductive DiagnosticCode
  | rejected (error : Error)
  | handlerFailed
  | startupFailed
  | cleanupFailed
  | supervisorFailed
  | operationTimedOut
  | operationLateResult
  | drainTimeout
  | cancelled
  deriving DecidableEq, Repr

structure DiagnosticEntry where
  sequence : ℕ
  code : DiagnosticCode
  actor : Option ActorRef
  operation : Option OperationId
  eventId : Option ℕ
  correlationId : Option ℕ
  causationId : Option ℕ
  failure : Option FailureRecord
  deriving DecidableEq, Repr

structure History where
  capacity : ℕ
  next : ℕ
  dropped : ℕ
  entries : List DiagnosticEntry
  exhausted : Bool

namespace History

def new (capacity : ℕ) : History := ⟨capacity, 1, 0, [], false⟩

def saturatingSucc (n : ℕ) : ℕ := min (n + 1) u64Max

variable (h : History)

def recordEntry (code : DiagnosticCode) (actor : Option ActorRef)
    (operation : Option OperationId) (failure : Option FailureRecord)
    (envelope : Option Envelope) : History :=
  if h.capacity = 0 ∨ h.exhausted then { h with dropped := saturatingSucc h.dropped }
  else
    let h :=
      if h.entries.length = h.capacity then
        { h with entries := h.entries.tail, dropped := saturatingSucc h.dropped }
      else h
    let entry : DiagnosticEntry :=
      { sequence := h.next
        code := code
        actor := actor
        operation := operation
        eventId := (envelope.map (·.eventId)).or (failure.bind (·.eventId))
        correlationId := envelope.bind (·.correlationId)
        causationId := envelope.bind (·.causationId)
        failure := failure }
    { h with
      next := if h.next = u64Max then h.next else h.next + 1
      exhausted := h.next = u64Max
      entries := h.entries ++ [entry] }

def record (code : DiagnosticCode) (actor : Option ActorRef)
    (operation : Option OperationId) : History :=
  h.recordEntry code actor operation none none

def recordEvent (code : DiagnosticCode) (envelope : Envelope)
    (operation : Option OperationId) : History :=
  h.recordEntry code (some envelope.destination) operation none (some envelope)

def recordFailure (failure : FailureRecord) : History :=
  let code :=
    match failure.phase with
    | .handler => DiagnosticCode.handlerFailed
    | .stop => .cleanupFailed
    | .supervisor => .supervisorFailed
    | _ => .startupFailed
  h.recordEntry code (some failure.actor) failure.operation (some failure) none

end History

/-- The routing signal as the World lock sees it. -/
structure RoutingSignal where
  dirty : Bool
  closed : Bool
  deriving DecidableEq, Repr

structure Observers where
  pythonReady : PythonReadyIndex
  activity : ActivityRegistry
  routing : RoutingSignal
  diagnostics : History

def Observers.new (diagnosticCapacity : ℕ) : Observers :=
  ⟨.new, .new, ⟨false, false⟩, .new diagnosticCapacity⟩

end Actorplane
