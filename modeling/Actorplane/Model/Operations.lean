import Actorplane.Lib.Assoc
import Actorplane.Model.Basic

/-!
# The operation table

Slots with generations, a free list, and five indexes kept beside them. The
ordered deadline set is a duplicate-free list; taking its due prefix selects the
keys whose deadline has been reached.
-/

namespace Actorplane

structure OperationOwner where
  owner : ActorRef
  target : ActorRef
  deriving DecidableEq, Repr

structure PendingOperation where
  owner : ActorRef
  target : ActorRef
  deadline : Instant
  context : Option HeldPayload
  deriving DecidableEq, Repr

inductive OperationFailure
  | handlerFailed
  | resultTooLarge
  deriving DecidableEq, Repr

inductive TerminalOutcome
  | completed (result : HeldPayload)
  | failed (code : OperationFailure) (message : String)
  | timedOut
  | cancelled
  | ownerStopped
  | targetStopped
  deriving DecidableEq, Repr

inductive Entry
  | pending (operation : PendingOperation)
  | terminal (outcome : TerminalOutcome)
  deriving DecidableEq, Repr

/-- `operation_status` hands the slot's entry to the caller. -/
abbrev OperationStatus := Entry

structure OperationTable where
  world : ℕ
  max : ℕ
  slots : List (Option Entry)
  generations : List ℕ
  owners : List (Option ActorRef)
  free : List ℕ
  live : ℕ
  pending : ℕ
  pendingOwners : Assoc ActorRef ℕ
  ownerIndex : Index ActorRef OperationId
  targetIndex : Index ActorRef OperationId
  deadlines : List (Instant × ℕ × ℕ)

/-- The sort key of operation identities within one World. -/
def OperationId.before (a b : OperationId) : Prop :=
  a.slot < b.slot ∨ a.slot = b.slot ∧ a.generation ≤ b.generation

instance : DecidableRel OperationId.before :=
  fun _ _ => inferInstanceAs (Decidable (_ ∨ _))

/-- The order of the deadline set: instant, slot, generation. -/
def deadlineBefore (a b : Instant × ℕ × ℕ) : Prop :=
  a.1 < b.1 ∨ a.1 = b.1 ∧ (a.2.1 < b.2.1 ∨ a.2.1 = b.2.1 ∧ a.2.2 ≤ b.2.2)

instance : DecidableRel deadlineBefore :=
  fun _ _ => inferInstanceAs (Decidable (_ ∨ _))

def sortIds (ids : List OperationId) : List OperationId :=
  ids.insertionSort OperationId.before

/-- The longest prefix of whole characters that fits in `room` bytes. -/
def boundedChars : ℕ → List Char → List Char
  | _, [] => []
  | room, c :: cs => if c.utf8Size ≤ room then c :: boundedChars (room - c.utf8Size) cs else []

def normalizeMessage (message : String) : String :=
  String.ofList (boundedChars 1024 message.toList)

def TerminalOutcome.normalized : TerminalOutcome → TerminalOutcome
  | .failed code message => .failed code (normalizeMessage message)
  | outcome => outcome

namespace OperationTable

def new (world max : ℕ) : OperationTable where
  world := world
  max := max
  slots := []
  generations := []
  owners := []
  free := []
  live := 0
  pending := 0
  pendingOwners := ∅
  ownerIndex := ∅
  targetIndex := ∅
  deadlines := []

variable (t : OperationTable)

def generationAt (slot : ℕ) : ℕ := (t.generations[slot]?).getD 0

def id (slot : ℕ) : OperationId := ⟨t.world, slot, t.generationAt slot⟩

/-- The entry of a live identity, with the slot check of `locate`. -/
def locate (id : OperationId) : Except Error Entry :=
  if id.world ≠ t.world then .error .crossWorld
  else if t.generationAt id.slot ≠ id.generation then .error .staleReference
  else match t.slots[id.slot]? with
    | some (some entry) => .ok entry
    | _ => .error .staleReference

def removePendingOwner (owner : ActorRef) : OperationTable :=
  match t.pendingOwners.lookup owner with
  | none => t
  | some count =>
    if count - 1 = 0 then { t with pendingOwners := t.pendingOwners.erase owner }
    else { t with pendingOwners := AList.insert owner (count - 1) t.pendingOwners }

def indexPending (id : OperationId) (p : PendingOperation) : OperationTable :=
  { t with
    owners := t.owners.set id.slot (some p.owner)
    pendingOwners :=
      AList.insert p.owner ((t.pendingOwners.lookup p.owner).getD 0 + 1) t.pendingOwners
    ownerIndex := t.ownerIndex.add p.owner id
    targetIndex := t.targetIndex.add p.target id
    deadlines := (p.deadline, id.slot, id.generation) :: t.deadlines }

def removeTargetIndex (id : OperationId) (p : PendingOperation) : OperationTable :=
  { t with targetIndex := t.targetIndex.drop p.target id }

def removeDeadline (id : OperationId) (p : PendingOperation) : OperationTable :=
  { t with deadlines := t.deadlines.erase (p.deadline, id.slot, id.generation) }

def removeOwnerIndex (id : OperationId) : OperationTable :=
  match (t.owners[id.slot]?).join with
  | none => t
  | some owner =>
    { t with
      owners := t.owners.set id.slot none
      ownerIndex := t.ownerIndex.drop owner id }

/-- `remove_index` of a pending entry: every index and the owner column. -/
def removeIndex (id : OperationId) (p : PendingOperation) : OperationTable :=
  let t := { t with owners := t.owners.set id.slot none }
  let t := t.removePendingOwner p.owner
  let t := { t with ownerIndex := t.ownerIndex.drop p.owner id }
  (t.removeTargetIndex id p).removeDeadline id p

/-- A slot whose generation counter is exhausted never returns to the free list. -/
def retireGeneration (slot : ℕ) : OperationTable :=
  if t.generationAt slot < u64Max then
    { t with
      generations := t.generations.set slot (t.generationAt slot + 1)
      free := slot :: t.free }
  else t

def pendingCount : ℕ := t.pending

def len : ℕ := t.live

def retainedTerminalCount : ℕ := t.live - t.pending

/-- Take a slot from the free list, or extend the three columns by one. -/
def takeSlot : ℕ × OperationTable :=
  match t.free with
  | slot :: free => (slot, { t with free := free })
  | [] =>
    (t.slots.length,
      { t with
        slots := t.slots ++ [none]
        generations := t.generations ++ [1]
        owners := t.owners ++ [none] })

def reserve (owner target : ActorRef) (deadline : Instant) :
    Except Error OperationId × OperationTable :=
  if owner.world ≠ t.world ∨ target.world ≠ t.world then (.error .crossWorld, t)
  else if t.max ≤ t.live then (.error .limitExceeded, t)
  else if t.free = [] ∧ t.max ≤ t.slots.length then (.error .limitExceeded, t)
  else
    let (slot, t) := t.takeSlot
    let id := t.id slot
    let p : PendingOperation := ⟨owner, target, deadline, none⟩
    let t := { t with slots := t.slots.set slot (some (.pending p)) }
    let t := t.indexPending id p
    (.ok id, { t with live := t.live + 1, pending := t.pending + 1 })

def setContext (id : OperationId) (context : HeldPayload) : Except Error Unit × OperationTable :=
  if context.world ≠ t.world then (.error .crossWorld, t)
  else match t.locate id with
    | .error e => (.error e, t)
    | .ok (.terminal _) => (.error .invalidConfig, t)
    | .ok (.pending p) =>
      if p.context.isSome then (.error .invalidConfig, t)
      else
        let p := { p with context := some context }
        (.ok (), { t with slots := t.slots.set id.slot (some (.pending p)) })

/-- The payload of a completed outcome must belong to the table's World. -/
def foreign (outcome : TerminalOutcome) : Bool :=
  match outcome with
  | .completed payload => payload.world ≠ t.world
  | _ => false

def complete (id : OperationId) (outcome : TerminalOutcome) :
    Except Error Bool × OperationTable :=
  if t.foreign outcome then (.error .crossWorld, t)
  else match t.locate id with
    | .error e => (.error e, t)
    | .ok (.terminal _) => (.ok false, t)
    | .ok (.pending p) =>
      let t := t.removeTargetIndex id p
      let t := t.removePendingOwner p.owner
      let t := t.removeDeadline id p
      (.ok true,
        { t with
          pending := t.pending - 1
          slots := t.slots.set id.slot (some (.terminal outcome.normalized)) })

def status (id : OperationId) : Except Error OperationStatus := t.locate id

def take (id : OperationId) : Except Error (Option TerminalOutcome) × OperationTable :=
  match t.locate id with
  | .error e => (.error e, t)
  | .ok (.pending _) => (.ok none, t)
  | .ok (.terminal outcome) =>
    let t := { t with slots := t.slots.set id.slot none }
    let t := t.removeOwnerIndex id
    let t := { t with live := t.live - 1 }
    (.ok (some outcome), t.retireGeneration id.slot)

def releaseUnsubmitted (id : OperationId) : Except Error Bool × OperationTable :=
  match t.locate id with
  | .error e => (.error e, t)
  | .ok (.terminal _) => (.ok false, t)
  | .ok (.pending p) =>
    let t := { t with slots := t.slots.set id.slot none }
    let t := t.removeIndex id p
    let t := { t with pending := t.pending - 1, live := t.live - 1 }
    (.ok true, t.retireGeneration id.slot)

/-- Offer one outcome to several identities; count the transitions it wins. -/
def transitionIds : OperationTable → List OperationId → TerminalOutcome → ℕ × OperationTable
  | t, [], _ => (0, t)
  | t, id :: ids, outcome =>
    let (won, t) := t.complete id outcome
    let (n, t) := transitionIds t ids outcome
    (if won = .ok true then n + 1 else n, t)

def pendingFor (owner : ActorRef) : ℕ := (t.pendingOwners.lookup owner).getD 0

def pendingForTarget (target : ActorRef) : ℕ := (t.targetIndex.members target).length

def participants (id : OperationId) : Except Error (ActorRef × Option ActorRef) :=
  match t.locate id with
  | .error e => .error e
  | .ok entry =>
    match (t.owners[id.slot]?).join with
    | none => .error .staleReference
    | some owner =>
      match entry with
      | .pending p => .ok (owner, some p.target)
      | .terminal _ => .ok (owner, none)

/-- Endpoints of the pending operations among `ids`, in identity order. -/
def endpointsOf (ids : List OperationId) : List OperationOwner :=
  (sortIds ids).filterMap fun id =>
    match t.locate id with
    | .ok (.pending p) => some ⟨p.owner, p.target⟩
    | _ => none

def pendingParticipantsFor (actor : ActorRef) : List OperationOwner :=
  t.endpointsOf ((t.ownerIndex.members actor).union (t.targetIndex.members actor))

/-- The due part of the ordered deadline set, as live identities. -/
def dueIds (now : Instant) : List OperationId :=
  (((t.deadlines.filter (·.1 ≤ now)).insertionSort deadlineBefore).map fun key =>
    (⟨t.world, key.2.1, key.2.2⟩ : OperationId)).filter fun id => (t.locate id).isOk

def dueParticipants (now : Instant) : List OperationOwner := t.endpointsOf (t.dueIds now)

def retireIds : OperationTable → List OperationId → ℕ × OperationTable
  | t, [] => (0, t)
  | t, id :: ids =>
    let (_, t) := t.complete id .ownerStopped
    let (taken, t) := t.take id
    let (n, t) := retireIds t ids
    (match taken with
      | .ok (some _) => n + 1
      | _ => n, t)

def retireOwner (owner : ActorRef) : ℕ × OperationTable :=
  t.retireIds (sortIds (t.ownerIndex.members owner))

def cancelOwner (owner : ActorRef) : ℕ × OperationTable :=
  t.transitionIds (sortIds (t.ownerIndex.members owner)) .ownerStopped

def stopTarget (target : ActorRef) : ℕ × OperationTable :=
  t.transitionIds (sortIds (t.targetIndex.members target)) .targetStopped

/-- Pop the due part of the deadline set, then complete what it named. -/
def expireIds (now : Instant) : List OperationId × OperationTable :=
  let ids := t.dueIds now
  let t := { t with deadlines := t.deadlines.filter fun key => ¬key.1 ≤ now }
  (sortIds ids, (t.transitionIds ids .timedOut).2)

def expire (now : Instant) : ℕ × OperationTable :=
  let (ids, t) := t.expireIds now
  (ids.length, t)

def expireOne (id : OperationId) (now : Instant) : Except Error Bool × OperationTable :=
  match t.locate id with
  | .error e => (.error e, t)
  | .ok (.pending p) => if p.deadline ≤ now then t.complete id .timedOut else (.ok false, t)
  | .ok (.terminal _) => (.ok false, t)

end OperationTable

end Actorplane
