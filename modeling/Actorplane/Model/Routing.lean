import Actorplane.Lib.Assoc
import Actorplane.Model.Basic

/-!
# The route table

Routes by identity with four indexes. Ordered sets are read in ascending order.
-/

namespace Actorplane

structure Sub where
  owner : ActorRef
  source : ActorRef
  target : ActorRef
  sourcePort : Option ℕ
  targetPort : Option ℕ
  deriving DecidableEq, Repr

structure RouteTable where
  entries : Assoc ℕ Sub
  bySource : Index (ActorRef × Option ℕ) ℕ
  bySourceActor : Index ActorRef ℕ
  byOwner : Index ActorRef ℕ
  byTarget : Index ActorRef ℕ

/-- The order in which an ordered set of identities is visited. -/
def ascending (ids : List ℕ) : List ℕ := ids.insertionSort (· ≤ ·)

namespace RouteTable

def new : RouteTable := ⟨∅, ∅, ∅, ∅, ∅⟩

variable (t : RouteTable)

def activeLen : ℕ := t.entries.keys.length

def get (id : ℕ) : Option Sub := t.entries.lookup id

def containsActive (id : ℕ) : Bool := (t.get id).isSome

def sourceIds (source : ActorRef) (port : Option ℕ) : List ℕ :=
  ascending (t.bySource.members (source, port))

def sourceCount (source : ActorRef) (port : Option ℕ) : ℕ :=
  (t.bySource.members (source, port)).length

def sourceActorIds (source : ActorRef) : List ℕ := ascending (t.bySourceActor.members source)

def actorRouteIds (actor : ActorRef) : List ℕ :=
  ascending (((t.byOwner.members actor).union (t.bySourceActor.members actor)).union
    (t.byTarget.members actor))

def insert (id : ℕ) (route : Sub) : RouteTable where
  entries := AList.insert id route t.entries
  bySource := t.bySource.add (route.source, route.sourcePort) id
  bySourceActor := t.bySourceActor.add route.source id
  byOwner := t.byOwner.add route.owner id
  byTarget := t.byTarget.add route.target id

/-- The table without one route. -/
def erase (id : ℕ) (route : Sub) : RouteTable where
  entries := t.entries.erase id
  bySource := t.bySource.drop (route.source, route.sourcePort) id
  bySourceActor := t.bySourceActor.drop route.source id
  byOwner := t.byOwner.drop route.owner id
  byTarget := t.byTarget.drop route.target id

def remove (id : ℕ) : Option Sub × RouteTable :=
  match t.get id with
  | none => (none, t)
  | some route => (some route, t.erase id route)

def sourceTargetExists (source target : ActorRef) : Bool :=
  (t.sourceActorIds source).any fun id =>
    match t.get id with
    | some route => route.target = target
    | none => false

def typedDuplicate (source target : PortRef) : Bool :=
  (t.sourceIds source.owner (some source.index)).any fun id =>
    match t.get id with
    | some route => route.target = target.owner
    | none => false

end RouteTable

end Actorplane
