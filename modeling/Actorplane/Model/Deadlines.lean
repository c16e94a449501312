import Actorplane.Lib.Assoc
import Actorplane.Model.Basic

/-!
# Event deadlines

Reference counts of the deadlines of one actor's queued and staged entries, and
the index of every actor's earliest deadline.
-/

namespace Actorplane

structure ActorDeadlines where
  counts : Assoc Instant ℕ

namespace ActorDeadlines

def new : ActorDeadlines := ⟨∅⟩

variable (d : ActorDeadlines)

def add (deadline : Option Instant) : ActorDeadlines :=
  match deadline with
  | none => d
  | some at' => ⟨AList.insert at' ((d.counts.lookup at').getD 0 + 1) d.counts⟩

/-- Dropping a reference that is not counted is the `expect` of the source. -/
def remove? (deadline : Option Instant) : Option ActorDeadlines :=
  match deadline with
  | none => some d
  | some at' =>
    match d.counts.lookup at' with
    | none => none
    | some count =>
      some ⟨if count - 1 = 0 then d.counts.erase at' else AList.insert at' (count - 1) d.counts⟩

def first : Option Instant := (d.counts.keys.insertionSort (· ≤ ·)).head?

end ActorDeadlines

structure DeadlineIndex where
  actors : Assoc ActorRef Instant
  ordered : List (Instant × ActorRef)

/-- The order in which due actors are processed: slot, generation, World. -/
def ActorRef.before (a b : ActorRef) : Prop :=
  a.slot < b.slot ∨ a.slot = b.slot ∧
    (a.generation < b.generation ∨ a.generation = b.generation ∧ a.world ≤ b.world)

instance : DecidableRel ActorRef.before := fun _ _ => inferInstanceAs (Decidable (_ ∨ _))

namespace DeadlineIndex

def new : DeadlineIndex := ⟨∅, []⟩

variable (x : DeadlineIndex)

def remove (actor : ActorRef) : DeadlineIndex :=
  match x.actors.lookup actor with
  | none => x
  | some deadline => ⟨x.actors.erase actor, x.ordered.erase (deadline, actor)⟩

def set (actor : ActorRef) (deadline : Option Instant) : DeadlineIndex :=
  match deadline with
  | none => x.remove actor
  | some at' =>
    if x.actors.lookup actor = some at' then x
    else
      let x := x.remove actor
      ⟨AList.insert actor at' x.actors, (at', actor) :: x.ordered⟩

/-- Remove the due entries and list their actors. -/
def takeDue (now : Instant) : List ActorRef × DeadlineIndex :=
  let due := x.ordered.filter (·.1 ≤ now)
  ((due.map Prod.snd).insertionSort ActorRef.before,
    ⟨due.foldl (fun m entry => m.erase entry.2) x.actors,
      x.ordered.filter fun entry => ¬entry.1 ≤ now⟩)

end DeadlineIndex

end Actorplane
