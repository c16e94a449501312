import Mathlib.Algebra.BigOperators.Group.Finset.Basic
import Actorplane.Model.World

/-!
# Retained payloads

A payload is freed with its last holder. The World holds the payloads of its mailboxes,
staging lists, publications, operations and outstanding leases; its callers hold the
others. Only `send_held` and `send_held_from` take a payload away from their caller.
-/

namespace Actorplane

def Actor.payloads (a : Actor) : List Stored :=
  a.queue.map (·.payload) ++ a.staged.map (·.stored)

def Entry.payloads : Entry → List Stored
  | .pending operation => (operation.context.map (·.stored)).toList
  | .terminal (.completed result) => [result.stored]
  | .terminal _ => []

def OperationTable.payloads (t : OperationTable) : List Stored :=
  t.slots.flatMap fun entry => (entry.map Entry.payloads).getD []

/-- The payloads the World holds. -/
def State.payloads (st : State) : List Stored :=
  st.actors.flatMap Actor.payloads ++ st.publications.entries.entries.map (·.2.stored) ++
    st.operations.payloads ++ st.deliveryLeases.map (·.delivery.payload)

/-- The payload that moves into the call. -/
def Action.gives : Action → Option HeldPayload
  | .sendHeld _ held => some held
  | .sendHeldFrom _ _ held => some held
  | _ => none

namespace World

variable (w : World)

/-- The payloads of this World that anyone holds. -/
def holdings (callers : List HeldPayload) (st : State) : List Stored :=
  st.payloads ++ (callers.filter (·.world = w.id)).map (·.stored)

/-- The counter of retained bytes: an allocation counts once, whoever holds it. -/
def retainedBytes (callers : List HeldPayload) (st : State) : ℕ :=
  ∑ s ∈ (w.holdings callers st).toFinset, s.bytes

end World

end Actorplane
