import Actorplane.Model.Observers

/-!
# Reading the diagnostic history

A reader asks for the entries after the last sequence number it has seen, and is
told of a gap when entries it has not seen are gone.
-/

namespace Actorplane

structure DiagnosticGap where
  firstAvailable : ℕ
  requestedAfter : ℕ
  deriving DecidableEq, Repr

structure DiagnosticRead where
  entries : List DiagnosticEntry
  nextSequence : ℕ
  dropped : ℕ
  gap : Option DiagnosticGap
  deriving DecidableEq, Repr

namespace History

/-- The sequence number of the front entry, or the next one to be issued. -/
def first (h : History) : ℕ := (h.entries.head?.map (·.sequence)).getD h.next

def read (h : History) (after limit : ℕ) : DiagnosticRead where
  entries := (h.entries.filter fun e => after < e.sequence).take limit
  nextSequence := h.next
  dropped := h.dropped
  gap :=
    if saturatingSucc after < h.first then
      some { firstAvailable := h.first, requestedAfter := after }
    else none

end History

/-- `World::diagnostics`, of the configured capacity and the history under the lock. -/
def diagnostics (diagnosticCapacity : ℕ) (history : History) (afterSequence limit : ℕ) :
    Except Error DiagnosticRead :=
  if diagnosticCapacity < limit then .error .limitExceeded
  else .ok (history.read afterSequence limit)

end Actorplane
