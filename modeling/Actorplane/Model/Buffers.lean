import Actorplane.Lib.Counters
import Actorplane.Model.Basic

/-!
# Retained-byte budgets

Stored payloads and native buffer permits share the World's counter of retained
bytes. A buffer permit of a local budget also charges the World when its budget
was made for one. A `usize` is a 64-bit word, and the owner of a charge is the
value whose destructor releases it.
-/

namespace Actorplane

inductive FrameError
  | io (kind : ℕ)
  | tooLarge
  | budgetExceeded
  | allocationFailed
  | invalidConfig
  | truncated
  deriving DecidableEq, Repr

/-- The World's counter, and the counters of the local budgets. -/
inductive BudgetCounter
  | retained
  | used (budget : ℕ)
  deriving DecidableEq, Repr

/-- What the configuration fixes: the World's limits and the limit of each local budget. -/
structure BudgetLimits where
  nativePayloadBudget : UInt64
  maxEventBytes : UInt64
  buffers : ℕ → UInt64

def BudgetLimits.limit (cfg : BudgetLimits) : BudgetCounter → UInt64
  | .retained => cfg.nativePayloadBudget
  | .used budget => cfg.buffers budget

def checkedAdd (a b : UInt64) : Option UInt64 :=
  if a.toNat + b.toNat < 2 ^ 64 then some (a + b) else none

/-- A budget of buffers: the shared state it refers to, and whether it charges the World. -/
structure BufferBudget where
  state : ℕ
  native : Bool
  deriving DecidableEq, Repr

structure BufferPermit where
  budget : BufferBudget
  charged : UInt64
  native : Option UInt64
  deriving DecidableEq, Repr

/-- The values that own a charge: a stored payload, a native permit, a buffer permit. -/
inductive ChargeOwner
  | stored (bytes : UInt64)
  | nativePermit (bytes : UInt64)
  | bufferPermit (permit : BufferPermit)
  deriving DecidableEq, Repr

inductive BudgetFailure
  | core (error : Error)
  | frame (error : FrameError)
  deriving DecidableEq, Repr

/-- How an operation ends, and the owner that is left. -/
structure BudgetResult where
  failure : Option BudgetFailure
  owner : Option ChargeOwner
  deriving DecidableEq, Repr

abbrev BudgetRoutine := Routine BudgetCounter BudgetResult

namespace BudgetRoutine

def ok (owner : Option ChargeOwner) : BudgetRoutine := .ret { failure := none, owner := owner }

def fail (failure : BudgetFailure) (owner : Option ChargeOwner) : BudgetRoutine :=
  .ret { failure := some failure, owner := owner }

end BudgetRoutine

open BudgetRoutine

variable (cfg : BudgetLimits)

/-! ## Payload storage -/

/-- The test of `World::reserve`, with its saturating subtraction. -/
def admitStored (n old : UInt64) : Option UInt64 :=
  if cfg.nativePayloadBudget.toNat - old.toNat < n.toNat then none else some (old + n)

/-- `World::reserve` -/
def worldReserve (n : UInt64) (next : Bool → BudgetRoutine) : BudgetRoutine :=
  .reserve .retained (admitStored cfg n) none next

/-- `make_stored_with`, once the options are checked, of a payload and its options' bytes. -/
def makeStored (payload options : UInt64) : BudgetRoutine :=
  match checkedAdd payload options with
  | none => fail (.core .limitExceeded) none
  | some n =>
    if cfg.maxEventBytes < n then fail (.core .limitExceeded) none
    else worldReserve cfg n fun
      | true => ok (some (.stored n))
      | false => fail (.core .budgetExceeded) none

/-- The drop of `Stored`. -/
def dropStored (bytes : UInt64) (next : BudgetRoutine) : BudgetRoutine :=
  .release .retained bytes next

/-! ## Native permits -/

/-- The test of a reservation against a limit, with its checked addition. -/
def admitChecked (limit bytes current : UInt64) : Option UInt64 :=
  (checkedAdd current bytes).bind fun next => if limit < next then none else some next

/-- `NativeBufferBudget::reserve_bytes` -/
def reserveBytes (bytes : UInt64) (next : Bool → BudgetRoutine) : BudgetRoutine :=
  .reserve .retained (admitChecked cfg.nativePayloadBudget bytes) none next

/-- `NativeBufferBudget::reserve` -/
def nativeReserve (bytes : UInt64) (next : Option UInt64 → BudgetRoutine) : BudgetRoutine :=
  reserveBytes cfg bytes fun
    | true => next (some bytes)
    | false => next none

/-- `NativeBufferPermit::try_grow`: the bytes of the grown permit, if it could grow. -/
def tryGrow (bytes additional : UInt64) (next : Option UInt64 → BudgetRoutine) : BudgetRoutine :=
  if additional = 0 then next (some bytes)
  else
    match checkedAdd bytes additional with
    | none => next none
    | some total =>
      reserveBytes cfg additional fun
        | true => next (some total)
        | false => next none

/-- The drop of `NativeBufferPermit`. -/
def dropNative (bytes : UInt64) (next : BudgetRoutine) : BudgetRoutine :=
  .release .retained bytes next

/-! ## Buffer permits -/

/-- The drop of `BufferPermit`, then that of its native permit. -/
def BufferPermit.drop (permit : BufferPermit) (next : BudgetRoutine) : BudgetRoutine :=
  .release (.used permit.budget.state) permit.charged
    (match permit.native with
      | none => next
      | some bytes => dropNative bytes next)

namespace BufferBudget

/-- `reserve_local` -/
def reserveLocal (budget : BufferBudget) (bytes : UInt64)
    (next : Option BufferPermit → BudgetRoutine) : BudgetRoutine :=
  .reserve (.used budget.state) (admitChecked (cfg.buffers budget.state) bytes) none fun
    | true => next (some { budget := budget, charged := bytes, native := none })
    | false => next none

def reserve (budget : BufferBudget) (bytes : UInt64) : BudgetRoutine :=
  reserveLocal cfg budget bytes fun
    | none => fail (.frame .budgetExceeded) none
    | some permit =>
      if budget.native then
        nativeReserve cfg bytes fun
          | some native => ok (some (.bufferPermit { permit with native := some native }))
          | none => permit.drop (fail (.frame .budgetExceeded) none)
      else ok (some (.bufferPermit permit))

end BufferBudget

/-- `BufferPermit::grow`. The temporary permit gives its charge over before it is dropped. -/
def BufferPermit.grow (permit : BufferPermit) (bytes : UInt64) : BudgetRoutine :=
  if bytes = 0 then ok (some (.bufferPermit permit))
  else
    match checkedAdd permit.charged bytes with
    | none => fail (.frame .budgetExceeded) (some (.bufferPermit permit))
    | some charged =>
      permit.budget.reserveLocal cfg bytes fun
        | none => fail (.frame .budgetExceeded) (some (.bufferPermit permit))
        | some extra =>
          match permit.native with
          | none =>
            { extra with charged := 0 }.drop
              (ok (some (.bufferPermit { permit with charged := charged })))
          | some native =>
            tryGrow cfg native bytes fun
              | some native =>
                { extra with charged := 0 }.drop
                  (ok (some (.bufferPermit
                    { permit with charged := charged, native := some native })))
              | none => extra.drop (fail (.frame .budgetExceeded) (some (.bufferPermit permit)))

/-! ## Operations -/

inductive BudgetOp
  | makeStored (payload options : UInt64)
  | nativeReserve (bytes : UInt64)
  | nativeGrow (bytes additional : UInt64)
  | reserve (budget : BufferBudget) (bytes : UInt64)
  | grow (permit : BufferPermit) (bytes : UInt64)
  | drop (owner : ChargeOwner)
  deriving DecidableEq, Repr

/-- The owner the operation works on. -/
def BudgetOp.owner : BudgetOp → Option ChargeOwner
  | .nativeGrow bytes _ => some (.nativePermit bytes)
  | .grow permit _ => some (.bufferPermit permit)
  | .drop owner => some owner
  | .makeStored .. | .nativeReserve _ | .reserve .. => none

def budgetCode : BudgetOp → BudgetRoutine
  | .makeStored payload options => makeStored cfg payload options
  | .nativeReserve bytes => nativeReserve cfg bytes fun
      | some bytes => ok (some (.nativePermit bytes))
      | none => fail (.core .budgetExceeded) none
  | .nativeGrow bytes additional => tryGrow cfg bytes additional fun
      | some total => ok (some (.nativePermit total))
      | none => fail (.core .budgetExceeded) (some (.nativePermit bytes))
  | .reserve budget bytes => budget.reserve cfg bytes
  | .grow permit bytes => permit.grow cfg bytes
  | .drop (.stored bytes) => dropStored bytes (ok none)
  | .drop (.nativePermit bytes) => dropNative bytes (ok none)
  | .drop (.bufferPermit permit) => permit.drop (ok none)

/-- What an owner charges each counter. -/
def ChargeOwner.charge : ChargeOwner → BudgetCounter → ℤ
  | .stored bytes, .retained => bytes.toNat
  | .nativePermit bytes, .retained => bytes.toNat
  | .bufferPermit permit, .retained => (permit.native.map fun n => (n.toNat : ℤ)).getD 0
  | .bufferPermit permit, .used budget =>
    if budget = permit.budget.state then permit.charged.toNat else 0
  | .stored _, .used _ => 0
  | .nativePermit _, .used _ => 0

/-- Any number of threads that work on the budgets of one World. -/
def budgets : Discipline BudgetCounter ChargeOwner BudgetOp BudgetResult where
  code := budgetCode cfg
  takes op := op.owner.toList
  gives result := result.owner.toList
  weight := ChargeOwner.charge
  limit := cfg.limit

end Actorplane
