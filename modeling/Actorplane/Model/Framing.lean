import Actorplane.Lib.Bytes
import Actorplane.Model.Buffers

/-!
# Frames on a byte stream

A frame is its length in four bytes, most significant first, and its payload. A
reader fills the header and then a body that has been charged to a budget. How
the stream is cut into reads, what else a read may answer and how the allocator
rounds a capacity are up to the transport; a read that is cancelled drops the
future that waits for it, and with it the permit that it holds.
-/

namespace Actorplane

/-- What a read answers instead of bytes, or that the future is dropped while it waits. -/
inductive ReadFault
  | error (kind : ℕ)
  | cancelled
  deriving DecidableEq, Repr

/-- How the environment answers, by the number of reads made so far. -/
structure Transport where
  split : ℕ → ℕ
  fault : ℕ → Option ReadFault
  allocate : ℕ → UInt64 → Option UInt64

/-- The bytes still to come, and the number of reads made. -/
structure FrameReader where
  stream : List UInt8
  reads : ℕ
  deriving DecidableEq, Repr

/-- How a future ends early. -/
inductive FrameExit
  | error (e : FrameError)
  | cancelled
  deriving DecidableEq, Repr

def ReadFault.exit : ReadFault → FrameExit
  | .error kind => .error (.io kind)
  | .cancelled => .cancelled

namespace Transport

variable (env : Transport)

/-- The bytes one read moves into a buffer with room for `room` of them: at least one, unless
the stream has ended. -/
def count (r : FrameReader) (room : ℕ) : ℕ :=
  min (max 1 (env.split r.reads)) (min room r.stream.length)

def read (r : FrameReader) (room : ℕ) : Except ReadFault (List UInt8) × FrameReader :=
  match env.fault r.reads with
  | some fault => (.error fault, { r with reads := r.reads + 1 })
  | none => (.ok (r.stream.take (env.count r room)),
      { stream := r.stream.drop (env.count r room), reads := r.reads + 1 })

/-- The loop of `read_exact_frame`, with the bytes read so far. -/
def fill (r : FrameReader) (needed : ℕ) (bytes : List UInt8) :
    Except FrameExit (Option (List UInt8)) × FrameReader :=
  if hneeded : needed = 0 then (.ok (some bytes), r)
  else
    match env.read r needed with
    | (.error fault, r) => (.error fault.exit, r)
    | (.ok chunk, r) =>
      if hchunk : chunk = [] then
        if bytes = [] then (.ok none, r) else (.error (.error .truncated), r)
      else fill r (needed - chunk.length) (bytes ++ chunk)
termination_by needed
decreasing_by
  have := List.length_pos_iff.mpr hchunk
  omega

/-- `read_exact_frame`: whether the buffer was filled, and with what. -/
def readExactFrame (r : FrameReader) (length : ℕ) :
    Except FrameExit (Option (List UInt8)) × FrameReader :=
  env.fill r length []

end Transport

/-! ## Reading a frame -/

def isizeMax : ℕ := 2 ^ 63 - 1

structure FrameBuffer where
  bytes : List UInt8
  permit : BufferPermit
  deriving DecidableEq, Repr

abbrev BudgetCounters := BudgetCounter → UInt64

/-- The permit an operation ends with, when it does not fail. -/
def BudgetResult.permit (result : BudgetResult) : Option BufferPermit :=
  match result.failure, result.owner with
  | none, some (.bufferPermit permit) => some permit
  | _, _ => none

/-- Dropping a permit at the end of its scope. -/
def BufferPermit.release (permit : BufferPermit) (counters : BudgetCounters) : BudgetCounters :=
  ((permit.drop (BudgetRoutine.ok none)).exec counters).2

/-- What `read_frame` leaves: its answer, the reader and the counters. -/
structure FrameRead where
  answer : Except FrameExit (Option FrameBuffer)
  reader : FrameReader
  counters : BudgetCounters

section

variable (cfg : BudgetLimits) (env : Transport) (budget : BufferBudget)

/-- The body of `read_frame`, with the permit it holds. -/
def readBody (length : ℕ) (permit : BufferPermit) (r : FrameReader) (counters : BudgetCounters) :
    FrameRead :=
  match env.readExactFrame r length with
  | (.error exit, r) => ⟨.error exit, r, permit.release counters⟩
  | (.ok none, r) => ⟨.error (.error .truncated), r, permit.release counters⟩
  | (.ok (some bytes), r) => ⟨.ok (some { bytes := bytes, permit := permit }), r, counters⟩

/-- The allocation of `read_frame`: the permit grows to the capacity the allocator gives. -/
def allocateBody (length : ℕ) (permit : BufferPermit) (r : FrameReader)
    (counters : BudgetCounters) : FrameRead :=
  match env.allocate r.reads (UInt64.ofNat length) with
  | none => ⟨.error (.error .allocationFailed), r, permit.release counters⟩
  | some actual =>
    if UInt64.ofNat length < actual then
      let (result, counters) := (permit.grow cfg (actual - UInt64.ofNat length)).exec counters
      match result.permit with
      | some permit => readBody env length permit r counters
      | none => ⟨.error (.error .budgetExceeded), r, permit.release counters⟩
    else readBody env length permit r counters

def readFrame (maxFrameBytes : ℕ) (r : FrameReader) (counters : BudgetCounters) : FrameRead :=
  match env.readExactFrame r 4 with
  | (.error exit, r) => ⟨.error exit, r, counters⟩
  | (.ok none, r) => ⟨.ok none, r, counters⟩
  | (.ok (some header), r) =>
    let length := Bytes.value header.reverse
    if maxFrameBytes < length then ⟨.error (.error .tooLarge), r, counters⟩
    else if isizeMax < length then ⟨.error (.error .invalidConfig), r, counters⟩
    else
      let (result, counters) := (budget.reserve cfg (UInt64.ofNat length)).exec counters
      match result.permit with
      | none => ⟨.error (.error .budgetExceeded), r, counters⟩
      | some permit => allocateBody cfg env length permit r counters

/-- A reader that calls `read_frame` until it ends, at most `calls` times, on the counters each
call finds: the frames it is given, and how it ends. -/
def readFrames (maxFrameBytes : ℕ) (counters : ℕ → BudgetCounters) :
    (calls : ℕ) → FrameReader → List (List UInt8) × Option (Except FrameExit Unit)
  | 0, _ => ([], none)
  | calls + 1, r =>
    let read := readFrame cfg env budget maxFrameBytes r (counters calls)
    match read.answer with
    | .error exit => ([], some (.error exit))
    | .ok none => ([], some (.ok ()))
    | .ok (some frame) =>
      let (frames, ending) := readFrames maxFrameBytes counters calls read.reader
      (frame.bytes :: frames, ending)

end

/-! ## Writing a frame -/

/-- The bytes `write_frame` writes. -/
def writeFrame (payload : List UInt8) (maxFrameBytes : ℕ) : Except FrameError (List UInt8) :=
  if maxFrameBytes < payload.length ∨ u32Max < payload.length then .error .tooLarge
  else .ok ((Bytes.little 4 payload.length).reverse ++ payload)

def writeFrames (payloads : List (List UInt8)) (maxFrameBytes : ℕ) :
    Except FrameError (List UInt8) := do
  let frames ← payloads.mapM (writeFrame · maxFrameBytes)
  return frames.flatten

end Actorplane
