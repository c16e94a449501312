import Actorplane.Model.Observers

/-!
# Window counters

Pulses are added to a window, and a snapshot of the window is published at each
window tick and when the counter drains. The native component does this in its
hooks, the task of a counter pipeline in its own loop. What a publication
answers is up to the World.
-/

namespace Actorplane

open History (saturatingSucc)

inductive NativeError
  | core (error : Error)
  | limit (label : String)
  | application (code : String)
  | panic
  deriving DecidableEq, Repr

abbrev NativeResult := Except NativeError Unit

def checkedAddU64 (a b : ℕ) : Option ℕ := if a + b ≤ u64Max then some (a + b) else none

def checkedAddI64 (a b : ℤ) : Option ℤ :=
  if -2 ^ 63 ≤ a + b ∧ a + b < 2 ^ 63 then some (a + b) else none

/-- The window with a pulse added to it. -/
def addPulse (count : ℕ) (total value : ℤ) : Option (ℕ × ℤ) := do
  let count ← checkedAddU64 count 1
  let total ← checkedAddI64 total value
  some (count, total)

structure ComponentStats where
  generated : ℕ
  processed : ℕ
  summaries : ℕ
  sinkReceived : ℕ
  lastTotal : ℤ
  deriving DecidableEq, Repr

def ComponentStats.zero : ComponentStats := ⟨0, 0, 0, 0, 0⟩

inductive ComponentKind
  | pulseSource | windowCounter | snapshotSink
  deriving DecidableEq, Repr

/-! ## The component -/

structure BuiltinBehavior where
  kind : ComponentKind
  stats : ComponentStats
  count : ℕ
  total : ℤ
  deriving DecidableEq, Repr

namespace BuiltinBehavior

variable (b : BuiltinBehavior)

/-- A hook's result, with the state it leaves and the payloads the World has accepted. -/
abbrev Hook := NativeResult × BuiltinBehavior × List Payload

/-- `answer` is that of the publication, where the hook makes one. -/
def flush (answer : NativeResult) : Hook :=
  if b.count ≠ 0 then
    match answer with
    | .error error => (.error error, b, [])
    | .ok () =>
      (.ok (), { b with
        stats := { b.stats with
          summaries := saturatingSucc b.stats.summaries
          lastTotal := b.total }
        count := 0
        total := 0 }, [.countSnapshot b.count b.total])
  else (.ok (), b, [])

def onEvent (payload : Payload) : Hook :=
  match b.kind, payload with
  | .windowCounter, .pulse value =>
    match addPulse b.count b.total value with
    | none => (.error (.application "NativeCounterOverflow"), b, [])
    | some (count, total) =>
      (.ok (), { b with
        count := count
        total := total
        stats := { b.stats with processed := saturatingSucc b.stats.processed } }, [])
  | .snapshotSink, .countSnapshot _ _ =>
    (.ok (), { b with
      stats := { b.stats with sinkReceived := saturatingSucc b.stats.sinkReceived } }, [])
  | _, _ => (.error (.application "InvalidComponentInput"), b, [])

def onTick (answer : NativeResult) : Hook :=
  match b.kind with
  | .pulseSource =>
    match answer with
    | .error error => (.error error, b, [])
    | .ok () =>
      (.ok (), { b with
        stats := { b.stats with generated := saturatingSucc b.stats.generated } }, [.pulse 1])
  | .windowCounter => b.flush answer
  | .snapshotSink => (.ok (), b, [])

def onDrain (answer : NativeResult) : Hook :=
  match b.kind with
  | .windowCounter => b.flush answer
  | _ => (.ok (), b, [])

end BuiltinBehavior

/-- What happens to a counter; the last is its owner being stopped by anything else. -/
inductive WindowEvent
  | delivery (payload : Payload)
  | tick (answer : NativeResult)
  | drain (answer : NativeResult)
  | stop

/-- A component at work: the payloads accepted from it, its deliveries with what they were
finished with, whether its owner has been stopped, and whether its loop has ended. -/
structure ComponentRun where
  behavior : BuiltinBehavior
  accepted : List Payload
  finished : List (Payload × Bool)
  stopped : Bool
  ended : Bool

namespace ComponentRun

def start : ComponentRun where
  behavior := { kind := .windowCounter, stats := ComponentStats.zero, count := 0, total := 0 }
  accepted := []
  finished := []
  stopped := false
  ended := false

variable (r : ComponentRun)

/-- The end of a hook: the failure action of a component is to stop its owner. -/
def after (hook : BuiltinBehavior.Hook) : ComponentRun :=
  { r with
    behavior := hook.2.1
    accepted := r.accepted ++ hook.2.2
    stopped := !hook.1.isOk }

/-- `run_component`, between two looks at the state of the owner. -/
def step (event : WindowEvent) : ComponentRun :=
  if r.stopped || r.ended then r
  else match event with
    | .delivery payload =>
      let hook := r.behavior.onEvent payload
      { r.after hook with finished := r.finished ++ [(payload, hook.1.isOk)] }
    | .tick answer => r.after (r.behavior.onTick answer)
    | .drain answer => { r.after (r.behavior.onDrain answer) with ended := true }
    | .stop => { r with stopped := true }

def run (events : List WindowEvent) : ComponentRun := events.foldl step start

end ComponentRun

/-! ## The task of a pipeline -/

/-- The counter task of `start_counter`, with its locals and the statistics it keeps. -/
structure CounterTask where
  count : ℕ
  total : ℤ
  stats : ComponentStats
  accepted : List Payload
  finished : List (Payload × Bool)
  stopped : Bool
  ended : Bool

namespace CounterTask

def start : CounterTask where
  count := 0
  total := 0
  stats := ComponentStats.zero
  accepted := []
  finished := []
  stopped := false
  ended := false

variable (t : CounterTask)

/-- `publish_completion` of the window, whose answer is thrown away, and the statistics. -/
def publish (answer : NativeResult) : CounterTask :=
  { t with
    accepted := if answer.isOk then t.accepted ++ [.countSnapshot t.count t.total] else t.accepted
    stats := { t.stats with
      summaries := saturatingSucc t.stats.summaries
      lastTotal := t.total } }

/-- The update of the window a delivery calls for. -/
def update (payload : Payload) : Option (ℕ × ℤ) :=
  match payload with
  | .pulse value => addPulse t.count t.total value
  | _ => none

def step (event : WindowEvent) : CounterTask :=
  if t.stopped || t.ended then t
  else match event with
    | .tick answer =>
      if t.count ≠ 0 then { t.publish answer with count := 0, total := 0 } else t
    | .delivery payload =>
      match t.update payload with
      | none => { t with finished := t.finished ++ [(payload, false)], stopped := true }
      | some (count, total) =>
        { t with
          count := count
          total := total
          stats := { t.stats with processed := (t.stats.processed + 1) % 2 ^ 64 }
          finished := t.finished ++ [(payload, true)] }
    | .drain answer =>
      if 0 < t.count then { t.publish answer with ended := true } else { t with ended := true }
    | .stop => { t with stopped := true }

def run (events : List WindowEvent) : CounterTask := events.foldl step start

end CounterTask

end Actorplane
