import Actorplane.Lib.Crew

/-!
# CPU jobs

A reservation holds a job permit and becomes a job; a job waits for a worker in
an async future and then runs in a blocking closure that owns it. Each move
below is one atomic update of a counter or a semaphore, or a call into the
user's code. A counter is an integer: below zero it would have wrapped. The
future may be dropped wherever it waits, polled or not, and so may a blocking
closure that has not begun.
-/

namespace Actorplane

inductive CpuOutcome
  | completed | cancelled | panicked
  deriving DecidableEq, Repr

structure CpuConfig where
  workers : ℕ
  maxJobs : ℕ
  deriving DecidableEq, Repr

/-- The counters of the executor, and the permits its two semaphores have to give. -/
inductive CpuCounter
  | queued | running | submitted | completed | cancelled | panicked | rejected
  | jobs | workers
  deriving DecidableEq, Repr

def CpuOutcome.counter : CpuOutcome → CpuCounter
  | .completed => .completed
  | .cancelled => .cancelled
  | .panicked => .panicked

/-- Where a job is: in its future, between the updates of `start`, in its blocking closure, or in
its destructor and those of its fields. -/
inductive CpuStage
  | waiting | selecting
  | starting | unqueued
  | blocking | working
  | dropWork | dropCancelled (workPanicked : Bool) | retire | record
  | dropReservation | dropPermit | dropWorker | dropped
  deriving DecidableEq, Repr

/-- A job: `work` is whether it still holds its closure, `queued` the flag of its reservation and
`worker` whether it holds a worker permit. The last four fields are kept for what is said about
it: how often its closure was called, whether a cancellation was observed, whether any of its
user code panicked, and the outcomes it has counted. -/
structure CpuJob where
  work : Bool
  outcome : CpuOutcome
  queued : Bool
  worker : Bool
  stage : CpuStage
  calls : ℕ
  observed : Bool
  failed : Bool
  counted : List CpuOutcome
  deriving DecidableEq, Repr

/-- What a call of the cancellation predicate answers. -/
inductive CpuAnswer
  | proceed | cancel | panic
  deriving DecidableEq, Repr

namespace CpuJob

def new : CpuJob where
  work := true
  outcome := .cancelled
  queued := true
  worker := false
  stage := .waiting
  calls := 0
  observed := false
  failed := false
  counted := []

/-- `report_panic`, which is only called when user code has panicked. -/
def reportPanic (j : CpuJob) : CpuJob := { j with outcome := .panicked, failed := true }

/-- `is_cancelled` -/
def isCancelled (j : CpuJob) : CpuAnswer → Bool × CpuJob
  | .proceed => (false, j)
  | .cancel => (true, { j with observed := true })
  | .panic => (true, { j.reportPanic with observed := true })

/-- The future, or the closure that has not begun, may be dropped here. -/
def Droppable (j : CpuJob) : Prop :=
  j.stage = .waiting ∨ j.stage = .selecting ∨ j.stage = .blocking

inductive Step : CpuJob → CpuJob → (CpuCounter → ℤ) → Prop
  /- `run`: a turn of its loop, and the two branches of its `select!`. -/
  | poll (j : CpuJob) (answer : CpuAnswer) (h : j.stage = .waiting) :
      Step j { (j.isCancelled answer).2 with
        stage := if (j.isCancelled answer).1 then .dropWork else .selecting } 0
  | sleep (j : CpuJob) (h : j.stage = .selecting) : Step j { j with stage := .waiting } 0
  | closed (j : CpuJob) (h : j.stage = .selecting) : Step j { j with stage := .dropWork } 0
  | acquire (j : CpuJob) (h : j.stage = .selecting) :
      Step j { j with queued := false, stage := .starting } (Pi.single .workers (-1))
  /- `start`: its two updates. -/
  | unqueue (j : CpuJob) (h : j.stage = .starting) :
      Step j { j with stage := .unqueued } (Pi.single .queued (-1))
  | start (j : CpuJob) (h : j.stage = .unqueued) :
      Step j { j with worker := true, stage := .blocking } (Pi.single .running 1)
  /- `execute`: the last question, and the call of the closure. -/
  | execute (j : CpuJob) (answer : CpuAnswer) (h : j.stage = .blocking) :
      Step j (if (j.isCancelled answer).1 then
          { (j.isCancelled answer).2 with stage := .dropWork }
        else { j with work := false, calls := j.calls + 1, stage := .working }) 0
  | returned (j : CpuJob) (outcome : CpuOutcome) (h : j.stage = .working) :
      Step j { j with outcome := outcome, stage := .dropWork } 0
  | panicked (j : CpuJob) (h : j.stage = .working) :
      Step j { j.reportPanic with stage := .dropWork } 0
  | abandon (j : CpuJob) (h : j.Droppable) : Step j { j with stage := .dropWork } 0
  /- The drop of the job, where the destructor of either closure may panic. -/
  | dropWork (j : CpuJob) (panics : Bool) (h : j.stage = .dropWork) :
      Step j { j with
        work := false
        failed := j.failed || (j.work && panics)
        stage := .dropCancelled (j.work && panics) } 0
  | dropCancelled (j : CpuJob) (workPanicked panics : Bool)
      (h : j.stage = .dropCancelled workPanicked) :
      Step j { (if workPanicked || panics then j.reportPanic else j) with stage := .retire } 0
  | retire (j : CpuJob) (h : j.stage = .retire) :
      Step j { j with stage := .record } (if j.queued then 0 else Pi.single .running (-1))
  | record (j : CpuJob) (h : j.stage = .record) :
      Step j { j with counted := j.outcome :: j.counted, stage := .dropReservation }
        (Pi.single j.outcome.counter 1)
  /- The drops of its fields: the reservation, its permit, the worker's permit. -/
  | dropReservation (j : CpuJob) (h : j.stage = .dropReservation) :
      Step j { j with stage := .dropPermit } (if j.queued then Pi.single .queued (-1) else 0)
  | dropPermit (j : CpuJob) (h : j.stage = .dropPermit) :
      Step j { j with stage := .dropWorker } (Pi.single .jobs 1)
  | dropWorker (j : CpuJob) (h : j.stage = .dropWorker) :
      Step j { j with stage := .dropped } (if j.worker then Pi.single .workers 1 else 0)

end CpuJob

/-- A thread in `reserve` that has its permit, a reservation, one that is being dropped, a job. -/
inductive CpuAgent
  | reserving
  | reserved
  | releasing
  | job (j : CpuJob)
  deriving DecidableEq, Repr

namespace CpuAgent

/-- `reserve` takes a permit, or counts a rejection when there is none. -/
inductive Enter : CpuAgent → (CpuCounter → ℤ) → Prop
  | reserve : Enter .reserving (Pi.single .jobs (-1))

inductive Reject : (CpuCounter → ℤ) → (CpuCounter → ℤ) → Prop
  | reserve (counters : CpuCounter → ℤ) (h : counters .jobs = 0) :
      Reject counters (Pi.single .rejected 1)

inductive Step : CpuAgent → CpuAgent → (CpuCounter → ℤ) → Prop
  | queue : Step .reserving .reserved (Pi.single .queued 1)
  | unqueue : Step .reserved .releasing (Pi.single .queued (-1))
  | submit : Step .reserved (.job CpuJob.new) (Pi.single .submitted 1)
  | job (j j' : CpuJob) (change : CpuCounter → ℤ) (h : j.Step j' change) :
      Step (.job j) (.job j') change

inductive Leave : CpuAgent → (CpuCounter → ℤ) → Prop
  | release : Leave .releasing (Pi.single .jobs 1)
  | dropped (j : CpuJob) (h : j.stage = .dropped) : Leave (.job j) 0

end CpuAgent

/-- Any number of threads and jobs of one executor. -/
def cpuExecutor : Conduct CpuCounter CpuAgent where
  idle := CpuAgent.Reject
  enter := CpuAgent.Enter
  step := CpuAgent.Step
  leave := CpuAgent.Leave
  scarce c := c = .jobs ∨ c = .workers

/-- The counters of a fresh executor. -/
def CpuConfig.counters (cfg : CpuConfig) : CpuCounter → ℤ
  | .jobs => cfg.maxJobs
  | .workers => cfg.workers
  | _ => 0

end Actorplane
