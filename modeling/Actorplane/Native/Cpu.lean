import Actorplane.Model.Cpu

/-!
# Every CPU job is accounted for

What a job has counted and what it holds follows from where it is. So the
counters of the executor are, at every moment, sums over its reservations and
jobs.
-/

namespace Actorplane

theorem CpuCounter.single_nonneg (c d : CpuCounter) :
    0 ≤ (Pi.single c 1 : CpuCounter → ℤ) d := by
  rw [Pi.single_apply]
  split_ifs <;> simp

namespace CpuJob

/-- Nothing of the user's has been called, and nothing counted. -/
def Fresh (j : CpuJob) : Prop :=
  j.work ∧ j.calls = 0 ∧ j.observed = false ∧ j.failed = false ∧ j.counted = []

/-- The job is being dropped: it holds a worker permit if it is not queued. -/
def Ending (j : CpuJob) (counted : List CpuOutcome) : Prop :=
  j.worker = !j.queued ∧ j.counted = counted

/-- What is known of a job where it is. -/
def Placed (j : CpuJob) : Prop :=
  match j.stage with
  | .waiting | .selecting => j.Fresh ∧ j.queued = true ∧ j.worker = false
  | .starting | .unqueued => j.Fresh ∧ j.queued = false ∧ j.worker = false
  | .blocking => j.Fresh ∧ j.queued = false ∧ j.worker = true
  | .working => j.queued = false ∧ j.worker = true ∧ j.observed = false ∧ j.failed = false ∧
      j.counted = []
  | .dropWork | .retire | .record => j.Ending [] ∧ (j.failed → j.outcome = .panicked)
  | .dropCancelled workPanicked =>
    j.Ending [] ∧ (j.failed → j.outcome = .panicked ∨ workPanicked = true)
  | .dropReservation | .dropPermit | .dropWorker | .dropped =>
    j.Ending [j.outcome] ∧ (j.failed → j.outcome = .panicked)

/-- The closure is called at most once, and not after a cancellation was observed. -/
def Once (j : CpuJob) : Prop := j.calls ≤ 1 ∧ (j.observed → j.calls = 0)

theorem placed_new : new.Placed ∧ new.Once := by
  simp [Placed, Once, Fresh, new]

theorem Placed.step {j j' : CpuJob} {change : CpuCounter → ℤ} (h : j.Placed)
    (hstep : j.Step j' change) : j'.Placed := by
  cases hstep with
  | poll answer hs =>
    simp only [Placed, hs, Fresh] at h
    cases answer <;> simp [Placed, isCancelled, reportPanic, Ending, Fresh, h]
  | sleep hs =>
    simp only [Placed, hs] at h
    exact h
  | closed hs =>
    simp only [Placed, hs, Fresh] at h
    simp [Placed, Ending, h]
  | acquire hs =>
    simp only [Placed, hs, Fresh] at h
    simp [Placed, Fresh, h]
  | unqueue hs =>
    simp only [Placed, hs] at h
    exact h
  | start hs =>
    simp only [Placed, hs, Fresh] at h
    simp [Placed, Fresh, h]
  | execute answer hs =>
    simp only [Placed, hs, Fresh] at h
    cases answer <;> simp [Placed, isCancelled, reportPanic, Ending, h]
  | returned outcome hs =>
    simp only [Placed, hs] at h
    simp [Placed, Ending, h]
  | panicked hs =>
    simp only [Placed, hs] at h
    simp [Placed, Ending, reportPanic, h]
  | abandon hs =>
    rcases hs with hs | hs | hs <;>
    · simp only [Placed, hs, Fresh] at h
      simp [Placed, Ending, h]
  | dropWork panics hs =>
    simp only [Placed, hs, Ending] at h
    simp only [Placed, Ending, h, Bool.or_eq_true, true_and]
    rintro (hfailed | hpanicked)
    · exact Or.inl (h.2 hfailed)
    · exact Or.inr hpanicked
  | dropCancelled workPanicked panics hs =>
    simp only [Placed, hs, Ending] at h
    cases workPanicked <;> cases panics <;> simp_all [Placed, Ending, reportPanic]
  | retire hs =>
    simp only [Placed, hs] at h
    exact h
  | record hs =>
    simp only [Placed, hs, Ending] at h
    simp_all [Placed, Ending]
  | dropReservation hs =>
    simp only [Placed, hs] at h
    exact h
  | dropPermit hs =>
    simp only [Placed, hs] at h
    exact h
  | dropWorker hs =>
    simp only [Placed, hs] at h
    exact h

theorem Once.step {j j' : CpuJob} {change : CpuCounter → ℤ} (h : j.Once) (hplaced : j.Placed)
    (hstep : j.Step j' change) : j'.Once := by
  cases hstep with
  | poll answer hs =>
    simp only [Placed, hs, Fresh] at hplaced
    cases answer <;> simp [Once, isCancelled, reportPanic, hplaced]
  | execute answer hs =>
    simp only [Placed, hs, Fresh] at hplaced
    cases answer <;> simp [Once, isCancelled, reportPanic, hplaced]
  | dropCancelled workPanicked panics hs =>
    cases workPanicked <;> cases panics <;> exact h
  | _ => exact h

/-- Counted in `queued`. -/
def inQueue (j : CpuJob) : Bool :=
  match j.stage with
  | .waiting | .selecting | .starting => true
  | .dropWork | .dropCancelled _ | .retire | .record | .dropReservation => j.queued
  | _ => false

/-- Counted in `running`. -/
def isRunning (j : CpuJob) : Bool :=
  match j.stage with
  | .blocking | .working => true
  | .dropWork | .dropCancelled _ | .retire => !j.queued
  | _ => false

/-- Holds the job permit of its reservation. -/
def hasPermit (j : CpuJob) : Bool :=
  match j.stage with
  | .dropWorker | .dropped => false
  | _ => true

/-- Holds a worker permit, in `start` as its argument. -/
def hasWorker (j : CpuJob) : Bool :=
  match j.stage with
  | .starting | .unqueued => true
  | .dropped => false
  | _ => j.worker

/-- Alive: no outcome counted yet. -/
def alive (j : CpuJob) : Bool :=
  match j.stage with
  | .dropReservation | .dropPermit | .dropWorker | .dropped => false
  | _ => true

/-- Neither its drop nor that of its reservation has decremented a counter. -/
def undecremented (j : CpuJob) : Bool :=
  match j.stage with
  | .record | .dropReservation => j.queued
  | .dropPermit | .dropWorker | .dropped => false
  | _ => true

/-- Between the two updates of `start`. -/
def between (j : CpuJob) : Bool := j.stage = .unqueued

/-- What a job adds to each counter. -/
def share (j : CpuJob) : CpuCounter → ℤ
  | .queued => j.inQueue.toNat
  | .running => j.isRunning.toNat
  | .submitted => 1
  | .completed => j.counted.count .completed
  | .cancelled => j.counted.count .cancelled
  | .panicked => j.counted.count .panicked
  | .rejected => 0
  | .jobs => -j.hasPermit.toNat
  | .workers => -j.hasWorker.toNat

theorem Step.change {j j' : CpuJob} {change : CpuCounter → ℤ} (hstep : j.Step j' change)
    (h : j.Placed) : change = j'.share - j.share := by
  funext c
  cases hstep with
  | poll answer hs =>
    simp only [Placed, hs, Fresh] at h
    cases answer <;> cases c <;>
      simp [share, inQueue, isRunning, hasPermit, hasWorker, isCancelled, reportPanic, hs, h]
  | record hs =>
    cases ho : j.outcome <;> cases c <;>
      simp [share, inQueue, isRunning, hasPermit, hasWorker, hs, CpuOutcome.counter]
  | execute answer hs =>
    simp only [Placed, hs, Fresh] at h
    cases answer <;> cases c <;>
      simp [share, inQueue, isRunning, hasPermit, hasWorker, isCancelled, reportPanic, hs, h]
  | dropCancelled workPanicked panics hs =>
    cases workPanicked <;> cases panics <;> cases c <;>
      simp [share, inQueue, isRunning, hasPermit, hasWorker, reportPanic, hs]
  | abandon hs =>
    rcases hs with hs | hs | hs <;>
    · simp only [Placed, hs, Fresh] at h
      cases c <;> simp [share, inQueue, isRunning, hasPermit, hasWorker, hs, h]
  | sleep hs | unqueue hs | dropPermit hs | panicked hs | returned _ hs | dropWork _ hs =>
    simp only [Placed, hs] at h
    cases c <;> simp [share, inQueue, isRunning, hasPermit, hasWorker, reportPanic, hs, h]
  | closed hs | acquire hs | start hs =>
    simp only [Placed, hs, Fresh] at h
    cases c <;> simp [share, inQueue, isRunning, hasPermit, hasWorker, hs, h]
  | retire hs | dropReservation hs | dropWorker hs =>
    simp only [Placed, hs, Ending] at h
    cases hq : j.queued <;> cases c <;>
      simp [share, inQueue, isRunning, hasPermit, hasWorker, hs, h, hq]

theorem Placed.counted {j : CpuJob} (h : j.Placed) :
    j.counted = (if j.alive then [] else [j.outcome]) ∧
      (j.alive = false → j.failed → j.outcome = .panicked) := by
  unfold Placed at h
  cases hs : j.stage <;> simp_all [alive, Fresh, Ending]

theorem Placed.share_submitted {j : CpuJob} (h : j.Placed) : j.share .submitted =
    j.share .completed + j.share .cancelled + j.share .panicked + j.alive.toNat := by
  have hcounted := h.counted.1
  cases ha : j.alive with
  | true => simp [share, hcounted, ha]
  | false => cases ho : j.outcome <;> simp [share, hcounted, ha, ho]

theorem share_waiting (j : CpuJob) :
    j.share .queued + j.share .running + j.between.toNat = j.undecremented.toNat := by
  cases hs : j.stage <;> cases hq : j.queued <;>
    simp [share, inQueue, isRunning, between, undecremented, hs, hq]

theorem Placed.share_running_le {j : CpuJob} (h : j.Placed) :
    j.share .running + j.share .workers ≤ 0 := by
  unfold Placed at h
  cases hs : j.stage <;>
    simp only [hs, Fresh, Ending] at h <;>
    cases hq : j.queued <;> simp_all [share, isRunning, hasWorker]

theorem share_jobs_le (j : CpuJob) :
    j.share .queued + j.share .running + j.share .jobs ≤ 0 := by
  cases hs : j.stage <;> cases hq : j.queued <;>
    simp [share, inQueue, isRunning, hasPermit, hs, hq]

/-- No job lowers a counter that is not one of those it gives back. -/
theorem Step.rises {j j' : CpuJob} {change : CpuCounter → ℤ} (hstep : j.Step j' change)
    {c : CpuCounter} (hc : c ≠ .queued ∧ c ≠ .running ∧ c ≠ .workers) : 0 ≤ change c := by
  obtain ⟨hqueued, hrunning, hworkers⟩ := hc
  cases hstep with
  | acquire => simp [hworkers]
  | unqueue => simp [hqueued]
  | start => simp [hrunning]
  | retire =>
    split_ifs
    · simp
    · simp [hrunning]
  | record => exact CpuCounter.single_nonneg _ c
  | dropReservation =>
    split_ifs
    · simp [hqueued]
    · simp
  | dropPermit => exact CpuCounter.single_nonneg _ c
  | dropWorker =>
    split_ifs
    · simp [hworkers]
    · simp
  | _ => simp

end CpuJob

namespace CpuAgent

def IsJob (P : CpuJob → Prop) : CpuAgent → Prop
  | .job j => P j
  | _ => True

def jobIs (p : CpuJob → Bool) : CpuAgent → Bool
  | .job j => p j
  | _ => false

/-- A reservation that is not a job yet. -/
def unsubmitted : CpuAgent → Bool
  | .reserved => true
  | _ => false

def share : CpuAgent → CpuCounter → ℤ
  | .reserving | .releasing => Pi.single .jobs (-1)
  | .reserved => Pi.single .queued 1 + Pi.single .jobs (-1)
  | .job j => j.share

/-- How often an agent has counted an outcome. -/
def counts (o : CpuOutcome) : CpuAgent → ℤ
  | .job j => j.counted.count o
  | _ => 0

/-- What remains of an agent in the counters when it has left. -/
def left : CpuAgent → CpuCounter → ℤ
  | .job j => j.share
  | _ => 0

/-- What holds of a job wherever it is. -/
def Sound : CpuAgent → Prop := IsJob fun j => j.Placed ∧ j.Once

theorem Enter.sound {a : CpuAgent} {change : CpuCounter → ℤ} (h : a.Enter change) : a.Sound := by
  cases h
  trivial

theorem Step.sound {a a' : CpuAgent} {change : CpuCounter → ℤ} (h : a.Step a' change)
    (ha : a.Sound) : a'.Sound := by
  cases h with
  | queue => trivial
  | unqueue => trivial
  | submit => exact CpuJob.placed_new
  | job j j' change h => exact ⟨ha.1.step h, ha.2.step ha.1 h⟩

theorem Step.change {a a' : CpuAgent} {change : CpuCounter → ℤ} (h : a.Step a' change)
    (ha : a.Sound) : change = a'.share - a.share := by
  cases h with
  | queue => simp [share]
  | unqueue => simp [share, Pi.single_neg]
  | submit =>
    funext c
    cases c <;> simp [share, CpuJob.share, CpuJob.new, CpuJob.inQueue, CpuJob.isRunning,
      CpuJob.hasPermit, CpuJob.hasWorker]
  | job j j' change h => exact h.change ha.1

theorem Leave.change {a : CpuAgent} {change : CpuCounter → ℤ} (h : a.Leave change) :
    change = a.left - a.share := by
  cases h with
  | release => simp [share, left, Pi.single_neg]
  | dropped j h => simp [share, left]

/-- The counters that are only ever raised. -/
def Rising (c : CpuCounter) : Prop := c ≠ .queued ∧ c ≠ .running ∧ c ≠ .jobs ∧ c ≠ .workers

theorem Step.rises {a a' : CpuAgent} {change : CpuCounter → ℤ} (h : a.Step a' change)
    {c : CpuCounter} (hc : Rising c) : 0 ≤ change c := by
  obtain ⟨hqueued, hrunning, hjobs, hworkers⟩ := hc
  cases h with
  | queue => simp [hqueued]
  | unqueue => simp [hqueued]
  | submit => exact CpuCounter.single_nonneg _ c
  | job j j' change h => exact h.rises ⟨hqueued, hrunning, hworkers⟩

theorem share_submitted {a : CpuAgent} (ha : a.Sound) : a.share .submitted = a.share .completed +
    a.share .cancelled + a.share .panicked + (a.jobIs CpuJob.alive).toNat := by
  cases a with
  | job j => exact ha.1.share_submitted
  | _ => simp [share, jobIs]

theorem left_submitted {a : CpuAgent} {change : CpuCounter → ℤ} (h : a.Leave change)
    (ha : a.Sound) :
    a.left .submitted = a.left .completed + a.left .cancelled + a.left .panicked := by
  cases h with
  | release => rfl
  | dropped j h =>
    have := CpuAgent.share_submitted ha
    simpa [share, left, jobIs, CpuJob.alive, h] using this

theorem share_waiting (a : CpuAgent) :
    a.share .queued + a.share .running + (a.jobIs CpuJob.between).toNat =
      a.unsubmitted.toNat + (a.jobIs CpuJob.undecremented).toNat := by
  cases a with
  | job j => simpa [share, jobIs, unsubmitted] using j.share_waiting
  | _ => simp [share, jobIs, unsubmitted]

theorem Leave.left_eq_zero {a : CpuAgent} {change : CpuCounter → ℤ} (h : a.Leave change) :
    a.left .queued = 0 ∧ a.left .running = 0 ∧ a.left .jobs = 0 ∧ a.left .workers = 0 := by
  cases h with
  | release => simp [left]
  | dropped j h =>
    simp [left, CpuJob.share, CpuJob.inQueue, CpuJob.isRunning, CpuJob.hasPermit,
      CpuJob.hasWorker, h]

theorem share_running_le {a : CpuAgent} (ha : a.Sound) :
    a.share .running + a.share .workers ≤ 0 := by
  cases a with
  | job j => exact ha.1.share_running_le
  | _ => simp [share]

theorem share_jobs_le (a : CpuAgent) :
    a.share .queued + a.share .running + a.share .jobs ≤ 0 := by
  cases a with
  | job j => exact j.share_jobs_le
  | _ => simp [share]

theorem share_nonneg (a : CpuAgent) : 0 ≤ a.share .queued ∧ 0 ≤ a.share .running := by
  cases a <;> simp [share, CpuJob.share]

/-- Every counter but that of the rejections is the sum of the shares. -/
theorem balanced {c : CpuCounter} (hc : c ≠ .rejected) :
    cpuExecutor.Balanced Sound (Pi.evalAddMonoidHom (fun _ => ℤ) c) (share · c) (left · c) where
  idle counters change h := by
    cases h
    simp [hc]
  enter a change h := by
    cases h
    rfl
  step a a' change h ha := by
    rw [Step.change h ha]
    rfl
  leave a change h _ := by
    rw [Leave.change h]
    rfl

end CpuAgent

/-! ## The accounts of the executor -/

/-- What is accounted of the jobs of an executor, at any moment. -/
structure CpuAccounts (cfg : CpuConfig) (s : Crew CpuCounter CpuAgent) : Prop where
  submitted : s.counters .submitted = s.counters .completed + s.counters .cancelled +
    s.counters .panicked + s.agents.countP (CpuAgent.jobIs CpuJob.alive)
  waiting : s.counters .queued + s.counters .running +
      s.agents.countP (CpuAgent.jobIs CpuJob.between) =
    s.agents.countP CpuAgent.unsubmitted + s.agents.countP (CpuAgent.jobIs CpuJob.undecremented)
  running : s.counters .running ≤ cfg.workers
  jobs : s.counters .queued + s.counters .running ≤ cfg.maxJobs
  nonneg : ∀ c, 0 ≤ s.counters c
  counted : ∀ o : CpuOutcome, s.counters o.counter =
    ((s.agents ++ s.gone).map (CpuAgent.counts o)).sum
  outcome : ∀ j, .job j ∈ s.agents ++ s.gone →
    j.counted = (if j.alive then [] else [j.outcome]) ∧
      (j.alive = false → j.failed → j.outcome = .panicked)
  gone : ∀ j, .job j ∈ s.gone → j.alive = false
  once : ∀ j, .job j ∈ s.agents ++ s.gone → j.calls ≤ 1 ∧ (j.observed → j.calls = 0)

variable {cfg : CpuConfig} {s : Crew CpuCounter CpuAgent}

namespace CpuAgent

theorem sound (h : cpuExecutor.Reachable cfg.counters s) :
    (∀ a ∈ s.agents, a.Sound) ∧ ∀ a ∈ s.gone, a.Sound :=
  h.agents (fun _ _ => Enter.sound) (fun _ _ _ => Step.sound)

theorem gone (h : cpuExecutor.Reachable cfg.counters s) {P : CpuAgent → Prop}
    (hleave : ∀ a change, Leave a change → a.Sound → P a) : ∀ a ∈ s.gone, P a :=
  h.gone (fun _ _ => Enter.sound) (fun _ _ _ => Step.sound) hleave

theorem counter (h : cpuExecutor.Reachable cfg.counters s) {c : CpuCounter} (hc : c ≠ .rejected) :
    s.counters c = cfg.counters c + (s.agents.map (·.share c)).sum +
      (s.gone.map (·.left c)).sum :=
  h.balance (fun _ _ => Enter.sound) (fun _ _ _ => Step.sound) (balanced hc)

/-- Those that have left hold no place in the queue, no worker and no permit. -/
theorem counter_held (h : cpuExecutor.Reachable cfg.counters s) {c : CpuCounter}
    (hc : c = .queued ∨ c = .running ∨ c = .jobs ∨ c = .workers) :
    s.counters c = cfg.counters c + (s.agents.map (·.share c)).sum := by
  have hzero : ∀ a ∈ s.gone, a.left c = 0 := by
    refine gone h (P := fun a => a.left c = 0) ?_
    intro a change hleave _
    obtain ⟨hqueued, hrunning, hjobs, hworkers⟩ := hleave.left_eq_zero
    rcases hc with rfl | rfl | rfl | rfl <;> assumption
  rw [counter h (by rcases hc with rfl | rfl | rfl | rfl <;> decide), List.map_congr_left hzero]
  simp

theorem submitted (h : cpuExecutor.Reachable cfg.counters s) : s.counters .submitted =
    s.counters .completed + s.counters .cancelled + s.counters .panicked +
      s.agents.countP (jobIs CpuJob.alive) := by
  have hagents := List.map_congr_left fun a ha => share_submitted ((sound h).1 a ha)
  have hgone := List.map_congr_left (gone h fun a change => left_submitted)
  rw [counter h (by decide), counter h (c := .completed) (by decide),
    counter h (c := .cancelled) (by decide), counter h (c := .panicked) (by decide), hagents, hgone]
  simp only [List.sum_map_add, sum_map_toNat_eq_countP, CpuConfig.counters]
  omega

theorem waiting (h : cpuExecutor.Reachable cfg.counters s) :
    s.counters .queued + s.counters .running + s.agents.countP (jobIs CpuJob.between) =
      s.agents.countP unsubmitted + s.agents.countP (jobIs CpuJob.undecremented) := by
  have hagents := congrArg List.sum
    (List.map_congr_left (l := s.agents) fun a _ => share_waiting a)
  simp only [List.sum_map_add, sum_map_toNat_eq_countP] at hagents
  have hqueued := counter_held h (c := .queued) (by simp)
  have hrunning := counter_held h (c := .running) (by simp)
  simp only [CpuConfig.counters] at hqueued hrunning
  omega

theorem scarce (h : cpuExecutor.Reachable cfg.counters s) :
    0 ≤ s.counters .jobs ∧ 0 ≤ s.counters .workers := by
  have hidle : ∀ counters change, Reject counters change →
      0 ≤ change .jobs ∧ 0 ≤ change .workers := by
    intro counters change hreject
    cases hreject
    simp
  have hleave : ∀ a change, Leave a change → 0 ≤ change .jobs ∧ 0 ≤ change .workers := by
    intro a change hleave
    cases hleave <;> simp
  constructor
  · apply h.scarce (Or.inl rfl) (by simp [CpuConfig.counters])
    · intro counters change hreject
      exact (hidle counters change hreject).1
    · intro a change h
      exact (hleave a change h).1
  · apply h.scarce (Or.inr rfl) (by simp [CpuConfig.counters])
    · intro counters change hreject
      exact (hidle counters change hreject).2
    · intro a change h
      exact (hleave a change h).2

theorem sum_share_le (h : cpuExecutor.Reachable cfg.counters s) {f : CpuAgent → ℤ}
    (hf : ∀ a, a.Sound → f a ≤ 0) : (s.agents.map f).sum ≤ 0 := by
  have := List.sum_le_sum fun a ha => hf a ((sound h).1 a ha)
  simpa using this

theorem running_le (h : cpuExecutor.Reachable cfg.counters s) :
    s.counters .running ≤ cfg.workers := by
  have hrunning := counter_held h (c := .running) (by simp)
  have hworkers := counter_held h (c := .workers) (by simp)
  have hle := sum_share_le h fun a => share_running_le
  have hscarce := (scarce h).2
  simp only [CpuConfig.counters, List.sum_map_add] at hrunning hworkers hle
  omega

theorem jobs_le (h : cpuExecutor.Reachable cfg.counters s) :
    s.counters .queued + s.counters .running ≤ cfg.maxJobs := by
  have hqueued := counter_held h (c := .queued) (by simp)
  have hrunning := counter_held h (c := .running) (by simp)
  have hjobs := counter_held h (c := .jobs) (by simp)
  have hle := sum_share_le h fun a _ => share_jobs_le a
  have hscarce := (scarce h).1
  simp only [CpuConfig.counters, List.sum_map_add] at hqueued hrunning hjobs hle
  omega

theorem raised (h : cpuExecutor.Reachable cfg.counters s) {c : CpuCounter} (hc : Rising c)
    (hstart : 0 ≤ cfg.counters c) : 0 ≤ s.counters c := by
  apply h.nonneg hstart
  · intro counters change hreject
    cases hreject
    exact CpuCounter.single_nonneg _ c
  · intro a change henter
    cases henter
    simp [hc.2.2.1]
  · intro a a' change hstep
    exact Step.rises hstep hc
  · intro a change hleave
    cases hleave with
    | release => exact CpuCounter.single_nonneg _ c
    | dropped => simp

theorem nonneg (h : cpuExecutor.Reachable cfg.counters s) (c : CpuCounter) :
    0 ≤ s.counters c := by
  have hshares (f : CpuAgent → ℤ) (hf : ∀ a, 0 ≤ f a) : 0 ≤ (s.agents.map f).sum := by
    apply List.sum_nonneg
    intro n hn
    obtain ⟨a, _, rfl⟩ := List.mem_map.mp hn
    exact hf a
  cases c with
  | queued =>
    rw [counter_held h (by simp)]
    simpa [CpuConfig.counters] using hshares _ fun a => a.share_nonneg.1
  | running =>
    rw [counter_held h (by simp)]
    simpa [CpuConfig.counters] using hshares _ fun a => a.share_nonneg.2
  | jobs => exact (scarce h).1
  | workers => exact (scarce h).2
  | submitted | completed | cancelled | panicked | rejected =>
    exact raised h (by simp [Rising]) (by simp [CpuConfig.counters])

theorem counted (h : cpuExecutor.Reachable cfg.counters s) (o : CpuOutcome) :
    s.counters o.counter = ((s.agents ++ s.gone).map (counts o)).sum := by
  have hshare (a : CpuAgent) : a.share o.counter = counts o a := by
    cases a <;> cases o <;> simp [share, counts, CpuJob.share, CpuOutcome.counter]
  have hleft (a : CpuAgent) : a.left o.counter = counts o a := by
    cases a <;> cases o <;> simp [left, counts, CpuJob.share, CpuOutcome.counter]
  rw [counter h (by cases o <;> decide)]
  simp only [hshare, hleft, List.map_append, List.sum_append]
  cases o <;> simp [CpuConfig.counters, CpuOutcome.counter]

theorem job_sound (h : cpuExecutor.Reachable cfg.counters s) {j : CpuJob}
    (hj : .job j ∈ s.agents ++ s.gone) : j.Placed ∧ j.Once := by
  rcases List.mem_append.mp hj with hj | hj
  · exact (sound h).1 _ hj
  · exact (sound h).2 _ hj

theorem gone_alive (h : cpuExecutor.Reachable cfg.counters s) (j : CpuJob)
    (hj : .job j ∈ s.gone) : j.alive = false := by
  have hgone : ∀ a ∈ s.gone, a.jobIs CpuJob.alive = false := by
    refine gone h (P := fun a => a.jobIs CpuJob.alive = false) ?_
    intro a change hleave _
    cases hleave with
    | release => rfl
    | dropped j hs => simp [jobIs, CpuJob.alive, hs]
  exact hgone _ hj

end CpuAgent

/-- The accounts hold at every moment of every interleaving. -/
theorem cpu_accounts (cfg : CpuConfig) (s : Crew CpuCounter CpuAgent)
    (h : cpuExecutor.Reachable cfg.counters s) : CpuAccounts cfg s where
  submitted := CpuAgent.submitted h
  waiting := CpuAgent.waiting h
  running := CpuAgent.running_le h
  jobs := CpuAgent.jobs_le h
  nonneg := CpuAgent.nonneg h
  counted := CpuAgent.counted h
  outcome _ hj := (CpuAgent.job_sound h hj).1.counted
  gone := CpuAgent.gone_alive h
  once _ hj := (CpuAgent.job_sound h hj).2

/-- A lone job between the two updates of `start`. -/
def startingJob : CpuJob :=
  { CpuJob.new with queued := false, stage := .unqueued }

def startingCrew : Crew CpuCounter CpuAgent where
  counters := CpuConfig.counters ⟨1, 1⟩ + Pi.single .jobs (-1) + Pi.single .queued 1 +
    Pi.single .submitted 1 + 0 + Pi.single .workers (-1) + Pi.single .queued (-1)
  agents := [.job startingJob]
  gone := []

theorem startingCrew_reachable :
    cpuExecutor.Reachable (CpuConfig.counters ⟨1, 1⟩) startingCrew := by
  have hreserve : cpuExecutor.Reachable (CpuConfig.counters ⟨1, 1⟩)
      ⟨CpuConfig.counters ⟨1, 1⟩ + Pi.single .jobs (-1), [.reserving], []⟩ :=
    Conduct.Reachable.enter .reserve (by rintro c (rfl | rfl) <;> decide)
  have hqueue := hreserve.step CpuAgent.Step.queue (by rintro c (rfl | rfl) <;> decide)
  have hsubmit := hqueue.step CpuAgent.Step.submit (by rintro c (rfl | rfl) <;> decide)
  have hpoll := hsubmit.step (.job _ _ _ (.poll _ .proceed rfl))
    (by rintro c (rfl | rfl) <;> decide)
  have hacquire := hpoll.step (.job _ _ _ (.acquire _ rfl)) (by rintro c (rfl | rfl) <;> decide)
  exact hacquire.step (.job _ _ _ (.unqueue _ rfl)) (by rintro c (rfl | rfl) <;> decide)

/-- The job is in neither counter there, though no drop has begun. -/
theorem cpu_between_updates : ¬ ∀ (cfg : CpuConfig) (s : Crew CpuCounter CpuAgent),
    cpuExecutor.Reachable cfg.counters s →
      s.counters .queued + s.counters .running = s.agents.countP CpuAgent.unsubmitted +
        s.agents.countP (CpuAgent.jobIs fun j => j.alive && j.undecremented) := by
  intro h
  exact absurd (h ⟨1, 1⟩ startingCrew startingCrew_reachable) (by decide)

theorem cpu_accounts_between : CpuAccounts ⟨1, 1⟩ startingCrew :=
  cpu_accounts ⟨1, 1⟩ startingCrew startingCrew_reachable

end Actorplane
