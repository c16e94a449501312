import Actorplane.Model.WindowCounter

/-!
# Window counters lose nothing

The snapshots accepted from a counter and its window add up to the pulses it has
processed. A component keeps its window when a snapshot is refused. The task of
a pipeline clears it all the same, so that it keeps its books exactly as long as
no refusal meets a window with something in it.
-/

namespace Actorplane

def Payload.snapshotCount : Payload → ℕ
  | .countSnapshot count _ => count
  | _ => 0

def Payload.snapshotTotal : Payload → ℤ
  | .countSnapshot _ total => total
  | _ => 0

/-- The value of a pulse that was processed. -/
def processedPulse : Payload × Bool → Option ℤ
  | (.pulse value, true) => some value
  | _ => none

/-- What a counter has in its window, in its statistics, and has to show for itself. -/
structure WindowBooks where
  count : ℕ
  total : ℤ
  stats : ComponentStats
  accepted : List Payload
  finished : List (Payload × Bool)

namespace WindowBooks

/-- Nothing is lost, and the statistics are those of the accepted snapshots. -/
structure Balanced (b : WindowBooks) : Prop where
  count : (b.accepted.map Payload.snapshotCount).sum + b.count =
    (b.finished.filterMap processedPulse).length
  total : (b.accepted.map Payload.snapshotTotal).sum + b.total =
    (b.finished.filterMap processedPulse).sum
  summaries : b.stats.summaries = min b.accepted.length u64Max
  lastTotal : b.stats.lastTotal = (b.accepted.getLast?.map Payload.snapshotTotal).getD 0

variable {b : WindowBooks}

theorem Balanced.failed (h : b.Balanced) (payload : Payload) :
    Balanced { b with finished := b.finished ++ [(payload, false)] } where
  count := by simpa [processedPulse] using h.count
  total := by simpa [processedPulse] using h.total
  summaries := h.summaries
  lastTotal := h.lastTotal

theorem addPulse_eq_some {count count' : ℕ} {total total' value : ℤ}
    (h : addPulse count total value = some (count', total')) :
    count' = count + 1 ∧ total' = total + value := by
  unfold addPulse checkedAddU64 checkedAddI64 at h
  split_ifs at h <;> simp_all

theorem Balanced.pulse (h : b.Balanced) {value total : ℤ} {count : ℕ}
    (hadd : addPulse b.count b.total value = some (count, total)) (processed : ℕ) :
    Balanced { b with
      count := count
      total := total
      stats := { b.stats with processed := processed }
      finished := b.finished ++ [(.pulse value, true)] } where
  count := by
    have := h.count
    simp only [(addPulse_eq_some hadd).1, List.filterMap_append, List.length_append]
    simp [processedPulse]
    omega
  total := by
    have := h.total
    simp only [(addPulse_eq_some hadd).2, List.filterMap_append, List.sum_append]
    simp [processedPulse]
    omega
  summaries := h.summaries
  lastTotal := h.lastTotal

theorem Balanced.publish (h : b.Balanced) :
    Balanced { b with
      count := 0
      total := 0
      stats := { b.stats with
        summaries := History.saturatingSucc b.stats.summaries
        lastTotal := b.total }
      accepted := b.accepted ++ [.countSnapshot b.count b.total] } where
  count := by
    have := h.count
    simpa [Payload.snapshotCount] using this
  total := by
    have := h.total
    simpa [Payload.snapshotTotal] using this
  summaries := by
    have := h.summaries
    simp only [History.saturatingSucc, this, List.length_append, List.length_singleton]
    generalize u64Max = limit
    omega
  lastTotal := by simp [Payload.snapshotTotal]

end WindowBooks

open WindowBooks

namespace ComponentRun

def books (r : ComponentRun) : WindowBooks where
  count := r.behavior.count
  total := r.behavior.total
  stats := r.behavior.stats
  accepted := r.accepted
  finished := r.finished

theorem run_append (events : List WindowEvent) (event : WindowEvent) :
    run (events ++ [event]) = (run events).step event := by
  simp [run, List.foldl_append]

/-- A flush publishes the window and clears it, or leaves everything as it is. -/
theorem balanced_flush {r : ComponentRun} (h : r.books.Balanced) (answer : NativeResult) :
    (r.after (r.behavior.flush answer)).books.Balanced ∧
      (r.behavior.flush answer).2.1.kind = r.behavior.kind := by
  unfold BuiltinBehavior.flush
  by_cases hcount : r.behavior.count = 0
  · simpa [hcount, after, books] using h
  · cases answer with
    | error error => simpa [hcount, after, books] using h
    | ok => simpa [hcount, after, books] using h.publish

/-- The component stays a counter, with its books balanced. -/
theorem step_balanced {r : ComponentRun} (hkind : r.behavior.kind = .windowCounter)
    (h : r.books.Balanced) (event : WindowEvent) :
    (r.step event).behavior.kind = .windowCounter ∧ (r.step event).books.Balanced := by
  unfold step
  split_ifs
  · exact ⟨hkind, h⟩
  cases event with
  | delivery payload =>
    cases payload with
    | pulse value =>
      cases hadd : addPulse r.behavior.count r.behavior.total value with
      | none =>
        have := h.failed (.pulse value)
        simpa [BuiltinBehavior.onEvent, hkind, hadd, after, books, Except.isOk, Except.toBool] using this
      | some window =>
        obtain ⟨count, total⟩ := window
        have := h.pulse hadd (History.saturatingSucc r.behavior.stats.processed)
        simpa [BuiltinBehavior.onEvent, hkind, hadd, after, books, Except.isOk, Except.toBool] using this
    | countSnapshot count total =>
      have := h.failed (.countSnapshot count total)
      simpa [BuiltinBehavior.onEvent, hkind, after, books, Except.isOk, Except.toBool] using this
    | record schema integers capacity =>
      have := h.failed (.record schema integers capacity)
      simpa [BuiltinBehavior.onEvent, hkind, after, books, Except.isOk, Except.toBool] using this
    | structured record =>
      have := h.failed (.structured record)
      simpa [BuiltinBehavior.onEvent, hkind, after, books, Except.isOk, Except.toBool] using this
  | tick answer =>
    have := balanced_flush h answer
    simp only [BuiltinBehavior.onTick, hkind]
    exact ⟨this.2.trans hkind, this.1⟩
  | drain answer =>
    have := balanced_flush h answer
    simp only [BuiltinBehavior.onDrain, hkind]
    exact ⟨this.2.trans hkind, this.1⟩
  | stop => exact ⟨hkind, h⟩

theorem run_balanced (events : List WindowEvent) :
    (run events).behavior.kind = .windowCounter ∧ (run events).books.Balanced := by
  induction events using List.reverseRecOn with
  | nil =>
    refine ⟨rfl, ?_⟩
    constructor <;> rfl
  | append_singleton events event ih =>
    rw [run_append]
    exact step_balanced ih.1 ih.2 event

end ComponentRun

namespace CounterTask

/-- When its loop has ended, the locals of the task are gone. -/
def books (t : CounterTask) : WindowBooks where
  count := if t.ended then 0 else t.count
  total := if t.ended then 0 else t.total
  stats := t.stats
  accepted := t.accepted
  finished := t.finished

theorem run_append (events : List WindowEvent) (event : WindowEvent) :
    run (events ++ [event]) = (run events).step event := by
  simp [run, List.foldl_append]

def Running (t : CounterTask) : Prop := t.stopped = false ∧ t.ended = false

end CounterTask

/-- The publication is refused, if one is made. -/
def WindowEvent.Refuses : WindowEvent → Prop
  | .tick (.error _) => True
  | .drain (.error _) => True
  | _ => False

namespace CounterTask

/-- An empty window has no total. -/
theorem run_empty (events : List WindowEvent) :
    (run events).count = 0 → (run events).total = 0 := by
  induction events using List.reverseRecOn with
  | nil => intro; rfl
  | append_singleton events event ih =>
    rw [run_append]
    generalize run events = t at ih
    by_cases hdone : t.stopped || t.ended
    · simpa [step, hdone] using ih
    unfold step
    rw [if_neg hdone]
    cases event with
    | delivery payload =>
      cases hupdate : t.update payload with
      | none => simpa [hupdate] using ih
      | some window =>
        obtain ⟨count, total⟩ := window
        cases payload with
        | pulse value =>
          have := (addPulse_eq_some hupdate).1
          intro hcount
          simp only [hupdate] at hcount
          omega
        | _ => simp [update] at hupdate
    | tick answer =>
      by_cases hcount : t.count = 0 <;> simp [hcount, ih]
    | drain answer =>
      by_cases hcount : t.count = 0
      · simp [hcount, ih]
      · simp [Nat.pos_of_ne_zero hcount, publish, hcount]
    | stop => exact ih

theorem Running.step {t : CounterTask} (h : t.Running) : (t.stopped || t.ended) = false := by
  simp [h.1, h.2]

/-- Only a refusal of a window with something in it can unbalance the books. -/
theorem step_balanced {t : CounterTask} (hempty : t.count = 0 → t.total = 0)
    (h : t.books.Balanced) (event : WindowEvent)
    (hrefused : event.Refuses → t.Running → t.count = 0) : (t.step event).books.Balanced := by
  by_cases hdone : t.stopped || t.ended
  · simpa [step, hdone] using h
  have hrunning : t.Running := by simpa [Running] using hdone
  have hbooks : t.books = ⟨t.count, t.total, t.stats, t.accepted, t.finished⟩ := by
    simp [books, hrunning.2]
  rw [hbooks] at h
  unfold step
  rw [if_neg hdone]
  cases event with
  | delivery payload =>
    cases hupdate : t.update payload with
    | none => simpa [hupdate, books, hrunning.2] using h.failed payload
    | some window =>
      obtain ⟨count, total⟩ := window
      cases payload with
      | pulse value =>
        have := h.pulse hupdate ((t.stats.processed + 1) % 2 ^ 64)
        simpa [hupdate, books, hrunning.2] using this
      | _ => simp [update] at hupdate
  | tick answer =>
    by_cases hcount : t.count = 0
    · simpa [hcount, books, hrunning.2] using h
    · cases answer with
      | error error => exact absurd (hrefused trivial hrunning) hcount
      | ok =>
        have := h.publish
        simpa [hcount, books, publish, hrunning.2, Except.isOk, Except.toBool] using this
  | drain answer =>
    by_cases hcount : t.count = 0
    · have htotal := hempty hcount
      simpa [hcount, htotal, books] using h
    · have hpos : 0 < t.count := Nat.pos_of_ne_zero hcount
      cases answer with
      | error error => exact absurd (hrefused trivial hrunning) hcount
      | ok =>
        have := h.publish
        simpa [hpos, books, publish, Except.isOk, Except.toBool] using this
  | stop => simpa [books, hrunning.2] using h

/-- A refusal of a window with something in it unbalances them. -/
theorem step_loses {t : CounterTask} (hrunning : t.Running) (h : t.books.Balanced)
    {event : WindowEvent} (hrefused : event.Refuses) (hcount : t.count ≠ 0) :
    (t.step event).stopped = false ∧ ¬(t.step event).books.Balanced := by
  have hcounts := h.count
  have hpos : 0 < t.count := Nat.pos_of_ne_zero hcount
  unfold step
  rw [hrunning.step]
  cases event with
  | tick answer =>
    cases answer with
    | ok => exact hrefused.elim
    | error error =>
      refine ⟨by simp [hcount, publish, hrunning.1], ?_⟩
      intro hlost
      have := hlost.count
      simp [hcount, publish, books, hrunning.2, Except.isOk, Except.toBool] at this hcounts
      omega
  | drain answer =>
    cases answer with
    | ok => exact hrefused.elim
    | error error =>
      refine ⟨by simp [hpos, publish, hrunning.1], ?_⟩
      intro hlost
      have := hlost.count
      simp [hpos, publish, books, hrunning.2, Except.isOk, Except.toBool] at this hcounts
      omega
  | delivery => exact hrefused.elim
  | stop => exact hrefused.elim

end CounterTask

/-! ## The two side by side -/

/-- As long as neither owner is stopped, the two have published the same, and go on together. -/
structure SameWindow (r : ComponentRun) (t : CounterTask) : Prop where
  ended : r.ended = t.ended
  accepted : r.accepted = t.accepted
  count : r.ended = false → r.behavior.count = t.count
  total : r.ended = false → r.behavior.total = t.total

theorem SameWindow.step {r : ComponentRun} {t : CounterTask}
    (hkind : r.behavior.kind = .windowCounter)
    (h : r.stopped = false → t.stopped = false → SameWindow r t) (event : WindowEvent)
    (hr : (r.step event).stopped = false) (ht : (t.step event).stopped = false) :
    SameWindow (r.step event) (t.step event) := by
  have hrstopped : r.stopped = false := by
    cases hstopped : r.stopped with
    | false => rfl
    | true => simp [ComponentRun.step, hstopped] at hr
  have htstopped : t.stopped = false := by
    cases hstopped : t.stopped with
    | false => rfl
    | true => simp [CounterTask.step, hstopped] at ht
  obtain ⟨hended, haccepted, hcount, htotal⟩ := h hrstopped htstopped
  cases hre : r.ended with
  | true =>
    have hte := hended.symm.trans hre
    simp only [ComponentRun.step, CounterTask.step, hre, hte, Bool.or_true, if_true]
    exact ⟨hended, haccepted, hcount, htotal⟩
  | false =>
    have hte := hended.symm.trans hre
    have hcount := hcount hre
    have htotal := htotal hre
    simp only [ComponentRun.step, CounterTask.step, hre, hte, hrstopped, htstopped] at hr ht ⊢
    cases event with
    | delivery payload =>
      cases payload with
      | pulse value =>
        simp only [BuiltinBehavior.onEvent, CounterTask.update, hkind, hcount, htotal] at hr ht ⊢
        cases hadd : addPulse t.count t.total value with
        | none => simp [hadd] at ht
        | some window =>
          constructor <;> simp [hre, haccepted, ComponentRun.after]
      | _ => simp [CounterTask.update] at ht
    | tick answer =>
      simp only [BuiltinBehavior.onTick, BuiltinBehavior.flush, hkind, hcount] at hr ht ⊢
      by_cases hzero : t.count = 0
      · constructor <;> simp [hzero, hre, hte, haccepted, htotal, hcount, ComponentRun.after]
      · cases answer with
        | error error => simp [hzero, ComponentRun.after, Except.isOk, Except.toBool] at hr
        | ok =>
          constructor <;> simp [hzero, hre, hte, haccepted, htotal, ComponentRun.after,
            CounterTask.publish, Except.isOk, Except.toBool]
    | drain answer =>
      simp only [BuiltinBehavior.onDrain, BuiltinBehavior.flush, hkind, hcount] at hr ht ⊢
      by_cases hzero : t.count = 0
      · constructor <;> simp [hzero, haccepted, ComponentRun.after]
      · cases answer with
        | error error => simp [hzero, ComponentRun.after, Except.isOk, Except.toBool] at hr
        | ok =>
          constructor <;> simp [Nat.pos_of_ne_zero hzero, hzero, haccepted, htotal,
            ComponentRun.after, CounterTask.publish, Except.isOk, Except.toBool]
    | stop => simp at hr

theorem run_same (events : List WindowEvent)
    (hr : (ComponentRun.run events).stopped = false)
    (ht : (CounterTask.run events).stopped = false) :
    SameWindow (ComponentRun.run events) (CounterTask.run events) := by
  induction events using List.reverseRecOn with
  | nil => exact ⟨rfl, rfl, fun _ => rfl, fun _ => rfl⟩
  | append_singleton events event ih =>
    rw [ComponentRun.run_append] at hr ⊢
    rw [CounterTask.run_append] at ht ⊢
    exact SameWindow.step (ComponentRun.run_balanced events).1 ih event hr ht

/-- What is asked of the two implementations after a schedule. -/
structure WindowsKept (events : List WindowEvent) : Prop where
  component : (ComponentRun.run events).stopped = false → (ComponentRun.run events).books.Balanced
  task : (CounterTask.run events).stopped = false → (CounterTask.run events).books.Balanced
  same : (ComponentRun.run events).stopped = false → (CounterTask.run events).stopped = false →
    (ComponentRun.run events).accepted = (CounterTask.run events).accepted
  componentOverflow : ∀ r, r = ComponentRun.run events → ∀ value, r.stopped = false →
    r.ended = false → addPulse r.behavior.count r.behavior.total value = none →
      (r.step (.delivery (.pulse value))).books =
        { r.books with finished := r.finished ++ [(.pulse value, false)] }
  taskOverflow : ∀ t, t = CounterTask.run events → ∀ value, t.Running →
    addPulse t.count t.total value = none →
      (t.step (.delivery (.pulse value))).books =
        { t.books with finished := t.finished ++ [(.pulse value, false)] }

/-- No refusal meets a window of the task with something in it. -/
def NoLoss (events : List WindowEvent) : Prop :=
  ∀ before event, (before ++ [event]) <+: events → event.Refuses →
    (CounterTask.run before).Running → (CounterTask.run before).count = 0

theorem task_balanced {events : List WindowEvent} (h : NoLoss events) {before : List WindowEvent}
    (hbefore : before <+: events) : (CounterTask.run before).books.Balanced := by
  induction before using List.reverseRecOn with
  | nil => constructor <;> rfl
  | append_singleton before event ih =>
    rw [CounterTask.run_append]
    have hprefix := (List.prefix_append before [event]).trans hbefore
    exact CounterTask.step_balanced (CounterTask.run_empty before) (ih hprefix) event
      (h before event hbefore)

theorem componentOverflow {r : ComponentRun} (hkind : r.behavior.kind = .windowCounter)
    (hstopped : r.stopped = false) (hended : r.ended = false) {value : ℤ}
    (hadd : addPulse r.behavior.count r.behavior.total value = none) :
    (r.step (.delivery (.pulse value))).books =
      { r.books with finished := r.finished ++ [(.pulse value, false)] } := by
  simp [ComponentRun.step, ComponentRun.after, ComponentRun.books, BuiltinBehavior.onEvent, hkind,
    hstopped, hended, hadd, Except.isOk, Except.toBool]

theorem taskOverflow {t : CounterTask} (hrunning : t.Running) {value : ℤ}
    (hadd : addPulse t.count t.total value = none) :
    (t.step (.delivery (.pulse value))).books =
      { t.books with finished := t.finished ++ [(.pulse value, false)] } := by
  simp [CounterTask.step, CounterTask.update, CounterTask.books, hrunning.1, hrunning.2, hadd]

/-- Nothing is lost, and both publish the same, exactly when no refusal meets a window of the
task with something in it. -/
theorem windows_kept (events : List WindowEvent) :
    (∀ before, before <+: events → WindowsKept before) ↔ NoLoss events := by
  constructor
  · intro hkept before event hprefix hrefuses hrunning
    by_contra hcount
    have hbefore := hkept before ((List.prefix_append before [event]).trans hprefix)
    obtain ⟨hstopped, hlost⟩ := CounterTask.step_loses hrunning (hbefore.task hrunning.1)
      hrefuses hcount
    have hafter := (hkept _ hprefix).task
    rw [CounterTask.run_append] at hafter
    exact hlost (hafter hstopped)
  · intro h before hbefore
    constructor
    · intro _
      exact (ComponentRun.run_balanced before).2
    · intro _
      exact task_balanced h hbefore
    · intro hr ht
      exact (run_same before hr ht).accepted
    · rintro r rfl value hstopped hended hadd
      exact componentOverflow (ComponentRun.run_balanced before).1 hstopped hended hadd
    · rintro t rfl value hrunning hadd
      exact taskOverflow hrunning hadd

/-- One pulse, and a refused snapshot: the task has lost it and counts a summary. -/
theorem windows_lost : ¬ ∀ events : List WindowEvent, WindowsKept events := by
  intro h
  have := (h [.delivery (.pulse 1), .tick (.error (.core .queueFull))]).task (by decide)
  exact absurd this.count (by decide)

end Actorplane
