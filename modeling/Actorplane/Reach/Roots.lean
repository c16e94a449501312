import Actorplane.Core.Waiting
import Actorplane.Reach.Drains
import Actorplane.Reach.Scopes

/-!
# The report of a World

Every living actor is in the scope of one living root, and an actor that has stopped
holds nothing. So the report of a World is the sum of the stop reports of its roots,
and it says that everything is done when they all do.
-/

namespace Actorplane

/-- The totals of a report are the sums of these reports. -/
structure StopReport.Sums (total : StopReport) (reports : List StopReport) : Prop where
  queued : total.queued = (reports.map (·.queued)).sum
  deliveryInFlight : total.deliveryInFlight = (reports.map (·.deliveryInFlight)).sum
  controlInFlight : total.controlInFlight = (reports.map (·.controlInFlight)).sum
  nativeTasks : total.nativeTasks = (reports.map (·.nativeTasks)).sum
  inFlight : total.inFlight = (reports.map (·.inFlight)).sum
  pythonPending : total.pythonPending = (reports.map (·.pythonPending)).sum
  pendingNotifications : total.pendingNotifications =
    (reports.map (·.pendingNotifications)).sum
  outstandingPublications : total.outstandingPublications =
    (reports.map (·.outstandingPublications)).sum
  /-- An operation between two roots is outstanding for both. -/
  outstandingOperations : total.outstandingOperations ≤
    (reports.map (·.outstandingOperations)).sum
  nativeDone : total.nativeDone = true ↔ ∀ report ∈ reports, report.nativeDone = true
  pythonDone : total.pythonDone = true ↔ ∀ report ∈ reports, report.pythonDone = true

/-! ## Sums over lists -/

theorem sum_flatMap {α β : Type} (scope : α → List β) (f : β → ℕ) (roots : List α) :
    (roots.map fun r => ((scope r).map f).sum).sum = ((roots.flatMap scope).map f).sum := by
  induction roots with
  | nil => rfl
  | cons r roots ih =>
    rw [List.map_cons, List.sum_cons, ih, List.flatMap_cons, List.map_append, List.sum_append]

/-- Elements without weight may be left out of a sum. -/
theorem sum_filter {α : Type} (p : α → Bool) (f : α → ℕ) {l : List α}
    (h : ∀ a ∈ l, p a = false → f a = 0) : ((l.filter p).map f).sum = (l.map f).sum := by
  induction l with
  | nil => rfl
  | cons a l ih =>
    have rest := ih fun b mem => h b (List.mem_cons_of_mem a mem)
    cases here : p a with
    | true => rw [List.filter_cons_of_pos here, List.map_cons, List.sum_cons, rest, List.map_cons,
        List.sum_cons]
    | false =>
      have zero := h a List.mem_cons_self here
      rw [List.filter_cons_of_neg (by simp [here]), rest, List.map_cons, List.sum_cons, zero,
        Nat.zero_add]

/-- What is found somewhere is counted at least once. -/
theorem countP_le_sum {α β : Type} {p : β → Bool} {g : α → β → Bool} {roots : List α} {l : List β}
    (h : ∀ b ∈ l, p b = true → ∃ r ∈ roots, g r b = true) :
    l.countP p ≤ (roots.map fun r => l.countP (g r)).sum := by
  induction l with
  | nil => exact Nat.zero_le _
  | cons b l ih =>
    have rest := ih fun b' mem => h b' (List.mem_cons_of_mem b mem)
    simp only [List.countP_cons, List.sum_map_add]
    apply Nat.add_le_add rest
    split_ifs with counted
    · obtain ⟨r, root, found⟩ := h b List.mem_cons_self counted
      apply List.single_le_sum (fun _ _ => Nat.zero_le _) 1
      exact List.mem_map.mpr ⟨r, root, if_pos found⟩
    · exact Nat.zero_le _

/-! ## Totals over reports -/

namespace StopReport

variable {total : StopReport} {reports : List StopReport}

theorem sum_inFlight (h : ∀ x ∈ reports,
      x.inFlight = x.deliveryInFlight + x.controlInFlight + x.nativeTasks) :
    (reports.map (·.inFlight)).sum = (reports.map (·.deliveryInFlight)).sum +
      (reports.map (·.controlInFlight)).sum + (reports.map (·.nativeTasks)).sum := by
  rw [← List.sum_map_add, ← List.sum_map_add]
  congr 1
  exact List.map_congr_left h

/-- What the native side of a report waits for. -/
def NativeIdle (x : StopReport) : Prop :=
  x.queued = 0 ∧ x.inFlight = 0 ∧ x.pendingNotifications = 0 ∧ x.outstandingOperations = 0 ∧
    x.outstandingPublications = 0

/-- Nothing is waited for in total exactly when nothing is in any report. -/
theorem nativeIdle_iff (queued : total.queued = (reports.map (·.queued)).sum)
    (flying : total.inFlight = (reports.map (·.inFlight)).sum)
    (notified : total.pendingNotifications = (reports.map (·.pendingNotifications)).sum)
    (operating : total.outstandingOperations = 0 ↔
      (reports.map (·.outstandingOperations)).sum = 0)
    (published : total.outstandingPublications = (reports.map (·.outstandingPublications)).sum) :
    total.NativeIdle ↔ ∀ x ∈ reports, x.NativeIdle := by
  unfold NativeIdle
  rw [queued, flying, notified, operating, published]
  simp only [List.sum_eq_zero_iff, List.forall_mem_map]
  constructor
  · rintro ⟨queued, flying, notified, operating, published⟩ x mem
    exact ⟨queued x mem, flying x mem, notified x mem, operating x mem, published x mem⟩
  · intro idle
    exact ⟨fun x mem => (idle x mem).1, fun x mem => (idle x mem).2.1,
      fun x mem => (idle x mem).2.2.1, fun x mem => (idle x mem).2.2.2.1,
      fun x mem => (idle x mem).2.2.2.2⟩

end StopReport

namespace World

variable {w : World} {st : State} {r q : ActorRef} {a k : Actor} {l : List ActorRef}

/-! ## Living roots -/

/-- A root is at the end of every lineage it is in. -/
theorem Lineage.last {nodes : List Node} {n : Node} (hl : Lineage nodes q l) (hr : r ∈ l)
    (hn : Seated nodes r n) (hp : n.parent = none) : l.getLast? = some r := by
  induction hl with
  | root => rw [List.mem_singleton.mp hr, List.getLast?_singleton]
  | @child q k p l seated parent line ih =>
    obtain rfl | above := List.mem_cons.mp hr
    · rw [hn.unique seated, parent] at hp
      cases hp
    · rw [List.getLast?_cons, ih above]
      rfl

theorem Rests.liveRoot (h : w.Rests st) :
    r ∈ liveRoots st ↔ ∃ a, w.Living st r a ∧ a.parent = none := by
  constructor
  · intro mem
    obtain ⟨a, kept, rfl⟩ := List.mem_map.mp mem
    obtain ⟨mem, root⟩ := List.mem_filter.mp kept
    simp only [Bool.and_eq_true, Option.isNone_iff_eq_none, decide_eq_true_eq] at root
    obtain ⟨i, found⟩ := List.getElem?_of_mem mem
    have slotted := (h.valid.owned.slotted i a.node (State.core_nodes_get found)).2
    have slot : a.reference.slot = i := slotted
    exact ⟨a, ⟨h.check.mpr ⟨slot ▸ found, rfl⟩, root.2⟩, root.1⟩
  · rintro ⟨a, living, root⟩
    obtain ⟨found, current⟩ := h.check.mp living.1
    exact mem_liveRoots found current root living.2

theorem Rests.refs_nodup (h : w.Rests st) : (st.actors.map (·.reference)).Nodup := by
  have slots : (st.actors.map (·.reference)).map (·.slot) = List.range st.actors.length := by
    apply List.ext_getElem
    · simp
    · intro i inside _
      have inside : i < st.actors.length := by simpa using inside
      have found := List.getElem?_eq_getElem inside
      have slot : st.actors[i].reference.slot = i :=
        (h.valid.owned.slotted i _ (State.core_nodes_get found)).2
      simpa using slot
  apply List.Nodup.of_map (·.slot)
  rw [slots]
  exact List.nodup_range

theorem actorsOf_refs (h : w.Rests st) {refs : List ActorRef}
    (hr : ∀ q ∈ refs, ∃ k, w.checkRef q st = .ok k) :
    (w.actorsOf st refs).map (·.reference) = refs := by
  induction refs with
  | nil => rfl
  | cons q refs ih =>
    obtain ⟨k, check⟩ := hr q List.mem_cons_self
    have first : w.actorsOf st (q :: refs) = k :: w.actorsOf st refs := by
      unfold actorsOf
      rw [List.filterMap_cons, check]
      rfl
    rw [first, List.map_cons, ih fun q' mem => hr q' (List.mem_cons_of_mem q mem),
      (h.check.mp check).2]

/-- The scopes of the living roots are all living actors, each of them once. -/
theorem Rests.roots (h : w.Rests st) {scope : ActorRef → List ActorRef}
    (hs : ∀ r ∈ liveRoots st, (scope r).Nodup ∧ ∀ q, q ∈ scope r ↔ w.InScope st r q) :
    ((liveRoots st).flatMap scope).Nodup ∧
      ∀ q, q ∈ (liveRoots st).flatMap scope ↔ ∃ k, w.Living st q k := by
  have within : ∀ r ∈ liveRoots st, ∀ q ∈ scope r, ∃ k, w.Living st q k ∧
      (w.ancestors st walkFuel q).getLast? = some r := by
    intro r root q mem
    obtain ⟨a, living, top⟩ := h.liveRoot.mp root
    have seated := seated_of_check h.valid.owned living.1
    obtain ⟨k, check, rfl | ⟨alive, above⟩⟩ := ((hs r root).2 q).mp mem
    · exact ⟨a, living, Lineage.last (h.ancestry living) (h.mem_ancestors living) seated top⟩
    · exact ⟨k, ⟨check, alive⟩, Lineage.last (h.ancestry ⟨check, alive⟩) above seated top⟩
  constructor
  · rw [List.nodup_flatMap]
    refine ⟨fun r root => (hs r root).1, ?_⟩
    have distinct : (liveRoots st).Nodup := h.refs_nodup.sublist (List.filter_sublist.map _)
    apply distinct.imp_of_mem
    intro r r' root root' other q mem mem'
    obtain ⟨k, -, last⟩ := within r root q mem
    obtain ⟨k', -, last'⟩ := within r' root' q mem'
    exact other (Option.some.inj (last.symm.trans last'))
  · intro q
    rw [List.mem_flatMap]
    constructor
    · rintro ⟨r, root, mem⟩
      obtain ⟨k, living, -⟩ := within r root q mem
      exact ⟨k, living⟩
    · rintro ⟨k, living⟩
      have line := h.ancestry living
      obtain ⟨r, n, above, seated, top⟩ := Lineage.top line
      obtain ⟨m, there, alive⟩ := h.valid.owned.lineage_alive line
        (seated_of_check h.valid.owned living.1) living.2 above
      obtain rfl := there.unique seated
      obtain ⟨a, living', rfl⟩ := h.living_iff.mp ⟨seated, alive⟩
      have root : r ∈ liveRoots st := h.liveRoot.mpr ⟨a, living', top⟩
      exact ⟨r, root, ((hs r root).2 q).mpr ⟨k, living.1, .inr ⟨living.2, above⟩⟩⟩

/-! ## Sums over the roots -/

theorem Rests.mem_actors (h : w.Rests st) : a ∈ st.actors ↔ w.checkRef a.reference st = .ok a := by
  rw [h.check]
  constructor
  · intro mem
    obtain ⟨i, found⟩ := List.getElem?_of_mem mem
    have slot : a.reference.slot = i :=
      (h.valid.owned.slotted i a.node (State.core_nodes_get found)).2
    exact ⟨slot ▸ found, rfl⟩
  · exact fun found => List.mem_of_getElem? found.1

/-- An actor that has stopped holds nothing. -/
theorem Rests.spent (h : w.Rests st) (ha : a ∈ st.actors) (hs : a.state = .stopped) :
    (a.queue = [] ∧ a.staged = [] ∧ a.inFlight = false) ∧ a.controlInFlight = false ∧
      a.notification.isSome = false ∧ a.nativeTasks = 0 ∧ a.pythonDone = true := by
  have check := h.mem_actors.mp ha
  have seated := seated_of_check h.valid.owned check
  have box := h.box check
  obtain ⟨queue, staged⟩ := h.valid.quiet _ _ _ seated.1 box (.inr hs)
  have hold := h.valid.controlled.released _ _ _ seated hs (h.holdOf check)
  refine ⟨⟨List.map_eq_nil_iff.mp queue, staged, ?_⟩, congrArg Hold.control hold,
    congrArg Hold.notified hold, congrArg Hold.tasks hold, congrArg Hold.pythonDone hold⟩
  cases flying : a.inFlight with
  | false => rfl
  | true =>
    obtain ⟨l, mem, slot⟩ := h.valid.leased.flown _ _ box flying
    obtain ⟨n, there, alive, -⟩ := h.valid.leased.target l mem
    have same : n = a.node := by
      have found := there.1
      rw [slot, seated.1] at found
      exact (Option.some.inj found).symm
    rw [same] at alive
    exact absurd hs alive

theorem Rests.sum_roots (h : w.Rests st) {scope : ActorRef → List ActorRef}
    (hs : ∀ r ∈ liveRoots st, (scope r).Nodup ∧ ∀ q, q ∈ scope r ↔ w.InScope st r q)
    (f : Actor → ℕ) (hf : ∀ a ∈ st.actors, a.state = .stopped → f a = 0) :
    ((liveRoots st).map fun r => ((w.actorsOf st (scope r)).map f).sum).sum =
      (st.actors.map f).sum := by
  obtain ⟨nodup, living⟩ := h.roots hs
  have split : (liveRoots st).flatMap (fun r => w.actorsOf st (scope r)) =
      w.actorsOf st ((liveRoots st).flatMap scope) := List.filterMap_flatMap.symm
  have checks : ∀ q ∈ (liveRoots st).flatMap scope, ∃ k, w.checkRef q st = .ok k := by
    intro q mem
    obtain ⟨k, living⟩ := (living q).mp mem
    exact ⟨k, living.1⟩
  rw [sum_flatMap, split, ← sum_filter (fun a => decide (a.state ≠ .stopped)) f
    fun a mem stopped => hf a mem (by simpa using stopped)]
  apply List.Perm.sum_eq
  apply List.Perm.map
  rw [List.perm_ext_iff_of_nodup]
  · intro a
    rw [mem_actorsOf, List.mem_filter, h.mem_actors]
    constructor
    · rintro ⟨q, mem, check⟩
      obtain ⟨k, alive⟩ := (living q).mp mem
      obtain rfl : a = k := Except.ok.inj (check.symm.trans alive.1)
      rw [(h.check.mp check).2]
      exact ⟨check, by simpa using alive.2⟩
    · rintro ⟨check, alive⟩
      exact ⟨a.reference, (living _).mpr ⟨a, check, by simpa using alive⟩, check⟩
  · apply List.Nodup.of_map (·.reference)
    rw [actorsOf_refs h checks]
    exact nodup
  · exact (List.Nodup.of_map (·.reference) h.refs_nodup).filter _

theorem rests_sourced (actions : List Action) : (w.exec w.init actions).core.Sourced := by
  have start : w.init.core.Sourced := by
    intro id p found
    cases found
  exact (rests_init.steps actions).sourced rests_init.valid start

/-! ## Tables over the roots -/

section Tables

variable {scope : ActorRef → List ActorRef}

theorem Rests.publications_roots (h : w.Rests st) (hp : st.core.Sourced)
    (hs : ∀ r ∈ liveRoots st, (scope r).Nodup ∧ ∀ q, q ∈ scope r ↔ w.InScope st r q) :
    ((liveRoots st).map fun r =>
      st.publications.entries.total fun p => if p.source ∈ scope r then 1 else 0).sum =
        st.publications.pending := by
  have sound : st.publications.Sound := h.valid.publishing.sound
  have budgeted : st.publications.Budgeted := h.valid.budgeted.table
  obtain ⟨nodup, living⟩ := h.roots hs
  have each : ∀ {l : List ActorRef}, l.Nodup →
      (st.publications.entries.total fun p => if p.source ∈ l then 1 else 0) =
        (l.map st.publications.pendingFor).sum :=
    fun hl => (PublicationTable.countsForScope_eq sound budgeted hl).1.symm
  have parts : (liveRoots st).map (fun r =>
      st.publications.entries.total fun p => if p.source ∈ scope r then 1 else 0) =
        (liveRoots st).map fun r => ((scope r).map st.publications.pendingFor).sum :=
    List.map_congr_left fun r root => each (hs r root).1
  rw [parts, sum_flatMap, ← each nodup]
  unfold PublicationTable.pending Assoc.total AList.keys List.keys
  have ones : (st.publications.entries.entries.map fun e =>
      if e.2.source ∈ (liveRoots st).flatMap scope then 1 else 0) =
        st.publications.entries.entries.map fun _ => 1 := by
    apply List.map_congr_left
    intro e mem
    obtain ⟨n, seated, live, running⟩ := hp e.1 e.2 (AList.mem_lookup_iff.mpr mem)
    obtain ⟨k, alive, -⟩ := h.living_iff.mp ⟨seated, running⟩
    exact if_pos ((living _).mpr ⟨k, alive⟩)
  rw [ones]
  simp

theorem Rests.operations_roots (h : w.Rests st)
    (hs : ∀ r ∈ liveRoots st, (scope r).Nodup ∧ ∀ q, q ∈ scope r ↔ w.InScope st r q) :
    st.operations.pendingCount ≤ ((liveRoots st).map fun r =>
        (List.range st.operations.slots.length).countP (st.operations.touches (scope r))).sum ∧
      (st.operations.pendingCount = 0 → ∀ r,
        (List.range st.operations.slots.length).countP (st.operations.touches (scope r)) = 0) := by
  have indexed : st.operations.Indexed fun _ => True := h.valid.operating.indexed
  obtain ⟨-, living⟩ := h.roots hs
  have counted : st.operations.pendingCount = (List.range st.operations.slots.length).countP
      fun s => slotPending (st.operations.entryAt s) := by
    unfold OperationTable.pendingCount
    rw [indexed.columns.pending_eq]
    have slots : st.operations.slots =
        (List.range st.operations.slots.length).map st.operations.entryAt := by
      apply List.ext_getElem
      · simp
      · intro i inside _
        simp [OperationTable.entryAt, List.getElem?_eq_getElem inside]
    conv_lhs => rw [slots]
    rw [List.countP_map]
    rfl
  rw [counted]
  constructor
  · apply countP_le_sum
    intro s _ pending
    cases entry : st.operations.entryAt s with
    | none => simp [entry] at pending
    | some e =>
      cases e with
      | terminal o => simp [entry] at pending
      | pending p =>
        have located := OperationTable.locate_id entry
        obtain ⟨⟨n, seated, running⟩, -⟩ := h.valid.operating.endpoints _ p located
        have alive : n.state ≠ .stopped := by
          rcases running with running | running <;> simp [running]
        obtain ⟨k, alive, -⟩ := h.living_iff.mp ⟨seated, alive⟩
        obtain ⟨r, root, inside⟩ := List.mem_flatMap.mp ((living p.owner).mpr ⟨k, alive⟩)
        refine ⟨r, root, ?_⟩
        unfold OperationTable.touches
        rw [entry]
        simp [inside]
  · intro none r
    rw [List.countP_eq_zero] at none ⊢
    intro s mem touched
    apply none s mem
    unfold OperationTable.touches at touched
    cases entry : st.operations.entryAt s with
    | none => simp [entry] at touched
    | some e =>
      cases e with
      | terminal o => simp [entry] at touched
      | pending p => rfl

end Tables

/-! ## The report of a World -/

section Reports

variable {scope : ActorRef → List ActorRef} {report : ActorRef → StopReport}

/-- A field that sums up the actors of every scope sums up all actors. -/
theorem Rests.sum_reports (h : w.Rests st)
    (hs : ∀ r ∈ liveRoots st, (scope r).Nodup ∧ ∀ q, q ∈ scope r ↔ w.InScope st r q)
    (g : StopReport → ℕ) (f : Actor → ℕ)
    (hg : ∀ r ∈ liveRoots st, g (report r) = ((w.actorsOf st (scope r)).map f).sum)
    (hf : ∀ a ∈ st.actors, a.state = .stopped → f a = 0) :
    (((liveRoots st).map report).map g).sum = (st.actors.map f).sum := by
  rw [← h.sum_roots hs f hf, List.map_map]
  congr 1
  exact List.map_congr_left hg

theorem Rests.count_reports (h : w.Rests st)
    (hs : ∀ r ∈ liveRoots st, (scope r).Nodup ∧ ∀ q, q ∈ scope r ↔ w.InScope st r q)
    (g : StopReport → ℕ) (p : Actor → Bool)
    (hg : ∀ r ∈ liveRoots st, g (report r) = (w.actorsOf st (scope r)).countP p)
    (hp : ∀ a ∈ st.actors, a.state = .stopped → p a = false) :
    (((liveRoots st).map report).map g).sum = st.actors.countP p := by
  rw [countP_eq_sum]
  apply h.sum_reports hs
  · intro r root
    rw [hg r root, countP_eq_sum]
  · intro a mem stopped
    rw [hp a mem stopped]
    rfl

theorem nativeDone_shutdown :
    (shutdownReport st).nativeDone = true ↔ (shutdownReport st).NativeIdle := by
  simp only [StopReport.NativeIdle, shutdownReport, worldReportLocked, StopReport.finishCounts,
    Bool.and_eq_true, decide_eq_true_eq, and_assoc]

theorem pythonDone_shutdown :
    (shutdownReport st).pythonDone = true ↔ (shutdownReport st).pythonPending = 0 := by
  simp only [shutdownReport, worldReportLocked, StopReport.finishCounts, decide_eq_true_eq]

/-- The outstanding operations, at most those of the roots, and none if none of theirs. -/
theorem Rests.outstanding_roots (h : w.Rests st)
    (hs : ∀ r ∈ liveRoots st, (scope r).Nodup ∧ ∀ q, q ∈ scope r ↔ w.InScope st r q)
    (counts : ∀ r ∈ liveRoots st, w.Reports st (scope r) (report r)) :
    (shutdownReport st).outstandingOperations ≤
        (((liveRoots st).map report).map (·.outstandingOperations)).sum ∧
      ((shutdownReport st).outstandingOperations = 0 ↔
        (((liveRoots st).map report).map (·.outstandingOperations)).sum = 0) := by
  have touched : ((liveRoots st).map report).map (·.outstandingOperations) =
      (liveRoots st).map fun r =>
        (List.range st.operations.slots.length).countP (st.operations.touches (scope r)) := by
    rw [List.map_map]
    exact List.map_congr_left fun r root => (counts r root).outstandingOperations
  obtain ⟨operating, idle⟩ := h.operations_roots hs
  rw [touched]
  refine ⟨operating, ?_, ?_⟩
  · intro none
    rw [List.sum_eq_zero_iff, List.forall_mem_map]
    exact fun r _ => idle none r
  · intro none
    exact Nat.le_zero.mp (none ▸ operating)

theorem Rests.sums (h : w.Rests st) (hp : st.core.Sourced)
    (hs : ∀ r ∈ liveRoots st, (scope r).Nodup ∧ ∀ q, q ∈ scope r ↔ w.InScope st r q)
    (counts : ∀ r ∈ liveRoots st, w.Reports st (scope r) (report r)) :
    (shutdownReport st).Sums ((liveRoots st).map report) := by
  have adds := StopReport.addActors st.actors {} (Nat.zero_le _)
  have queued := h.sum_reports hs (·.queued) (fun a => a.queue.length + a.staged.length)
    (fun r root => (counts r root).queued) fun a mem stopped => by
      obtain ⟨⟨queue, staged, -⟩, -⟩ := h.spent mem stopped
      rw [queue, staged]
      rfl
  have delivering := h.count_reports hs (·.deliveryInFlight) (·.inFlight)
    (fun r root => (counts r root).deliveryInFlight)
    fun a mem stopped => (h.spent mem stopped).1.2.2
  have controlling := h.count_reports hs (·.controlInFlight) (·.controlInFlight)
    (fun r root => (counts r root).controlInFlight)
    fun a mem stopped => (h.spent mem stopped).2.1
  have working := h.sum_reports hs (·.nativeTasks) (·.nativeTasks)
    (fun r root => (counts r root).nativeTasks)
    fun a mem stopped => (h.spent mem stopped).2.2.2.1
  have closing := h.count_reports hs (·.pythonPending) (fun a => !a.pythonDone)
    (fun r root => (counts r root).pythonPending) fun a mem stopped => by
      rw [(h.spent mem stopped).2.2.2.2]
      rfl
  have notified := h.count_reports hs (·.pendingNotifications) (·.notification.isSome)
    (fun r root => (counts r root).pendingNotifications)
    fun a mem stopped => (h.spent mem stopped).2.2.1
  have flying := StopReport.sum_inFlight (List.forall_mem_map.mpr fun r root =>
    (counts r root).inFlight)
  have published : (((liveRoots st).map report).map (·.outstandingPublications)).sum =
      st.publications.pending := by
    rw [← h.publications_roots hp hs, List.map_map]
    congr 1
    exact List.map_congr_left fun r root => (counts r root).outstandingPublications
  obtain ⟨operating, idle⟩ := h.outstanding_roots hs counts
  have queued' : (shutdownReport st).queued = _ :=
    adds.queued.trans ((Nat.zero_add _).trans queued.symm)
  have delivering' := adds.deliveryInFlight.trans ((Nat.zero_add _).trans delivering.symm)
  have controlling' := adds.controlInFlight.trans ((Nat.zero_add _).trans controlling.symm)
  have working' := adds.nativeTasks.trans ((Nat.zero_add _).trans working.symm)
  have closing' := adds.pythonPending.trans ((Nat.zero_add _).trans closing.symm)
  have notified' : (shutdownReport st).pendingNotifications = _ :=
    adds.pendingNotifications.trans ((Nat.zero_add _).trans notified.symm)
  have flying' : (shutdownReport st).inFlight =
      (((liveRoots st).map report).map (·.inFlight)).sum := by
    rw [flying, ← delivering', ← controlling', ← working']
    rfl
  constructor
  · exact queued'
  · exact delivering'
  · exact controlling'
  · exact working'
  · exact flying'
  · exact closing'
  · exact notified'
  · exact published.symm
  · exact operating
  · rw [nativeDone_shutdown,
      StopReport.nativeIdle_iff queued' flying' notified' idle published.symm,
      List.forall_mem_map, List.forall_mem_map]
    exact forall₂_congr fun r root => (counts r root).nativeDone.symm
  · have pending : (shutdownReport st).pythonPending = _ := closing'
    rw [pythonDone_shutdown, pending, List.sum_eq_zero_iff, List.forall_mem_map,
      List.forall_mem_map, List.forall_mem_map]
    exact forall₂_congr fun r root => (counts r root).pythonDone.symm

end Reports

/-- In every reachable state the report of the World sums up the reports of its roots. -/
theorem world_report_sums (w : World) (actions : List Action) :
    ∃ reports, (liveRoots (w.exec w.init actions)).map (fun r =>
        w.stopReport r (w.exec w.init actions)) = reports.map .ok ∧
      (shutdownReport (w.exec w.init actions)).Sums reports := by
  have h : w.Rests (w.exec w.init actions) := rests actions
  have sourced := w.rests_sourced actions
  generalize w.exec w.init actions = st at h sourced
  have reporting : ∀ r, ∃ scope report, r ∈ liveRoots st → w.stopReport r st = .ok report ∧
      scope.Nodup ∧ (∀ q, q ∈ scope ↔ w.InScope st r q) ∧ w.Reports st scope report := by
    intro r
    by_cases root : r ∈ liveRoots st
    · obtain ⟨a, living, -⟩ := h.liveRoot.mp root
      obtain ⟨scope, report, rest⟩ := h.reportLocked living.1
      exact ⟨scope, report, fun _ => rest⟩
    · exact ⟨[], {}, fun mem => absurd mem root⟩
  choose scope report spec using reporting
  refine ⟨(liveRoots st).map report, ?_, ?_⟩
  · rw [List.map_map]
    exact List.map_congr_left fun r root => (spec r root).1
  · exact h.sums sourced (fun r root => ⟨(spec r root).2.1, (spec r root).2.2.1⟩)
      fun r root => (spec r root).2.2.2

end World

end Actorplane
