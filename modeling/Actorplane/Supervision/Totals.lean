import Actorplane.Reach.Roots
import Actorplane.Supervision.Chronicle

/-!
# The failures in a shutdown report

A stop report adds up the totals of the actors in its scope. Each failure of a run is
held by exactly one of them if its actor was in the scope when it failed, and by none
otherwise. So the report tells how many failures the run had there, which one was the
last, and whether a drain ran out of time there.
-/

namespace Actorplane

/-! ## Double counting -/

theorem sum_countP {α β : Type} (f : α → β → Bool) (l : List α) (l' : List β) :
    (l.map fun a => l'.countP (f a)).sum = (l'.map fun b => l.countP (f · b)).sum := by
  induction l with
  | nil => simp
  | cons a l ih =>
    simp only [List.map_cons, List.sum_cons, ih, List.countP_cons, List.sum_map_add]
    rw [Nat.add_comm, countP_eq_sum]

theorem sum_capped (c : ℕ) (l : List ℕ) : min (l.map (min · c)).sum c = min l.sum c := by
  induction l with
  | nil => rfl
  | cons a l ih =>
    rw [List.map_cons, List.sum_cons, List.sum_cons]
    omega

namespace World

variable {w : World} {st st' : State} {r x q : ActorRef} {a k : Actor} {l : List ActorRef}

/-! ## Paths of a World -/

theorem Lineage.head {nodes : List Node} (h : Lineage nodes q l) : l.head? = some q := by
  cases h <;> rfl

theorem path_of_lineage (h : Lineage st.core.nodes q l) : st.roster.Path l := by
  have joined : ∀ {q l}, Lineage st.core.nodes q l → st.roster.Joined l := by
    intro q l line
    induction line with
    | @root r n seated top =>
      refine ⟨?_, trivial⟩
      intro m seat
      obtain ⟨a, there, -, rfl⟩ := State.seated_of_seats seat
      obtain rfl := there.unique seated
      exact top
    | @child r n p l seated parent line ih =>
      refine ⟨?_, ih⟩
      intro m seat
      obtain ⟨a, there, -, rfl⟩ := State.seated_of_seats seat
      obtain rfl := there.unique seated
      rw [Lineage.head line]
      exact parent
  refine ⟨joined h, ?_, h.nodup⟩
  intro x mem
  obtain ⟨l', line, -⟩ := h.suffix mem
  obtain ⟨n, seated⟩ := line.seated
  obtain ⟨b, seat, -⟩ := State.seats_of_seated seated
  refine ⟨b.member, seat.1, ?_⟩
  rw [seat.2]

/-- A path goes on from a living actor the way the World does. -/
theorem lineage_of_path (h : Lineage st.core.nodes q l) {l' : List ActorRef}
    (path : st.roster.Path l') (head : l'.head? = some q) : l' = l := by
  have next : ∀ {r n l''}, Seated st.core.nodes r n → st.roster.Path (r :: l'') →
      n.parent = l''.head? := by
    intro r n l'' seated path
    obtain ⟨b, seat, -, node⟩ := State.seats_of_seated seated
    have parent := path.joined.1 b.member seat
    rw [← node]
    exact parent
  induction h generalizing l' with
  | @root r n seated top =>
    cases l' with
    | nil => cases head
    | cons r' l'' =>
      obtain rfl := Option.some.inj head
      have last := (next seated path).symm.trans top
      rw [List.head?_eq_none_iff.mp last]
  | @child r n p l seated parent line ih =>
    cases l' with
    | nil => cases head
    | cons r' l'' =>
      obtain rfl := Option.some.inj head
      rw [ih path.tail ((next seated path).symm.trans parent)]

theorem Rests.alive (h : w.Rests st) : st.roster.alive q = true ↔ ∃ k, w.Living st q k := by
  rw [Roster.alive_iff]
  simp only [State.seats_iff]
  constructor
  · rintro ⟨m, ⟨k, found, current, rfl⟩, running⟩
    exact ⟨k, h.check.mpr ⟨found, current⟩, running⟩
  · rintro ⟨k, check, running⟩
    obtain ⟨found, current⟩ := h.check.mp check
    exact ⟨k.member, ⟨k, found, current, rfl⟩, running⟩

/-- What is above a living holder is on the path. -/
theorem Rests.holds_above (h : w.Rests st) (path : st.roster.Path l)
    (held : st.roster.holds x l = true) (living : w.Living st x k) :
    ∀ y ∈ w.ancestors st walkFuel x, y ∈ l := by
  induction l with
  | nil => cases held
  | cons q l ih =>
    unfold Roster.holds at held
    simp only [Bool.or_eq_true, decide_eq_true_eq, Bool.and_eq_true] at held
    obtain rfl | ⟨-, later⟩ := held
    · rw [← lineage_of_path (h.ancestry living) path rfl]
      exact fun y mem => mem
    · exact fun y mem => List.mem_cons_of_mem q (ih path.tail later y mem)

/-- A scope holds a mark once if its path goes through the top of the scope. -/
theorem Rests.holders (h : w.Rests st) (hc : w.checkRef r st = .ok a) {scope : List ActorRef}
    (hn : scope.Nodup) (hs : ∀ q, q ∈ scope ↔ w.InScope st r q) (path : st.roster.Path l) :
    scope.countP (fun q => st.roster.holds q l) = if r ∈ l then 1 else 0 := by
  have once : ∀ {y}, y ∈ scope → scope.countP (fun q => decide (y = q)) = 1 := by
    intro y mem
    rw [← List.count_eq_one_of_mem hn mem, List.count]
    apply List.countP_congr
    intro q _
    rw [decide_eq_true_eq, beq_iff_eq]
    exact eq_comm
  have top : r ∈ scope := (hs r).mpr ⟨a, hc, .inl rfl⟩
  induction l with
  | nil => exact List.countP_eq_zero.mpr fun _ _ => by simp [Roster.holds]
  | cons q l ih =>
    cases alive : st.roster.alive q with
    | true =>
      obtain ⟨k, living⟩ := h.alive.mp alive
      have start : ∀ y, st.roster.holds y (q :: l) = decide (q = y) :=
        Roster.holds_start alive rfl
      simp only [start]
      have above := lineage_of_path (h.ancestry living) path rfl
      have inside : q ∈ scope ↔ r ∈ q :: l := by
        rw [hs, above]
        constructor
        · rintro ⟨k', -, rfl | ⟨-, mem⟩⟩
          · exact h.mem_ancestors living
          · exact mem
        · exact fun mem => ⟨k, living.1, .inr ⟨living.2, mem⟩⟩
      by_cases mem : q ∈ scope
      · rw [once mem, if_pos (inside.mp mem)]
      · rw [if_neg fun through => mem (inside.mpr through), List.countP_eq_zero]
        intro y mem' same
        exact mem (of_decide_eq_true same ▸ mem')
    | false =>
      have later : ∀ y, st.roster.holds y (q :: l) = (decide (q = y) || st.roster.holds y l) := by
        intro y
        rw [Roster.holds, alive]
        simp
      simp only [later]
      by_cases here : q = r
      · subst here
        rw [if_pos List.mem_cons_self, ← once top]
        apply List.countP_congr
        intro y mem
        by_cases same : q = y
        · simp [same]
        · -- another holder in the scope would be below an actor that is not on its path
          obtain ⟨k, check, rfl | ⟨running, above⟩⟩ := (hs y).mp mem
          · exact absurd rfl same
          · have out : ¬st.roster.holds y l = true := by
              intro held
              exact (List.nodup_cons.mp path.nodup).1
                (h.holds_above path.tail held ⟨check, running⟩ q above)
            simp [same, out]
      · have outside : q ∉ scope := by
          rw [hs]
          rintro ⟨k, check, same | ⟨running, -⟩⟩
          · exact here same
          · rw [h.alive.mpr ⟨k, check, running⟩] at alive
            cases alive
        have rest := ih path.tail
        have through : r ∈ q :: l ↔ r ∈ l := by simp [Ne.symm here]
        simp only [through]
        rw [← rest]
        apply List.countP_congr
        intro y mem
        have other : q ≠ y := fun same => outside (same ▸ mem)
        simp [other]

/-! ## The failures of a run -/

/-- What a call reports, with the path of the failed actor. -/
def marksOf (w : World) (st : State) (action : Action) : List Mark :=
  ((w.step action st).1.reported.map fun e => ⟨w.ancestors st walkFuel e.actor, e⟩).toList

def lateRoots (st : State) : List ActorRef := st.log.filterMap Event.late

/-- The drains that run out of time in a call, as the paths of their roots. -/
def latesOf (w : World) (st : State) (action : Action) : List (List ActorRef) :=
  ((lateRoots (w.step action st).2).drop (lateRoots st).length).map (w.ancestors st walkFuel)

def marks (w : World) (st : State) : List Action → List Mark
  | [] => []
  | action :: actions => w.marksOf st action ++ marks w (w.step action st).2 actions

def lates (w : World) (st : State) : List Action → List (List ActorRef)
  | [] => []
  | action :: actions => w.latesOf st action ++ lates w (w.step action st).2 actions

theorem marks_records (actions : List Action) (st : State) :
    (w.marks st actions).map (·.record) = (w.outcomes st actions).filterMap Outcome.reported := by
  induction actions generalizing st with
  | nil => rfl
  | cons action actions ih =>
    show (w.marksOf st action ++ w.marks (w.step action st).2 actions).map (·.record) =
      (_ :: _ : List Outcome).filterMap Outcome.reported
    rw [List.map_append, ih, List.filterMap_cons]
    unfold marksOf
    cases (w.step action st).1.reported <;> rfl

theorem Staffed.charted (h : w.Staffed st) : st.roster.Charted (w.ancestors st walkFuel) := by
  intro q alive
  obtain ⟨k, living⟩ := h.rests.alive.mp alive
  have line := h.rests.ancestry living
  exact ⟨path_of_lineage line, Lineage.head line⟩

variable {marks : List Mark} {lates : List (List ActorRef)}

theorem latesOf_append {action : Action} {new : List ActorRef}
    (h : (w.step action st).2.roster.late = st.roster.late ++ new) :
    w.latesOf st action = new.map (w.ancestors st walkFuel) := by
  have late : lateRoots (w.step action st).2 = lateRoots st ++ new := h
  unfold latesOf
  rw [late, List.drop_left]

/-- What a call does to the history, from its first change on. -/
theorem recorded_from {t : Roster} {action : Action} (hr : t.Recorded marks lates)
    (hc : t.Charted (w.ancestors st walkFuel)) (hl : t.late = st.roster.late)
    (ha : Alters w.cfg Change.calm t (w.step action st).2.roster) :
    (w.step action st).2.roster.Recorded marks (lates ++ w.latesOf st action) := by
  obtain ⟨new, late, recorded⟩ := hr.calm hc ha
  rw [hl] at late
  rw [latesOf_append late]
  exact recorded

theorem unmarked {action : Action} (h : (w.step action st).1.reported = none) :
    w.marksOf st action = [] := by
  unfold marksOf
  rw [h]
  rfl

/-- The changes that claim or abandon a notification leave the history as it is. -/
theorem Staffed.recorded_plain (h : w.Staffed st) (hr : st.roster.Recorded marks lates)
    {action : Action} {x : Change} (hx : x.plain) (reported : (w.step action st).1.reported = none)
    (makes : Makes w x st (w.step action st).2) :
    (w.step action st).2.roster.Recorded (marks ++ w.marksOf st action)
      (lates ++ w.latesOf st action) := by
  have same := makes.may.alike hx
  rw [unmarked reported, List.append_nil]
  exact recorded_from (hr.alike same) (h.charted.alike same) same.late makes.alters

theorem Staffed.recorded (h : w.Staffed st) (hr : st.roster.Recorded marks lates)
    (action : Action) : (w.step action st).2.roster.Recorded (marks ++ w.marksOf st action)
      (lates ++ w.latesOf st action) := by
  have hv := h.rests.valid
  have still : ∀ action, (w.step action st).1.reported = none →
      (w.step action st).2.roster = st.roster →
      (w.step action st).2.roster.Recorded (marks ++ w.marksOf st action)
        (lates ++ w.latesOf st action) := by
    intro action reported same
    have nothing := @latesOf_append w st action [] (by rw [same, List.append_nil])
    rw [unmarked reported, nothing, same, List.map_nil, List.append_nil, List.append_nil]
    exact hr
  by_cases supervises : action.supervises = false
  · obtain ⟨reported, -⟩ := @quiet_outcome w st action supervises
    cases seats : action.seats with
    | true =>
      obtain ⟨late, recorded⟩ := hr.seating (h.seating seats).alters
      have nothing := @latesOf_append w st action [] (by rw [late, List.append_nil])
      rw [unmarked reported, nothing, List.map_nil, List.append_nil, List.append_nil]
      exact recorded
    | false =>
      rw [unmarked reported, List.append_nil]
      exact recorded_from hr h.charted rfl (h.calm supervises seats).alters
  cases action with
  | reportFailure r event schema op phase action =>
    obtain ⟨-, ⟨e, refused⟩, same⟩ | ⟨a, -, -, returned, makes⟩ :=
      reportFailure_makes (r := r) hv h.tidy event schema op phase action
    · apply still (.reportFailure r event schema op phase action) _ same
      show (Outcome.failureRecord
        (w.reportFailure r event schema op phase action st).1).reported = none
      rw [refused]
      rfl
    · set record : FailureRecord := ⟨st.nextFailure, r, event, schema, op, phase, action⟩
        with hrecord
      have marked : w.marksOf st (.reportFailure r event schema op phase action) =
          [⟨w.ancestors st walkFuel r, record⟩] := by
        have reported : (w.step (.reportFailure r event schema op phase action) st).1.reported =
            some record := by
          show (Outcome.failureRecord
            (w.reportFailure r event schema op phase action st).1).reported = some record
          rw [returned]
          rfl
        unfold marksOf
        rw [reported]
        rfl
      obtain ⟨-, m, seat, running, -⟩ := makes.may
      obtain ⟨path, head⟩ := h.charted r (Roster.alive_iff.mpr ⟨m, seat, running⟩)
      have failed := hr.fail makes.may path head
      obtain ⟨-, -, -, -, late⟩ := @Roster.fields_tell { st.roster with
        nextFailure := st.nextFailure + 1
        lastError := some record
        failures := st.roster.failures + 1 } record (w.failureNotifies a.parent phase st)
      rw [marked]
      apply recorded_from failed _ late makes.alters
      apply h.charted.mono Roster.place_fail
      exact fun q alive => (Roster.alive_congr Roster.life_fail q).symm.trans alive
  | claimFailure r =>
    obtain ⟨nothing, same⟩ | ⟨source, n, handed, -, -, makes⟩ := claimFailure_makes (r := r) hv
    · exact still (.claimFailure r) rfl same
    · exact h.recorded_plain hr (x := .claim r source) trivial rfl makes
  | dropFailure lease =>
    have silent : (w.step (.dropFailure lease) st).1.reported = none := by
      show (outstanding _ _ _ _).1.reported = none
      unfold outstanding
      split_ifs <;> rfl
    by_cases held : lease ∈ st.failureLeases
    · apply h.recorded_plain hr (x := .lapse) trivial silent
      show Makes w .lapse st (outstanding _ _ _ _).2
      unfold outstanding
      rw [if_pos held]
      exact dropFailure_makes hv.owned lease
    · apply still (.dropFailure lease) silent
      show (outstanding _ _ _ _).2.roster = st.roster
      unfold outstanding
      rw [if_neg held]
  | _ => exact absurd rfl supervises

theorem recorded_init : w.init.roster.Recorded [] [] where
  paths := by simp
  latePaths := by simp
  ordered := List.Pairwise.nil
  before := by simp
  totals := by
    intro r m seat
    cases seat.1
  failures := rfl
  lastError := rfl
  timeouts := rfl

theorem Staffed.recorded_exec (h : w.Staffed st) (hr : st.roster.Recorded marks lates)
    (actions : List Action) : (w.exec st actions).roster.Recorded (marks ++ w.marks st actions)
      (lates ++ w.lates st actions) := by
  induction actions generalizing st marks lates with
  | nil =>
    show st.roster.Recorded (marks ++ []) (lates ++ [])
    rw [List.append_nil, List.append_nil]
    exact hr
  | cons action actions ih =>
    have rest := ih (h.step action) (h.recorded hr action)
    rw [List.append_assoc, List.append_assoc] at rest
    exact rest

/-! ## Reports of a run -/

/-- Adding up the latest failures of many holders. -/
theorem foldl_newest (ho : Roster.Ordered marks) (f : ActorRef → Mark → Bool)
    (scope : List ActorRef) (p : Mark → Bool) :
    scope.foldl (fun e q => keepLatest e (Roster.newest (marks.filter (f q))))
        (Roster.newest (marks.filter p)) =
      Roster.newest (marks.filter fun e => p e || scope.any (f · e)) := by
  induction scope generalizing p with
  | nil => simp
  | cons q scope ih =>
    rw [List.foldl_cons, Roster.keepLatest_newest ho, ih]
    congr 2
    funext e
    rw [List.any_cons, Bool.or_assoc]

/-- The totals of a scope are those of the paths through its top. -/
theorem Rests.scope_totals (h : w.Rests st) (hr : st.roster.Recorded marks lates)
    (hc : w.checkRef r st = .ok a) {scope : List ActorRef} (hn : scope.Nodup)
    (hs : ∀ q, q ∈ scope ↔ w.InScope st r q) :
    min ((w.actorsOf st scope).map (·.errors)).sum u64Max =
        min (marks.countP (r ∈ ·.path)) u64Max ∧
      (w.actorsOf st scope).foldl (fun e a => keepLatest e a.lastError) none =
        Roster.newest (marks.filter (r ∈ ·.path)) ∧
      (w.actorsOf st scope).any (·.drainTimedOut) = lates.any (r ∈ ·) := by
  have refs : (w.actorsOf st scope).map (·.reference) = scope := by
    apply actorsOf_refs h
    intro q mem
    obtain ⟨k, check, -⟩ := (hs q).mp mem
    exact ⟨k, check⟩
  have totals : ∀ k ∈ w.actorsOf st scope,
      st.roster.Totals marks lates k.reference k.member := by
    intro k mem
    obtain ⟨q, -, check⟩ := mem_actorsOf.mp mem
    obtain ⟨found, rfl⟩ := h.check.mp check
    exact hr.totals _ _ (State.seats_iff.mpr ⟨k, found, rfl, rfl⟩)
  have once := fun {l} (path : st.roster.Path l) => h.holders hc hn hs path
  have through : ∀ {l}, st.roster.Path l →
      scope.any (st.roster.holds · l) = decide (r ∈ l) := by
    intro l path
    have count := once path
    rw [Bool.eq_iff_iff, decide_eq_true_eq, List.any_eq_true, ← List.countP_pos_iff, count]
    split_ifs with mem <;> simp [mem]
  refine ⟨?_, ?_, ?_⟩
  · have errors : (w.actorsOf st scope).map (·.errors) =
        ((scope.map fun q => marks.countP fun e => st.roster.holds q e.path).map
          (min · u64Max)) := by
      conv_rhs => rw [← refs]
      rw [List.map_map, List.map_map]
      exact List.map_congr_left fun k mem => (totals k mem).errors
    have singles : marks.map (fun e => scope.countP (st.roster.holds · e.path)) =
        marks.map fun e => if decide (r ∈ e.path) = true then 1 else 0 := by
      apply List.map_congr_left
      intro e mem
      rw [once (hr.paths e mem)]
      simp
    rw [errors, sum_capped, sum_countP, singles, countP_eq_sum]
  · have folded : (w.actorsOf st scope).foldl (fun e a => keepLatest e a.lastError) none =
        scope.foldl (fun e q => keepLatest e
          (Roster.newest (marks.filter fun e => st.roster.holds q e.path))) none := by
      conv_rhs => rw [← refs, List.foldl_map]
      apply List.foldl_ext
      intro e k mem
      rw [← (totals k mem).lastError]
      rfl
    have start : (none : Option FailureRecord) = Roster.newest (marks.filter fun _ => false) := by
      simp [Roster.newest]
    rw [folded, start, foldl_newest hr.ordered]
    congr 1
    apply List.filter_congr
    intro e mem
    rw [Bool.false_or, through (hr.paths e mem)]
  · rw [Bool.eq_iff_iff, List.any_eq_true, List.any_eq_true]
    constructor
    · rintro ⟨k, mem, late⟩
      have timedOut : k.drainTimedOut = lates.any (st.roster.holds k.reference) :=
        (totals k mem).timedOut
      rw [late] at timedOut
      obtain ⟨l, there, held⟩ := List.any_eq_true.mp timedOut.symm
      refine ⟨l, there, ?_⟩
      rw [← through (hr.latePaths l there)]
      refine List.any_eq_true.mpr ⟨k.reference, ?_, held⟩
      rw [← refs]
      exact List.mem_map_of_mem mem
    · rintro ⟨l, there, above⟩
      rw [← through (hr.latePaths l there)] at above
      obtain ⟨q, mem, held⟩ := List.any_eq_true.mp above
      rw [← refs] at mem
      obtain ⟨k, member, rfl⟩ := List.mem_map.mp mem
      refine ⟨k, member, ?_⟩
      have timedOut : k.drainTimedOut = lates.any (st.roster.holds k.reference) :=
        (totals k member).timedOut
      rw [timedOut]
      exact List.any_eq_true.mpr ⟨l, there, held⟩

/-- The failures reported below an actor, in the order of their reports. -/
def failuresBelow (w : World) (r : ActorRef) (actions : List Action) : List FailureRecord :=
  ((w.marks w.init actions).filter (r ∈ ·.path)).map (·.record)

/-- What the reports after a run say about its failures. -/
structure Recalls (w : World) (actions : List Action) : Prop where
  stop : ∀ r report, w.stopReport r (w.exec w.init actions) = .ok report →
    report.errors = min (w.failuresBelow r actions).length u64Max ∧
    report.lastError = (w.failuresBelow r actions).getLast? ∧
    (report.timedOut = true ↔ ∃ l ∈ w.lates w.init actions, r ∈ l)
  errors : (shutdownReport (w.exec w.init actions)).errors =
    ((w.outcomes w.init actions).filterMap Outcome.reported).length
  lastError : (shutdownReport (w.exec w.init actions)).lastError =
    ((w.outcomes w.init actions).filterMap Outcome.reported).getLast?
  timedOut : (shutdownReport (w.exec w.init actions)).timedOut = true ↔
    w.lates w.init actions ≠ []

theorem newest_eq (marks : List Mark) :
    Roster.newest marks = (marks.map (·.record)).getLast? := by
  rw [List.getLast?_map]
  rfl

/-- After every run the reports tell the failures of the run: a stop report those that were
reported at or below its actor, wherever the totals are kept by then. -/
theorem reports_recall (w : World) (actions : List Action) : w.Recalls actions := by
  have staffed := w.staffed actions
  have h := staffed.rests
  have recorded := staffed_init.recorded_exec (w := w) recorded_init actions
  rw [List.nil_append, List.nil_append] at recorded
  generalize hst : w.exec w.init actions = st at staffed h recorded
  constructor
  · intro r report reported
    rw [hst] at reported
    cases check : w.checkRef r st with
    | error e =>
      rw [h.reporting.refused r e check] at reported
      cases reported
    | ok a =>
      obtain ⟨scope, report', reported', nodup, inside, counts, -⟩ := h.reporting.reports r a check
      obtain rfl : report' = report := Except.ok.inj (reported'.symm.trans reported)
      obtain ⟨errors, last, late⟩ := h.scope_totals recorded check nodup inside
      refine ⟨?_, ?_, ?_⟩
      · rw [counts.errors, errors, List.countP_eq_length_filter]
        unfold failuresBelow
        rw [List.length_map]
      · rw [counts.lastError, last, newest_eq]
        rfl
      · rw [counts.timedOut, late, List.any_eq_true]
        simp
  · rw [hst, ← marks_records, List.length_map]
    exact recorded.failures
  · rw [hst, ← marks_records, ← newest_eq]
    exact recorded.lastError
  · have timeouts : st.metrics.drainTimeouts = (w.lates w.init actions).length :=
      recorded.timeouts
    rw [hst]
    show decide (st.metrics.drainTimeouts ≠ 0) = true ↔ _
    rw [timeouts, decide_eq_true_eq, ne_eq, List.length_eq_zero_iff]

end World

end Actorplane
