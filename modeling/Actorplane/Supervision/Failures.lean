import Actorplane.Supervision.Calls

/-!
# Failures on the roster

A report is one failure of the roster, followed by what its action fences. A claim
takes the oldest notification among the children of its supervisor.
-/

namespace Actorplane

variable {t : Roster} {r : ActorRef} {m : Member}

/-- A call that starts with one change of its own. -/
structure Makes (w : World) (x : Change) (st st' : State) : Prop where
  may : st.roster.May w.cfg x
  alters : Alters w.cfg Change.calm (st.roster.after x) st'.roster
  served : st.services.Served → st'.services.Served

theorem Calls.makes {w : World} {x : Change} {st st₁ st' : State} (h : Calm w st₁ st')
    (hx : st.roster.May w.cfg x) (hr : st₁.roster = st.roster.after x)
    (hs : (st.roster.after x).services = st.services) : Makes w x st st' := by
  refine ⟨hx, ?_, ?_⟩
  · rw [← hr]
    exact h.alters
  · have services : st₁.services = st.services := (congrArg Roster.services hr).trans hs
    rw [← services]
    exact h.served

theorem Makes.mild {w : World} {x : Change} {st st' : State} (h : Makes w x st st') :
    Alters w.cfg Change.mild (st.roster.after x) st'.roster :=
  h.alters.mono fun _ calm => calm.mild

/-- An actor once a failure of it is noted. -/
def Actor.failed (record : FailureRecord) (notify : Bool) (a : Actor) : Actor :=
  { a with
    reportedFailure := record.eventId
    errors := min (a.errors + 1) u64Max
    lastError := some record
    notification :=
      if !notify then a.notification
      else match a.notification with
        | none => some ⟨record, 0⟩
        | some n => some { n with coalesced := min (n.coalesced + 1) u64Max } }

namespace World

variable {w : World} {st st' : State} {a : Actor}

/-! ## Reports -/

/-- What the supervisor sees of a failure that was noted. -/
def told (parent : Option ActorRef) (notify pending : Bool) (st : State) : State :=
  if !notify then st
  else if pending then
    st.addMetrics fun m => { m with notificationsCoalesced := m.notificationsCoalesced + 1 }
  else match parent with
    | none => st
    | some p => st.modifyActor p fun a => { a with pendingFailures := a.pendingFailures + 1 }

theorem noteFailure_eq {record : FailureRecord} {parent : Option ActorRef} {notify : Bool}
    (found : st.actors[record.actor.slot]? = some a) :
    noteFailure record parent notify st = told parent notify a.notification.isSome
      (st.modifyActor record.actor (Actor.failed record notify)) := by
  unfold noteFailure
  dsimp only
  rw [found]
  rfl

theorem roster_noteFailure {record : FailureRecord} {notify : Bool}
    (found : st.actors[record.actor.slot]? = some a) :
    (noteFailure record a.parent notify st).roster = st.roster.tell record notify := by
  have member : st.roster.members[record.actor.slot]? = some a.member := by
    simp [State.roster, found]
  have failed : (st.modifyActor record.actor (Actor.failed record notify)).roster =
      st.roster.modify record.actor (Member.fail · record notify) :=
    State.roster_modify fun _ => rfl
  rw [noteFailure_eq found]
  unfold Roster.tell
  dsimp only
  rw [member]
  dsimp only
  have silent : a.member.notification = a.notification := rfl
  have parent : a.member.parent = a.parent := rfl
  rw [silent, parent, ← failed]
  generalize st.modifyActor record.actor (Actor.failed record notify) = st₁
  unfold told
  split_ifs
  · rfl
  · rfl
  · cases a.parent with
    | none => rfl
    | some p => exact State.roster_modify fun _ => rfl

theorem roster_reported {record : FailureRecord} {parent : Option ActorRef}
    {x : Except Error Unit × State} : (w.reported record parent x).2.roster = x.2.roster := by
  obtain ⟨e | u, st'⟩ := x
  · rfl
  · cases parent <;> rfl

theorem may_fail (ho : st.core.Owned w.id) (hc : w.checkRef r st = .ok a) (hs : a.state ≠ .stopped)
    (record : FailureRecord) (phase : FailurePhase) (hr : record.actor = r)
    (hq : record.sequence = st.nextFailure) :
    st.roster.May w.cfg (.fail record (w.failureNotifies a.parent phase st)) := by
  obtain ⟨found, current⟩ := (checkRef_ok ho).mp hc
  have seated : Seated st.core.nodes r a.node := seated_of_check ho hc
  refine ⟨hq, a.member, ?_, hs, ?_⟩
  · rw [hr]
    exact State.seats_iff.mpr ⟨a, found, current, rfl⟩
  · intro notifies
    unfold failureNotifies at notifies
    simp only [Bool.and_eq_true, decide_eq_true_eq] at notifies
    obtain ⟨-, told⟩ := notifies
    cases parent : a.parent with
    | none => simp [parent] at told
    | some p =>
      rw [parent] at told
      dsimp only at told
      refine ⟨p, parent, ?_, ?_⟩
      · cases check : w.checkRef p st with
        | error e => simp [check] at told
        | ok b =>
          simp only [check, Bool.or_eq_true, decide_eq_true_eq] at told
          obtain ⟨found', current'⟩ := (checkRef_ok ho).mp check
          refine ⟨b.member, State.seats_iff.mpr ⟨b, found', current', rfl⟩, ?_, ?_⟩
          · show b.state ≠ .stopping
            rcases told with (h | h) | h <;> simp [h]
          · show b.state ≠ .stopped
            rcases told with (h | h) | h <;> simp [h]
      · intro same
        obtain ⟨n, supervisor, -⟩ := ho.parent r a.node p seated hs parent
        exact ho.parent_slot_ne seated hs parent supervisor (by rw [same, hr])

/-- The actor whose report is accepted. -/
def reporter (w : World) (r : ActorRef) (operation : Option OperationId) (st : State) :
    Option Actor :=
  match w.failureReportable r operation st with
  | .error _ => none
  | .ok a => if u64Max ≤ st.nextFailure then none else some a

/-- A report is refused, or it is one failure and what its action fences. -/
theorem reportFailure_makes (hv : st.core.Valid w.id) (ht : st.services.Tidy)
    (eventId schema : Option ℕ) (operation : Option OperationId) (phase : FailurePhase)
    (action : FailureAction) :
    (w.reporter r operation st = none ∧
        (∃ e, (w.reportFailure r eventId schema operation phase action st).1 = .error e) ∧
        (w.reportFailure r eventId schema operation phase action st).2.roster = st.roster) ∨
      ∃ a, w.reporter r operation st = some a ∧ w.checkRef r st = .ok a ∧
        (w.reportFailure r eventId schema operation phase action st).1 =
          .ok ⟨st.nextFailure, r, eventId, schema, operation, phase, action⟩ ∧
        Makes w (.fail ⟨st.nextFailure, r, eventId, schema, operation, phase, action⟩
            (w.failureNotifies a.parent phase st)) st
          (w.reportFailure r eventId schema operation phase action st).2 := by
  unfold reportFailure reporter
  cases reportable : w.failureReportable r operation st with
  | error e => exact .inl ⟨rfl, ⟨e, rfl⟩, rfl⟩
  | ok a =>
    obtain ⟨check, alive⟩ := failureReportable_ok reportable
    dsimp only
    by_cases last : u64Max ≤ st.nextFailure
    · rw [if_pos last, if_pos last]
      exact .inl ⟨rfl, ⟨_, rfl⟩, rfl⟩
    rw [if_neg last, if_neg last]
    right
    refine ⟨a, rfl, check, ?_⟩
    set record : FailureRecord :=
      ⟨st.nextFailure, r, eventId, schema, operation, phase, action⟩ with hrecord
    have may := may_fail hv.owned check alive record phase rfl rfl
    generalize w.failureNotifies a.parent phase st = notify at may ⊢
    set st₁ : State := (((({ st with
      nextFailure := st.nextFailure + 1
      lastError := some record } : State).tick).addMetrics fun m =>
        { m with failures := m.failures + 1 }).observe fun o =>
          { o with diagnostics := o.diagnostics.recordFailure record }) with hst₁
    have seated := seated_of_check hv.owned check
    have hv₁ : st₁.core.Valid w.id := hv
    have seated₁ : Seated st₁.core.nodes record.actor a.node := seated
    obtain ⟨evolves, nodes⟩ := @noted_spec a.node w st₁ (fun _ => False) record hv₁ seated₁ alive
      operation a.parent notify
    have hv₂ := evolves.valid hv₁
    set st₂ := noteFailure record a.parent notify (w.failOperation operation st₁) with hst₂
    have roster₂ : st₂.roster = st.roster.after (.fail record notify) := by
      obtain ⟨b, found, same⟩ : ∃ b, (w.failOperation operation st₁).actors[r.slot]? = some b ∧
          b.parent = a.parent := by
        have nodes₁ := @nodes_failOperation w st₁ operation
        obtain ⟨b, found, node⟩ := State.actors_get_of_node (nodes₁ ▸ seated₁.1)
        exact ⟨b, found, congrArg Node.parent node⟩
      rw [hst₂, ← same, roster_noteFailure found, roster_failOperation]
      rfl
    have seated₂ : Seated st₂.core.nodes r a.node := by
      rw [nodes]
      exact seated
    have services₂ : st₂.services = st.services :=
      (congrArg Roster.services roster₂).trans (Roster.services_fail record notify)
    have applied := @applyFailureAction_calm r w (w.markActivityDependentsLocked r st₂) hv₂
      (by rw [← services₂] at ht; exact ht) action
    have accepted : (w.applyFailureAction r action (w.markActivityDependentsLocked r st₂)).1 =
        .ok () := @applyFailureAction_ok r a.node w (w.markActivityDependentsLocked r st₂) hv₂
      seated₂ action
    show (w.reported record a.parent _).1 = _ ∧ Makes w _ st (w.reported record a.parent _).2
    constructor
    · generalize w.applyFailureAction r action _ = call at accepted ⊢
      obtain ⟨e | u, st'⟩ := call
      · cases accepted
      · rfl
    · exact (applied.after roster_reported).makes may roster₂ (Roster.services_fail record notify)

/-! ## Claims -/

/-- The children that wait for their supervisor, with their notifications. -/
def notices (w : World) (children : List ActorRef) (st : State) :
    List (ActorRef × Notification) :=
  children.filterMap fun child =>
    match w.checkRef child st with
    | .error _ => none
    | .ok a => a.notification.map fun n => (child, n)

def older (a b : ActorRef × Notification) : Prop :=
  a.2.failure.sequence ≤ b.2.failure.sequence

instance : DecidableRel older := fun _ _ => Nat.decLe _ _

instance : Std.Total older := ⟨fun _ _ => Nat.le_total _ _⟩

instance : IsTrans (ActorRef × Notification) older := ⟨fun _ _ _ => Nat.le_trans⟩

theorem firstFailing_eq (children : List ActorRef) :
    w.firstFailing children st = ((w.notices children st).insertionSort older).head? := rfl

theorem mem_notices {children : List ActorRef} {q : ActorRef} {b : Actor} {n : Notification}
    (hq : q ∈ children) (hc : w.checkRef q st = .ok b) (hn : b.notification = some n) :
    (q, n) ∈ w.notices children st := by
  unfold notices
  rw [List.mem_filterMap]
  exact ⟨q, hq, by simp [hc, hn]⟩

/-- The notification that is claimed is the oldest one. -/
theorem firstFailing_least {children : List ActorRef} {source : ActorRef} {n : Notification}
    (h : w.firstFailing children st = some (source, n)) {q : ActorRef} {b : Actor}
    {n' : Notification} (hq : q ∈ children) (hc : w.checkRef q st = .ok b)
    (hn : b.notification = some n') : n.failure.sequence ≤ n'.failure.sequence := by
  rw [firstFailing_eq] at h
  have sorted := List.pairwise_insertionSort older (w.notices children st)
  have mem := (List.mem_insertionSort older).mpr (mem_notices hq hc hn)
  cases hs : (w.notices children st).insertionSort older with
  | nil => simp [hs] at h
  | cons first rest =>
    rw [hs] at h sorted mem
    obtain rfl : first = (source, n) := Option.some.inj h
    rcases List.mem_cons.mp mem with same | later
    · have same : n' = n := congrArg Prod.snd same
      rw [same]
    · exact List.rel_of_pairwise_cons sorted later

/-- The state of a claim before its source is settled. -/
def handed (w : World) (supervisor source : ActorRef) (n : Notification) (st : State) : State :=
  let st := st.modifyActor source fun a => { a with notification := none }
  let st := st.modifyActor supervisor fun a =>
    { a with pendingFailures := a.pendingFailures - 1, controlInFlight := true }
  let st := w.markActivityDependentsLocked supervisor st
  let st := w.refreshPythonReadyLocked supervisor st
  let st := st.addMetrics fun m =>
    { m with notificationsDelivered := m.notificationsDelivered + 1 }
  { st with failureLeases := ⟨supervisor, n⟩ :: st.failureLeases }

theorem roster_handed (supervisor source : ActorRef) (n : Notification) :
    (w.handed supervisor source n st).roster = st.roster.after (.claim supervisor source) := by
  have taken := @State.roster_modify st source (fun a => { a with notification := none })
    Member.silence fun _ => rfl
  have counted := @State.roster_modify
    (st.modifyActor source fun a => { a with notification := none }) supervisor
    (fun a => { a with pendingFailures := a.pendingFailures - 1, controlInFlight := true })
    Member.hear fun _ => rfl
  rw [taken] at counted
  show ({ ((st.modifyActor source fun a => { a with notification := none }).modifyActor supervisor
    fun a => { a with pendingFailures := a.pendingFailures - 1, controlInFlight := true }).roster
      with delivered := st.roster.delivered + 1 } : Roster) = _
  rw [counted]
  rfl

theorem owned_handed (ho : st.core.Owned w.id) (supervisor source : ActorRef) (n : Notification) :
    (w.handed supervisor source n st).core.Owned w.id := by
  have taken := @State.owned_modifyActor source st w.id (fun a => { a with notification := none })
    ho fun _ => rfl
  exact @State.owned_modifyActor supervisor _ w.id
    (fun a => { a with pendingFailures := a.pendingFailures - 1, controlInFlight := true })
    taken fun _ => rfl

/-- A claim finds nothing, or hands its supervisor the oldest of its notifications. -/
theorem claimFailure_makes (hv : st.core.Valid w.id) :
    ((∀ l, (w.claimFailure r st).1 ≠ .ok (some l)) ∧
        (w.claimFailure r st).2.roster = st.roster) ∨
      ∃ source n, (w.claimFailure r st).1 = .ok (some ⟨r, n⟩) ∧ st.roster.Pending r source n ∧
        (∀ q n', st.roster.Pending r q n' → n.failure.sequence ≤ n'.failure.sequence) ∧
        Makes w (.claim r source) st (w.claimFailure r st).2 := by
  unfold claimFailure
  cases check : w.checkRef r st with
  | error e => exact .inl ⟨fun _ => nofun, rfl⟩
  | ok a =>
    dsimp only
    by_cases busy : (a.inFlight || a.controlInFlight) = true
    · rw [if_pos busy]
      exact .inl ⟨fun _ => nofun, rfl⟩
    rw [if_neg busy]
    cases w.executionStateLocked r st with
    | error e => exact .inl ⟨fun _ => nofun, rfl⟩
    | ok s =>
    dsimp only
    by_cases idle : s ≠ .active ∧ s ≠ .quiescing
    · rw [if_pos idle]
      exact .inl ⟨fun _ => nofun, rfl⟩
    rw [if_neg idle]
    have seated := seated_of_check hv.owned check
    cases first : w.firstFailing a.children st with
    | none => exact .inl ⟨fun _ => nofun, rfl⟩
    | some found =>
      obtain ⟨source, n⟩ := found
      obtain ⟨child, b, check', notified⟩ := firstFailing_some first
      have notifies : w.notifying st source = true := by
        unfold notifying
        rw [check']
        simp [notified]
      have pending : st.roster.Pending r source n := by
        obtain ⟨n', m, q, seat, parent, hn, rest⟩ := pending_of_notifying hv check child notifies
        obtain ⟨x, found', current, rfl⟩ := State.seats_iff.mp seat
        obtain ⟨found, -⟩ := (checkRef_ok hv.owned).mp check'
        obtain rfl : x = b := Option.some.inj (found'.symm.trans found)
        exact ⟨x.member, q, seat, parent, notified, rest⟩
      right
      refine ⟨source, n, rfl, pending, ?_, ?_⟩
      · rintro q n' ⟨m, p, seat, parent, hn, rest⟩
        obtain ⟨x, qseated, found', rfl⟩ := State.seated_of_seats seat
        have alive : x.node.state ≠ .stopped := by
          intro stopped
          have released := hv.controlled.released q x.node x.hold qseated stopped
            (State.core_holds_get found')
          have silent : x.notification.isSome = false := congrArg Hold.notified released
          have told : x.notification = some n' := hn
          simp [told] at silent
        have mem := (hv.owned.child r a.node q seated).mpr ⟨x.node, qseated, alive, parent⟩
        obtain ⟨y, check'', found'', -⟩ := check_of_seated hv.owned qseated
        obtain rfl : y = x := Option.some.inj (found''.symm.trans found')
        exact firstFailing_least first mem check'' hn
      · have settled : Calm w (w.handed r source n st)
            (w.tryFinalize walkFuel source (w.handed r source n st)) :=
          .retires (tryFinalize_alters (owned_handed hv.owned r source n) walkFuel)
        exact (settled.after roster_touch).makes ⟨n, pending⟩ (roster_handed r source n) rfl

/-! ## Failure leases -/

theorem endSupervision_calm (ho : st.core.Owned w.id) (l : FailureLease)
    (result : Except Error Unit) : Calm w st (w.endSupervision l result st).2 := by
  unfold endSupervision
  cases w.checkRef l.supervisor { st with failureLeases := st.failureLeases.erase l } with
  | error e => exact .still rfl
  | ok a =>
    refine Aside.settle ⟨?_, ?_⟩ ho
    · exact @State.roster_modify_soft { st with failureLeases := st.failureLeases.erase l }
        l.supervisor _ fun _ => rfl
    · exact fun ho => @State.owned_modifyActor l.supervisor
        { st with failureLeases := st.failureLeases.erase l } w.id _ ho fun _ => rfl

theorem finishFailure_calm (hv : st.core.Valid w.id) (ht : st.services.Tidy) (l : FailureLease)
    (action : Option FailureAction) : Calm w st (w.finishFailure l action st).2 := by
  rw [finishFailure_eq]
  cases action with
  | none => exact endSupervision_calm hv.owned l _
  | some action =>
    have applied := applyFailureAction_calm (r := l.notification.failure.actor) hv ht action
    have valid := (applyFailureAction_stops hv l.notification.failure.actor action).valid hv
    exact applied.trans (endSupervision_calm valid.owned l _)

/-- The state of an abandoned claim before its supervisor is settled. -/
def abandoned (w : World) (l : FailureLease) (st : State) : State :=
  (w.clearControl l.supervisor
    { st with failureLeases := st.failureLeases.erase l }).addMetrics fun m =>
      { m with notificationsDiscarded := m.notificationsDiscarded + 1 }

theorem dropFailure_makes (ho : st.core.Owned w.id) (l : FailureLease) :
    Makes w .lapse st (w.dropFailure l st) := by
  have ho₁ : (w.abandoned l st).core.Owned w.id :=
    @owned_clearControl l.supervisor w
      { st with failureLeases := st.failureLeases.erase l } ho
  have lapsed : (w.abandoned l st).roster = st.roster.after .lapse := by
    have cleared := @roster_clearControl
      { st with failureLeases := st.failureLeases.erase l } l.supervisor w
    show ({ (w.clearControl l.supervisor
      { st with failureLeases := st.failureLeases.erase l }).roster with
        discarded := (w.clearControl l.supervisor
          { st with failureLeases := st.failureLeases.erase l }).roster.discarded + 1 } :
      Roster) = _
    rw [cleared]
    rfl
  have settled : Calm w (w.abandoned l st)
      (w.tryFinalize walkFuel l.supervisor (w.abandoned l st)) :=
    .retires (tryFinalize_alters ho₁ walkFuel)
  exact (settled.after roster_touch).makes trivial lapsed rfl

end World

end Actorplane
