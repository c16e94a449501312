import Actorplane.Mailboxes.Drains
import Actorplane.Mailboxes.Outputs

/-!
# Mailboxes after every run

No call makes the tables lack anything, so that after every run they are what the trays say.
-/

namespace Actorplane

variable {st st' : State} {r : ActorRef} {a : Actor} {w : World}

namespace World

/-! ## Actors -/

theorem nextRef_free (ho : st.core.Owned w.id) (hq : st.core.Quiet) :
    st.mailroom.Free (w.nextRef st) := by
  have fresh := @nextRef_fresh w st
  have length : st.mailroom.trays.length = st.actors.length := List.length_map _
  have bound : (w.nextRef st).slot ≤ st.actors.length := by
    have le := fresh.le ho
    simpa [State.core] using le
  unfold Mailroom.Free
  rw [length]
  rcases bound.eq_or_lt with last | inside
  · exact .inl last
  · right
    obtain ⟨a, found⟩ : ∃ a, st.actors[(w.nextRef st).slot]? = some a :=
      ⟨_, List.getElem?_eq_getElem inside⟩
    have node := State.core_nodes_get found
    have stopped := (fresh.old_stopped ho node).1
    obtain ⟨queue, staged⟩ := hq _ _ _ node (State.core_boxes_get found) (.inr stopped)
    refine ⟨a.tray, ?_, ?_, ?_, ?_⟩
    · show (st.actors.map Actor.tray)[_]? = _
      rw [List.getElem?_map, found]
      rfl
    · intro same
      have older := fresh.generation _ node
      have same : a.node.reference = w.nextRef st := same
      rw [same] at older
      exact absurd older (lt_irrefl _)
    · have empty : a.queue = [] := List.map_eq_nil_iff.mp queue
      exact congrArg (List.map Item.delivery) empty
    · have empty : a.staged = [] := staged
      exact congrArg (List.map Item.output) empty

theorem mailroom_placeActor (x : Actor) : (placeActor x st).mailroom = { st.mailroom with
    trays :=
      if x.reference.slot = st.mailroom.trays.length then st.mailroom.trays ++ [x.tray]
      else st.mailroom.trays.set x.reference.slot x.tray } := by
  have length : st.mailroom.trays.length = st.actors.length := List.length_map _
  have placed : (if x.reference.slot = st.actors.length then st.actors ++ [x]
      else st.actors.set x.reference.slot x).map Actor.tray =
      if x.reference.slot = st.mailroom.trays.length then st.mailroom.trays ++ [x.tray]
      else st.mailroom.trays.set x.reference.slot x.tray := by
    rw [length]
    split_ifs
    · rw [List.map_append]
      rfl
    · rw [List.map_set]
      rfl
  rw [← placed]
  rfl

/-- A new actor sits in an empty tray. -/
theorem allocateLocked_posts (ho : st.core.Owned w.id) (hq : st.core.Quiet) (kind : EndpointKind)
    (parent : Option ActorRef) : Posts w st (w.allocateLocked kind parent st).2 := by
  intro settled
  unfold allocateLocked
  by_cases full : w.cfg.maxActors ≤ st.liveActors
  · rw [if_pos full]
    exact settled
  rw [if_neg full]
  cases w.parentAllows parent st with
  | error e => exact settled
  | ok u =>
    dsimp only
    by_cases last : u64Max ≤ st.nextReadyOrder
    · rw [if_pos last]
      exact settled
    rw [if_neg last]
    dsimp only
    set x := newActor (w.nextRef st) st.nextReadyOrder kind parent
    have seated : (placeActor x st).mailroom.Settled w := by
      rw [mailroom_placeActor]
      exact settled.seat rfl (nextRef_free ho hq)
    cases parent with
    | none => exact seated
    | some p =>
      have adopted := @State.mailroom_modify (placeActor x st) p
        (fun a => { a with children := a.children ++ [w.nextRef st] }) fun _ => rfl
      exact Posts.still adopted seated

theorem allocate_posts (ho : st.core.Owned w.id) (hq : st.core.Quiet) {kind : EndpointKind}
    {parent : Option ActorRef} : Posts w st (w.allocate kind parent st).2 := by
  unfold allocate
  split_ifs
  · exact .still rfl
  · exact (allocateLocked_posts ho hq kind parent).after mailroom_touch

/-- An actor that becomes active keeps its mailbox. -/
theorem activated_posts (hs : ∀ a, st.actors[r.slot]? = some a → a.state = .starting) :
    (st.modifyActor r fun a => { a with state := .active }).mailroom = st.mailroom := by
  cases found : st.actors[r.slot]? with
  | none =>
    have same : st.actors.modify r.slot (fun a => { a with state := .active }) = st.actors :=
      List.modify_eq_self (List.getElem?_eq_none_iff.mp found)
    show ({ st with actors := st.actors.modify r.slot _ } : State).mailroom = _
    rw [same]
  | some a =>
    apply State.mailroom_modify_at found
    have starting := hs a found
    simp [Actor.tray, starting]

theorem activate_posts (ho : st.core.Owned w.id) : Posts w st (w.activate r st).2 := by
  unfold activate
  cases allowed : w.activatable r st with
  | error e => exact .refl st
  | ok u =>
    obtain ⟨a, check, starting, -⟩ := activatable_ok ho allowed
    obtain ⟨found, current⟩ := (checkRef_ok ho).mp check
    dsimp only
    have active : (st.modifyActor r fun a => { a with state := .active }).mailroom =
        st.mailroom := by
      apply activated_posts
      intro b found'
      rw [found] at found'
      obtain rfl := Option.some.inj found'
      exact starting
    have refreshed : ∀ st : State, (w.refreshPythonSubtreeLocked r st).mailroom = st.mailroom :=
      fun st => mailroom_foldl (fun st r => w.refreshPythonReadyLocked r st) (fun _ _ => rfl) _ st
    have entered : Posts w st (w.markActivityTreeLocked r (w.refreshPythonSubtreeLocked r
        ((st.modifyActor r fun a => { a with state := .active }).note (.activated r)))) :=
      .still ((refreshed _).trans active)
    exact (entered.trans flushStagedLocked_posts).after mailroom_touch

/-- An actor is settled after a change of its other fields. -/
theorem tryFinalize_posts (h : st'.mailroom = st.mailroom) :
    Posts w st (w.tryFinalize walkFuel r st').touchActivity :=
  .still ((mailroom_tryFinalize walkFuel).trans h)

theorem finishPython_posts : Posts w st (w.finishPython r st).2 := by
  unfold finishPython
  cases w.checkRef r st with
  | error e => exact .still rfl
  | ok a => exact tryFinalize_posts (State.mailroom_modify fun _ => rfl)

theorem trackTask_posts : Posts w st (w.trackTask r st).2 := by
  unfold trackTask
  cases w.checkRef r st with
  | error e => exact .refl st
  | ok a =>
    dsimp only
    split_ifs
    · exact .refl st
    · have tracked := @State.mailroom_modify st r
        (fun a => { a with nativeTasks := a.nativeTasks + 1 }) fun _ => rfl
      exact .still tracked

theorem dropTask_posts : Posts w st (w.dropTask r st) := by
  unfold dropTask
  dsimp only
  apply tryFinalize_posts
  apply @State.mailroom_modify { st with taskLeases := st.taskLeases.erase r }
  intro a
  split_ifs <;> rfl

theorem mailroom_clearControl : (w.clearControl r st).mailroom = st.mailroom := by
  unfold clearControl
  cases w.checkRef r st with
  | error e => rfl
  | ok a => exact State.mailroom_modify fun _ => rfl

theorem dropCallback_posts : Posts w st (w.dropCallback r st) := by
  unfold dropCallback
  dsimp only
  apply tryFinalize_posts
  exact @mailroom_clearControl { st with callbackLeases := st.callbackLeases.erase r } r w

theorem claimNativeHook_posts (expected : Lifecycle) :
    Posts w st (w.claimNativeHook r expected st).2 := by
  unfold claimNativeHook
  cases w.hookEligible r expected st with
  | error e => exact .still rfl
  | ok eligible =>
    cases eligible with
    | false => exact .still rfl
    | true =>
      have claimed := @State.mailroom_modify st r (fun a => { a with controlInFlight := true })
        fun _ => rfl
      exact .still claimed

/-! ## Deliveries -/

theorem mailroom_clearInFlight (lease : DeliveryLease) :
    (clearInFlight lease st).mailroom = st.mailroom :=
  @State.mailroom_modify { st with deliveryLeases := st.deliveryLeases.erase lease } lease.target
    (fun a => { a with inFlight := false }) fun _ => rfl

theorem finishDelivery_posts (lease : DeliveryLease) (success : Bool) :
    Posts w st (w.finishDelivery lease success st) := by
  unfold finishDelivery
  dsimp only
  have finished : ((((clearInFlight lease st).addMetrics fun m =>
      { m with
        completed := m.completed + (if success then 1 else 0)
        failed := m.failed + (if success then 0 else 1) }).note
      (.finished lease.delivery.eventId success))).mailroom = st.mailroom :=
    mailroom_clearInFlight lease
  generalize ((clearInFlight lease st).addMetrics _).note _ = st₁ at finished ⊢
  have diagnosed : ∀ (b : Bool) (operation : Option OperationId), (if b then
      st₁.diagnostic .handlerFailed (some lease.target) operation else st₁).mailroom =
        st.mailroom := by
    intro b operation
    cases b
    · exact finished
    · exact finished
  apply tryFinalize_posts
  cases lease.operation with
  | none => exact diagnosed _ none
  | some operation =>
    cases success
    · have ended : ∀ st : State, (w.endOperation operation failHandler countCompleted st).mailroom =
          st.mailroom := fun st =>
        State.mailroom_of_desk (desk_endOperation operation failHandler countCompleted fun _ => rfl)
      exact (ended _).trans (diagnosed _ (some operation))
    · exact diagnosed false (some operation)

theorem dropDelivery_posts (lease : DeliveryLease) : Posts w st (w.dropDelivery lease st) := by
  unfold dropDelivery
  dsimp only
  have skipped : (skipDelivery lease.target lease.delivery .abandoned
      (clearInFlight lease st)).mailroom = st.mailroom := mailroom_clearInFlight lease
  apply tryFinalize_posts
  cases lease.operation with
  | none => exact skipped
  | some operation =>
    refine Eq.trans (State.mailroom_of_desk ?_) skipped
    exact desk_endOperation operation .cancelled _ fun _ => rfl

/-! ## Failures -/

theorem mailroom_noteFailure (record : FailureRecord) (parent : Option ActorRef) (notify : Bool) :
    (noteFailure record parent notify st).mailroom = st.mailroom := by
  have failed := @State.mailroom_modify st record.actor (Actor.failed record notify) fun _ => rfl
  have recorded : ∀ pending : Bool, (told parent notify pending
      (st.modifyActor record.actor (Actor.failed record notify))).mailroom = st.mailroom := by
    intro pending
    rw [← failed]
    generalize st.modifyActor record.actor (Actor.failed record notify) = st₁
    unfold told
    split_ifs
    · rfl
    · rfl
    · cases parent with
      | none => rfl
      | some p => exact State.mailroom_modify fun _ => rfl
  exact recorded _

theorem applyFailureAction_posts (hv : st.core.Valid w.id) (action : FailureAction) :
    Posts w st (w.applyFailureAction r action st).2 := by
  cases action with
  | «continue» => exact .refl st
  | stopWorld => exact (closeLocked_empties hv).posts
  | stopActor =>
    have stopped : Posts w st (w.stopLocked r st).2 := (stopLocked_empties hv).posts
    have same : (w.applyFailureAction r .stopActor st).2 = (w.stopLocked r st).2 := by
      unfold applyFailureAction
      rcases w.stopLocked r st with ⟨e | u, st'⟩
      · cases e <;> rfl
      · rfl
    rw [same]
    exact stopped

theorem reportFailure_posts (hv : st.core.Valid w.id) (eventId schema : Option ℕ)
    (operation : Option OperationId) (phase : FailurePhase) (action : FailureAction) :
    Posts w st (w.reportFailure r eventId schema operation phase action st).2 := by
  unfold reportFailure
  cases reportable : w.failureReportable r operation st with
  | error e => exact .still rfl
  | ok a =>
    obtain ⟨check, alive⟩ := failureReportable_ok reportable
    dsimp only
    split_ifs
    · exact .still rfl
    set record : FailureRecord :=
      ⟨st.nextFailure, r, eventId, schema, operation, phase, action⟩ with hrecord
    generalize w.failureNotifies a.parent phase st = notify
    set st₁ : State := (((({ st with
      nextFailure := st.nextFailure + 1
      lastError := some record } : State).tick).addMetrics fun m =>
        { m with failures := m.failures + 1 }).observe fun o =>
          { o with diagnostics := o.diagnostics.recordFailure record }) with hst₁
    have seated := seated_of_check hv.owned check
    have hv₁ : st₁.core.Valid w.id := hv
    have seated₁ : Seated st₁.core.nodes record.actor a.node := seated
    obtain ⟨evolves, -⟩ := @noted_spec a.node w st₁ (fun _ => False) record hv₁ seated₁ alive
      operation a.parent notify
    have hv₂ := evolves.valid hv₁
    have same₁ : (w.failOperation operation st₁).mailroom = st₁.mailroom :=
      State.mailroom_of_desk (desk_failOperation operation)
    have same₂ := @mailroom_noteFailure (w.failOperation operation st₁) record a.parent notify
    have noted : Posts w st (noteFailure record a.parent notify (w.failOperation operation st₁)) :=
      .still (same₂.trans same₁)
    set st₂ := noteFailure record a.parent notify (w.failOperation operation st₁)
    have marked : Posts w st (w.markActivityDependentsLocked r st₂) := noted.after rfl
    have applied := marked.trans
      (@applyFailureAction_posts (w.markActivityDependentsLocked r st₂) r w hv₂ action)
    rcases hcall : w.applyFailureAction r action (w.markActivityDependentsLocked r st₂) with
      ⟨e | u, st₃⟩
    · rw [hcall] at applied
      exact applied.after mailroom_touch
    · rw [hcall] at applied
      cases a.parent with
      | none => exact applied.after mailroom_touch
      | some parent => exact applied.after rfl

theorem claimFailure_posts : Posts w st (w.claimFailure r st).2 := by
  unfold claimFailure
  cases w.checkRef r st with
  | error e => exact .still rfl
  | ok a =>
    dsimp only
    by_cases busy : (a.inFlight || a.controlInFlight) = true
    · rw [if_pos busy]
      exact .still rfl
    rw [if_neg busy]
    cases w.executionStateLocked r st with
    | error e => exact .still rfl
    | ok s =>
    dsimp only
    split_ifs
    · exact .still rfl
    cases w.firstFailing a.children st with
    | none => exact .still rfl
    | some found =>
      obtain ⟨source, n⟩ := found
      have taken := @State.mailroom_modify st source (fun a => { a with notification := none })
        fun _ => rfl
      have handed := @State.mailroom_modify
        (st.modifyActor source fun a => { a with notification := none }) r
        (fun a => { a with pendingFailures := a.pendingFailures - 1, controlInFlight := true })
        fun _ => rfl
      have same : (w.handed r source n st).mailroom = st.mailroom := Eq.trans handed taken
      exact tryFinalize_posts same

theorem endSupervision_posts (l : FailureLease) (result : Except Error Unit) :
    Posts w st (w.endSupervision l result st).2 := by
  unfold endSupervision
  cases w.checkRef l.supervisor { st with failureLeases := st.failureLeases.erase l } with
  | error e => exact .still rfl
  | ok a =>
    apply tryFinalize_posts
    exact @State.mailroom_modify { st with failureLeases := st.failureLeases.erase l }
      l.supervisor _ fun _ => rfl

theorem finishFailure_posts (hv : st.core.Valid w.id) (l : FailureLease)
    (action : Option FailureAction) : Posts w st (w.finishFailure l action st).2 := by
  rw [finishFailure_eq]
  cases action with
  | none => exact endSupervision_posts l _
  | some action =>
    exact (applyFailureAction_posts hv action).trans (endSupervision_posts l _)

theorem dropFailure_posts (l : FailureLease) : Posts w st (w.dropFailure l st) := by
  have cleared := @mailroom_clearControl
    { st with failureLeases := st.failureLeases.erase l } l.supervisor w
  have same : (w.abandoned l st).mailroom = st.mailroom := cleared
  exact tryFinalize_posts same

/-! ## Services -/

theorem registerService_posts (name : String) (target : ActorRef) (required : InterfaceSpec) :
    Posts w st (w.registerService name target required st).2 := by
  unfold registerService
  cases w.serviceRegistrable name target required st with
  | error e => exact .refl st
  | ok u => exact .still rfl

theorem releaseService_posts (hv : st.core.Valid w.id) (lease : ServiceLease) :
    Posts w st (w.releaseService lease st).2 := by
  unfold releaseService
  split_ifs
  · exact .refl st
  cases st.services.leases.lookup lease.scope with
  | none => exact .refl st
  | some current =>
    dsimp only
    split_ifs
    · exact .refl st
    have stopped : Posts w st (w.stopLocked lease.scope st).2 := (stopLocked_empties hv).posts
    rcases hcall : w.stopLocked lease.scope st with ⟨e | u, st'⟩
    · rw [hcall] at stopped
      exact stopped
    · rw [hcall] at stopped
      exact stopped.after mailroom_touch

/-- A scope is seated, and the service that has it is still recorded. -/
theorem acquireServiceLockedTarget_posts (hv : st.core.Valid w.id) {owner : ActorRef}
    {name : String} {required : InterfaceSpec} {expected : Option ActorRef} :
    Posts w st (w.acquireServiceLockedTarget owner name required expected st).2 := by
  unfold acquireServiceLockedTarget
  cases allowed : w.acquirable owner name required expected st with
  | error e => exact .refl st
  | ok record =>
    dsimp only
    have recorded := acquirable_ok allowed
    have seated := allocateLocked_posts hv.owned hv.quiet .native (some owner)
    have joins := roster_allocateLocked hv.owned .native (some owner)
    have allocates := @allocateLocked_spec w st .native (some owner) hv
    rcases hcall : w.allocateLocked .native (some owner) st with ⟨e | scope, st₁⟩
    · rw [hcall] at seated
      exact seated
    rw [hcall] at seated joins allocates
    dsimp only at seated joins allocates ⊢
    obtain ⟨e, he⟩ | ⟨hok, roster₁, -⟩ := joins
    · cases he
    obtain ⟨e, he, -⟩ | ⟨scope', hok', -, node⟩ := allocates
    · cases he
    obtain rfl : scope = scope' := Except.ok.inj hok'
    have services₁ : st₁.services = st.services :=
      (congrArg Roster.services roster₁).trans (Roster.services_join _ _)
    have active : (w.admitted scope st₁).mailroom = st₁.mailroom := by
      apply activated_posts
      intro b found
      obtain ⟨b', seat, found', same⟩ := State.seats_of_seated node
      obtain rfl : b' = b := Option.some.inj (found'.symm.trans found)
      exact congrArg Node.state same
    have recorded₂ : (w.admitted scope st₁).services.records.lookup name = some record := by
      have services₂ : (w.admitted scope st₁).services = st.services := services₁
      rw [services₂]
      exact recorded
    have placed : (placeLease name ⟨scope, owner, record.service⟩
        (w.admitted scope st₁)).mailroom = st₁.mailroom := by
      unfold placeLease
      rw [recorded₂]
      exact active
    unfold admitted at placed
    generalize placeLease name ⟨scope, owner, record.service⟩ _ = st₂ at placed ⊢
    have marked : ((w.markActivityDependentsLocked record.service
        (w.markActivityDependentsLocked scope st₂)).note (.leased scope)).touchActivity.mailroom =
          st₂.mailroom := by
      rw [mailroom_touch, mailroom_note, mailroom_mark, mailroom_mark]
    exact seated.after (marked.trans placed)

theorem acquireServiceFrom_posts (hv : st.core.Valid w.id) {owner expected : ActorRef}
    {name : String} {required : InterfaceSpec} :
    Posts w st (w.acquireServiceFrom owner name required expected st).2 := by
  unfold acquireServiceFrom
  split_ifs
  · exact .refl st
  · exact acquireServiceLockedTarget_posts hv

/-! ## Steps -/

theorem outstanding_posts {α : Type} [DecidableEq α] {leases : List α} {lease : α}
    {call : Outcome × State} (h : Posts w st call.2) :
    Posts w st (outstanding leases lease call st).2 := by
  unfold outstanding
  split_ifs
  · exact h
  · exact .refl st

theorem registerSchema_posts (version : ℕ) : Posts w st (registerSchema version st) := by
  unfold registerSchema
  split_ifs
  · exact .still rfl
  · exact .refl st

theorem registerComponent_posts (owner : ActorRef) (d : ComponentDescriptor) :
    Posts w st (w.registerComponent owner d st).2 := by
  unfold registerComponent
  cases w.registrable owner d st with
  | error e => exact .refl st
  | ok incoming => exact .still (State.mailroom_modify fun _ => rfl)

theorem activity_posts : Posts w st (w.activity r st).2 := by
  unfold activity
  cases w.checkRef r st with
  | error e => exact .refl st
  | ok a => exact .still rfl

theorem pollActivity_posts (observed waker : ℕ) :
    Posts w st (w.pollActivity r observed waker st).2 := by
  unfold pollActivity
  cases w.checkRef r st with
  | error e => exact .refl st
  | ok a => exact .still rfl

theorem stop_posts (hv : st.core.Valid w.id) : Posts w st (w.stop r st).2 :=
  (stopLocked_empties hv).posts.after mailroom_touch

theorem close_posts (hv : st.core.Valid w.id) : Posts w st (w.close st) :=
  (closeLocked_empties hv).posts.after mailroom_touch

/-- Every call keeps the tables exact. -/
theorem step_posts (hv : st.core.Valid w.id) (action : Action) :
    Posts w st (w.step action st).2 := by
  have ho := hv.owned
  cases action with
  | allocate kind parent => exact allocate_posts ho hv.quiet
  | activate r => exact activate_posts ho
  | finishPython r => exact finishPython_posts
  | registerSchema version => exact registerSchema_posts version
  | registerComponent owner d => exact registerComponent_posts owner d
  | subscribe source target => exact .aside (desk_subscribe source target)
  | unsubscribe route => exact .aside (desk_unsubscribe route)
  | link owner source target => exact .aside (desk_link owner source target)
  | hold p o => exact .aside (desk_holdWith p o)
  | send r p o => exact sendWith_posts p o
  | sendPort port p o => exact sendPortWith_posts port p o
  | sendHeld r held => exact sendHeld_posts held
  | sendHeldFrom owner r held => exact sendHeldFrom_posts owner held
  | request owner r p deadline o => exact requestWithPort_posts owner r p deadline o none
  | serviceRequest lease port p deadline o =>
    exact .aside (desk_serviceRequest lease port p deadline o)
  | resumeRequest call =>
    apply outstanding_posts
    have waiting : Posts w st { st with serviceCalls := st.serviceCalls.erase call } := .still rfl
    exact waiting.trans (requestWithPort_posts call.owner call.target call.payload call.deadline
      call.options (some call.port))
  | completeOperation op r p o => exact .aside (desk_completeOperationWith op r p o)
  | cancelOperation op => exact .aside (desk_cancelOperation op)
  | takeOperation op => exact .aside (desk_takeOperation op)
  | publish source p o => exact publishInternal_posts p none none o
  | publishPort source p o => exact publishInternal_posts p none (some source.index) o
  | deliveryPublish lease source p o =>
    exact outstanding_posts (deliveryPublish_posts lease source p o)
  | taskPublish owner source port p o =>
    exact outstanding_posts (publishInternal_posts p (some owner) port o)
  | cloneTicket ticket => exact .still rfl
  | dropTicket ticket => exact .still rfl
  | routeBatch => exact routeBatch_posts hv
  | claim r => exact claim_posts
  | finishDelivery lease success => exact outstanding_posts (finishDelivery_posts lease success)
  | dropDelivery lease => exact outstanding_posts (dropDelivery_posts lease)
  | trackTask r => exact trackTask_posts
  | dropTask r => exact outstanding_posts dropTask_posts
  | claimNativeCallback r startup => exact claimNativeHook_posts _
  | claimNativeDrainCallback r => exact claimNativeHook_posts _
  | dropCallback r => exact outstanding_posts dropCallback_posts
  | reportFailure r event schema op phase action =>
    exact reportFailure_posts hv event schema op phase action
  | claimFailure r => exact claimFailure_posts
  | finishFailure lease action => exact outstanding_posts (finishFailure_posts hv lease action)
  | dropFailure lease => exact outstanding_posts (dropFailure_posts lease)
  | registerService name target required => exact registerService_posts name target required
  | acquireService owner name required => exact acquireServiceLockedTarget_posts hv
  | acquireServiceFrom owner name required expected => exact acquireServiceFrom_posts hv
  | releaseService lease => exact releaseService_posts hv lease
  | stop r => exact stop_posts hv
  | close => exact close_posts hv
  | requestDrain r deadline => exact requestDrain_posts hv deadline
  | drainAll deadline => exact drainAll_posts hv deadline
  | maintain now => exact maintain_posts hv now
  | activity r => exact activity_posts
  | pollActivity r observed waker => exact pollActivity_posts observed waker

theorem settled_init : w.init.mailroom.Settled w where
  sound := rfl
  slotted := by
    intro i t found
    cases found
  balanced := by
    intro i t found
    cases found
  index := DeadlineIndex.sound_new
  earliest := by
    rintro r t ⟨found, -⟩
    cases found
  strangers := fun _ _ => rfl
  staged := by
    rintro r t ⟨found, -⟩
    cases found
  vacant := fun _ _ => rfl

theorem Rests.settled (h : w.Rests st) (hm : st.mailroom.Settled w) (actions : List Action) :
    (w.exec st actions).mailroom.Settled w := by
  induction actions generalizing st with
  | nil => exact hm
  | cons action actions ih => exact ih (h.step action) (step_posts h.valid action hm)

/-- After every run the sums, the counted deadlines, the deadline index and the staging table
are what the mailboxes say, every mailbox is within its limits, and nothing that the program
expects to find has been missing. -/
theorem mailboxes_exact (w : World) (actions : List Action) :
    (w.exec w.init actions).mailroom.Settled w :=
  rests_init.settled settled_init actions

end World

end Actorplane
