import Actorplane.Reach.Roots

/-!
# The calls that stop, with their reports

A stop of a current actor never fails. It leaves nothing in the mailboxes of the scope and
nothing outstanding for it, and what it reports as discarded is what the mailboxes of the
World have lost.
-/

namespace Actorplane

variable {st : State} {r : ActorRef}

theorem Slotwise.sum_le {α : Type} {R : α → α → Prop} {l l' : List α} {f : α → ℕ}
    (h : Slotwise R l l') (hf : ∀ a a', R a a' → f a' ≤ f a) :
    (l'.map f).sum ≤ (l.map f).sum := by
  induction l generalizing l' with
  | nil =>
    cases l' with
    | nil => exact le_rfl
    | cons a' l' =>
      have first := h 0
      cases first
  | cons a l ih =>
    cases l' with
    | nil => exact Nat.zero_le _
    | cons a' l' =>
      have first : Option.Rel R (some a) (some a') := h 0
      obtain ⟨related⟩ := first
      have rest : (l'.map f).sum ≤ (l.map f).sum := ih fun i => h (i + 1)
      rw [List.map_cons, List.map_cons, List.sum_cons, List.sum_cons]
      exact Nat.add_le_add (hf a a' related) rest

namespace State

/-- Deliveries and staged outputs that wait. -/
def mailed (st : State) : ℕ := (st.actors.map fun a => a.queue.length + a.staged.length).sum

/-- What waits, and what has been discarded. -/
def burden (st : State) : ℕ := st.mailed + st.metrics.discarded

theorem burden_modify {f : Actor → Actor}
    (hf : ∀ a, (f a).queue = a.queue ∧ (f a).staged = a.staged) :
    (st.modifyActor r f).burden = st.burden := by
  have kept : (st.modifyActor r f).mailed = st.mailed := by
    show ((st.actors.modify r.slot f).map _).sum = _
    congr 1
    apply List.ext_getElem?
    intro i
    rw [List.getElem?_map, List.getElem?_map, List.getElem?_modify]
    cases st.actors[i]? with
    | none => rfl
    | some a =>
      by_cases here : r.slot = i
      · simp [here, hf a]
      · simp [here]
  unfold burden
  rw [kept]
  rfl

theorem burden_addMetrics {f : Metrics → Metrics} (h : ∀ m, (f m).discarded = m.discarded) :
    (st.addMetrics f).burden = st.burden := by
  show st.mailed + (f st.metrics).discarded = _
  rw [h]
  rfl

theorem burden_with_publications (t : PublicationTable) :
    ({ st with publications := t } : State).burden = st.burden := rfl

theorem burden_note (e : Event) : (st.note e).burden = st.burden := rfl

end State

/-! ## Draining -/

/-- The actor drains, or has ended. -/
def Falling (nodes : List Node) (r : ActorRef) : Prop :=
  ∃ n, Seated nodes r n ∧ Lifecycle.quiescing.rank ≤ n.state.rank

theorem Falling.forward {nodes nodes' : List Node} (h : Falling nodes r) (hf : Forward nodes nodes')
    (hr : (∃ n, Seated nodes r n) → ∃ n, Seated nodes' r n) : Falling nodes' r := by
  obtain ⟨n, seated, low⟩ := h
  obtain ⟨n', seated'⟩ := hr ⟨n, seated⟩
  exact ⟨n', seated', low.trans (hf.rank_le seated seated').1⟩

theorem DrainRequest.falls {world : ℕ} {deadline : Instant} {c c' : Core}
    (h : DrainRequest world r deadline c c') (hv : c.Valid world)
    (hr : ∃ n, Seated c.nodes r n) : Falling c'.nodes r := by
  have ended : ∀ {nodes : List Node}, Ended nodes r → Falling nodes r := by
    rintro nodes ⟨n, seated, stopping | stopped⟩
    · exact ⟨n, seated, by rw [stopping]; decide⟩
    · exact ⟨n, seated, by rw [stopped]; decide⟩
  have evolves := h.evolves hv
  have kept : ∃ n, Seated c'.nodes r n := by
    obtain ⟨n, at_slot, current⟩ := hr
    have same := evolves.steps.references (fun q => Move.byDrain.not_allocate) r.slot
    rw [at_slot] at same
    obtain ⟨n', at_slot', current'⟩ := Option.map_eq_some_iff.mp same
    exact ⟨n', at_slot', current'.trans current⟩
  cases h with
  | missing hno =>
    obtain ⟨n, seated⟩ := hr
    exact absurd seated (hno n)
  | ended he => exact ended he
  | early _ _ _ he => exact ended he
  | sooner t seated quiescing =>
    have falls : Falling c.nodes r := ⟨_, seated, by rw [quiescing]⟩
    exact falls.forward (evolves.steps.forward hv.owned) fun _ => kept
  | @begun n t c' seated active _ quiesced =>
    obtain ⟨n', seated'⟩ := kept
    obtain ⟨l, lineage, -⟩ := hv.owned.lineage r n seated (by simp [active])
    refine ⟨n', seated', ?_⟩
    rcases quiesced.node _ n n' seated.1 seated'.1 with ⟨-, outside⟩ | ⟨-, rfl, -⟩
    · refine absurd ⟨?_, ?_, l, ?_, ?_⟩ outside
      · simp [active]
      · simp [active]
      · rw [seated.2]
        exact lineage
      · cases lineage <;> simp
    · exact le_rfl

namespace World

variable {w : World} {a : Actor}

/-! ## The parts of a fence -/

theorem burden_foldl {α : Type} (f : State → α → State)
    (hf : ∀ st x, (f st x).burden = st.burden) (xs : List α) (st : State) :
    (xs.foldl f st).burden = st.burden := by
  induction xs generalizing st with
  | nil => rfl
  | cons x xs ih => exact (ih (f st x)).trans (hf st x)

theorem burden_mark : (w.markActivityDependentsLocked r st).burden = st.burden := rfl

theorem burden_finishPublicationLocked (p : Publication) (outcome : PublicationOutcome) :
    (w.finishPublicationLocked p outcome st).burden = st.burden := by
  have concluded : ∀ st : State, (st.addMetrics (concludedMetrics outcome)).burden = st.burden := by
    intro st
    apply State.burden_addMetrics
    intro m
    cases outcome <;> rfl
  have marked : ∀ st : State,
      (if st.publications.ready ≠ [] then st.markRoutingLocked else st).burden = st.burden := by
    intro st
    split_ifs <;> rfl
  unfold finishPublicationLocked
  dsimp only
  rw [State.burden_note, State.burden_with_publications, marked, burden_mark, concluded]
  rfl

theorem burden_cancelPublicationLocked (id : ℕ) (outcome : PublicationOutcome) :
    (w.cancelPublicationLocked id outcome st).burden = st.burden := by
  unfold cancelPublicationLocked
  cases st.publications.entries.lookup id with
  | none => rfl
  | some p => exact burden_finishPublicationLocked p outcome

theorem burden_tryFinalize (fuel : ℕ) : (w.tryFinalize fuel r st).burden = st.burden := by
  have rolled : ∀ (r : ActorRef) (st : State), (rollUp r st).burden = st.burden := by
    intro r st
    unfold rollUp
    split
    · rfl
    · split
      · rfl
      · split
        · rfl
        · split_ifs
          · rfl
          · exact State.burden_modify fun _ => ⟨rfl, rfl⟩
  have finalized : ∀ (r : ActorRef) (st : State), (w.finalizeActor r st).burden = st.burden := by
    intro r st
    have stopped := @State.burden_modify st r (fun a => { a with state := .stopped })
      fun _ => ⟨rfl, rfl⟩
    exact (rolled r _).trans stopped
  induction fuel generalizing r st with
  | zero => rfl
  | succ fuel ih =>
    unfold tryFinalize
    dsimp only
    split
    · rfl
    · split_ifs
      · rfl
      · split
        · exact finalized r _
        · rw [ih]
          exact finalized r _
      · rfl

theorem burden_detachScope : (w.detachScope r st).burden = st.burden := by
  unfold detachScope
  cases st.services.leases.lookup r <;> rfl

theorem burden_discardNotificationsFor :
    (w.discardNotificationsFor r st).burden = st.burden := by
  have discarded : ∀ (st : State) (source : ActorRef),
      (w.discardNotification r st source).burden = st.burden := by
    intro st source
    unfold discardNotification
    dsimp only
    rw [burden_tryFinalize]
    have silent := @State.burden_modify st source (fun a => { a with notification := none })
      fun _ => ⟨rfl, rfl⟩
    have heard := @State.burden_modify
      (st.modifyActor source fun a => { a with notification := none }) r
      (fun a => { a with pendingFailures := a.pendingFailures - 1 }) fun _ => ⟨rfl, rfl⟩
    exact heard.trans silent
  unfold discardNotificationsFor
  cases w.checkRef r st with
  | error e => rfl
  | ok a =>
    dsimp only
    have all := burden_foldl _ discarded (a.children.filter (w.notifying st)) st
    split_ifs
    · exact all
    · exact all

theorem burden_cancelOperationsOf : (w.cancelOperationsOf r st).burden = st.burden := by
  unfold cancelOperationsOf
  dsimp only
  rw [burden_foldl (fun st _ => st.diagnostic .cancelled (some r) none) fun _ _ => rfl]
  exact burden_foldl (fun st (p : OperationOwner) =>
    w.markOperationActivityLocked p.owner (some p.target) st) (fun _ _ => rfl) _ _

theorem burden_removeActorRoutes : (w.removeActorRoutes r st).burden = st.burden := by
  apply burden_foldl
  intro st id
  cases st.subs.remove id with
  | mk route subs => cases route <;> rfl

/-- What the actor had in its mailbox is discarded. -/
theorem burden_stopActor (ha : st.actors[r.slot]? = some a) :
    (stopActor r a st).burden = st.burden := by
  have noted : ∀ (st : State) (staged : List StagedOutput) (queue : List Delivery),
      (queue.foldl (fun st d => st.note (.cancelled d.eventId r .fenced))
        (staged.foldl (fun st s => st.note (.stagedLost s.publication)) st)).burden =
          st.burden := by
    intro st staged queue
    rw [burden_foldl (fun st (d : Delivery) => st.note (.cancelled d.eventId r .fenced))
      fun _ _ => rfl]
    exact burden_foldl (fun st (s : StagedOutput) => st.note (.stagedLost s.publication))
      (fun _ _ => rfl) _ _
  set stop : Actor → Actor := fun a =>
    { a with
      state := .stopping
      staged := []
      stagedBytes := 0
      deadlines := .new
      queue := []
      queueBytes := 0 } with hstop
  have emptied : (st.modifyActor r stop).mailed + (a.queue.length + a.staged.length) =
      st.mailed + 0 := sum_map_modify (fun a => a.queue.length + a.staged.length) stop ha
  have kept := noted (st.modifyActor r stop) a.staged a.queue
  have counted : (stopActor r a st).burden = (st.modifyActor r stop).burden +
      (a.staged.length + a.queue.length) := by
    rw [← kept]
    exact (Nat.add_assoc _ _ _).symm
  rw [counted]
  show (st.modifyActor r stop).mailed + st.metrics.discarded + _ = st.mailed + _
  omega

/-! ## Fences -/

theorem burden_revokeScope {fence : ActorRef → State → Except Error Unit × State}
    (hf : ∀ r st, (fence r st).2.burden = st.burden) (service : ActorRef) (st : State)
    (scope : ActorRef) : (w.revokeScope fence service st scope).burden = st.burden := by
  unfold revokeScope
  dsimp only
  rw [hf]
  cases st.services.leases.lookup scope <;> rfl

theorem burden_detachService {fence : ActorRef → State → Except Error Unit × State}
    (hf : ∀ r st, (fence r st).2.burden = st.burden) :
    (w.detachService fence r st).burden = st.burden := by
  unfold detachService
  cases st.services.byTarget.lookup r with
  | none => rfl
  | some name =>
    dsimp only
    cases st.services.records.lookup name with
    | none => rfl
    | some record => exact burden_foldl _ (burden_revokeScope hf r) _ _

theorem burden_fenceAll {fence : ActorRef → State → Except Error Unit × State}
    (hf : ∀ r st, (fence r st).2.burden = st.burden) (children : List ActorRef) (st : State) :
    (fenceAll fence children st).2.burden = st.burden := by
  induction children generalizing st with
  | nil => rfl
  | cons q children ih =>
    have first := hf q st
    unfold fenceAll
    rcases hcall : fence q st with ⟨e | u, st'⟩
    · rw [hcall] at first
      exact first
    · rw [hcall] at first
      exact (ih st').trans first

theorem checkRef_get (h : w.checkRef r st = .ok a) : st.actors[r.slot]? = some a := by
  unfold checkRef at h
  split_ifs at h
  cases found : st.actors[r.slot]? with
  | none =>
    rw [found] at h
    cases h
  | some b =>
    rw [found] at h
    dsimp only at h
    split_ifs at h
    exact congrArg some (Except.ok.inj h)

/-- A fence discards what it takes from the mailboxes. -/
theorem burden_fenceLocked (fuel : ℕ) (r : ActorRef) (st : State) :
    (w.fenceLocked fuel r st).2.burden = st.burden := by
  induction fuel generalizing r st with
  | zero => rfl
  | succ fuel ih =>
    unfold fenceLocked
    cases w.checkRef r st with
    | error e => rfl
    | ok a₀ =>
      dsimp only
      have cancelled : (w.cancelSourcePublicationsLocked r st).burden = st.burden :=
        burden_foldl (fun st id => w.cancelPublicationLocked id .cancelled st)
          (fun _ id => burden_cancelPublicationLocked id .cancelled) _ st
      set st₁ := w.cancelSourcePublicationsLocked r st
      set st₂ : State := { st₁ with
        eventDeadlines := st₁.eventDeadlines.remove r
        stagedActors := st₁.stagedActors.erase r.slot
        drainRoots := st₁.drainRoots.erase r.slot } with hst₂
      have unlisted : st₂.burden = st.burden := cancelled
      have prepared : (w.cancelOperationsOf r (w.discardNotificationsFor r
          (w.detachService (w.fenceLocked fuel) r (w.detachScope r st₂)))).burden = st.burden := by
        rw [burden_cancelOperationsOf, burden_discardNotificationsFor, burden_detachService ih,
          burden_detachScope, unlisted]
      set st₃ := w.cancelOperationsOf r (w.discardNotificationsFor r
        (w.detachService (w.fenceLocked fuel) r (w.detachScope r st₂)))
      cases w.checkRef r st₃ with
      | error e => exact prepared
      | ok a =>
        dsimp only
        have children := burden_fenceAll ih a.children st₃
        rcases hall : fenceAll (w.fenceLocked fuel) a.children st₃ with ⟨e | u, st₄⟩
        · rw [hall] at children
          exact children.trans prepared
        · rw [hall] at children
          dsimp only at children ⊢
          cases check : w.checkRef r st₄ with
          | error e => exact children.trans prepared
          | ok a₄ =>
            dsimp only
            split_ifs
            · exact children.trans prepared
            · have found : (w.removeActorRoutes r st₄).actors[r.slot]? = some a₄ := by
                rw [actors_removeActorRoutes]
                exact checkRef_get check
              rw [burden_tryFinalize, burden_stopActor found, burden_removeActorRoutes, children,
                prepared]

/-! ## Scopes that have ended -/

theorem Rests.scope_ended (h : w.Rests st) (he : Ended st.core.nodes r) {q : ActorRef}
    (hq : w.InScope st r q) : Ended st.core.nodes q := by
  obtain ⟨k, check, rfl | ⟨alive, above⟩⟩ := hq
  · exact he
  · have ho := h.valid.owned
    have seated := seated_of_check ho check
    obtain ⟨n, top, stopping | stopped⟩ := he
    · have bounds := ho.lineage_bounds (h.ancestry ⟨check, alive⟩) seated alive above top
      exact ⟨k.node, seated, .inl (bounds.1 stopping)⟩
    · obtain ⟨m, there, running⟩ :=
        ho.lineage_alive (h.ancestry ⟨check, alive⟩) seated alive above
      rw [there.unique top] at running
      exact absurd stopped running

/-- A scope that has ended has nothing waiting and nothing outstanding. -/
theorem Reports.ended {scope : List ActorRef} {report : StopReport}
    (hr : w.Reports st scope report) (h : w.Rests st) (hp : st.core.Sourced)
    (he : ∀ q ∈ scope, Ended st.core.nodes q) :
    report.queued = 0 ∧ report.outstandingOperations = 0 ∧ report.outstandingPublications = 0 := by
  have running : ∀ q ∈ scope, ¬Running st.core.nodes q ∧ ¬Present st.core.nodes q := by
    intro q mem
    obtain ⟨n, seated, ended⟩ := he q mem
    constructor
    · rintro ⟨k, there, running⟩
      rw [there.unique seated] at running
      rcases ended with ended | ended <;> simp [ended] at running
    · rintro ⟨k, there, live, running⟩
      rw [there.unique seated] at live running
      exact ended.elim live running
  refine ⟨?_, ?_, ?_⟩
  · rw [hr.queued, List.sum_eq_zero_iff, List.forall_mem_map]
    intro k mem
    obtain ⟨q, inside, check⟩ := mem_actorsOf.mp mem
    have seated := seated_of_check h.valid.owned check
    obtain ⟨n, there, ended⟩ := he q inside
    rw [there.unique seated] at ended
    obtain ⟨queue, staged⟩ := h.valid.quiet _ _ _ seated.1 (h.box check) ended
    have queue : k.queue = [] := List.map_eq_nil_iff.mp queue
    have staged : k.staged = [] := staged
    rw [queue, staged]
    rfl
  · rw [hr.outstandingOperations, List.countP_eq_zero]
    intro s _ touched
    unfold OperationTable.touches at touched
    cases entry : st.operations.entryAt s with
    | none => simp [entry] at touched
    | some e =>
      cases e with
      | terminal o => simp [entry] at touched
      | pending p =>
        obtain ⟨owner, target⟩ :=
          h.valid.operating.endpoints _ p (OperationTable.locate_id entry)
        simp only [entry, Bool.or_eq_true, decide_eq_true_eq] at touched
        obtain inside | inside := touched
        · exact (running _ inside).1 owner
        · exact (running _ inside).1 target
  · rw [hr.outstandingPublications]
    apply List.sum_eq_zero
    intro x mem
    obtain ⟨e, there, rfl⟩ := List.mem_map.mp mem
    have present := hp e.1 e.2 (AList.mem_lookup_iff.mpr there)
    exact if_neg fun inside => (running _ inside).2 present

/-- A fence only takes from the mailboxes. -/
theorem mailed_le {st' : State} (h : st.core.Reduces st'.core) : st'.mailed ≤ st.mailed := by
  have column : ∀ st : State, st.mailed =
      (st.core.boxes.map fun b => b.queue.length + b.staged.length).sum := by
    intro st
    show _ = ((st.actors.map Actor.box).map _).sum
    rw [List.map_map]
    unfold State.mailed
    congr 1
    apply List.map_congr_left
    intro a _
    show _ = (a.queue.map Delivery.mail).length + a.staged.length
    rw [List.length_map]
  rw [column, column]
  exact h.boxes.sum_le fun _ _ reduces =>
    Nat.add_le_add reduces.queue.length_le reduces.staged.length_le

/-! ## Stopping -/

/-- What a stop of an actor returns. -/
structure Stops (w : World) (st : State) (r : ActorRef) : Prop where
  /-- The report does not change what the call does. -/
  state : (w.stopReporting r st).2 = (w.stop r st).2
  refused : ∀ e, w.checkRef r st = .error e → (w.stopReporting r st).1 = .error e
  reports : ∀ a, w.checkRef r st = .ok a → ∃ scope report,
    (w.stopReporting r st).1 = .ok report ∧ scope.Nodup ∧
    (∀ q, q ∈ scope ↔ w.InScope (w.stop r st).2 r q) ∧
    (∀ q ∈ scope, Ended (w.stop r st).2.core.nodes q) ∧
    w.Reports (w.stop r st).2 scope report ∧
    report.queued = 0 ∧ report.outstandingOperations = 0 ∧ report.outstandingPublications = 0 ∧
    report.discarded + (w.stop r st).2.mailed = st.mailed

theorem stopLocked_refused {e : Error} (h : w.checkRef r st = .error e) :
    w.stopLocked r st = (.error e, st) := by
  have fuel : fenceFuel = 2 * walkFuel - 1 + 1 := by decide
  unfold stopLocked
  rw [fuel]
  unfold fenceLocked
  rw [h]

theorem reportScope_touchActivity (fuel : ℕ) (stack scope : List ActorRef) (report : StopReport) :
    w.reportScope st.touchActivity fuel stack scope report =
      w.reportScope st fuel stack scope report := by
  have check : ∀ q, w.checkRef q st.touchActivity = w.checkRef q st := fun _ => rfl
  induction fuel generalizing stack scope report with
  | zero => cases stack <;> rfl
  | succ fuel ih =>
    cases stack with
    | nil => rfl
    | cons q stack =>
      unfold reportScope
      rw [check]
      cases w.checkRef q st with
      | error e => rfl
      | ok a => exact ih _ _ _

/-- A report reads nothing that only marks the observers. -/
theorem reportLocked_touchActivity : w.reportLocked r st.touchActivity = w.reportLocked r st := by
  have walk := @reportScope_touchActivity st w (st.actors.length + 1) [r] [] {}
  have tables : st.touchActivity.operations = st.operations ∧
    st.touchActivity.publications = st.publications ∧
    st.touchActivity.actors.length = st.actors.length := ⟨rfl, rfl, rfl⟩
  unfold reportLocked
  rw [tables.1, tables.2.1, tables.2.2, walk]

/-- What is discarded is no part of what a report counts. -/
theorem Reports.discarding {scope : List ActorRef} {report : StopReport}
    (h : w.Reports st scope report) (n : ℕ) :
    w.Reports st scope { report with discarded := n } := by
  cases h
  constructor <;> assumption

/-- A stop of a current actor returns the report of a scope that has ended. -/
theorem stop_reports (w : World) (actions : List Action) (r : ActorRef) :
    w.Stops (w.exec w.init actions) r := by
  have h : w.Rests (w.exec w.init actions) := rests actions
  have h' : w.Rests (w.stop r (w.exec w.init actions)).2 := h.step (.stop r)
  have sourced : (w.stop r (w.exec w.init actions)).2.core.Sourced := by
    have all := w.rests_sourced (actions ++ [.stop r])
    rw [exec_append] at all
    exact all
  generalize w.exec w.init actions = st at h h' sourced
  have hv := h.valid
  have fences := @stopLocked_fences (fun _ => True) r w st hv
    ⟨fun _ _ _ _ _ _ => trivial, fun _ _ _ _ _ _ _ _ => trivial⟩ trivial
  have burden : (w.stopLocked r st).2.burden = st.burden := burden_fenceLocked _ r st
  have reduces := Fenced.reduces fences.fenced hv
  have refused : ∀ e, w.checkRef r st = .error e → w.stopLocked r st = (.error e, st) :=
    fun e check => stopLocked_refused check
  have stopped : (w.stop r st).2 = (w.stopLocked r st).2.touchActivity := rfl
  rw [stopped] at h' sourced
  have called : ∀ result, w.stopLocked r st = result →
      (w.stop r st).2 = result.2.touchActivity := by
    rintro _ rfl
    rfl
  rcases hcall : w.stopLocked r st with ⟨result, st'⟩
  rw [hcall] at fences burden reduces refused h' sourced
  have stop := called _ hcall
  dsimp only at stop burden reduces h' sourced
  have quiet : w.Rests st' := ⟨h'.valid, h'.draining, h'.blocked⟩
  have reporting : ∀ {a}, w.checkRef r st = .ok a →
      result = .ok () ∧ Ended st'.touchActivity.core.nodes r ∧ ∃ scope report,
        w.reportLocked r st' = .ok report ∧ scope.Nodup ∧
        (∀ q, q ∈ scope ↔ w.InScope st'.touchActivity r q) ∧
        w.Reports st'.touchActivity scope report := by
    intro a check
    obtain ⟨ok, ended⟩ := fences.ended ⟨a.node, seated_of_check hv.owned check⟩
    obtain ⟨n, seated, -⟩ := reduces.seated (seated_of_check hv.owned check)
    obtain ⟨a', check', -⟩ := quiet.check_iff_seated.mp seated
    have marked : w.checkRef r st'.touchActivity = .ok a' := check'
    have reports := h'.reportLocked marked
    rw [reportLocked_touchActivity] at reports
    exact ⟨ok, ended, reports⟩
  constructor
  · rw [stop]
    unfold stopReporting
    rw [hcall]
    cases check : w.checkRef r st with
    | error e =>
      obtain ⟨rfl, -⟩ := Prod.mk.inj (refused e check)
      rfl
    | ok a =>
      obtain ⟨rfl, -, scope, report, reported, -⟩ := reporting check
      dsimp only
      rw [reported]
  · intro e check
    obtain ⟨rfl, -⟩ := Prod.mk.inj (refused e check)
    unfold stopReporting
    rw [hcall]
  · intro a check
    obtain ⟨rfl, ended, scope, report, reported, nodup, inside, counts⟩ := reporting check
    have fallen : ∀ q ∈ scope, Ended st'.touchActivity.core.nodes q :=
      fun q mem => h'.scope_ended ended ((inside q).mp mem)
    obtain ⟨queued, operations, publications⟩ := counts.ended h' sourced fallen
    have less := mailed_le reduces
    have balance : st'.metrics.discarded - st.metrics.discarded +
        st'.touchActivity.mailed = st.mailed := by
      have kept : st'.touchActivity.mailed = st'.mailed := rfl
      unfold State.burden at burden
      omega
    have returned : (w.stopReporting r st).1 = .ok
        { report with discarded := st'.metrics.discarded - st.metrics.discarded } := by
      unfold stopReporting
      rw [hcall]
      dsimp only
      rw [reported]
    rw [stop]
    exact ⟨scope, _, returned, nodup, inside, fallen, counts.discarding _, queued, operations,
      publications, balance⟩

/-! ## Draining with a report -/

theorem Rests.scope_falls (h : w.Rests st) (hr : Falling st.core.nodes r) {q : ActorRef}
    (hq : w.InScope st r q) : Falling st.core.nodes q := by
  obtain ⟨k, check, rfl | ⟨alive, above⟩⟩ := hq
  · exact hr
  · obtain ⟨n, top, low⟩ := hr
    have seated := seated_of_check h.valid.owned check
    have bounds := h.valid.owned.lineage_bounds (h.ancestry ⟨check, alive⟩) seated alive above top
    obtain ⟨m, there, running⟩ :=
      h.valid.owned.lineage_alive (h.ancestry ⟨check, alive⟩) seated alive above
    rw [there.unique top] at running
    refine ⟨k.node, seated, ?_⟩
    cases hs : n.state with
    | starting => exact absurd (hs ▸ low) (by decide)
    | active => exact absurd (hs ▸ low) (by decide)
    | quiescing =>
      rcases bounds.2 hs with state | state
      · rw [state]
      · rw [state]
        decide
    | stopping =>
      rw [bounds.1 hs]
      decide
    | stopped => exact absurd hs running

/-- What a request to drain an actor returns. -/
structure DrainsReporting (w : World) (st : State) (r : ActorRef) (deadline : Instant) :
    Prop where
  /-- The report does not change what the call does. -/
  state : (w.requestDrainReporting r deadline st).2 = (w.requestDrain r deadline st).2
  refused : ∀ e, w.checkRef r st = .error e → w.requestDrainReporting r deadline st = (.error e, st)
  reports : ∀ a, w.checkRef r st = .ok a → ∃ scope report,
    (w.requestDrainReporting r deadline st).1 = .ok report ∧ scope.Nodup ∧
    (∀ q, q ∈ scope ↔ w.InScope (w.requestDrain r deadline st).2 r q) ∧
    (∀ q ∈ scope, Falling (w.requestDrain r deadline st).2.core.nodes q) ∧
    w.Reports (w.requestDrain r deadline st).2 scope report

/-- A drain of a current actor returns the report of a scope in which nothing still runs. -/
theorem drain_reports (w : World) (actions : List Action) (r : ActorRef) (deadline : Instant) :
    w.DrainsReporting (w.exec w.init actions) r deadline := by
  have h : w.Rests (w.exec w.init actions) := rests actions
  have h' : w.Rests (w.requestDrain r deadline (w.exec w.init actions)).2 :=
    h.step (.requestDrain r deadline)
  generalize w.exec w.init actions = st at h h'
  have hv := h.valid
  obtain ⟨request, accepted⟩ := drainLocked_spec (w := w) (r := r) hv deadline
  have valid := (request.evolves hv).valid hv
  have maintained : ∀ st₁ : State, st₁.core.Valid w.id →
      Maintains w.id (w.now st₁) st₁.core (w.maintainLocked (w.now st₁) st₁.tick).core :=
    fun st₁ hv₁ => @maintainLocked_maintains _ st₁.tick _ hv₁
  constructor
  · unfold requestDrainReporting requestDrain
    rcases w.drainLocked r deadline st with ⟨e | u, st₁⟩ <;> rfl
  · intro e check
    unfold requestDrainReporting drainLocked
    rw [check]
  · intro a check
    have current : ∃ n, Seated st.core.nodes r n := ⟨a.node, seated_of_check hv.owned check⟩
    have falls := request.falls hv current
    have ok := accepted current
    unfold requestDrain at h' ⊢
    unfold requestDrainReporting
    rcases hcall : w.drainLocked r deadline st with ⟨result, st₁⟩
    rw [hcall] at falls ok valid h'
    dsimp only at ok
    subst ok
    dsimp only at falls valid h' ⊢
    have maintains := maintained st₁ valid
    generalize w.maintainLocked (w.now st₁) st₁.tick = st₂ at maintains h' ⊢
    have fallen : Falling st₂.touchActivity.core.nodes r := by
      rw [State.core_touchActivity]
      refine falls.forward (maintains.steps.forward valid.owned) fun ⟨n, seated⟩ => ?_
      have same := maintains.steps.references (fun q => Move.byMaintenance.not_allocate) r.slot
      rw [seated.1] at same
      obtain ⟨n', there, current'⟩ := Option.map_eq_some_iff.mp same
      exact ⟨n', there, current'.trans seated.2⟩
    have seated := fallen.choose_spec.1
    obtain ⟨a', check', -⟩ := h'.check_iff_seated.mp seated
    obtain ⟨scope, report, reported, nodup, inside, counts⟩ := h'.reportLocked check'
    rw [reportLocked_touchActivity] at reported
    exact ⟨scope, report, reported, nodup, inside,
      fun q mem => h'.scope_falls fallen ((inside q).mp mem), counts⟩

end World

end Actorplane
