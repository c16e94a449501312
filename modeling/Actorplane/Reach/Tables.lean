import Actorplane.Reach.Blockers
import Actorplane.Reach.Publishing

/-!
# The publication table in a run

The derived columns of the table are exact in every reachable state: the queues,
the ready queue, the deadlines, the captured routes and the ticket quotas. The
quotas never run over their limits and never below what is held of them.
-/

namespace Actorplane

namespace PublicationTable

variable {t t' t'' : PublicationTable} {id : ℕ} {p : Publication} {source : ActorRef}

/-- The limits stay, and no captured routes are added. -/
structure Narrows (t t' : PublicationTable) : Prop where
  limit : t'.limit = t.limit
  perSource : t'.perSource = t.perSource
  snapshot : t'.snapshotEntries ≤ t.snapshotEntries

theorem Narrows.refl (t : PublicationTable) : t.Narrows t := ⟨rfl, rfl, le_rfl⟩

theorem Narrows.trans (h : t.Narrows t') (h' : t'.Narrows t'') : t.Narrows t'' :=
  ⟨h'.limit.trans h.limit, h'.perSource.trans h.perSource, h'.snapshot.trans h.snapshot⟩

/-- Only entries, queues and tickets have changed before. -/
theorem Narrows.after (h : t'.Narrows t'') (h1 : t'.limit = t.limit := by rfl)
    (h2 : t'.perSource = t.perSource := by rfl)
    (h3 : t'.snapshotEntries = t.snapshotEntries := by rfl) : t.Narrows t'' :=
  Narrows.trans ⟨h1, h2, h3.le⟩ h

theorem readySource_narrows (t : PublicationTable) (source : ActorRef) :
    t.Narrows (t.readySource source) := by
  unfold readySource
  split_ifs <;> exact ⟨rfl, rfl, le_rfl⟩

theorem setStatus_narrows (t : PublicationTable) (id : ℕ) (status : PublicationStatus) :
    t.Narrows (t.setStatus id status) := by
  unfold setStatus
  split <;> exact ⟨rfl, rfl, le_rfl⟩

theorem releasePermit_narrows (t : PublicationTable) (id : ℕ) :
    t.Narrows (t.releasePermit id) := by
  unfold releasePermit
  split <;> exact ⟨rfl, rfl, le_rfl⟩

theorem settle_narrows (t : PublicationTable) (id : ℕ) : t.Narrows (t.settle id) := by
  unfold settle
  split
  · exact t.releasePermit_narrows id
  · exact .refl t

theorem removeIndexes_narrows (t : PublicationTable) (p : Publication) :
    t.Narrows (t.removeIndexes p) := by
  have hdeadline : t.Narrows (t.dropDeadline p) := by
    unfold dropDeadline
    split <;> exact ⟨rfl, rfl, le_rfl⟩
  have hsnapshot : (t.dropDeadline p).Narrows ((t.dropDeadline p).dropSnapshot p) := by
    unfold dropSnapshot
    split
    · exact .refl _
    · exact ⟨rfl, rfl, Nat.sub_le _ _⟩
  have hqueue : ∀ t : PublicationTable, t.Narrows (t.dropQueued p.source p.ticket) := by
    intro t
    unfold dropQueued
    split
    · exact .refl t
    · dsimp only
      split_ifs <;> exact ⟨rfl, rfl, le_rfl⟩
  have hready : ∀ t : PublicationTable, t.Narrows (t.unready p.source) := by
    intro t
    unfold unready
    split_ifs <;> exact ⟨rfl, rfl, le_rfl⟩
  apply hdeadline.trans
  apply hsnapshot.trans
  apply (hqueue _).trans
  apply (hready _).trans
  exact readySource_narrows _ _

theorem conclude_narrows (t : PublicationTable) (p : Publication) (outcome : PublicationOutcome) :
    t.Narrows (t.conclude p outcome) := by
  have hindexes : t.Narrows
      (({ t with entries := t.entries.erase p.ticket } : PublicationTable).removeIndexes p) :=
    (removeIndexes_narrows _ p).after
  apply hindexes.trans
  exact (setStatus_narrows _ _ _).trans (settle_narrows _ _)

theorem reserve_narrows (t : PublicationTable) (source : ActorRef) (staged : Bool) :
    t.Narrows (t.reserve source staged).2 := by
  unfold reserve
  split_ifs <;> exact ⟨rfl, rfl, le_rfl⟩

theorem insert_narrows (t : PublicationTable) (p : Publication) : t.Narrows (t.insert p) := by
  have hdeadline : t.Narrows (t.addDeadline p) := by
    unfold addDeadline
    split <;> exact ⟨rfl, rfl, le_rfl⟩
  apply hdeadline.trans
  unfold insert
  exact (readySource_narrows _ _).after

theorem unstage_narrows (t : PublicationTable) (id : ℕ) : t.Narrows (t.unstage id) := by
  unfold unstage
  split
  · exact .refl t
  · exact ((setStatus_narrows _ _ _).trans (readySource_narrows _ _)).after

theorem cloneHandle_narrows (t : PublicationTable) (id : ℕ) : t.Narrows (t.cloneHandle id) := by
  unfold cloneHandle
  split <;> exact ⟨rfl, rfl, le_rfl⟩

theorem dropHandle_narrows (t : PublicationTable) (id : ℕ) : t.Narrows (t.dropHandle id) := by
  unfold dropHandle
  split
  · dsimp only
    split_ifs
    · exact (releasePermit_narrows _ _).after
    · exact ⟨rfl, rfl, le_rfl⟩
  · exact .refl t

theorem requeue_narrows (t : PublicationTable) (p : Publication) : t.Narrows (t.requeue p) := by
  unfold requeue
  exact ((setStatus_narrows _ _ _).trans (readySource_narrows _ _)).after

/-! ## Tickets -/

theorem Budgeted.ticket (h : t.Budgeted) (hs : t.Sound) (hp : t.entries.lookup id = some p) :
    ∃ k, t.tickets.lookup id = some k ∧ k.source = p.source := by
  obtain ⟨status, hstatus, -⟩ := hs.ticketed id p hp
  obtain ⟨k, hk, -⟩ := Option.map_eq_some_iff.mp hstatus
  exact ⟨k, hk, h.sourced id p k hp hk⟩

/-- What is pending is part of what the quota counts. -/
theorem Budgeted.pending_le (h : t.Budgeted) (hs : t.Sound) : t.pending ≤ t.ticketTotal := by
  rw [h.counted.total]
  apply Assoc.length_le_total _ t.entries.keys_nodup
  intro id hid
  obtain ⟨p, hp⟩ := Option.isSome_iff_exists.mp (AList.lookup_isSome.mpr hid)
  obtain ⟨k, hk, -⟩ := h.ticket hs hp
  exact ⟨k, hk, Nat.one_pos⟩

theorem Budgeted.pendingFor_le (h : t.Budgeted) (hs : t.Sound) (source : ActorRef) :
    t.pendingFor source ≤ (t.ticketCounts.lookup source).getD 0 := by
  rw [h.counted.counts]
  apply Assoc.length_le_total _ ((hs.sorted source).imp fun hlt => Nat.ne_of_lt hlt)
  intro id hid
  obtain ⟨p, hp, hsource⟩ := (hs.queue source id).mp hid
  obtain ⟨k, hk, hk'⟩ := h.ticket hs hp
  exact ⟨k, hk, by simp [TicketState.charge, hk', hsource]⟩

/-- The permit of a living ticket is in both counts. -/
theorem Counted.permit (h : t.Counted) {k : TicketState} (hk : t.tickets.lookup id = some k) :
    0 < t.ticketTotal ∧ 0 < (t.ticketCounts.lookup k.source).getD 0 := by
  constructor
  · rw [h.total]
    exact Assoc.le_total (fun _ => 1) hk
  · rw [h.counts]
    have := Assoc.le_total (TicketState.charge k.source) hk
    simp only [TicketState.charge, if_true] at this
    exact this

theorem Budgeted.captured_le (h : t.Budgeted) (hp : t.entries.lookup id = some p) :
    p.captured ≤ t.snapshotEntries := by
  rw [h.snapshot]
  exact Assoc.le_total Publication.captured hp

end PublicationTable

variable {world : ℕ} {c c' : Core} {m : Move} {P : Move → Prop}

theorem Step.narrows (hs : Step world c m c') (hm : ∀ id routes k, m ≠ .capture id routes k) :
    c.publications.Narrows c'.publications := by
  cases hs
  case conclude id outcome p _ _ => exact c.publications.conclude_narrows p outcome
  case reserveTicket source staged => exact c.publications.reserve_narrows source staged
  case cloneHandle id => exact c.publications.cloneHandle_narrows id
  case dropHandle id => exact c.publications.dropHandle_narrows id
  case accept p _ _ _ _ _ _ _ _ _ _ _ _ _ _ =>
    exact (c.publications.reserve_narrows p.source p.staged).trans
      (PublicationTable.insert_narrows _ p)
  case flush id _ _ _ _ _ _ _ _ => exact c.publications.unstage_narrows id
  case capture id routes p _ _ _ _ _ => exact absurd rfl (hm id routes _)
  case requeue p _ _ _ _ => exact c.publications.requeue_narrows p
  all_goals exact ⟨rfl, rfl, le_rfl⟩

theorem Steps.narrows (hs : Steps world P c c') (hP : ∀ id routes k, ¬P (.capture id routes k)) :
    c.publications.Narrows c'.publications := by
  induction hs with
  | refl => exact .refl _
  | @tail c' c'' m hsteps hm hst ih =>
    apply ih.trans
    apply hst.narrows
    rintro id routes k rfl
    exact hP id routes k hm

/-- The limits of the table are fixed. -/
theorem Step.limits (hs : Step world c m c') : c'.publications.limit = c.publications.limit ∧
    c'.publications.perSource = c.publications.perSource := by
  cases m with
  | capture id routes k =>
    cases hs
    exact ⟨rfl, rfl⟩
  | _ =>
    have h := hs.narrows (by simp)
    exact ⟨h.limit, h.perSource⟩

/-- A move that a submission makes. -/
def Move.submits : Move → Prop
  | .submit | .refuse | .accept _ => True
  | _ => False

theorem Step.ledger_publishing (hs : Step world c m c') (hm : ¬m.submits) :
    c'.ledger.publicationSubmitted = c.ledger.publicationSubmitted ∧
      c'.ledger.publicationAdmitted = c.ledger.publicationAdmitted ∧
      c'.ledger.publicationRejected = c.ledger.publicationRejected := by
  cases hs
  case submit => exact absurd trivial hm
  case refuse => exact absurd trivial hm
  case accept => exact absurd trivial hm
  case conclude id outcome p _ _ => cases outcome <;> exact ⟨rfl, rfl, rfl⟩
  case endOperation id outcome _ _ => cases outcome <;> exact ⟨rfl, rfl, rfl⟩
  all_goals exact ⟨rfl, rfl, rfl⟩

namespace World

variable {w : World} {st : State} {r : ActorRef}

/-- Only a submission submits. -/
theorem publishes_of_moves {action : Action} (h : w.moves action st m) (hm : m.submits) :
    action.publishes.isSome := by
  have hfence : ¬m.fencing := by
    cases m <;> first | exact hm.elim | exact not_false
  cases m with
  | accept p =>
    have hmake : action.publishes = some (p.source, p.sourcePort, p.completion) :=
      makes_of_moves h hfence
    rw [hmake]
    rfl
  | submit | refuse =>
    by_contra hno
    cases action <;> first
      | exact hno rfl
      | simp [World.moves, Move.byAllocate, Move.byActivate, Move.byActivationFlush, Move.byExpiry,
          Move.byFlush, Move.byConnect, Move.byUnroute, Move.bySend, Move.byRequest,
          Move.onOperation, Move.isTicket, Move.byTurn, Move.byClaim, Move.byRelease, Move.byHold,
          Move.byHandler, Move.byFence, Move.byRegister, Move.byService, Move.byDraining,
          Move.byDrain, Move.byMaintenance, Move.byUpkeep] at h
  | _ => exact hm.elim

/-- Every submission is answered once. -/
theorem step_answered (hv : st.core.Valid w.id) (action : Action) :
    st.metrics.publicationSubmitted + (w.step action st).2.metrics.publicationAdmitted +
        (w.step action st).2.metrics.publicationRejected =
      (w.step action st).2.metrics.publicationSubmitted + st.metrics.publicationAdmitted +
        st.metrics.publicationRejected := by
  have hsubmitted : ∀ {source : ActorRef} {port : Option ℕ} {completion : Bool} {c' : Core},
      Submitted w.id st.core c' source port completion →
      st.core.ledger.publicationSubmitted + c'.ledger.publicationAdmitted +
          c'.ledger.publicationRejected =
        c'.ledger.publicationSubmitted + st.core.ledger.publicationAdmitted +
          st.core.ledger.publicationRejected := by
    intro source port completion c' h
    have h1 := h.submitted
    have h2 := h.answered
    omega
  show st.core.ledger.publicationSubmitted +
      (w.step action st).2.core.ledger.publicationAdmitted +
        (w.step action st).2.core.ledger.publicationRejected =
      (w.step action st).2.core.ledger.publicationSubmitted +
        st.core.ledger.publicationAdmitted + st.core.ledger.publicationRejected
  by_cases hpub : action.publishes.isSome
  · cases action with
    | publish source p options => exact hsubmitted (publishInternal_spec hv p none options)
    | publishPort source p options => exact hsubmitted (publishInternal_spec hv p none options)
    | deliveryPublish lease source p options =>
      show _ + (outstanding _ _ _ _).2.core.ledger.publicationAdmitted +
        (outstanding _ _ _ _).2.core.ledger.publicationRejected =
          (outstanding _ _ _ _).2.core.ledger.publicationSubmitted + _ + _
      unfold outstanding
      split_ifs
      · rcases deliveryPublish_spec hv lease source p options with h | h
        · have hcore : (returning Outcome.number
              (w.deliveryPublish lease source p options st)).2.core = st.core := h
          rw [hcore]
        · exact hsubmitted h
      · rfl
    | taskPublish owner source port p options =>
      show _ + (outstanding _ _ _ _).2.core.ledger.publicationAdmitted +
        (outstanding _ _ _ _).2.core.ledger.publicationRejected =
          (outstanding _ _ _ _).2.core.ledger.publicationSubmitted + _ + _
      unfold outstanding
      split_ifs
      · exact hsubmitted (publishInternal_spec hv p (some owner) options)
      · rfl
    | _ => cases hpub
  · have hledger := (step_evolves hv action).steps
    have key : ∀ {c c' : Core}, Steps w.id (w.moves action st) c c' →
        c'.ledger.publicationSubmitted = c.ledger.publicationSubmitted ∧
          c'.ledger.publicationAdmitted = c.ledger.publicationAdmitted ∧
          c'.ledger.publicationRejected = c.ledger.publicationRejected := by
      intro c c' hs
      induction hs with
      | refl => exact ⟨rfl, rfl, rfl⟩
      | tail _ hm hst ih =>
        obtain ⟨h1, h2, h3⟩ := hst.ledger_publishing fun hsub => hpub (publishes_of_moves hm hsub)
        exact ⟨h1.trans ih.1, h2.trans ih.2.1, h3.trans ih.2.2⟩
    obtain ⟨h1, h2, h3⟩ := key hledger
    omega

/-! ## The snapshots of a turn -/

theorem admitMessage_publications (stored : Stored) (sub : Option ℕ) (completion : Bool)
    (operation : Option OperationId) :
    (w.admitMessage r stored sub completion operation st).2.publications = st.publications := by
  have henqueue : ∀ (d : Delivery) (st : State),
      (w.enqueue r d st).publications = st.publications := by
    intro d st
    unfold enqueue refreshEarliest
    dsimp only
    split <;> rfl
  unfold admitMessage nextEventId
  dsimp only
  rcases checkDeadline stored.options (w.now st) with e | u
  · rfl
  dsimp only
  rcases w.validateSource stored.options st.tick completion with e | u
  · rfl
  dsimp only
  split_ifs
  · rfl
  dsimp only
  split
  · rfl
  split
  · rfl
  · exact henqueue _ _

theorem attemptRoute_publications (p : Publication) (route : ℕ) (target : ActorRef) :
    (w.attemptRoute p route target st).2.publications = st.publications := by
  unfold attemptRoute
  dsimp only
  rcases w.routeFence { p with cursor := p.cursor + 1 } route target st with e | u
  · rfl
  dsimp only
  have h := @admitMessage_publications w st target p.stored (some route) true none
  rcases ha : w.admitMessage target p.stored (some route) true none st with ⟨e | event, st'⟩
  · rw [ha] at h
    exact h
  · rw [ha] at h
    exact h

theorem attemptRoutes_publications (batch : ℕ) (rest : List (ℕ × ActorRef)) (p : Publication) :
    (w.attemptRoutes batch rest p st).2.2.2.publications = st.publications := by
  induction batch generalizing rest p st with
  | zero => rfl
  | succ batch ih =>
    cases rest with
    | nil => rfl
    | cons destination rest =>
      obtain ⟨route, target⟩ := destination
      unfold attemptRoutes
      dsimp only
      split_ifs
      · rfl
      · have h := @attemptRoute_publications w st.tick p route target
        rcases hcall : w.attemptRoute p route target st.tick with ⟨q, st'⟩
        rw [hcall] at h
        exact (ih rest q).trans h

theorem captureRoutes_snapshot (p : Publication)
    (h : st.publications.snapshotEntries ≤ w.cfg.maxRoutingSnapshotEntries) :
    (w.captureRoutes p st).2.publications.snapshotEntries ≤ w.cfg.maxRoutingSnapshotEntries := by
  unfold captureRoutes
  split
  · exact h
  dsimp only
  split_ifs with h1 h2
  · exact h
  · exact h
  · show st.publications.snapshotEntries + _ ≤ _
    omega

theorem routeTurn_snapshot (p : Publication)
    (h : st.publications.snapshotEntries ≤ w.cfg.maxRoutingSnapshotEntries) :
    (w.routeTurn p st).2.2.2.publications.snapshotEntries ≤
      w.cfg.maxRoutingSnapshotEntries := by
  unfold routeTurn
  have hturn : (w.turnOutcome p st).2.publications = st.publications := by
    unfold turnOutcome
    split_ifs <;> rfl
  rcases hout : w.turnOutcome p st with ⟨- | outcome, st₁⟩
  all_goals
    rw [hout] at hturn
    dsimp only at hturn ⊢
    rw [← hturn] at h
  · have hcapture := captureRoutes_snapshot p h
    rcases hcap : w.captureRoutes p st₁ with ⟨outcome | q, st₂⟩
    · rw [hcap] at hcapture
      exact hcapture
    · rw [hcap] at hcapture
      dsimp only at hcapture ⊢
      rw [attemptRoutes_publications]
      exact hcapture
  · exact h

theorem routeBatch_snapshot
    (h : st.publications.snapshotEntries ≤ w.cfg.maxRoutingSnapshotEntries) :
    (w.routeBatch st).2.publications.snapshotEntries ≤ w.cfg.maxRoutingSnapshotEntries := by
  unfold routeBatch
  rcases st.publications.ready with - | ⟨source, ready⟩
  · exact h
  dsimp only
  split
  · exact h
  split
  · exact h
  · rename_i id _ _ p _
    have hturn := @routeTurn_snapshot w { st with
      publications :=
        { st.publications with
          ready := ready
          readySet := st.publications.readySet.erase source
          entries := st.publications.entries.erase id } } p h
    dsimp only at hturn ⊢
    generalize w.routeTurn p _ = turn at hturn ⊢
    obtain ⟨- | outcome, k, q, st'⟩ := turn
    all_goals
      dsimp only at hturn ⊢
      apply le_trans _ hturn
    · show (requeuePublication q st').publications.snapshotEntries ≤ _
      unfold requeuePublication
      have hready := PublicationTable.readySource_narrows { st'.publications.setStatus q.ticket
        (.routing q.report) with
          entries := AList.insert q.ticket q
            (st'.publications.setStatus q.ticket (.routing q.report)).entries } q.source
      exact hready.snapshot.trans (PublicationTable.setStatus_narrows _ _ _).snapshot
    · show (w.finishPublicationLocked q outcome st').core.publications.snapshotEntries ≤ _
      rw [core_finishPublicationLocked]
      have hsettle := PublicationTable.settle_narrows ((st'.publications.removeIndexes q).setStatus
        q.ticket (.terminal (q.closing outcome))) q.ticket
      apply hsettle.snapshot.trans
      apply (PublicationTable.setStatus_narrows _ _ _).snapshot.trans
      exact (PublicationTable.removeIndexes_narrows _ _).snapshot

/-- Only a turn captures routes. -/
theorem step_snapshot (hv : st.core.Valid w.id) (action : Action)
    (h : st.publications.snapshotEntries ≤ w.cfg.maxRoutingSnapshotEntries) :
    (w.step action st).2.publications.snapshotEntries ≤ w.cfg.maxRoutingSnapshotEntries := by
  by_cases hturn : action = .routeBatch
  · subst hturn
    exact routeBatch_snapshot h
  · have hnarrow := (step_evolves hv action).steps.narrows fun id routes k hm =>
      hturn (makes_of_moves hm not_false)
    exact hnarrow.snapshot.trans h

/-! ## The table of a reachable state -/

/-- What the publication table, its quotas and its metrics say, without slack. -/
structure TableExact (w : World) (st : State) : Prop where
  queue : ∀ source id, id ∈ st.publications.queueOf source ↔
    ∃ p, st.publications.entries.lookup id = some p ∧ p.source = source
  ascending : ∀ source, (st.publications.queueOf source).Pairwise (· < ·)
  grouped : ∀ source, st.publications.bySource.lookup source ≠ some []
  ready_nodup : st.publications.ready.Nodup
  ready_set : ∀ source, source ∈ st.publications.readySet ↔ source ∈ st.publications.ready
  ready : ∀ source, source ∈ st.publications.ready ↔
    ∃ id p, (st.publications.queueOf source).head? = some id ∧
      st.publications.entries.lookup id = some p ∧ p.staged = false
  due_nodup : st.publications.deadlines.Nodup
  due : ∀ d id, (d, id) ∈ st.publications.deadlines ↔
    ∃ p, st.publications.entries.lookup id = some p ∧ p.stored.options.deadline = some d
  captured : st.publications.snapshotEntries =
    st.publications.entries.total Publication.captured
  captured_le : st.publications.snapshotEntries ≤ w.cfg.maxRoutingSnapshotEntries
  /-- Neither subtraction at the end of a publication underflows. -/
  closing : ∀ id p, st.publications.entries.lookup id = some p →
    p.captured ≤ st.publications.snapshotEntries ∧ p.cursor ≤ p.report.matched
  staged : ∀ id p, st.publications.entries.lookup id = some p → p.staged = true →
    ∃ a s, w.checkRef p.source st = .ok a ∧ s ∈ a.staged ∧ s.publication = id ∧
      s.stored = p.stored ∧ p.sourcePort = some s.port
  tickets : st.publications.ticketTotal = st.publications.tickets.total fun _ => 1
  tickets_le : st.publications.ticketTotal ≤ w.cfg.maxPublications
  counts : ∀ source, (st.publications.ticketCounts.lookup source).getD 0 =
    st.publications.tickets.total (TicketState.charge source)
  counts_le : ∀ source, (st.publications.ticketCounts.lookup source).getD 0 ≤
    w.cfg.maxPublicationsPerSource
  /-- A ticket lives as long as its publication is pending or a handle to it is held. -/
  alive : ∀ id k, st.publications.tickets.lookup id = some k →
    0 < k.handles ∨ (st.publications.entries.lookup id).isSome
  ticketed : ∀ id p, st.publications.entries.lookup id = some p →
    ∃ k, st.publications.tickets.lookup id = some k ∧ k.source = p.source
  /-- The last drop of a ticket finds its permit in both counts. -/
  permit : ∀ id k, st.publications.tickets.lookup id = some k →
    0 < st.publications.ticketTotal ∧
      0 < (st.publications.ticketCounts.lookup k.source).getD 0
  retained : st.publications.pending ≤ st.publications.ticketTotal ∧
    ∀ source, st.publications.pendingFor source ≤
      (st.publications.ticketCounts.lookup source).getD 0
  answered : st.metrics.publicationSubmitted =
    st.metrics.publicationAdmitted + st.metrics.publicationRejected
  concluded : st.metrics.publicationAdmitted = st.publications.pending +
    st.metrics.publicationCompleted + st.metrics.publicationCancelled +
    st.metrics.publicationExpired + st.metrics.publicationFailed

theorem ready_iff (t : PublicationTable) (source : ActorRef) : t.routable source = true ↔
    ∃ id p, (t.queueOf source).head? = some id ∧ t.entries.lookup id = some p ∧
      p.staged = false := by
  unfold PublicationTable.routable
  rcases (t.queueOf source).head? with - | id
  · simp
  · rcases hp : t.entries.lookup id with - | p <;> simp [hp]

/-- What the moves alone do not bound. -/
structure Limited (w : World) (st : State) : Prop where
  limit : st.publications.limit = w.cfg.maxPublications
  perSource : st.publications.perSource = w.cfg.maxPublicationsPerSource
  snapshot : st.publications.snapshotEntries ≤ w.cfg.maxRoutingSnapshotEntries
  answered : st.metrics.publicationSubmitted =
    st.metrics.publicationAdmitted + st.metrics.publicationRejected

theorem Limited.step (h : w.Limited st) (hv : st.core.Valid w.id) (action : Action) :
    w.Limited (w.step action st).2 := by
  have hlimits : ∀ {c c' : Core}, Steps w.id (w.moves action st) c c' →
      c'.publications.limit = c.publications.limit ∧
        c'.publications.perSource = c.publications.perSource := by
    intro c c' hs
    induction hs with
    | refl => exact ⟨rfl, rfl⟩
    | tail _ _ hst ih => exact ⟨hst.limits.1.trans ih.1, hst.limits.2.trans ih.2⟩
  obtain ⟨h1, h2⟩ := hlimits (step_evolves hv action).steps
  have h3 := step_answered hv action
  have h4 := h.answered
  constructor
  · exact h1.trans h.limit
  · exact h2.trans h.perSource
  · exact step_snapshot hv action h.snapshot
  · omega

theorem limited (actions : List Action) : w.Limited (w.exec w.init actions) := by
  induction actions using List.reverseRecOn with
  | nil => exact ⟨rfl, rfl, Nat.zero_le _, rfl⟩
  | append_singleton actions action ih =>
    rw [exec_append]
    exact ih.step (rests actions).valid action

/-- The table is exact after every run, within its limits, and accounts for every submission. -/
theorem publication_table (w : World) (actions : List Action) :
    w.TableExact (w.exec w.init actions) := by
  have hrest : w.Rests (w.exec w.init actions) := rests actions
  have hlimited : w.Limited (w.exec w.init actions) := limited actions
  have hsound := hrest.valid.publishing.sound
  have htable := hrest.valid.budgeted.table
  constructor
  · exact hsound.queue
  · exact hsound.sorted
  · exact htable.grouped
  · exact hsound.ready_nodup
  · exact fun source => (hsound.readySet_mem source).trans (hsound.ready_mem source).symm
  · exact fun source => (hsound.ready_mem source).trans (ready_iff _ source)
  · exact htable.due_nodup
  · exact htable.due
  · exact htable.snapshot
  · exact hlimited.snapshot
  · intro id p hp
    obtain ⟨hprogress, -, -⟩ := hrest.valid.publishing.pending id p hp
    refine ⟨htable.captured_le hp, ?_⟩
    rw [hprogress.matched]
    exact hprogress.cursor_le
  · intro id p hp hstaged
    obtain ⟨⟨n, hn, -, -⟩, b, hb, s, hs, hid⟩ := hrest.valid.staging.held id p hp hstaged
    obtain ⟨a, ha, hnode⟩ := hrest.check_iff_seated.mp hn
    have hbox := hrest.box ha
    obtain rfl : b = a.box := Option.some.inj (hb.symm.trans hbox)
    obtain ⟨-, -, h3, h4⟩ := hrest.valid.staging.data p.source.slot n a.box s p hn.1 hb hs
      (hid ▸ hp)
    exact ⟨a, s, ha, hs, hid, h3.symm, h4⟩
  · exact htable.counted.total
  · exact hlimited.limit ▸ htable.counted.total_le
  · exact htable.counted.counts
  · exact fun source => hlimited.perSource ▸ htable.counted.counts_le source
  · exact htable.alive
  · exact fun id p hp => htable.ticket hsound hp
  · exact fun id k hk => htable.counted.permit hk
  · exact ⟨htable.pending_le hsound, htable.pendingFor_le hsound⟩
  · exact hlimited.answered
  · exact hrest.valid.budgeted.ledger

end World

end Actorplane
