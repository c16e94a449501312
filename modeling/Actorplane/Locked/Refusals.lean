import Actorplane.Locked.World
import Actorplane.Model.Retention
import Actorplane.Operations.Rollback

/-!
# What a refused call leaves behind

Every way into the World takes its resources one after the other and may fail
after any of them. An attempt that fails has only used up identities; what it had
reserved in the operation table and in the ticket quota is rolled back.
-/

namespace Actorplane

/-! ## Tickets -/

namespace PublicationTable

/-- `t'` is `t` after tickets that were given back. -/
structure Reverts (t t' : PublicationTable) : Prop where
  entries : t'.entries = t.entries
  bySource : t'.bySource = t.bySource
  ready : t'.ready = t.ready
  readySet : t'.readySet = t.readySet
  deadlines : t'.deadlines = t.deadlines
  limit : t'.limit = t.limit
  perSource : t'.perSource = t.perSource
  ticketTotal : t'.ticketTotal = t.ticketTotal
  ticketCounts : ∀ r, t'.ticketCounts.lookup r = t.ticketCounts.lookup r
  tickets : ∀ id, t'.tickets.lookup id = t.tickets.lookup id
  snapshotEntries : t'.snapshotEntries = t.snapshotEntries
  nextId : t.nextId ≤ t'.nextId

variable {t : PublicationTable} {source : ActorRef} {id : ℕ} {staged : Bool}

theorem Reverts.refl (t : PublicationTable) : t.Reverts t where
  entries := rfl
  bySource := rfl
  ready := rfl
  readySet := rfl
  deadlines := rfl
  limit := rfl
  perSource := rfl
  ticketTotal := rfl
  ticketCounts _ := rfl
  tickets _ := rfl
  snapshotEntries := rfl
  nextId := Nat.le_refl _

theorem reserve_eq_ok (h : (t.reserve source staged).1 = .ok id) :
    id = t.nextId ∧ (t.reserve source staged).2 =
      { t with
        ticketTotal := t.ticketTotal + 1
        ticketCounts :=
          AList.insert source ((t.ticketCounts.lookup source).getD 0 + 1) t.ticketCounts
        tickets :=
          AList.insert t.nextId ⟨source, if staged then .staged else .queued, 1⟩ t.tickets
        nextId := t.nextId + 1 } := by
  unfold reserve at h ⊢
  split_ifs at h ⊢ <;> cases h
  all_goals exact ⟨rfl, rfl⟩

/-- Dropping the only handle of the ticket just reserved brings the quota back. -/
theorem reverts_reserve (hs : t.Sound) (hb : t.Budgeted)
    (hok : (t.reserve source staged).1 = .ok id) :
    t.Reverts ((t.reserve source staged).2.dropHandle id) := by
  obtain ⟨rfl, reserved⟩ := reserve_eq_ok hok
  have unlisted : t.entries.lookup t.nextId = none := by
    by_contra present
    obtain ⟨p, hp⟩ := Option.ne_none_iff_exists'.mp present
    exact absurd (hs.key _ p hp).2 (lt_irrefl _)
  have unknown : t.tickets.lookup t.nextId = none := by
    by_contra present
    obtain ⟨k, hk⟩ := Option.ne_none_iff_exists'.mp present
    have status : t.statusOf t.nextId = some k.status := by
      rw [statusOf, hk]
      rfl
    exact absurd (hs.known _ _ status) (lt_irrefl _)
  have positive := hb.counted.positive source
  rw [reserved]
  unfold dropHandle
  simp only [AList.lookup_insert]
  rw [unlisted]
  simp only [Option.isNone_none, and_self, if_true]
  unfold releasePermit
  simp only [AList.lookup_insert]
  constructor
  case ticketCounts =>
    intro r
    simp only [Option.getD_some, Nat.add_sub_cancel]
    split_ifs with zero
    · simp only [Assoc.lookup_erase_ite, Assoc.lookup_insert_ite]
      split_ifs with same
      · subst same
        cases counted : t.ticketCounts.lookup r with
        | none => rfl
        | some n =>
          rw [counted] at zero
          have zero : n = 0 := zero
          rw [counted, zero] at positive
          exact absurd rfl positive
      · rfl
    · simp only [Assoc.lookup_insert_ite]
      split_ifs with same
      · subst same
        cases counted : t.ticketCounts.lookup r with
        | none =>
          rw [counted] at zero
          exact absurd rfl zero
        | some n => rfl
      · rfl
  case tickets =>
    intro i
    simp only [Assoc.lookup_erase_ite, Assoc.lookup_insert_ite]
    split_ifs with same
    · rw [same, unknown]
    · rfl
  case ticketTotal => exact Nat.add_sub_cancel t.ticketTotal 1
  case nextId => exact Nat.le_succ _
  all_goals rfl

end PublicationTable

/-! ## Attempts and refusals -/

namespace State

/-- Everything but the marks left for observers, the metrics of ingress, the identity counters
and the two tables that are compared by themselves. -/
def kept (st : State) : State := { st with
  metrics :=
    { st.metrics with
      submitted := 0
      rejected := 0
      publicationSubmitted := 0
      publicationRejected := 0 }
  obs :=
    { st.obs with
      activity := .new
      routing := { st.obs.routing with dirty := false }
      diagnostics := .new 0 }
  operations := .new 0 0
  publications := .new 0 0
  nextFailure := 0
  nextEvent := 0
  nextSub := 0
  serviceCalls := []
  reads := 0
  reservations := 0 }

end State

/-- Only marks, ingress metrics and identities have been spent, and nothing was reported. -/
structure Attempted (st st' : State) : Prop where
  kept : st'.kept = st.kept
  diagnostics : st'.obs.diagnostics = st.obs.diagnostics
  nextEvent : st.nextEvent ≤ st'.nextEvent
  nextSub : st.nextSub ≤ st'.nextSub
  nextFailure : st.nextFailure ≤ st'.nextFailure

/-- What a call that returns an error may leave behind. -/
structure Refused (st st' : State) : Prop where
  kept : st'.kept = st.kept
  diagnostics : st'.obs.diagnostics = st.obs.diagnostics ∨
    ∃ e r, st'.obs.diagnostics = st.obs.diagnostics.record (.rejected e) (some r) none
  operations : st.operations.Reverts st'.operations
  publications : st.publications.Reverts st'.publications
  nextEvent : st.nextEvent ≤ st'.nextEvent
  nextSub : st.nextSub ≤ st'.nextSub
  nextFailure : st.nextFailure ≤ st'.nextFailure

variable {st st' st'' st₀ : State}

theorem Attempted.refl (st : State) : Attempted st st :=
  ⟨rfl, rfl, Nat.le_refl _, Nat.le_refl _, Nat.le_refl _⟩

theorem Attempted.trans (h : Attempted st st') (h' : Attempted st' st'') : Attempted st st'' where
  kept := h'.kept.trans h.kept
  diagnostics := h'.diagnostics.trans h.diagnostics
  nextEvent := Nat.le_trans h.nextEvent h'.nextEvent
  nextSub := Nat.le_trans h.nextSub h'.nextSub
  nextFailure := Nat.le_trans h.nextFailure h'.nextFailure

theorem Attempted.refused (h : Attempted st st') (ho : st.operations.Reverts st'.operations)
    (hp : st.publications.Reverts st'.publications) : Refused st st' where
  kept := h.kept
  diagnostics := .inl h.diagnostics
  operations := ho
  publications := hp
  nextEvent := h.nextEvent
  nextSub := h.nextSub
  nextFailure := h.nextFailure

theorem Refused.refl (st : State) : Refused st st := (Attempted.refl st).refused (.refl _) (.refl _)

/-- An attempt that has not touched the two tables. -/
structure Spent (st st' : State) : Prop extends Attempted st st' where
  operations : st'.operations = st.operations
  publications : st'.publications = st.publications

theorem Spent.refl (st : State) : Spent st st := ⟨.refl st, rfl, rfl⟩

theorem Spent.trans (h : Spent st st') (h' : Spent st' st'') : Spent st st'' where
  toAttempted := h.toAttempted.trans h'.toAttempted
  operations := h'.operations.trans h.operations
  publications := h'.publications.trans h.publications

theorem Spent.tables (h : Spent st st') :
    st.operations.Reverts st'.operations ∧ st.publications.Reverts st'.publications := by
  rw [h.operations, h.publications]
  exact ⟨.refl _, .refl _⟩

theorem Refused.touch (h : Refused st st') : Refused st st'.touchActivity :=
  ⟨h.1, h.2, h.3, h.4, h.5, h.6, h.7⟩

/-- A refusal is reported once. -/
theorem Attempted.reject (h : Attempted st st') (ho : st.operations.Reverts st'.operations)
    (hp : st.publications.Reverts st'.publications) (e : Error) (r : ActorRef) :
    Refused st (World.reject e r st') where
  kept := h.kept
  diagnostics := .inr ⟨e, r, congrArg (fun d => d.record (.rejected e) (some r) none) h.diagnostics⟩
  operations := ho
  publications := hp
  nextEvent := h.nextEvent
  nextSub := h.nextSub
  nextFailure := h.nextFailure

theorem mem_payloads {t : OperationTable} {s : Stored} :
    s ∈ t.payloads ↔ ∃ i e, t.entryAt i = some e ∧ s ∈ e.payloads := by
  unfold OperationTable.payloads
  rw [List.mem_flatMap]
  constructor
  · rintro ⟨entry, listed, mem⟩
    cases entry with
    | none => cases mem
    | some e =>
      obtain ⟨i, found⟩ := List.mem_iff_getElem?.mp listed
      exact ⟨i, e, by rw [OperationTable.entryAt, found, Option.join_some], mem⟩
  · rintro ⟨i, e, found, mem⟩
    exact ⟨some e, List.mem_of_getElem? (Option.join_eq_some_iff.mp found), mem⟩

/-- The World holds the payloads it held before. -/
theorem Refused.payloads (h : Refused st st') (s : Stored) :
    s ∈ st'.payloads ↔ s ∈ st.payloads := by
  have same : st'.kept.actors = st.kept.actors := congrArg State.actors h.kept
  have actors : st'.actors = st.actors := same
  have same : st'.kept.deliveryLeases = st.kept.deliveryLeases := congrArg State.deliveryLeases h.kept
  have leases : st'.deliveryLeases = st.deliveryLeases := same
  have operations : s ∈ st'.operations.payloads ↔ s ∈ st.operations.payloads := by
    rw [mem_payloads, mem_payloads]
    simp only [h.operations.entries]
  unfold State.payloads
  rw [actors, leases, h.publications.entries]
  simp only [List.mem_append, operations]

/-- A call that returns an error is refused. -/
def Refuses {α : Type} (st : State) (call : Except Error α × State) : Prop :=
  ∀ e, call.1 = .error e → Refused st call.2

variable {α : Type}

theorem Refuses.ok (st : State) (a : α) (st' : State) : Refuses st (.ok a, st') := by
  intro e he
  cases he

theorem Refuses.error (e : Error) (h : Refused st st') :
    Refuses st ((.error e : Except Error α), st') := fun _ _ => h

theorem Refuses.unchanged (e : Error) : Refuses st ((.error e : Except Error α), st) :=
  .error e (.refl st)

theorem Refuses.untouched (e : Error) : Refuses st ((.error e : Except Error α), st.touchActivity) :=
  .error e (Refused.refl st).touch

theorem Spent.refuses (h : Spent st st') (e : Error) (r : ActorRef) :
    Refuses st (World.refuse e r st' : Except Error α × State) :=
  .error e (h.toAttempted.reject h.tables.1 h.tables.2 e r)

namespace World

variable {w : World} {r : ActorRef}

theorem makeStoredWith_spent (p : Payload) (o : MessageOptions) (d : Option PortRef) :
    Spent st (w.makeStoredWith p o d st).2 := by
  unfold makeStoredWith reserveBytes
  cases w.storedCharge p o with
  | error e => exact ⟨.refl st, rfl, rfl⟩
  | ok n =>
    dsimp only
    split_ifs
    · exact ⟨⟨rfl, rfl, Nat.le_refl _, Nat.le_refl _, Nat.le_refl _⟩, rfl, rfl⟩
    · exact ⟨⟨rfl, rfl, Nat.le_refl _, Nat.le_refl _, Nat.le_refl _⟩, rfl, rfl⟩

theorem admitMessage_spent {stored : Stored} {sub : Option ℕ} {completion : Bool}
    {operation : Option OperationId} {e : Error}
    (h : (w.admitMessage r stored sub completion operation st).1 = .error e) :
    Spent st (w.admitMessage r stored sub completion operation st).2 := by
  revert h
  unfold admitMessage
  dsimp only
  have read : Attempted st st.tick := ⟨rfl, rfl, Nat.le_refl _, Nat.le_refl _, Nat.le_refl _⟩
  cases checkDeadline stored.options (w.now st) with
  | error e => exact fun _ => ⟨read, rfl, rfl⟩
  | ok u =>
    dsimp only
    cases w.validateSource stored.options st.tick completion with
    | error e => exact fun _ => ⟨read, rfl, rfl⟩
    | ok u =>
      dsimp only
      unfold nextEventId
      split_ifs with limit
      · exact fun _ => ⟨read, rfl, rfl⟩
      · dsimp only
        -- the event identity is spent
        have spent : Attempted st { st.tick with nextEvent := st.tick.nextEvent + 1 } :=
          ⟨rfl, rfl, Nat.le_succ _, Nat.le_refl _, Nat.le_refl _⟩
        cases w.envelopeFor r stored sub st.tick.nextEvent (w.now st)
            { st.tick with nextEvent := st.tick.nextEvent + 1 } with
        | error e => exact fun _ => ⟨spent, rfl, rfl⟩
        | ok envelope =>
          dsimp only
          cases w.admissible r stored completion
              { st.tick with nextEvent := st.tick.nextEvent + 1 } with
          | error e => exact fun _ => ⟨spent, rfl, rfl⟩
          | ok u =>
            intro h
            cases h

/-! ## Sends -/

theorem countSubmitted_spent (st : State) : Spent st (countSubmitted st) :=
  ⟨⟨rfl, rfl, Nat.le_refl _, Nat.le_refl _, Nat.le_refl _⟩, rfl, rfl⟩

theorem deliver_refuses (h : Spent st st') (stored : Stored) :
    Refuses st (w.deliver r stored st') := by
  unfold deliver
  have admission := @admitMessage_spent st' w r stored none false none
  cases result : w.admitMessage r stored none false none st' with
  | mk answer st'' =>
    rw [result] at admission
    cases answer with
    | ok id => exact .ok st id _
    | error e => exact (h.trans (admission rfl)).refuses e r

theorem sendWith_refuses (p : Payload) (o : MessageOptions) : Refuses st (w.sendWith r p o st) := by
  unfold sendWith
  dsimp only
  have submitted := countSubmitted_spent st
  have storing := submitted.trans (makeStoredWith_spent (w := w) p o none)
  cases result : w.makeStoredWith p o none (countSubmitted st) with
  | mk answer st' =>
    rw [result] at storing
    cases answer with
    | error e => exact storing.refuses e r
    | ok stored => exact deliver_refuses storing stored

theorem sendHeld_refuses (held : HeldPayload) : Refuses st (w.sendHeld r held st) := by
  unfold sendHeld
  dsimp only
  split_ifs
  · exact (countSubmitted_spent st).refuses _ r
  · exact deliver_refuses (countSubmitted_spent st) held.stored

theorem sendHeldFrom_refuses (owner : ActorRef) (held : HeldPayload) :
    Refuses st (w.sendHeldFrom owner r held st) := by
  unfold sendHeldFrom
  dsimp only
  have submitted := countSubmitted_spent st
  split_ifs
  · exact submitted.refuses _ r
  cases w.checkRef owner (countSubmitted st) with
  | error e => exact submitted.refuses e owner
  | ok a =>
    dsimp only
    split_ifs
    · exact submitted.refuses _ owner
    split
    · exact .error _ (submitted.toAttempted.refused submitted.tables.1 submitted.tables.2)
    · exact deliver_refuses submitted held.stored
    · exact submitted.refuses _ owner

theorem sendPortWith_refuses (port : PortRef) (p : Payload) (o : MessageOptions) :
    Refuses st (w.sendPortWith port p o st) := by
  unfold sendPortWith
  dsimp only
  have submitted := countSubmitted_spent st
  cases w.inputPort port p (countSubmitted st) with
  | error e => exact .error e (submitted.refuses (α := ℕ) e port.owner e rfl).touch
  | ok u =>
    dsimp only
    have storing := submitted.trans (makeStoredWith_spent (w := w) p o none)
    cases result : w.makeStoredWith p o none (countSubmitted st) with
    | mk answer st' =>
      rw [result] at storing
      cases answer with
      | error e => exact .error e (storing.refuses (α := ℕ) e port.owner e rfl).touch
      | ok stored =>
        dsimp only
        have admission := @admitMessage_spent st' w port.owner stored none false none
        cases result' : w.admitMessage port.owner stored none false none st' with
        | mk answer' st'' =>
          rw [result'] at admission
          cases answer' with
          | error e =>
            exact .error e ((storing.trans (admission rfl)).refuses (α := ℕ) e port.owner e rfl).touch
          | ok id => exact .ok st id _

/-! ## Publications -/

/-- A failed submission has given its ticket back. -/
structure Withdrawn (st st' : State) : Prop extends Attempted st st' where
  operations : st'.operations = st.operations
  publications : st.publications.Reverts st'.publications

theorem Withdrawn.refl (st : State) : Withdrawn st st := ⟨.refl st, rfl, .refl _⟩

theorem Withdrawn.after (h' : Withdrawn st' st'') (h : Spent st st') : Withdrawn st st'' where
  toAttempted := h.toAttempted.trans h'.toAttempted
  operations := h'.operations.trans h.operations
  publications := h.publications ▸ h'.publications

/-- The ticket reserved in `st` is given back after an attempt that needed it. -/
theorem abandonTicket_withdrawn (hs : st.publications.Sound) (hb : st.publications.Budgeted)
    {source : ActorRef} {staged : Bool} {ticket : ℕ}
    (hok : (st.publications.reserve source staged).1 = .ok ticket)
    (h : Spent { st with publications := (st.publications.reserve source staged).2 } st') :
    Withdrawn st (abandonTicket ticket st') where
  kept := h.kept
  diagnostics := h.diagnostics
  nextEvent := h.nextEvent
  nextSub := h.nextSub
  nextFailure := h.nextFailure
  operations := h.operations
  publications := by
    show st.publications.Reverts (st'.publications.dropHandle ticket)
    rw [h.publications]
    exact PublicationTable.reverts_reserve hs hb hok

theorem stageOutput_error {source : ActorRef} {port ticket : ℕ} {stored : Stored} {e : Error}
    (h : (w.stageOutput source port stored ticket st).1 = .error e) :
    (w.stageOutput source port stored ticket st).2 = st := by
  revert h
  unfold stageOutput
  cases w.checkRef source st with
  | error e => exact fun _ => rfl
  | ok a =>
    dsimp only
    split_ifs
    · exact fun _ => rfl
    · intro h
      cases h

theorem submitPublicationLocked_withdrawn (hs : st.publications.Sound)
    (hb : st.publications.Budgeted) {source : ActorRef} {port : Option ℕ} {p : Payload}
    {o : MessageOptions} {completion : Bool} {e : Error}
    (h : (w.submitPublicationLocked source port p o completion st).1 = .error e) :
    Withdrawn st (w.submitPublicationLocked source port p o completion st).2 := by
  revert h
  unfold submitPublicationLocked
  cases w.executionStateLocked source st with
  | error e => exact fun _ => .refl st
  | ok execution =>
    dsimp only
    cases reserved : st.publications.reserve source (execution = .starting) with
    | mk answer publications =>
      cases answer with
      | error e => exact fun _ => .refl st
      | ok ticket =>
        dsimp only
        have abandon : ∀ {st'}, Spent { st with publications := publications } st' →
            Withdrawn st (abandonTicket ticket st') := by
          intro st' spent
          have hok : (st.publications.reserve source (execution = .starting)).1 = .ok ticket := by
            rw [reserved]
          refine abandonTicket_withdrawn hs hb hok ?_
          rw [reserved]
          exact spent
        have storing := @makeStoredWith_spent { st with publications := publications } w p o
          (port.map fun index => ⟨source, index⟩)
        cases result : w.makeStoredWith p o (port.map fun index => ⟨source, index⟩)
            { st with publications := publications } with
        | mk answer st' =>
          rw [result] at storing
          cases answer with
          | error e => exact fun _ => abandon storing
          | ok stored =>
            dsimp only
            split_ifs
            · cases port with
              | none =>
                intro h
                cases h
              | some index =>
                dsimp only
                have staging := @stageOutput_error st' w source index ticket stored
                cases result' : w.stageOutput source index stored ticket st' with
                | mk answer' st'' =>
                  rw [result'] at staging
                  cases answer' with
                  | error e =>
                    have same : st'' = st' := staging rfl
                    rw [same]
                    exact fun _ => abandon storing
                  | ok u =>
                    intro h
                    cases h
            · intro h
              cases h

theorem publishLocked_withdrawn (hs : st.publications.Sound) (hb : st.publications.Budgeted)
    {source : ActorRef} {p : Payload} {owner : Option ActorRef} {port : Option ℕ}
    {o : MessageOptions} {e : Error}
    (h : (w.publishLocked source p owner port o st).1 = .error e) :
    Withdrawn st (w.publishLocked source p owner port o st).2 := by
  revert h
  unfold publishLocked
  cases w.publishMetadata source o st with
  | error e => exact fun _ => .refl st
  | ok options =>
    dsimp only
    have read : Spent st st.tick :=
      ⟨⟨rfl, rfl, Nat.le_refl _, Nat.le_refl _, Nat.le_refl _⟩, rfl, rfl⟩
    cases checkDeadline options (w.now st) with
    | error e => exact fun _ => (Withdrawn.refl _).after read
    | ok u =>
      dsimp only
      cases w.publishable source p owner port st.tick with
      | error e => exact fun _ => (Withdrawn.refl _).after read
      | ok u =>
        intro h
        exact (@submitPublicationLocked_withdrawn st.tick w hs hb _ _ _ _ _ _ h).after read

theorem publishInternal_refuses (hv : st.core.Valid w.id) (source : ActorRef) (p : Payload)
    (owner : Option ActorRef) (port : Option ℕ) (o : MessageOptions) :
    Refuses st (w.publishInternal source p owner port o st) := by
  unfold publishInternal
  dsimp only
  have submitted : Spent st (st.addMetrics fun m =>
      { m with publicationSubmitted := m.publicationSubmitted + 1, submitted := m.submitted + 1 }) :=
    ⟨⟨rfl, rfl, Nat.le_refl _, Nat.le_refl _, Nat.le_refl _⟩, rfl, rfl⟩
  have publishing := @publishLocked_withdrawn (st.addMetrics fun m =>
      { m with publicationSubmitted := m.publicationSubmitted + 1, submitted := m.submitted + 1 })
    w hv.publishing.sound hv.budgeted.table source p owner port o
  cases result : w.publishLocked source p owner port o _ with
  | mk answer st' =>
    rw [result] at publishing
    cases answer with
    | ok ticket => exact .ok st ticket _
    | error e =>
      have withdrawn := (publishing rfl).after submitted
      have rejected : Attempted st (st'.addMetrics fun m =>
          { m with publicationRejected := m.publicationRejected + 1 }) :=
        ⟨withdrawn.kept, withdrawn.diagnostics, withdrawn.nextEvent, withdrawn.nextSub,
          withdrawn.nextFailure⟩
      have operations : st.operations.Reverts st'.operations := withdrawn.operations ▸ .refl _
      exact .error e (rejected.reject operations withdrawn.publications e source).touch

theorem deliveryPublish_refuses (hv : st.core.Valid w.id) (lease : DeliveryLease) (port : PortRef)
    (p : Payload) (o : MessageOptions) : Refuses st (w.deliveryPublish lease port p o st) := by
  unfold deliveryPublish
  cases o.validate with
  | error e => exact .unchanged e
  | ok u =>
    dsimp only
    split_ifs
    · exact .unchanged _
    · exact publishInternal_refuses hv _ _ _ _ _

/-! ## Requests -/

/-- The slot reserved in `st` is released after an attempt that needed it. -/
theorem releaseOperation_refuses (hv : st.core.Valid w.id) {owner target : ActorRef}
    {deadline : Instant} {id : OperationId} {operations : OperationTable} (before : Spent st₀ st)
    (hok : st.operations.reserve owner target deadline = (.ok id, operations))
    (h : Spent { st with operations := operations } st') (e : Error) (r : ActorRef) :
    Refuses st₀ (refuse e r (releaseOperation id st') : Except Error α × State) := by
  have attempted : Attempted st (releaseOperation id st') :=
    ⟨h.kept, h.diagnostics, h.nextEvent, h.nextSub, h.nextFailure⟩
  have reserved : (st.operations.reserve owner target deadline).1 = .ok id := by rw [hok]
  have released : st.operations.Reverts
      ((st.operations.reserve owner target deadline).2.releaseUnsubmitted id).2 :=
    OperationTable.reverts_reserve hv.operating.indexed reserved
  rw [hok] at released
  have rolled : (releaseOperation id st').operations = (operations.releaseUnsubmitted id).2 := by
    show (st'.operations.releaseUnsubmitted id).2 = _
    rw [h.operations]
  have kept : (releaseOperation id st').publications = st.publications := h.publications
  refine .error e ((before.toAttempted.trans attempted).reject ?_ ?_ e r)
  · rw [rolled, ← before.operations]
    exact released
  · rw [kept, before.publications]
    exact .refl _

theorem requestLocked_refuses (hv : st.core.Valid w.id) (before : Spent st₀ st)
    (owner target : ActorRef) (p : Payload) (deadline : Instant) (o : MessageOptions)
    (port : Option PortRef) :
    Refuses st₀ (w.requestLocked owner target p deadline o port st) := by
  unfold requestLocked
  cases ownerReady : w.executionStateLocked owner st with
  | error e => exact before.refuses e owner
  | ok ownerState =>
  dsimp only
  cases targetReady : w.executionStateLocked target st with
  | error e => exact before.refuses e target
  | ok targetState =>
  dsimp only
  by_cases ready : ownerState ≠ .active ∨ targetState ≠ .active
  · rw [if_pos ready]
    exact before.refuses _ target
  rw [if_neg ready]
  obtain ⟨rfl, rfl⟩ : ownerState = .active ∧ targetState = .active := by
    simpa [not_or] using ready
  cases reserved : st.operations.reserve owner target deadline with
  | mk answer operations =>
  cases answer with
  | error e => exact before.refuses e owner
  | ok id =>
  dsimp only
  obtain ⟨reserving, pending⟩ := reserve_pending hv ownerReady targetReady reserved
  have valid := hv.step reserving
  have storing := @makeStoredWith_spent { st with operations := operations } w p o none
  have core := @core_makeStoredWith w { st with operations := operations } p o none
  cases result : w.makeStoredWith p o none { st with operations := operations } with
  | mk answer st₁ =>
  rw [result] at storing core
  cases answer with
  | error e => exact releaseOperation_refuses hv before reserved storing e target
  | ok stored =>
  have core : st₁.core = { st with operations := operations }.core := core
  rw [← core] at valid
  have pending : st₁.core.operations.locate id = .ok (.pending ⟨owner, target, deadline, none⟩) := by
    rw [core]
    exact pending
  dsimp only
  have refusal := @admitMessage_spent st₁ w target stored none false (some id)
  have admission := @admitMessage_spec target w st₁ valid.owned stored none false (some id)
  cases result' : w.admitMessage target stored none false (some id) st₁ with
  | mk answer' st₂ =>
  rw [result'] at refusal admission
  cases answer' with
  | error e =>
    exact releaseOperation_refuses hv before reserved (storing.trans (refusal rfl)) e target
  | ok event =>
  obtain ⟨e, he, -⟩ | ⟨event', -, admitted⟩ := admission
  · cases he
  dsimp only
  -- once admitted, the request is held by its operation
  have valid := valid.step admitted.step
  have holding : ∀ st₃ : State, st₃.core = st₂.core →
      (w.holdContext id target stored st₃).1 = .ok () := by
    intro st₃ same
    rw [← same] at valid admitted
    exact (holdContext_admitted valid admitted stored pending rfl).1
  cases port with
  | none =>
    have held := holding st₂ rfl
    dsimp only
    cases result'' : w.holdContext id target stored st₂ with
    | mk answer'' st₃ =>
    rw [result''] at held
    cases held
    exact .ok st₀ id _
  | some port =>
    have held := holding (setDestinationPort target port st₂) (core_setDestinationPort port)
    dsimp only
    cases result'' : w.holdContext id target stored (setDestinationPort target port st₂) with
    | mk answer'' st₃ =>
    rw [result''] at held
    cases held
    exact .ok st₀ id _

theorem requestWithPort_refuses (hv : st.core.Valid w.id) (before : Spent st₀ st)
    (owner target : ActorRef) (p : Payload) (deadline : Instant) (o : MessageOptions)
    (port : Option PortRef) :
    Refuses st₀ (w.requestWithPort owner target p deadline o port st) := by
  unfold requestWithPort
  split_ifs
  · exact .error _ (before.toAttempted.refused before.tables.1 before.tables.2).touch
  dsimp only
  intro e he
  have submitted := before.trans (countSubmitted_spent st)
  have valid : (countSubmitted st).core.Valid w.id := hv
  exact (requestLocked_refuses valid submitted _ _ _ _ _ _ e he).touch

theorem resumeRequest_refuses (hv : st.core.Valid w.id) (call : ServiceCall) :
    Refuses st (w.resumeRequest call st) := by
  have valid : ({ st with serviceCalls := st.serviceCalls.erase call } : State).core.Valid w.id := hv
  have resumed : Spent st { st with serviceCalls := st.serviceCalls.erase call } :=
    ⟨⟨rfl, rfl, Nat.le_refl _, Nat.le_refl _, Nat.le_refl _⟩, rfl, rfl⟩
  exact requestWithPort_refuses valid resumed _ _ _ _ _ _

/-! ## Routes, actors, services and tasks -/

theorem subscribe_refuses (source target : ActorRef) : Refuses st (w.subscribe source target st) := by
  unfold subscribe
  cases w.subscribable source target st with
  | error e => exact .unchanged e
  | ok u => exact .ok st _ _

theorem link_refuses (owner : ActorRef) (source target : PortRef) :
    Refuses st (w.link owner source target st) := by
  unfold link
  cases w.linkable owner source target st with
  | error e => exact .untouched e
  | ok u => exact .ok st _ _

theorem registerComponent_refuses (owner : ActorRef) (d : ComponentDescriptor) :
    Refuses st (w.registerComponent owner d st) := by
  unfold registerComponent
  cases w.registrable owner d st with
  | error e => exact .unchanged e
  | ok incoming => exact .ok st _ _

theorem trackTask_refuses : Refuses st (w.trackTask r st) := by
  unfold trackTask
  cases w.checkRef r st with
  | error e => exact .unchanged e
  | ok a =>
    dsimp only
    split_ifs
    · exact .unchanged _
    · exact .ok st _ _

/-- A refused allocation leaves the state as it was. -/
theorem allocateLocked_error {kind : EndpointKind} {parent : Option ActorRef} {e : Error}
    (h : (w.allocateLocked kind parent st).1 = .error e) :
    (w.allocateLocked kind parent st).2 = st := by
  revert h
  unfold allocateLocked
  by_cases full : w.cfg.maxActors ≤ st.liveActors
  · rw [if_pos full]
    exact fun _ => rfl
  rw [if_neg full]
  cases w.parentAllows parent st with
  | error e => exact fun _ => rfl
  | ok u =>
    dsimp only
    split_ifs
    · exact fun _ => rfl
    · intro h
      cases h

theorem allocate_refuses (kind : EndpointKind) (parent : Option ActorRef) :
    Refuses st (w.allocate kind parent st) := by
  unfold allocate
  split_ifs
  · exact .untouched _
  dsimp only
  intro e he
  have same : (w.allocateLocked kind parent st).2 = st := allocateLocked_error he
  rw [same]
  exact (Refused.refl st).touch

/-- A failed acquisition leaves the actors, the free list and the registry as they were. -/
theorem acquireServiceLockedTarget_error {owner : ActorRef} {name : String}
    {required : InterfaceSpec} {expected : Option ActorRef} {e : Error}
    (h : (w.acquireServiceLockedTarget owner name required expected st).1 = .error e) :
    (w.acquireServiceLockedTarget owner name required expected st).2 = st := by
  revert h
  unfold acquireServiceLockedTarget
  cases w.acquirable owner name required expected st with
  | error e => exact fun _ => rfl
  | ok record =>
    dsimp only
    have allocation := @allocateLocked_error st w .native (some owner)
    cases result : w.allocateLocked .native (some owner) st with
    | mk answer st' =>
      rw [result] at allocation
      cases answer with
      | error e => exact fun _ => allocation rfl
      | ok scope =>
        intro h
        cases h

theorem acquireServiceLockedTarget_refuses (owner : ActorRef) (name : String)
    (required : InterfaceSpec) (expected : Option ActorRef) :
    Refuses st (w.acquireServiceLockedTarget owner name required expected st) := by
  intro e he
  rw [acquireServiceLockedTarget_error he]
  exact .refl st

theorem acquireServiceFrom_refuses (owner : ActorRef) (name : String) (required : InterfaceSpec)
    (expected : ActorRef) : Refuses st (w.acquireServiceFrom owner name required expected st) := by
  unfold acquireServiceFrom
  split_ifs
  · exact .unchanged _
  · exact acquireServiceLockedTarget_refuses _ _ _ _

theorem registerService_refuses (name : String) (target : ActorRef) (required : InterfaceSpec) :
    Refuses st (w.registerService name target required st) := by
  unfold registerService
  cases w.serviceRegistrable name target required st with
  | error e => exact .unchanged e
  | ok u => exact .ok st _ _

theorem serviceRequest_refuses (lease : ServiceLease) (port : String) (p : Payload)
    (deadline : Instant) (o : MessageOptions) :
    Refuses st (w.serviceRequest lease port p deadline o st) := by
  unfold serviceRequest
  cases w.serviceRequestable lease port p st with
  | error e => exact .unchanged e
  | ok portRef => exact .ok st _ _

/-! ## Failures -/

/-- Once a failure is reportable, its action cannot fail. -/
theorem reportFailure_refuses (hv : st.core.Valid w.id) (eventId schema : Option ℕ)
    (operation : Option OperationId) (phase : FailurePhase) (action : FailureAction) :
    Refuses st (w.reportFailure r eventId schema operation phase action st) := by
  unfold reportFailure
  cases reportable : w.failureReportable r operation st with
  | error e => exact .untouched e
  | ok a =>
  dsimp only
  split_ifs
  · exact .untouched _
  obtain ⟨check, live⟩ := failureReportable_ok reportable
  set record : FailureRecord :=
    ⟨st.nextFailure, r, eventId, schema, operation, phase, action⟩
  set st₁ : State := (((({ st with
    nextFailure := st.nextFailure + 1
    lastError := some record } : State).tick).addMetrics fun m =>
      { m with failures := m.failures + 1 }).observe fun o =>
        { o with diagnostics := o.diagnostics.recordFailure record })
  have core : st₁.core = st.core := rfl
  have seated := seated_of_check hv.owned check
  rw [← core] at hv seated
  set st₂ := noteFailure record a.parent (w.failureNotifies a.parent phase st)
    (w.failOperation operation st₁)
  obtain ⟨noted, nodes⟩ := @noted_spec a.node w st₁ (fun _ => True) record hv seated live operation
    a.parent (w.failureNotifies a.parent phase st)
  rw [← nodes] at seated
  have applied := @applyFailureAction_ok r a.node w (w.markActivityDependentsLocked r st₂)
    (noted.valid hv) seated action
  cases result : w.applyFailureAction r action (w.markActivityDependentsLocked r st₂) with
  | mk answer st₃ =>
  rw [result] at applied
  cases applied
  exact .ok st record _

end World

end Actorplane
