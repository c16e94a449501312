import Actorplane.Lib.Descent
import Actorplane.Locked.Messages
import Actorplane.Reach.Runs

/-!
# Deadlines and causes along a chain of messages

A message that a completion publication, a reply or an effect of a native hook
derives from another has its metadata merged with the explicit options. So a chain
never gains time, and stays under one correlation. An operation only becomes
completed by a reply, read to be early for the request and for the reply itself.
-/

namespace Actorplane

/-- The deadline as a bound; no deadline is none. -/
def limit : Option Instant → WithTop Instant
  | none => ⊤
  | some t => WithTop.some t

theorem limit_earlierDeadline (a b : Option Instant) :
    limit (earlierDeadline a b) = min (limit a) (limit b) := by
  cases a <;> cases b <;> simp [limit, earlierDeadline]

/-- What a message has from the one it derives from and from the options of the step. -/
structure Envelope.Derived (e : Envelope) (o : MessageOptions) (e' : Envelope) : Prop where
  deadline : limit e'.deadline = min (limit e.deadline) (limit o.deadline)
  correlation : e'.correlationId = o.correlationId.or (some (e.correlationId.getD e.eventId))
  causation : e'.causationId = o.causationId.or (some e.eventId)

theorem MessageOptions.Merges.derived {e e' : Envelope} {source : ActorRef} {o m : MessageOptions}
    (h : (e.childOptions source).Merges o m) (hdeadline : e'.deadline = m.deadline)
    (hcorrelation : e'.correlationId = m.correlationId)
    (hcausation : e'.causationId = m.causationId) : e.Derived o e' where
  deadline := by
    rw [hdeadline, h.deadline]
    exact limit_earlierDeadline _ _
  correlation := hcorrelation.trans h.correlation
  causation := hcausation.trans h.causation

/-- The target, deadline and options of a request. -/
def Action.asks : Action → Option (ActorRef × Instant × MessageOptions)
  | .request _ target _ deadline o => some (target, deadline, o)
  | .resumeRequest call => some (call.target, call.deadline, call.options)
  | _ => none

namespace World

variable {w : World} {st : State}

/-! ## Derived messages -/

/-- A message that a routing turn puts into a mailbox for the publication of the ticket; the
attempt may come in any later state. -/
def Routes (w : World) (st : State) (ticket : ℕ) (e : Envelope) : Prop :=
  ∃ (actions : List Action) (publication : Publication) (route : ℕ) (target : ActorRef)
    (st' : State) (event : ℕ) (d : Delivery),
    (w.exec st actions).publications.entries.lookup ticket = some publication ∧
      (w.admitMessage target publication.stored (some route) true none st').1 = .ok event ∧
      (w.admitMessage target publication.stored (some route) true none st').2.tail target = some d ∧
      d.envelope = e

/-- One message derived from another, under the options of the caller. -/
inductive Derives (w : World) : Envelope → MessageOptions → Envelope → Prop
  | completion {st : State} {lease : DeliveryLease} {source : PortRef} {payload : Payload}
      {o : MessageOptions} {ticket : ℕ} {e : Envelope} : w.Reachable st →
      (w.step (.deliveryPublish lease source payload o) st).1 = .number (.ok ticket) →
      w.Routes (w.step (.deliveryPublish lease source payload o) st).2 ticket e →
      Derives w lease.delivery.envelope o e
  | emit {st : State} {ctx : NativeContext} {lease : DeliveryLease} {port : String}
      {payload : Payload} {o : MessageOptions} {ticket : ℕ} {e : Envelope} : w.Reachable st →
      ctx.phase = .event → ctx.delivery = some lease → lease ∈ st.deliveryLeases →
      (ctx.emitWith w port payload o st).1 = .ok ticket →
      w.Routes (ctx.emitWith w port payload o st).2.2 ticket e →
      Derives w lease.delivery.envelope o e
  | send {st : State} {ctx : NativeContext} {lease : DeliveryLease} {target : ActorRef}
      {payload : Payload} {o : MessageOptions} {event : ℕ} {d : Delivery} : w.Reachable st →
      ctx.phase = .event → ctx.delivery = some lease → lease ∈ st.deliveryLeases →
      (ctx.send w target payload o st).1 = .ok event →
      (ctx.send w target payload o st).2.2.tail target = some d →
      Derives w lease.delivery.envelope o d.envelope
  | reply {st : State} {request : Action} {target responder : ActorRef} {deadline : Instant}
      {asked : MessageOptions} {id : OperationId} {d : Delivery} {actions : List Action}
      {payload : Payload} {o : Option MessageOptions} {held : HeldPayload} {e : Envelope} :
      w.Reachable st → request.asks = some (target, deadline, asked) →
      (w.step request st).1 = .operation (.ok id) → (w.step request st).2.tail target = some d →
      (w.step (.completeOperation id responder payload o)
        (w.exec (w.step request st).2 actions)).1 = .flag (.ok true) →
      (w.step (.completeOperation id responder payload o)
        (w.exec (w.step request st).2 actions)).2.operations.locate id =
          .ok (.terminal (.completed held)) →
      held.envelope = some e → Derives w d.envelope (o.getD {}) e

/-! ## Requests -/

/-- A request is refused, or pending with its message as context. -/
theorem Rests.awaits (h : w.Rests st) {request : Action} {target : ActorRef} {deadline : Instant}
    {o : MessageOptions} (hasks : request.asks = some (target, deadline, o)) :
    ((∀ id, (w.step request st).1 ≠ .operation (.ok id)) ∧
        ∀ i x, (w.step request st).2.operations.locate i = .ok x →
          st.operations.locate i = .ok x) ∨
      ∃ id owner, (w.step request st).1 = .operation (.ok id) ∧
        Awaits st (w.step request st).2 owner target (requestDeadline deadline o)
          { o with source := some owner, deadline := some (requestDeadline deadline o) } id := by
  have hcall : ∀ (st₁ : State) (owner : ActorRef) (payload : Payload) (port : Option PortRef),
      st₁.core = st.core →
      ((∀ id, (returning Outcome.operation
          (w.requestWithPort owner target payload deadline o port st₁)).1 ≠ .operation (.ok id)) ∧
        ∀ i x, (w.requestWithPort owner target payload deadline o port st₁).2.operations.locate i =
          .ok x → st.operations.locate i = .ok x) ∨
      ∃ id, (returning Outcome.operation
          (w.requestWithPort owner target payload deadline o port st₁)).1 = .operation (.ok id) ∧
        Awaits st (w.requestWithPort owner target payload deadline o port st₁).2 owner target
          (requestDeadline deadline o)
          { o with source := some owner, deadline := some (requestDeadline deadline o) } id := by
    intro st₁ owner payload port hcore
    have hops : st₁.operations = st.operations := congrArg Core.operations hcore
    rcases @requestWithPort_awaits w st₁ owner target (hcore ▸ h.valid) payload deadline o port with
      ⟨e, he, hback⟩ | ⟨id, hid, hawaits⟩
    · left
      constructor
      · intro id hid
        have hid : Outcome.operation
            (w.requestWithPort owner target payload deadline o port st₁).1 =
              .operation (.ok id) := hid
        rw [he] at hid
        cases hid
      · intro i x hx
        exact hops ▸ hback i x hx
    · right
      refine ⟨id, congrArg Outcome.operation hid, hawaits.message, ?_⟩
      intro i x hi hx
      exact hops ▸ hawaits.others i x hi hx
  cases request
  case request owner target' payload deadline' o' =>
    cases hasks
    rcases hcall st owner payload none rfl with hno | ⟨id, hid, hawaits⟩
    · exact .inl hno
    · exact .inr ⟨id, owner, hid, hawaits⟩
  case resumeRequest call =>
    cases hasks
    by_cases hmem : call ∈ st.serviceCalls
    · have hstep : w.step (.resumeRequest call) st =
          returning .operation (w.resumeRequest call st) := if_pos hmem
      rw [hstep]
      rcases hcall { st with serviceCalls := st.serviceCalls.erase call } call.owner call.payload
        (some call.port) rfl with hno | ⟨id, hid, hawaits⟩
      · exact .inl hno
      · exact .inr ⟨id, call.owner, hid, hawaits⟩
    · have hstep : w.step (.resumeRequest call) st = (.unavailable, st) := if_neg hmem
      rw [hstep]
      left
      constructor
      · intro id hid
        cases hid
      · exact fun _ _ hx => hx
  all_goals cases hasks

/-- In every reachable state the context of a pending operation has its deadline. -/
theorem contextual (actions : List Action) : (w.exec w.init actions).core.Contextual := by
  induction actions using List.reverseRecOn with
  | nil =>
    intro id p hp
    have hempty : (w.exec w.init []).core.operations = .new w.id w.cfg.maxOperations := rfl
    simp [hempty, OperationTable.locate, OperationTable.new] at hp
    split_ifs at hp
  | append_singleton actions action ih =>
    have h := w.rests actions
    rw [exec_append]
    show (w.step action (w.exec w.init actions)).2.core.Contextual
    generalize w.exec w.init actions = st at h ih ⊢
    cases hasks : action.asks with
    | none =>
      have hno : ¬action.requests := by
        cases action <;> simp_all [Action.asks, Action.requests]
      apply (step_evolves h.valid action).steps.contextual h.valid _ ih
      intro id
      exact ⟨fun hm => hno (makes_of_moves hm (by simp [Move.fencing])),
        fun hm => hno (makes_of_moves hm (by simp [Move.fencing]))⟩
    | some asked =>
      obtain ⟨target, deadline, o⟩ := asked
      rcases h.awaits hasks with ⟨-, hback⟩ | ⟨id, owner, -, hnew⟩
      · intro i p hp
        exact ih i p (hback i _ hp)
      · intro i p hp
        by_cases hi : i = id
        · subst hi
          obtain ⟨d, held, -, hposted, henvelope, hpending⟩ := hnew.message
          have heq : (w.step action st).2.operations.locate i = .ok (.pending p) := hp
          rw [hpending] at heq
          cases heq
          exact ⟨held, d.envelope, rfl, henvelope, hposted.deadline⟩
        · exact ih i p (hnew.others i _ hi hp)

/-! ## One step of a chain -/

/-- Routing does not change the metadata that a publication was accepted with. -/
theorem Routes.conveys (h : w.Rests st) {ticket : ℕ} {o : MessageOptions} {e : Envelope}
    (hp : Publishing st ticket o) (hr : w.Routes st ticket e) : e.Conveys o := by
  obtain ⟨q, hq, hlt, hoptions⟩ := hp
  obtain ⟨actions, publication, route, target, st', event, d, hlookup, hok, htail, rfl⟩ := hr
  have hkeeps := (h.steps actions).keeps h.valid
  obtain ⟨q', hq', hstored⟩ := hkeeps.stored ticket publication hlt hlookup
  have heq : q' = q := Option.some.inj (hq'.symm.trans hq)
  obtain ⟨d', hd', hposted⟩ := admitMessage_tail hok
  have hd : d' = d := Option.some.inj (hd'.symm.trans htail)
  rw [hd, hstored, heq, hoptions] at hposted
  refine ⟨hposted.deadline, ?_, hposted.causation⟩
  rw [hposted.correlation]
  exact Option.or_none

theorem Reachable.rests (h : w.Reachable st) : w.Rests st := by
  obtain ⟨actions, rfl⟩ := h
  exact w.rests actions

/-- Calls on an outstanding lease. -/
theorem step_deliveryPublish {lease : DeliveryLease} {source : PortRef} {payload : Payload}
    {o : MessageOptions} (hmem : lease ∈ st.deliveryLeases) :
    w.step (.deliveryPublish lease source payload o) st =
      returning .number (w.deliveryPublish lease source payload o st) := if_pos hmem

theorem Derives.derived {e e' : Envelope} {o : MessageOptions} (h : w.Derives e o e') :
    e.Derived o e' := by
  cases h with
  | @completion st lease source payload o ticket e' hreach hok hroutes =>
    have h := hreach.rests
    have hnext := h.step (.deliveryPublish lease source payload o)
    by_cases hmem : lease ∈ st.deliveryLeases
    · rw [step_deliveryPublish hmem] at hok hroutes hnext
      obtain ⟨metadata, hp, hmerges⟩ := deliveryPublish_accepted h.valid (Outcome.number.inj hok)
      have hconveys := hroutes.conveys hnext hp
      exact hmerges.derived hconveys.deadline hconveys.correlation hconveys.causation
    · have hstep : w.step (.deliveryPublish lease source payload o) st = (.unavailable, st) :=
        if_neg hmem
      rw [hstep] at hok
      cases hok
  | @emit st ctx lease port payload o ticket e' hreach hphase hd hmem hok hroutes =>
    have h := hreach.rests
    obtain ⟨output, merged, hfirst, hpublished, hstate⟩ := ctx.emitWith_publishes hd hok
    have hnext := h.step (.deliveryPublish lease output payload merged)
    rw [step_deliveryPublish hmem] at hnext
    obtain ⟨metadata, hp, hmerges⟩ := deliveryPublish_accepted h.valid hpublished
    rw [hstate] at hroutes
    have hconveys := hroutes.conveys hnext hp
    have hsecond : (lease.delivery.envelope.childOptions ctx.owner).Merges merged metadata :=
      ⟨hmerges.deadline, hmerges.correlation, hmerges.causation⟩
    exact (hfirst.again hsecond).derived hconveys.deadline hconveys.correlation hconveys.causation
  | @send st ctx lease target payload o event d hreach hphase hd hmem hok htail =>
    obtain ⟨d', metadata, hd', hposted, hmerges⟩ := ctx.send_tail hd hok
    have heq : d' = d := Option.some.inj (hd'.symm.trans htail)
    subst heq
    apply hmerges.derived hposted.deadline _ hposted.causation
    rw [hposted.correlation]
    exact Option.or_none
  | @reply st request target responder deadline asked id d actions payload o held e' hreach hasks
      hok htail hwon hlocate henvelope =>
    have h := hreach.rests
    have h₁ := h.step request
    have h₂ := h₁.exec actions
    rcases h.awaits hasks with ⟨hno, -⟩ | ⟨id', owner, hok', hnew⟩
    · exact absurd hok (hno id)
    have hid : id' = id := by
      rw [hok'] at hok
      cases hok
      rfl
    subst hid
    obtain ⟨d', context, hd', hposted, hcontext, hpending⟩ := hnew.message
    have hd : d' = d := Option.some.inj (hd'.symm.trans htail)
    subst hd
    rcases completeOperationWith_back payload o (i := id') (o := .completed held) rfl hlocate with
      hold | ⟨-, p, metadata, hp, hmerges, hreplied⟩
    · exact absurd hold (completeOperationWith_won (Outcome.flag.inj hwon))
    have hsame := (h₁.steps actions).holds h₁.valid hpending rfl hp
    subst hsame
    have hhanded :
        handedDown ⟨owner, target, requestDeadline deadline asked, some context⟩ responder =
          d'.envelope.childOptions responder := by
      unfold handedDown
      simp [hcontext]
    rw [hhanded] at hmerges
    obtain ⟨held', envelope, hheld, -, henvelope', hconveys⟩ := hreplied.result
    cases hheld
    have heq : envelope = e' := Option.some.inj (henvelope'.symm.trans henvelope)
    subst heq
    exact hmerges.derived hconveys.deadline hconveys.correlation hconveys.causation

/-! ## Operations that complete -/

/-- The identity that a message hands to what derives from it. -/
def thread (e : Envelope) : ℕ := e.correlationId.getD e.eventId

theorem thread_eq (e : Envelope) (o : MessageOptions) (e' : Envelope) (h : w.Derives e o e')
    (ho : o.correlationId = none) : thread e' = thread e := by
  unfold thread
  rw [h.derived.correlation, ho]
  rfl

theorem isDue_earlierDeadline (now : Instant) (a b : Option Instant) :
    isDue now (earlierDeadline a b) = (isDue now a || isDue now b) := by
  cases a <;> cases b <;> simp [isDue, earlierDeadline]

/-- Taking an operation makes none completed. -/
theorem takeOperation_back (hv : st.core.Valid w.id) {id i : OperationId} {o : TerminalOutcome}
    (ho : o.isCompleted = true)
    (hx : (w.takeOperation i st).2.operations.locate id = .ok (.terminal o)) :
    st.operations.locate id = .ok (.terminal o) := by
  have hback : ((st.operations.take i).2.locate id = .ok (.terminal o)) →
      st.operations.locate id = .ok (.terminal o) := by
    intro hx
    have hs : Step w.id st.core (.take i) { st.core with operations := (st.operations.take i).2 } :=
      .take
    cases hv.operating.entry_back hs hx with
    | same h => exact h
    | reserved _ hm => cases hm
    | context _ _ hm => cases hm
    | ended _ _ _ he hm =>
      cases he
      cases hm ho
  unfold takeOperation at hx
  rcases hparticipants : st.operations.participants i with e | ⟨owner, target⟩
  · rw [hparticipants] at hx
    exact hx
  · rw [hparticipants] at hx
    dsimp only at hx
    split at hx <;> exact hback hx

/-- Only the calls on one operation can put a result into the table. -/
theorem replies_of_moves {action : Action} {id : OperationId} {o : TerminalOutcome}
    (ho : o.isCompleted = true) (h : w.moves action st (.endOperation id o)) :
    (∃ i responder payload options, action = .completeOperation i responder payload options) ∨
      (∃ i, action = .cancelOperation i) ∨ ∃ i, action = .takeOperation i := by
  have hresult : o.isCompleted ≠ false := by simp [ho]
  have hfence : ∀ {D : ActorRef → Prop}, ¬Move.byFence D (.endOperation id o) := fun h => hresult h
  have hexpiry : ∀ {now : Instant} {c : Core}, ¬Move.byExpiry now c (.endOperation id o) := by
    rintro now c rfl
    cases ho
  have hupkeep : ∀ {D : ActorRef → Prop}, ¬Move.byUpkeep D (.endOperation id o) := by
    rintro D (⟨root, h⟩ | h)
    · cases h
    · exact hfence h
  have hmaintenance : ∀ {now : Instant} {c : Core} {D : ActorRef → Prop},
      ¬Move.byMaintenance now c D (.endOperation id o) := fun h => h.elim hexpiry hupkeep
  have hdraining : ∀ {D : ActorRef → Prop}, ¬Move.byDraining D (.endOperation id o) := by
    rintro D ((⟨root, h | h⟩ | h) | ⟨now, c, h⟩)
    · cases h
    · cases h
    · exact hfence h
    · exact hmaintenance h
  have hhandler : ∀ {r : ActorRef} {D : ActorRef → Prop},
      ¬Move.byHandler r D (.endOperation id o) := by
    rintro r D (h | h)
    · cases h
    · exact hfence h
  have hservice : ∀ {D : ActorRef → Prop}, ¬Move.byService D (.endOperation id o) := by
    rintro D (h | ⟨r, h | h⟩ | h)
    · cases h
    · cases h
    · cases h
    · exact hfence h
  have hsend : ∀ {c : Core} {r : ActorRef}, ¬Move.bySend c r (.endOperation id o) := by
    rintro c r (h | ⟨x, h, -⟩) <;> cases h
  have hrequest : ∀ {c : Core} {r : ActorRef}, ¬Move.byRequest c r (.endOperation id o) := by
    rintro c r (h | ⟨i, h | h | h⟩)
    · exact hsend h
    · cases h
    · cases h
    · cases h
  have hrelease : ∀ {lease : DeliveryLease}, ¬Move.byRelease lease (.endOperation id o) := by
    rintro lease ⟨-, h⟩
    exact hresult h
  cases action
  case completeOperation => exact .inl ⟨_, _, _, _, rfl⟩
  case cancelOperation => exact .inr (.inl ⟨_, rfl⟩)
  case takeOperation => exact .inr (.inr ⟨_, rfl⟩)
  case allocate => obtain ⟨r, h⟩ := h; cases h
  case activate =>
    rcases h with h | h | h
    · cases h
    · exact absurd h hexpiry
    · exact h.elim
  case send => exact absurd h hsend
  case sendPort => exact absurd h hsend
  case sendHeld => exact absurd h hsend
  case sendHeldFrom => exact absurd h hsend
  case request => exact absurd h hrequest
  case resumeRequest => exact absurd h hrequest
  case cloneTicket => cases h
  case dropTicket => cases h
  case claim =>
    rw [show o = .timedOut from h] at ho
    cases ho
  case finishDelivery => exact absurd h hrelease
  case dropDelivery => exact absurd h hrelease
  case reportFailure => exact absurd h hhandler
  case claimFailure => exact absurd h hhandler
  case finishFailure => exact absurd h hhandler
  case dropFailure => exact absurd h hhandler
  case registerService => cases h
  case acquireService => exact absurd h hservice
  case acquireServiceFrom => exact absurd h hservice
  case releaseService => exact absurd h hresult
  case stop => exact absurd h hresult
  case close => exact absurd h hresult
  case requestDrain => exact absurd h hdraining
  case drainAll => exact absurd h hdraining
  case maintain => exact absurd h hmaintenance
  all_goals exact h.elim

/-- An operation becomes completed by a reply, and the last clock reading of that call is before
the deadline of the request and of the reply. So is every reading before it, by any thread, if the
clock does not go back. -/
structure Completes (w : World) (st : State) (action : Action) (id : OperationId)
    (held : HeldPayload) : Prop where
  reply : ∃ responder payload o p, action = .completeOperation id responder payload o ∧
    st.operations.locate id = .ok (.pending p) ∧
    limit held.stored.options.deadline =
      min (WithTop.some p.deadline) (limit (o.getD {}).deadline) ∧
    w.clock ((w.step action st).2.reads - 1) < p.deadline ∧
    (Monotone w.clock → ∀ k < (w.step action st).2.reads, w.clock k < p.deadline)
  read : st.reads < (w.step action st).2.reads
  early : isDue (w.clock ((w.step action st).2.reads - 1)) held.stored.options.deadline = false

theorem Rests.completes (h : w.Rests st) (hcontext : st.core.Contextual) {action : Action}
    {id : OperationId} {held : HeldPayload}
    (hbefore : st.operations.locate id ≠ .ok (.terminal (.completed held)))
    (hafter : (w.step action st).2.operations.locate id = .ok (.terminal (.completed held))) :
    w.Completes st action id held := by
  have hreply : (∃ i responder payload options,
      action = .completeOperation i responder payload options) ∨
      (∃ i, action = .cancelOperation i) ∨ ∃ i, action = .takeOperation i := by
    by_contra hother
    apply hbefore
    apply (step_evolves h.valid action).steps.completed_back h.valid _ rfl hafter
    intro i o ho hm
    exact hother (replies_of_moves ho hm)
  rcases hreply with ⟨i, responder, payload, o, rfl⟩ | ⟨i, rfl⟩ | ⟨i, rfl⟩
  · rcases completeOperationWith_back payload o (o := .completed held) rfl hafter with
      hold | ⟨rfl, p, metadata, hp, hmerges, hreplied⟩
    · exact absurd hold hbefore
    obtain ⟨context, envelope, hheld, hwhole, hdeadline⟩ := hcontext id p hp
    have hhanded : (handedDown p responder).deadline = some p.deadline := by
      unfold handedDown
      simp [hheld, hwhole, Envelope.childOptions, hdeadline]
    have hmerged := hmerges.deadline
    rw [hhanded] at hmerged
    obtain ⟨held', envelope', heq, hoptions, -, -⟩ := hreplied.result
    cases heq
    have hearly := hreplied.early
    rw [hmerged, isDue_earlierDeadline, Bool.or_eq_false_iff] at hearly
    have hlast : w.clock ((w.step (.completeOperation id responder payload o) st).2.reads - 1) <
        p.deadline := not_le.mp (of_decide_eq_false hearly.1)
    refine ⟨⟨responder, payload, o, p, rfl, hp, ?_, hlast, ?_⟩, hreplied.read, ?_⟩
    · rw [hoptions, hmerged]
      exact limit_earlierDeadline _ _
    · intro hmono k hk
      exact (hmono (Nat.le_sub_one_of_lt hk)).trans_lt hlast
    · rw [hoptions]
      exact hreplied.early
  · have hx : (w.cancelOperation i st).2.core.operations.locate id =
        .ok (.terminal (.completed held)) := hafter
    rw [core_cancelOperation] at hx
    rcases endOperation_back hx with hold | ⟨-, -, heq⟩
    · exact absurd hold hbefore
    · cases heq
  · exact absurd (takeOperation_back h.valid rfl hafter) hbefore

/-- No message outlives the one it derives from, a chain keeps its identity, and no operation
completes late. Every message of a chain is the last of a shorter one. -/
theorem causality (w : World) :
    (∀ first links last, Descent w.Derives first links last →
      limit last.deadline ≤ limit first.deadline ∧
      (∀ link ∈ links, limit last.deadline ≤ limit link.1.deadline ∧
        limit last.deadline ≤ limit link.2.deadline) ∧
      (links ≠ [] → (∀ link ∈ links, link.1.correlationId = none) →
        last.correlationId = some (first.correlationId.getD first.eventId)) ∧
      (links ≠ [] → ∃ before o previous, links = before ++ [(o, last)] ∧
        Descent w.Derives first before previous ∧
        (o.causationId = none → last.causationId = some previous.eventId))) ∧
    (∀ st request target deadline o id d, w.Reachable st →
      request.asks = some (target, deadline, o) →
      (w.step request st).1 = .operation (.ok id) →
      (w.step request st).2.tail target = some d →
      d.operation = some id ∧
      d.envelope.deadline = some (requestDeadline deadline o) ∧
      d.envelope.correlationId = some (o.correlationId.getD d.envelope.eventId) ∧
      ∀ actions p, (w.exec (w.step request st).2 actions).operations.locate id = .ok (.pending p) →
        p.deadline = requestDeadline deadline o) ∧
    ∀ st action id held, w.Reachable st →
      st.operations.locate id ≠ .ok (.terminal (.completed held)) →
      (w.step action st).2.operations.locate id = .ok (.terminal (.completed held)) →
      w.Completes st action id held := by
  refine ⟨?_, ?_, ?_⟩
  · intro first links last hchain
    obtain ⟨hfirst, hlinks⟩ := Descent.le (fun e => limit e.deadline) (fun o => limit o.deadline)
      (fun _ _ _ h => h.derived.deadline ▸ ⟨min_le_left _ _, min_le_right _ _⟩) hchain
    refine ⟨hfirst, hlinks, ?_, ?_⟩
    · intro hne hplain
      obtain ⟨before, o, previous, rfl, hbefore, hderives⟩ := hchain.last_derived hne
      have hthread := Descent.const thread (fun o => o.correlationId = none) thread_eq hbefore
        fun link hlink => hplain link (List.mem_append_left _ hlink)
      have ho : o.correlationId = none := hplain (o, last) (by simp)
      rw [hderives.derived.correlation, ho]
      exact congrArg some hthread
    · intro hne
      obtain ⟨before, o, previous, hlinks, hbefore, hderives⟩ := hchain.last_derived hne
      refine ⟨before, o, previous, hlinks, hbefore, ?_⟩
      intro ho
      rw [hderives.derived.causation, ho]
      rfl
  · intro st request target deadline o id d hreach hasks hok htail
    have h := hreach.rests
    rcases h.awaits hasks with ⟨hno, -⟩ | ⟨id', owner, hok', hnew⟩
    · exact absurd hok (hno id)
    cases hok'.symm.trans hok
    obtain ⟨d', held, hd', hposted, henvelope, hpending⟩ := hnew.message
    cases hd'.symm.trans htail
    refine ⟨hposted.asked, hposted.deadline, ?_, ?_⟩
    · rw [hposted.correlation, hposted.envelope]
      cases o.correlationId <;> rfl
    · intro actions p hp
      rw [((h.step request).steps actions).holds (h.step request).valid hpending rfl hp]
  · intro st action id held hreach hbefore hafter
    obtain ⟨actions, rfl⟩ := hreach
    exact (w.rests actions).completes (w.contextual actions) hbefore hafter

end World

end Actorplane
