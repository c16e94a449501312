import Actorplane.Core.Contexts
import Actorplane.Locked.Routing
import Actorplane.Locked.Services
import Actorplane.Model.NativeContext

/-!
# The metadata of admitted messages

The envelope of a message takes its deadline, its correlation and its cause from
the options it was submitted with. A request answers its own event identity where
the options name no correlation, and keeps the envelope for the reply; the options
of a reply and of a completion are merged with what the message at hand hands down.
-/

namespace Actorplane

variable {world : ℕ} {r : ActorRef} {n : Node}

/-- Inherited metadata, overridden by the options given. -/
structure MessageOptions.Merges (inherited o metadata : MessageOptions) : Prop where
  deadline : metadata.deadline = earlierDeadline inherited.deadline o.deadline
  correlation : metadata.correlationId = o.correlationId.or inherited.correlationId
  causation : metadata.causationId = o.causationId.or inherited.causationId

/-- Merging the same metadata once more changes nothing. -/
theorem MessageOptions.Merges.again {inherited o m m' : MessageOptions} (h : inherited.Merges o m)
    (h' : inherited.Merges m m') : inherited.Merges o m' where
  deadline := by
    rw [h'.deadline, h.deadline]
    cases inherited.deadline <;> cases o.deadline <;> simp [earlierDeadline]
  correlation := by
    rw [h'.correlation, h.correlation]
    cases inherited.correlationId <;> cases o.correlationId <;> rfl
  causation := by
    rw [h'.causation, h.causation]
    cases inherited.causationId <;> cases o.causationId <;> rfl

/-- What a message in a mailbox has of the event identity and options it was admitted with. -/
structure Delivery.Posted (d : Delivery) (event : ℕ) (o : MessageOptions)
    (operation : Option OperationId) : Prop where
  identity : d.eventId = event
  envelope : d.envelope.eventId = event
  asked : d.operation = operation
  deadline : d.envelope.deadline = o.deadline
  correlation : d.envelope.correlationId =
    o.correlationId.or (if operation.isSome then some event else none)
  causation : d.envelope.causationId = o.causationId

/-- An accepted publication is in the table. -/
theorem Core.Publishing.accepted {c c' : Core} {q : Publication} (h : c.Publishing)
    (hs : Step world c (.accept q) c') :
    c'.publications.entries.lookup q.ticket = some q ∧ q.ticket < c'.publications.nextId := by
  cases hs with
  | accept n b s hok =>
    obtain ⟨hticket, -, hlookup, -, hnext, -⟩ := h.sound.accept hok
    constructor
    · exact (hlookup q.ticket).trans (if_pos rfl)
    · dsimp only
      omega

namespace World

variable {w : World} {st : State} {a : Actor}

/-! ## Admission -/

theorem refreshEarliest_actors : (refreshEarliest r st).actors = st.actors := by
  unfold refreshEarliest
  cases st.actors[r.slot]? <;> rfl

theorem refreshPythonReadyLocked_actors : (w.refreshPythonReadyLocked r st).actors = st.actors :=
  rfl

theorem markActivityDependentsLocked_actors :
    (w.markActivityDependentsLocked r st).actors = st.actors := rfl

theorem enqueue_tail (d : Delivery) (ha : st.actors[r.slot]? = some a) :
    (w.enqueue r d st).tail r = some d := by
  unfold enqueue State.tail
  simp only [State.note_actors, markActivityDependentsLocked_actors, State.addMetrics,
    refreshPythonReadyLocked_actors, refreshEarliest_actors, State.modifyActor,
    List.getElem?_modify, ha]
  simp

theorem admissible_checked {stored : Stored} {completion : Bool}
    (h : w.admissible r stored completion st = .ok ()) : ∃ a, st.actors[r.slot]? = some a := by
  unfold admissible at h
  cases he : w.executionStateLocked r st with
  | error e => simp [he, bind, Except.bind] at h
  | ok s =>
    cases hc : w.checkRef r st with
    | error e => simp [he, hc, bind, Except.bind] at h
    | ok a =>
      unfold checkRef at hc
      split_ifs at hc
      cases ha : st.actors[r.slot]? with
      | none => simp [ha] at hc
      | some a => exact ⟨a, rfl⟩

theorem admitMessage_tail {stored : Stored} {sub : Option ℕ} {completion : Bool}
    {operation : Option OperationId} {event : ℕ}
    (h : (w.admitMessage r stored sub completion operation st).1 = .ok event) :
    ∃ d, (w.admitMessage r stored sub completion operation st).2.tail r = some d ∧
      d.Posted event stored.options operation := by
  unfold admitMessage at h ⊢
  dsimp only at h ⊢
  cases hdue : checkDeadline stored.options (w.now st) with
  | error e => simp [hdue] at h
  | ok u =>
    cases hsource : w.validateSource stored.options st.tick completion with
    | error e => simp [hdue, hsource] at h
    | ok u =>
      simp only [hdue, hsource] at h ⊢
      by_cases hlimit : u64Max ≤ st.tick.nextEvent
      · rw [nextEventId, if_pos hlimit] at h
        cases h
      rw [nextEventId, if_neg hlimit] at h ⊢
      dsimp only at h ⊢
      generalize hst₁ : ({ st.tick with nextEvent := st.tick.nextEvent + 1 } : State) = st₁ at h ⊢
      cases henv : w.envelopeFor r stored sub st.tick.nextEvent (w.now st) st₁ with
      | error e => simp [henv] at h
      | ok envelope =>
        simp only [henv] at h ⊢
        cases hadm : w.admissible r stored completion st₁ with
        | error e => simp [hadm] at h
        | ok u =>
          simp only [hadm, Except.ok.injEq] at h ⊢
          obtain ⟨a, ha⟩ := admissible_checked hadm
          obtain ⟨hconveys, hevent⟩ := envelopeFor_ok henv
          subst h
          refine ⟨_, enqueue_tail _ ha, rfl, ?_, rfl, ?_, ?_, ?_⟩
          · dsimp only
            split_ifs <;> exact hevent
          · dsimp only
            split_ifs <;> exact hconveys.deadline
          · dsimp only
            rw [← hconveys.correlation]
            cases hc : envelope.correlationId <;> cases operation <;> simp [hc]
          · dsimp only
            split_ifs <;> exact hconveys.causation

theorem sendWith_tail {p : Payload} {o : MessageOptions} {event : ℕ}
    (h : (w.sendWith r p o st).1 = .ok event) :
    ∃ d, (w.sendWith r p o st).2.tail r = some d ∧ d.Posted event o none := by
  unfold sendWith at h ⊢
  dsimp only at h ⊢
  rcases hm : w.makeStoredWith p o none (countSubmitted st) with ⟨e | stored, st₁⟩
  · rw [hm] at h
    cases h
  · have hoptions := makeStoredWith_options (congrArg Prod.fst hm)
    rw [hm] at h
    dsimp only at h ⊢
    unfold deliver at h ⊢
    have htail := @admitMessage_tail r w st₁ stored none false none event
    rcases ha : w.admitMessage r stored none false none st₁ with ⟨e | event', st₂⟩
    · rw [ha] at h
      cases h
    · rw [ha] at h htail
      cases h
      obtain ⟨d, hd, hposted⟩ := htail rfl
      exact ⟨d, hd, hoptions ▸ hposted⟩

/-! ## Requests -/

theorem mapLast_getLast? {α : Type} (f : α → α) (l : List α) :
    (mapLast f l).getLast? = l.getLast?.map f := by
  induction l with
  | nil => rfl
  | cons a l ih =>
    cases l with
    | nil => rfl
    | cons b l =>
      have hne : b :: l ≠ [] := List.cons_ne_nil b l
      rw [mapLast, List.getLast?_cons_of_ne_nil (mapLast_ne_nil f hne), ih,
        List.getLast?_cons_of_ne_nil hne]

theorem setDestinationPort_tail (port : PortRef) :
    (setDestinationPort r port st).tail r = (st.tail r).map fun d =>
      { d with envelope := { d.envelope with destinationPort := some port } } := by
  unfold State.tail setDestinationPort State.modifyActor
  rw [List.getElem?_modify]
  cases st.actors[r.slot]? with
  | none => rfl
  | some a => simp [mapLast_getLast?]

/-- A pending request, whose message is last in the mailbox and whose context is that message. -/
structure Awaits (st st' : State) (owner target : ActorRef) (deadline : Instant)
    (o : MessageOptions) (id : OperationId) : Prop where
  message : ∃ d held, st'.tail target = some d ∧ d.Posted d.eventId o (some id) ∧
    held.envelope = some d.envelope ∧
    st'.operations.locate id = .ok (.pending ⟨owner, target, deadline, some held⟩)
  others : ∀ i x, i ≠ id → st'.operations.locate i = .ok x → st.operations.locate i = .ok x

theorem releaseOperation_back {id i : OperationId} {p : PendingOperation} {x : Entry}
    (ho : st.core.Operating w.id) (hp : st.operations.locate id = .ok (.pending p))
    (hx : (releaseOperation id st).operations.locate i = .ok x) :
    i ≠ id ∧ st.operations.locate i = .ok x :=
  ((ho.indexed.release_pending hp).2 i x).mp hx

/-- The context is held once the message is admitted, and no other operation changes. -/
theorem holdContext_awaits {c : Core} {st₀ st₁ : State} {owner target : ActorRef}
    {deadline : Instant} {options : MessageOptions} {id : OperationId} {m : Mail}
    {completion : Bool} {d : Delivery} (hv : st.core.Valid w.id)
    (h : Admitted c st.core target m completion) (stored : Stored)
    (hpend : st₁.operations.locate id = .ok (.pending ⟨owner, target, deadline, none⟩))
    (hops : st.operations = st₁.operations) (hd : st.tail target = some d)
    (hposted : d.Posted d.eventId options (some id))
    (hold : ∀ i x, i ≠ id → st₁.operations.locate i = .ok x → st₀.operations.locate i = .ok x) :
    ∃ st', w.holdContext id target stored st = (.ok (), st') ∧
      Awaits st₀ st' owner target deadline options id := by
  have hpend' : c.operations.locate id = .ok (.pending ⟨owner, target, deadline, none⟩) := by
    rw [← h.operations]
    show st.operations.locate id = _
    rw [hops]
    exact hpend
  obtain ⟨hok, d', hd', hst'⟩ := holdContext_admitted hv h stored hpend' rfl
  cases hd.symm.trans hd'
  rcases hh : w.holdContext id target stored st with ⟨e | u, st'⟩
  · simp [hh] at hok
  rw [hh] at hst'
  have hst' : st' = _ := hst'
  have hworld : (⟨stored, w.id, some d.envelope⟩ : HeldPayload).world = st.operations.world :=
    hv.operating.world_eq.symm
  have hset := (hv.operating.indexed.setContext_pending hworld (hops ▸ hpend) rfl).2
  refine ⟨st', rfl, ⟨d, ⟨stored, w.id, some d.envelope⟩, ?_, hposted, rfl, ?_⟩, ?_⟩
  · rw [hst']
    exact hd
  · rw [hst']
    exact (hset id _).mpr (by simp)
  · intro i x hi hx
    rw [hst'] at hx
    have hx := (hset i x).mp hx
    rw [if_neg hi] at hx
    exact hold i x hi (hops ▸ hx)

/-- Every other operation of a table that reserved one was there before. -/
theorem reserve_others (hv : st.core.Valid w.id) {owner target : ActorRef} {deadline : Instant}
    {id : OperationId} {operations : OperationTable}
    (hres : st.operations.reserve owner target deadline = (.ok id, operations)) {i : OperationId}
    {x : Entry} (hi : i ≠ id) (hx : operations.locate i = .ok x) :
    st.operations.locate i = .ok x := by
  have h4 := (hv.operating.indexed.reserve (congrArg Prod.fst hres)).2.2.2
  rw [show (st.core.operations.reserve owner target deadline).2 = operations from
    congrArg Prod.snd hres] at h4
  have hx := (h4 i x).mp hx
  rw [if_neg hi] at hx
  exact hx

theorem requestLocked_awaits {owner target : ActorRef} (hv : st.core.Valid w.id) (payload : Payload)
    (deadline : Instant) (options : MessageOptions) (port : Option PortRef) :
    (∃ e, (w.requestLocked owner target payload deadline options port st).1 = .error e ∧
        ∀ i x, (w.requestLocked owner target payload deadline options port st).2.operations.locate i
          = .ok x → st.operations.locate i = .ok x) ∨
      ∃ id, (w.requestLocked owner target payload deadline options port st).1 = .ok id ∧
        Awaits st (w.requestLocked owner target payload deadline options port st).2 owner target
          deadline options id := by
  unfold requestLocked
  rcases hreq : w.executionStateLocked owner st with e | ownerReady
  · exact .inl ⟨e, rfl, fun _ _ h => h⟩
  dsimp only
  rcases htgt : w.executionStateLocked target st with e | targetReady
  · exact .inl ⟨e, rfl, fun _ _ h => h⟩
  dsimp only
  by_cases hready : ownerReady ≠ .active ∨ targetReady ≠ .active
  · rw [if_pos hready]
    exact .inl ⟨_, rfl, fun _ _ h => h⟩
  rw [if_neg hready]
  obtain ⟨rfl, rfl⟩ : ownerReady = .active ∧ targetReady = .active := by
    simpa [not_or] using hready
  rcases hres : st.operations.reserve owner target deadline with ⟨e | id, operations⟩
  · exact .inl ⟨e, rfl, fun _ _ h => h⟩
  dsimp only
  obtain ⟨hs₁, hpend⟩ := reserve_pending hv hreq htgt hres
  have hold : ∀ i x, i ≠ id → operations.locate i = .ok x → st.operations.locate i = .ok x :=
    fun _ _ => reserve_others hv hres
  generalize hst₁ : ({ st with operations := operations } : State) = st₁ at hs₁ ⊢
  have hops₁ : st₁.operations = operations := by rw [← hst₁]
  have hv₁ := hv.step hs₁
  rw [← hops₁] at hpend hold
  have hmake := @core_makeStoredWith w st₁ payload options none
  rcases hm : w.makeStoredWith payload options none st₁ with ⟨e | stored, st₂⟩
  · rw [hm] at hmake
    have hops₂ : st₂.operations = st₁.operations := congrArg Core.operations hmake
    refine .inl ⟨e, rfl, ?_⟩
    intro i x hx
    obtain ⟨hi, hx⟩ := releaseOperation_back (hmake ▸ hv₁.operating) (hops₂ ▸ hpend) hx
    exact hold i x hi (hops₂ ▸ hx)
  have hoptions := makeStoredWith_options (congrArg Prod.fst hm)
  rw [hm] at hmake
  have hmake : st₂.core = st₁.core := hmake
  have hops₂ : st₂.operations = st₁.operations := congrArg Core.operations hmake
  rw [← hmake] at hv₁
  rw [← hops₂] at hpend hold
  dsimp only
  have hadmit := @admitMessage_spec target w st₂ hv₁.owned stored none false (some id)
  have htail := @admitMessage_tail target w st₂ stored none false (some id)
  rcases ha : w.admitMessage target stored none false (some id) st₂ with ⟨e | event, st₃⟩
  · rw [ha] at hadmit
    obtain ⟨e', -, hburnt⟩ := hadmit.resolve_right (by simp)
    have hops₃ : st₃.operations = st₂.operations := hburnt.operations
    refine .inl ⟨e, rfl, ?_⟩
    intro i x hx
    have hv₃ := (hburnt.evolves (P := fun _ => True) hv₁ trivial).valid hv₁
    obtain ⟨hi, hx⟩ := releaseOperation_back hv₃.operating (hops₃ ▸ hpend) hx
    exact hold i x hi (hops₃ ▸ hx)
  rw [ha] at hadmit htail
  obtain ⟨_, _, hadmitted⟩ := hadmit.resolve_left (by simp)
  obtain ⟨d, hd, hposted⟩ := htail rfl
  have hposted : d.Posted d.eventId options (some id) := by
    rw [hposted.identity]
    exact hoptions ▸ hposted
  have hops₃ : st₃.operations = st₂.operations := hadmitted.operations
  have hv₃ := hv₁.step hadmitted.step
  dsimp only at hd ⊢
  -- the port is bookkeeping, so the context is held from any state with this core
  have hheld : ∀ st₄ d, st₄.core = st₃.core → st₄.tail target = some d →
      d.Posted d.eventId options (some id) →
      ∃ st₅, w.holdContext id target stored st₄ = (.ok (), st₅) ∧
        Awaits st st₅ owner target deadline options id := by
    intro st₄ d hcore hd hposted
    have hops₄ : st₄.operations = st₂.operations := (congrArg Core.operations hcore).trans hops₃
    exact holdContext_awaits (hcore ▸ hv₃) (hcore ▸ hadmitted) stored hpend hops₄ hd hposted hold
  cases port with
  | none =>
    obtain ⟨st₅, hh, hawaits⟩ := hheld st₃ d rfl hd hposted
    dsimp only
    rw [hh]
    exact .inr ⟨id, rfl, hawaits.message, hawaits.others⟩
  | some port =>
    have hd' := @setDestinationPort_tail target st₃ port
    rw [hd] at hd'
    obtain ⟨st₅, hh, hawaits⟩ := hheld (setDestinationPort target port st₃) _ (by simp) hd'
      ⟨rfl, hposted.envelope, hposted.asked, hposted.deadline, hposted.correlation,
        hposted.causation⟩
    dsimp only
    rw [hh]
    exact .inr ⟨id, rfl, hawaits.message, hawaits.others⟩

/-- The deadline of a request with an explicit deadline in its options. -/
def requestDeadline (deadline : Instant) (o : MessageOptions) : Instant :=
  match o.deadline with
  | none => deadline
  | some other => min other deadline

theorem requestWithPort_awaits {owner target : ActorRef} (hv : st.core.Valid w.id)
    (payload : Payload) (deadline : Instant) (o : MessageOptions) (port : Option PortRef) :
    (∃ e, (w.requestWithPort owner target payload deadline o port st).1 = .error e ∧
        ∀ i x, (w.requestWithPort owner target payload deadline o port st).2.operations.locate i
          = .ok x → st.operations.locate i = .ok x) ∨
      ∃ id, (w.requestWithPort owner target payload deadline o port st).1 = .ok id ∧
        Awaits st (w.requestWithPort owner target payload deadline o port st).2 owner target
          (requestDeadline deadline o)
          { o with source := some owner, deadline := some (requestDeadline deadline o) } id := by
  unfold requestWithPort
  split_ifs with hsource
  · exact .inl ⟨_, rfl, fun _ _ h => h⟩
  · have h := @requestLocked_awaits w (countSubmitted st) owner target hv payload
      (requestDeadline deadline o)
      { o with source := some owner, deadline := some (requestDeadline deadline o) } port
    rcases h with h | ⟨id, hok, hawaits⟩
    · exact .inl h
    · exact .inr ⟨id, hok, hawaits.message, hawaits.others⟩

/-! ## Replies -/

/-- What a request hands down to its reply. -/
def handedDown (p : PendingOperation) (target : ActorRef) : MessageOptions :=
  match p.context.bind (·.envelope) with
  | none => {}
  | some envelope => envelope.childOptions target

theorem replyOptions_merges {p : PendingOperation} {target : ActorRef}
    {o : Option MessageOptions} {metadata : MessageOptions}
    (h : w.replyOptions p target o st = .ok metadata) :
    (handedDown p target).Merges (o.getD {}) metadata := by
  have hplain : ∀ inherited : MessageOptions,
      inherited.Merges {} { inherited with source := some target } := by
    intro inherited
    constructor
    · cases inherited.deadline <;> rfl
    · rfl
    · rfl
  unfold replyOptions at h
  dsimp only at h
  split_ifs at h
  · cases h
  · obtain ⟨owner, -, h⟩ := bind_ok.mp h
    split_ifs at h
    · cases h
    · obtain ⟨responder, -, h⟩ := bind_ok.mp h
      split_ifs at h
      · cases h
      · cases o with
        | none =>
          rw [← Except.ok.inj h]
          exact hplain _
        | some o =>
          obtain ⟨-, -, h⟩ := bind_ok.mp h
          split_ifs at h
          · cases h
          · rw [← Except.ok.inj h]
            exact ⟨rfl, rfl, rfl⟩

/-- A call that ends an operation leaves every other entry, and this one if it was not pending. -/
theorem endOperation_back {c : Core} {id i : OperationId} {outcome : TerminalOutcome} {x : Entry}
    (hx : (c.endOperation id outcome).operations.locate i = .ok x) :
    c.operations.locate i = .ok x ∨
      i = id ∧ c.operations.isPending id = true ∧ x = .terminal outcome.normalized := by
  unfold Core.endOperation at hx
  split_ifs at hx with hwon
  · obtain ⟨-, hforeign⟩ := OperationTable.complete_true hwon.2
    rw [OperationTable.complete_locate_iff id hforeign] at hx
    split_ifs at hx with hi
    · obtain ⟨rfl, hpending⟩ := hi
      exact .inr ⟨rfl, hpending, hx.symm⟩
    · exact .inl hx
  · exact .inl hx

/-- A reply that became the result of an operation, before the deadline of its metadata. -/
structure Replied (w : World) (st st' : State) (metadata : MessageOptions) (o : TerminalOutcome) :
    Prop where
  result : ∃ held envelope, o = .completed held ∧ held.stored.options = metadata ∧
    held.envelope = some envelope ∧ envelope.Conveys metadata
  read : st.reads < st'.reads
  early : isDue (w.clock (st'.reads - 1)) metadata.deadline = false

theorem completeOperationLocked_reads {id : OperationId} {outcome : TerminalOutcome} :
    (w.completeOperationLocked id outcome st).2.reads = st.reads := by
  unfold completeOperationLocked
  rcases st.operations.participants id with e | ⟨owner, target⟩
  · rfl
  · dsimp only
    split_ifs <;> rfl

theorem replyCompleted_reads {id : OperationId} {target : ActorRef} {held : HeldPayload} :
    (w.replyCompleted id target held st).2.reads = st.reads := by
  have hreads := @completeOperationLocked_reads w st id (.completed held)
  unfold replyCompleted
  rcases hc : w.completeOperationLocked id (.completed held) st with ⟨e | won, st'⟩
  · rw [hc] at hreads
    exact hreads
  · rw [hc] at hreads
    cases won <;> exact hreads

theorem makeStoredWith_reads {p : Payload} {o : MessageOptions} {dispatcher : Option PortRef} :
    (w.makeStoredWith p o dispatcher st).2.reads = st.reads := by
  unfold makeStoredWith reserveBytes
  rcases w.storedCharge p o with e | k
  · rfl
  · dsimp only
    split <;> rename_i h <;> split_ifs at h <;> cases h <;> rfl

/-- Only a reply in time makes an operation completed. -/
theorem replyWith_back {id i : OperationId} {owner target : ActorRef} (payload : Payload)
    (metadata : MessageOptions) {o : TerminalOutcome} (ho : o.isCompleted = true)
    (hx : (w.replyWith id owner target payload metadata st).2.core.operations.locate i =
      .ok (.terminal o)) :
    st.core.operations.locate i = .ok (.terminal o) ∨
      i = id ∧ st.core.operations.isPending id = true ∧
        w.Replied st (w.replyWith id owner target payload metadata st).2 metadata o := by
  have hother : ∀ {c : Core} {outcome : TerminalOutcome}, outcome.isCompleted = false →
      (c.endOperation id outcome).operations.locate i = .ok (.terminal o) →
      c.operations.locate i = .ok (.terminal o) := by
    intro c outcome houtcome hx
    rcases endOperation_back hx with hsame | ⟨-, -, heq⟩
    · exact hsame
    · cases heq
      rw [normalized_completed ho] at ho
      simp [ho] at houtcome
  unfold replyWith at hx ⊢
  dsimp only at hx ⊢
  split_ifs at hx ⊢ with hdue
  · rw [core_replyTimedOut] at hx
    exact .inl (hother rfl hx)
  have hmake := @core_makeStoredWith w st.tick payload metadata none
  have hreads := @makeStoredWith_reads w st.tick payload metadata none
  rcases hm : w.makeStoredWith payload metadata none st.tick with ⟨e | stored, st₁⟩
  · rw [hm] at hmake hx
    obtain ⟨outcome, hno, h⟩ := @core_replyTooLarge w st₁ id
    dsimp only at hx
    rw [h] at hx
    rw [show st₁.core = st.core from hmake] at hx
    exact .inl (hother hno hx)
  have hoptions := makeStoredWith_options (congrArg Prod.fst hm)
  rw [hm] at hmake hreads hx
  have hmake : st₁.core = st.core := hmake
  have hreads : st₁.reads = st.reads + 1 := hreads
  dsimp only at hx ⊢
  by_cases hlimit : u64Max ≤ st₁.nextEvent
  · rw [nextEventId, if_pos hlimit] at hx
    exact .inl (hmake ▸ hx)
  rw [nextEventId, if_neg hlimit] at hx ⊢
  dsimp only at hx ⊢
  generalize hst₂ : ({ st₁ with nextEvent := st₁.nextEvent + 1 } : State) = st₂ at hx ⊢
  have hops₂ : st₂.core.operations = st.core.operations := by
    rw [← hst₂, ← hmake]
    rfl
  have hreads₂ : st₂.reads = st.reads + 1 := by rw [← hst₂, ← hreads]
  rcases henv : w.envelopeFor owner stored none st₁.nextEvent (w.now st₂) st₂.tick with e | envelope
  · rw [henv] at hx
    exact .inl (hops₂ ▸ hx)
  rw [henv] at hx
  dsimp only at hx ⊢
  split_ifs at hx ⊢ with hlate
  · rw [core_replyTimedOut] at hx
    exact .inl (hops₂ ▸ hother rfl hx)
  rw [core_replyCompleted] at hx
  rcases endOperation_back hx with hsame | ⟨rfl, hpending, heq⟩
  · exact .inl (hops₂ ▸ hsame)
  · cases heq
    refine .inr ⟨rfl, hops₂ ▸ hpending, ⟨_, envelope, rfl, hoptions, rfl, ?_⟩, ?_, ?_⟩
    · exact hoptions ▸ (envelopeFor_ok henv).1
    · rw [replyCompleted_reads]
      show st.reads < st₂.reads + 2
      omega
    · rw [replyCompleted_reads, ← hoptions]
      simpa [now, State.tick] using hlate

/-- A timeout leaves every other entry, and this one if it was not pending. -/
theorem timeOut_back {c : Core} {id i : OperationId} {now : Instant} {x : Entry}
    (hx : (c.timeOut id now).operations.locate i = .ok x) :
    c.operations.locate i = .ok x ∨ x = .terminal .timedOut := by
  unfold Core.timeOut at hx
  split_ifs at hx with hwon
  · obtain ⟨-, hforeign, heq⟩ := OperationTable.expireOne_true hwon.2
    dsimp only at hx
    rw [heq, OperationTable.complete_locate_iff id hforeign] at hx
    split_ifs at hx
    · exact .inr hx.symm
    · exact .inl hx
  · exact .inl hx

/-- What has ended stays in the table when a timeout is tried. -/
theorem timeOut_terminal {c : Core} {id : OperationId} {now : Instant} {o : TerminalOutcome}
    (ho : c.operations.locate id = .ok (.terminal o)) :
    (c.timeOut id now).operations.locate id = .ok (.terminal o) := by
  unfold Core.timeOut
  rw [if_neg]
  · exact ho
  · rintro ⟨-, hwon⟩
    obtain ⟨hpending, -⟩ := OperationTable.expireOne_true hwon
    obtain ⟨p, hp⟩ := OperationTable.isPending_iff.mp hpending
    rw [ho] at hp
    cases hp

theorem timeOutOperation_reads {id : OperationId} {now : Instant} {actor : Option ActorRef} :
    (w.timeOutOperation id now actor st).reads = st.reads := by
  have hexpire : (w.expireOperationLocked id now st).2.reads = st.reads := by
    unfold expireOperationLocked
    rcases st.operations.participants id with e | ⟨owner, target⟩
    · rfl
    · dsimp only
      split_ifs <;> rfl
  unfold timeOutOperation
  dsimp only
  split_ifs <;> exact hexpire

theorem completeOperationWith_back {id i : OperationId} {target : ActorRef} (payload : Payload)
    (options : Option MessageOptions) {o : TerminalOutcome} (ho : o.isCompleted = true)
    (hx : (w.completeOperationWith id target payload options st).2.core.operations.locate i =
      .ok (.terminal o)) :
    st.core.operations.locate i = .ok (.terminal o) ∨
      i = id ∧ ∃ p metadata, st.core.operations.locate id = .ok (.pending p) ∧
        (handedDown p target).Merges (options.getD {}) metadata ∧
        w.Replied st (w.completeOperationWith id target payload options st).2 metadata o := by
  unfold completeOperationWith at hx ⊢
  dsimp only at hx ⊢
  have hcore := @core_timeOutOperation w st.tick id (w.now st) (some target)
  have hreads := @timeOutOperation_reads w st.tick id (w.now st) (some target)
  generalize w.timeOutOperation id (w.now st) (some target) st.tick = st₁ at hx hcore hreads ⊢
  have hback : ∀ {j x}, st₁.core.operations.locate j = .ok x →
      st.core.operations.locate j = .ok x ∨ x = .terminal .timedOut := by
    intro j x hx
    rw [hcore] at hx
    exact timeOut_back hx
  have hsame : st₁.core.operations.locate i = .ok (.terminal o) →
      st.core.operations.locate i = .ok (.terminal o) := by
    intro hx
    rcases hback hx with hx | hx
    · exact hx
    · cases hx
      cases ho
  cases hstatus : st₁.operations.status id with
  | error e =>
    rw [hstatus] at hx
    left
    cases e <;> exact hsame hx
  | ok entry =>
    rw [hstatus] at hx
    cases entry with
    | terminal outcome => exact .inl (hsame hx)
    | pending p =>
      dsimp only at hx ⊢
      cases hmeta : w.replyOptions p target options st₁ with
      | error e =>
        rw [hmeta] at hx
        exact .inl (hsame hx)
      | ok metadata =>
        rw [hmeta] at hx
        dsimp only at hx ⊢
        rcases replyWith_back payload metadata ho hx with hx | ⟨rfl, -, hreplied⟩
        · exact .inl (hsame hx)
        · have hp : st.core.operations.locate i = .ok (.pending p) := by
            rcases hback hstatus with hp | hp
            · exact hp
            · cases hp
          have hread : st.reads < st₁.reads := by
            rw [hreads]
            exact Nat.lt_succ_self _
          exact .inr ⟨rfl, p, metadata, hp, replyOptions_merges hmeta, hreplied.result,
            hread.trans hreplied.read, hreplied.early⟩

/-- A reply that wins comes to an operation that has not ended. -/
theorem completeOperationWith_won {id : OperationId} {target : ActorRef} {payload : Payload}
    {options : Option MessageOptions} {o : TerminalOutcome}
    (hwon : (w.completeOperationWith id target payload options st).1 = .ok true) :
    st.core.operations.locate id ≠ .ok (.terminal o) := by
  intro ho
  have hterminal : (w.timeOutOperation id (w.now st) (some target) st.tick).operations.status id =
      .ok (.terminal o) := by
    show (w.timeOutOperation id (w.now st) (some target) st.tick).core.operations.locate id = _
    rw [core_timeOutOperation]
    exact timeOut_terminal ho
  unfold completeOperationWith at hwon
  dsimp only at hwon
  rw [hterminal] at hwon
  cases hwon

/-! ## Publications -/

/-- The publication of a ticket is in the table with these options. -/
def Publishing (st : State) (ticket : ℕ) (o : MessageOptions) : Prop :=
  ∃ q, st.publications.entries.lookup ticket = some q ∧ ticket < st.publications.nextId ∧
    q.stored.options = o

theorem publishInternal_accepted {source : ActorRef} {p : Payload} {owner : Option ActorRef}
    {port : Option ℕ} {o : MessageOptions} {ticket : ℕ} (hv : st.core.Valid w.id)
    (h : (w.publishInternal source p owner port o st).1 = .ok ticket) :
    Publishing (w.publishInternal source p owner port o st).2 ticket
      { o with source := some source } := by
  unfold publishInternal at h ⊢
  dsimp only at h ⊢
  have hsubmit : Step w.id st.core .submit (st.addMetrics fun m =>
    { m with
      publicationSubmitted := m.publicationSubmitted + 1
      submitted := m.submitted + 1 }).core := .submit
  generalize st.addMetrics (fun m =>
    { m with
      publicationSubmitted := m.publicationSubmitted + 1
      submitted := m.submitted + 1 }) = st₁ at h hsubmit ⊢
  have hv₁ := hv.step hsubmit
  have hp := @publishLocked_accepts w st₁ source port hv₁ p owner o
  rcases hcall : w.publishLocked source p owner port o st₁ with ⟨e | ticket', st₂⟩
  · rw [hcall] at h
    cases h
  · rw [hcall] at h hp
    cases h
    obtain ⟨q, hq, -, -, -, hoptions, hs⟩ := hp.resolve_left (by simp)
    cases hq
    obtain ⟨hlookup, hnext⟩ := hv₁.publishing.accepted hs
    exact ⟨q, hlookup, hnext, hoptions⟩

theorem deliveryPublish_accepted {lease : DeliveryLease} {source : PortRef} {p : Payload}
    {o : MessageOptions} {ticket : ℕ} (hv : st.core.Valid w.id)
    (h : (w.deliveryPublish lease source p o st).1 = .ok ticket) :
    ∃ metadata, Publishing (w.deliveryPublish lease source p o st).2 ticket metadata ∧
      (lease.delivery.envelope.childOptions source.owner).Merges o metadata := by
  unfold deliveryPublish at h ⊢
  cases hvalid : o.validate with
  | error e =>
    rw [hvalid] at h
    cases h
  | ok u =>
    rw [hvalid] at h
    dsimp only at h ⊢
    split_ifs at h ⊢
    exact ⟨_, publishInternal_accepted hv h, rfl, rfl, rfl⟩

/-! ## Effects of a native hook -/

theorem native_ok {α : Type} {result : Except Error α} {a : α} (h : native result = .ok a) :
    result = .ok a := by
  cases result with
  | error e => cases h
  | ok b =>
    cases h
    rfl

end World

namespace NativeContext

variable {w : World} {st : State} {ctx : NativeContext} {lease : DeliveryLease}

theorem effect_frame : ctx.effect.2.delivery = ctx.delivery ∧ ctx.effect.2.owner = ctx.owner := by
  unfold effect
  dsimp only
  split_ifs <;> exact ⟨rfl, rfl⟩

/-- With a delivery at hand, its metadata is merged into the options. -/
theorem options_merges {o metadata : MessageOptions} (hd : ctx.delivery = some lease)
    (h : ctx.options o = .ok metadata) :
    (lease.delivery.envelope.childOptions ctx.owner).Merges o metadata := by
  unfold options at h
  obtain ⟨-, -, h⟩ := bind_ok.mp h
  split_ifs at h
  · cases h
  · rw [← Except.ok.inj h, envelope, hd]
    exact ⟨rfl, rfl, rfl⟩

/-- With a delivery at hand, an output is a completion publication of that delivery. -/
theorem emitWith_publishes {port : String} {payload : Payload} {o : MessageOptions} {ticket : ℕ}
    (hd : ctx.delivery = some lease) (h : (ctx.emitWith w port payload o st).1 = .ok ticket) :
    ∃ output metadata, (lease.delivery.envelope.childOptions ctx.owner).Merges o metadata ∧
      (w.deliveryPublish lease output payload metadata st).1 = .ok ticket ∧
      (ctx.emitWith w port payload o st).2.2 =
        (w.deliveryPublish lease output payload metadata st).2 := by
  obtain ⟨hd', howner⟩ := @effect_frame ctx
  unfold emitWith at h ⊢
  rcases he : ctx.effect with ⟨e | u, ctx'⟩
  · rw [he] at h
    cases h
  rw [he] at h hd' howner
  dsimp only at h hd' howner ⊢
  cases hport : w.portNamed ctx'.owner port st with
  | error e =>
    rw [hport] at h
    cases h
  | ok output =>
    rw [hport] at h
    dsimp only at h ⊢
    cases ho : ctx'.options o with
    | error e =>
      rw [ho] at h
      cases h
    | ok metadata =>
      rw [ho] at h
      dsimp only at h ⊢
      have hlease : ctx'.delivery = some lease := hd'.trans hd
      have hpublish : ctx'.publish w output payload metadata st =
          w.deliveryPublish lease output payload metadata st := by
        unfold publish
        rw [hlease]
      rw [hpublish] at h ⊢
      exact ⟨output, metadata, howner ▸ options_merges hlease ho, World.native_ok h, rfl⟩

theorem send_tail {target : ActorRef} {payload : Payload} {o : MessageOptions} {event : ℕ}
    (hd : ctx.delivery = some lease) (h : (ctx.send w target payload o st).1 = .ok event) :
    ∃ d metadata, (ctx.send w target payload o st).2.2.tail target = some d ∧
      d.Posted event metadata none ∧
      (lease.delivery.envelope.childOptions ctx.owner).Merges o metadata := by
  obtain ⟨hd', howner⟩ := @effect_frame ctx
  unfold send at h ⊢
  rcases he : ctx.effect with ⟨e | u, ctx'⟩
  · rw [he] at h
    cases h
  rw [he] at h hd' howner
  dsimp only at h hd' howner ⊢
  cases hwork : ctx'.newWork w st with
  | error e =>
    rw [hwork] at h
    cases h
  | ok u =>
    rw [hwork] at h
    dsimp only at h ⊢
    cases ho : ctx'.options o with
    | error e =>
      rw [ho] at h
      cases h
    | ok metadata =>
      rw [ho] at h
      dsimp only at h ⊢
      obtain ⟨d, htail, hposted⟩ := World.sendWith_tail (World.native_ok h)
      exact ⟨d, metadata, htail, hposted, howner ▸ options_merges (hd'.trans hd) ho⟩

end NativeContext

end Actorplane
