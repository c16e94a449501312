import Actorplane.Locked.Draining

/-!
# Admission and requests under the World lock

`admit` either refuses a delivery, at the cost of one event identity at most, or puts
it at the end of the mailbox of an actor that runs. Sends and requests are built
around it.
-/

namespace Actorplane

variable {world : ℕ} {c c' c'' : Core} {r : ActorRef} {n : Node}

/-- The message last put into the mailbox of an actor. -/
def State.tail (st : State) (r : ActorRef) : Option Delivery :=
  (st.actors[r.slot]?).bind fun a => a.queue.getLast?

/-- The envelope has the metadata of its message. -/
structure Envelope.Conveys (e : Envelope) (o : MessageOptions) : Prop where
  deadline : e.deadline = o.deadline
  correlation : e.correlationId = o.correlationId
  causation : e.causationId = o.causationId

/-- A refused admission: the core is unchanged but for one event identity. -/
def Burnt (c c' : Core) : Prop := c' = c ∨ c' = { c with nextEvent := c.nextEvent + 1 }

theorem Burnt.evolves {P : Move → Prop} (h : Burnt c c') (hv : c.Valid world) (hP : P .burn) :
    Evolves world P c c' := by
  rcases h with rfl | rfl
  · exact .refl _
  · exact .single hv hP .burn (by simp) (by simp [Move.loosens])

/-- A delivery was admitted to the mailbox of an actor that runs. -/
structure Admitted (c c' : Core) (r : ActorRef) (m : Mail) (completion : Bool) : Prop where
  admits : ∃ n, Seated c.nodes r n ∧ (n.state = .active ∨ completion = true ∧ n.state = .quiescing)
  event : m.eventId = c.nextEvent
  box : ∃ b, c.boxes[r.slot]? = some b ∧ c' = c.enqueue r b m

theorem Admitted.running {m : Mail} {completion : Bool} (h : Admitted c c' r m completion) :
    Running c.nodes r := by
  obtain ⟨n, hn, hs⟩ := h.admits
  exact ⟨n, hn, hs.imp_right And.right⟩

theorem Admitted.step {m : Mail} {completion : Bool} (h : Admitted c c' r m completion) :
    Step world c (.enqueue r m) c' := by
  obtain ⟨b, hb, rfl⟩ := h.box
  exact .enqueue b h.running hb h.event

namespace World

variable {w : World} {st : State} {a : Actor}

/-! ## Admission -/

theorem core_refreshed (r : ActorRef) :
    (w.markActivityDependentsLocked r ((w.refreshPythonReadyLocked r (refreshEarliest r st)).addMetrics
      fun m => { m with admitted := m.admitted + 1 })).core =
      { st.core with ledger := { st.core.ledger with admitted := st.core.ledger.admitted + 1 } } := by
  have h : (refreshEarliest r st).core = st.core := core_refreshEarliest
  show ({ (refreshEarliest r st).core with
    ledger := { (refreshEarliest r st).core.ledger with
      admitted := (refreshEarliest r st).core.ledger.admitted + 1 } } : Core) = _
  rw [h]

theorem core_enqueue (d : Delivery) (ha : st.actors[r.slot]? = some a) :
    (w.enqueue r d st).core =
      { st.core.setBox r.slot { a.box with queue := a.box.queue ++ [d.mail] } with
        ledger := { st.core.ledger with admitted := st.core.ledger.admitted + 1 }
        mail := st.core.mail ++ [.admitted d.eventId r] } := by
  unfold enqueue
  dsimp only
  rw [State.core_note_mail _ rfl, core_refreshed, State.core_modify_box _ ha rfl rfl]
  simp [Core.setBox, Actor.box]

theorem admissible_ok {stored : Stored} {completion : Bool} (ho : st.core.Owned w.id)
    (h : w.admissible r stored completion st = .ok ()) :
    ∃ n, Seated st.core.nodes r n ∧
      (n.state = .active ∨ completion = true ∧ n.state = .quiescing) := by
  unfold admissible at h
  rcases he : w.executionStateLocked r st with e | s
  · simp [he, bind, Except.bind] at h
  obtain ⟨n, hn, heff⟩ := seated_of_execution ho he
  refine ⟨n, hn, ?_⟩
  rcases hc : w.checkRef r st with e | a
  · simp [he, hc, bind, Except.bind] at h
  have hs : s = .active ∨ completion = true ∧ s = .quiescing := by
    by_contra hne
    have hne : s ≠ .active ∧ ¬(completion = true ∧ s = .quiescing) := not_or.mp hne
    simp only [he, hc, bind, Except.bind, if_pos hne] at h
    cases h
  rcases hs with rfl | ⟨hcomp, rfl⟩
  · cases heff with
    | active _ hst => exact .inl hst
  · cases heff with
    | quiescing hst => exact .inr ⟨hcomp, hst⟩

theorem envelopeFor_ok {stored : Stored} {sub : Option ℕ} {id : ℕ} {now : Instant}
    {envelope : Envelope} (h : w.envelopeFor r stored sub id now st = .ok envelope) :
    envelope.Conveys stored.options ∧ envelope.eventId = id := by
  unfold envelopeFor at h
  rcases hc : w.checkRef r st with e | a
  · simp [hc, bind, Except.bind] at h
  rcases hs : schemaIdentity stored.payload st with e | schema
  · simp [hc, hs, bind, Except.bind] at h
  · simp only [hc, hs, bind, Except.bind, pure, Except.pure, Except.ok.injEq] at h
    subst h
    exact ⟨⟨rfl, rfl, rfl⟩, rfl⟩

/-- Both ends of an admission. -/
theorem admitMessage_spec (ho : st.core.Owned w.id) (stored : Stored) (sub : Option ℕ)
    (completion : Bool) (operation : Option OperationId) :
    (∃ e, (w.admitMessage r stored sub completion operation st).1 = .error e ∧
        Burnt st.core (w.admitMessage r stored sub completion operation st).2.core) ∨
      ∃ id, (w.admitMessage r stored sub completion operation st).1 = .ok id ∧
        Admitted st.core (w.admitMessage r stored sub completion operation st).2.core r
          ⟨id, stored.options.deadline, sub, operation⟩ completion := by
  unfold admitMessage
  dsimp only
  rcases checkDeadline stored.options (w.now st) with e | u
  · exact .inl ⟨e, rfl, .inl rfl⟩
  dsimp only
  rcases w.validateSource stored.options st.tick completion with e | u
  · exact .inl ⟨e, rfl, .inl rfl⟩
  dsimp only
  by_cases hlimit : u64Max ≤ st.tick.nextEvent
  · rw [nextEventId, if_pos hlimit]
    exact .inl ⟨_, rfl, .inl rfl⟩
  rw [nextEventId, if_neg hlimit]
  dsimp only
  set st₁ : State := { st.tick with nextEvent := st.tick.nextEvent + 1 } with hst₁
  have hc₁ : st₁.core = { st.core with nextEvent := st.core.nextEvent + 1 } := rfl
  rcases henv : w.envelopeFor r stored sub st.tick.nextEvent (w.now st) st₁ with e | envelope
  · exact .inl ⟨e, rfl, .inr hc₁⟩
  dsimp only
  rcases hadm : w.admissible r stored completion st₁ with e | u
  · exact .inl ⟨e, rfl, .inr hc₁⟩
  dsimp only
  refine .inr ⟨_, rfl, ?_⟩
  obtain ⟨n, hn, hs⟩ := admissible_ok (show st₁.core.Owned w.id from ho) hadm
  obtain ⟨a, ha, -⟩ := State.actors_get_of_node hn.1
  refine ⟨⟨n, hn, hs⟩, rfl, a.box, State.core_boxes_get ha, ?_⟩
  rw [core_enqueue _ ha, hc₁]
  have hd := (envelopeFor_ok henv).1.deadline
  unfold Core.enqueue
  dsimp only
  congr 1
  simp only [Core.setBox, Delivery.mail]
  split_ifs <;> rw [← hd]

@[simp] theorem core_makeStoredWith (p : Payload) (options : MessageOptions)
    (dispatcher : Option PortRef) : (w.makeStoredWith p options dispatcher st).2.core = st.core := by
  unfold makeStoredWith reserveBytes
  rcases w.storedCharge p options with e | k
  · rfl
  · dsimp only
    split <;> rename_i h <;> split_ifs at h <;> cases h <;> rfl

theorem makeStoredWith_options {p : Payload} {options : MessageOptions}
    {dispatcher : Option PortRef} {stored : Stored}
    (h : (w.makeStoredWith p options dispatcher st).1 = .ok stored) : stored.options = options := by
  unfold makeStoredWith at h
  cases hcharge : w.storedCharge p options with
  | error e => simp [hcharge] at h
  | ok n =>
    simp only [hcharge] at h
    unfold reserveBytes at h
    dsimp only at h
    split_ifs at h
    cases h
    rfl

/-- What the change of the last element does not touch. -/
theorem mapLast_map {α β : Type} {f : α → α} {g : α → β} (hf : ∀ a, g (f a) = g a) (l : List α) :
    (mapLast f l).map g = l.map g := by
  induction l with
  | nil => rfl
  | cons a l ih =>
    cases l with
    | nil => simp [mapLast, hf]
    | cons b l => simpa [mapLast] using ih

theorem mapLast_ne_nil {α : Type} (f : α → α) {l : List α} (h : l ≠ []) : mapLast f l ≠ [] := by
  cases l with
  | nil => exact absurd rfl h
  | cons a l => cases l <;> simp [mapLast]

/-- A setting of the destination port leaves the mail as it is. -/
@[simp] theorem core_setDestinationPort (port : PortRef) :
    (setDestinationPort r port st).core = st.core := by
  refine State.core_modify_soft _ (fun _ => rfl) (fun a => ?_) fun _ => rfl
  refine congrArg (fun queue => Box.mk queue a.staged a.inFlight) (mapLast_map ?_ _)
  exact fun _ => rfl

end World

/-! ## Sends -/

/-- A plain message was refused or admitted; only an active actor admits one. -/
def Sent (c c' : Core) (r : ActorRef) : Prop :=
  Burnt c c' ∨ ∃ m, Admitted c c' r m false ∧ m.subscription = none

/-- The moves of a send. -/
def Move.bySend (c : Core) (r : ActorRef) (m : Move) : Prop :=
  m = .burn ∨ ∃ x, m = .enqueue r x ∧ x.subscription = none ∧
    ∃ n, Seated c.nodes r n ∧ n.state = .active

theorem Sent.evolves (h : Sent c c' r) (hv : c.Valid world) :
    Evolves world (Move.bySend c r) c c' := by
  rcases h with h | ⟨m, h, hm⟩
  · exact h.evolves hv (.inl rfl)
  · obtain ⟨n, hn, hs⟩ := h.admits
    exact .single hv (.inr ⟨m, rfl, hm, n, hn, hs.resolve_right (by simp)⟩) h.step (by simp)
      (by simp [Move.loosens])

theorem Sent.refl (c : Core) (r : ActorRef) : Sent c c r := .inl (.inl rfl)

namespace World

variable {w : World} {st : State} {a : Actor}

theorem deliver_sent (hv : st.core.Valid w.id) (stored : Stored) :
    Sent st.core (w.deliver r stored st).2.core r := by
  unfold deliver
  rcases admitMessage_spec (w := w) (r := r) hv.owned stored none false none with
    ⟨e, he, h⟩ | ⟨id, hid, h⟩
  · rcases hm : w.admitMessage r stored none false none st with ⟨e' | id, st'⟩
    · rw [hm] at h
      exact .inl h
    · simp [hm] at he
  · rcases hm : w.admitMessage r stored none false none st with ⟨e | id', st'⟩
    · simp [hm] at hid
    · rw [hm] at h
      exact .inr ⟨_, h, rfl⟩

theorem sendWith_sent (hv : st.core.Valid w.id) (p : Payload) (options : MessageOptions) :
    Sent st.core (w.sendWith r p options st).2.core r := by
  unfold sendWith
  dsimp only
  have hc := @core_makeStoredWith w (countSubmitted st) p options none
  rcases hm : w.makeStoredWith p options none (countSubmitted st) with ⟨e | stored, st'⟩
  · rw [hm] at hc
    exact .inl (.inl hc)
  · rw [hm] at hc
    have hc : st'.core = st.core := hc
    rw [← hc] at hv ⊢
    exact deliver_sent hv stored

theorem sendHeld_sent (hv : st.core.Valid w.id) (held : HeldPayload) :
    Sent st.core (w.sendHeld r held st).2.core r := by
  unfold sendHeld
  dsimp only
  split_ifs
  · exact .refl _ _
  · exact @deliver_sent _ _ (countSubmitted st) hv held.stored

theorem sendHeldFrom_sent (hv : st.core.Valid w.id) (owner : ActorRef) (held : HeldPayload) :
    Sent st.core (w.sendHeldFrom owner r held st).2.core r := by
  unfold sendHeldFrom
  dsimp only
  split_ifs
  · exact .refl _ _
  rcases w.checkRef owner (countSubmitted st) with e | a
  · exact .refl _ _
  dsimp only
  split_ifs
  · exact .refl _ _
  split
  · exact .refl _ _
  · exact @deliver_sent _ _ (countSubmitted st) hv held.stored
  · exact .refl _ _

/-- The bookkeeping after an admission leaves the core alone. -/
theorem settled_sent {c : Core} (result : Except Error ℕ × State)
    (h : Sent c result.2.core r) :
    Sent c (match result with
      | (.error e, st) => ((.error e : Except Error ℕ), (reject e r st).touchActivity)
      | (.ok id, st) => (.ok id, st.touchActivity)).2.core r := by
  obtain ⟨e | id, st'⟩ := result
  · exact h
  · exact h

theorem sendPortWith_sent (hv : st.core.Valid w.id) (port : PortRef) (p : Payload)
    (options : MessageOptions) :
    Sent st.core (w.sendPortWith port p options st).2.core port.owner := by
  unfold sendPortWith
  refine settled_sent _ ?_
  rcases w.inputPort port p (countSubmitted st) with e | u
  · exact .refl _ _
  dsimp only
  have hc := @core_makeStoredWith w (countSubmitted st) p options none
  rcases hm : w.makeStoredWith p options none (countSubmitted st) with ⟨e | stored, st'⟩
  · rw [hm] at hc
    exact .inl (.inl hc)
  rw [hm] at hc
  have hc : st'.core = st.core := hc
  rw [← hc] at hv ⊢
  dsimp only
  rcases admitMessage_spec (w := w) (r := port.owner) hv.owned stored none false none with
    ⟨e, he, h⟩ | ⟨id, hid, h⟩
  · rcases ha : w.admitMessage port.owner stored none false none st' with ⟨e' | id, st₂⟩
    · rw [ha] at h
      exact .inl h
    · simp [ha] at he
  · rcases ha : w.admitMessage port.owner stored none false none st' with ⟨e | id', st₂⟩
    · simp [ha] at hid
    · rw [ha] at h
      dsimp only at h ⊢
      rw [core_setDestinationPort]
      exact .inr ⟨_, h, rfl⟩

@[simp] theorem core_holdWith (p : Payload) (options : MessageOptions) :
    (w.holdWith p options st).2.core = st.core := by
  unfold holdWith
  split_ifs
  · rfl
  rcases w.validateSource options st true with e | u
  · rfl
  dsimp only
  rcases checkDeadline options (w.now st) with e | u
  · rfl
  dsimp only
  have hc := @core_makeStoredWith w st.tick p options none
  rcases hm : w.makeStoredWith p options none st.tick with ⟨e | stored, st'⟩ <;>
  · rw [hm] at hc
    exact hc

end World

/-! ## Requests -/

/-- The moves of a request. -/
def Move.byRequest (c : Core) (r : ActorRef) (m : Move) : Prop :=
  m.bySend c r ∨ ∃ id, m = .reserve id ∨ m = .release id ∨ m = .context id

/-- A request was refused, or is pending; the counted requests say which. -/
structure Requested (world : ℕ) (c c' : Core) (r : ActorRef) (ok : Bool) : Prop where
  evolves : Evolves world (Move.byRequest c r) c c'
  requests : c'.requests = c.requests + ok.toNat

theorem Requested.refl (c : Core) (r : ActorRef) : Requested world c c r false := ⟨.refl c, rfl⟩

theorem Core.requests_burnt (h : Burnt c c') : c'.requests = c.requests := by
  rcases h with rfl | rfl <;> rfl

theorem Core.requests_admitted {m : Mail} {completion : Bool} (h : Admitted c c' r m completion) :
    c'.requests = c.requests := by
  obtain ⟨b, -, rfl⟩ := h.box
  rfl

theorem Burnt.operations (h : Burnt c c') : c'.operations = c.operations := by
  rcases h with rfl | rfl <;> rfl

theorem Admitted.operations {m : Mail} {completion : Bool} (h : Admitted c c' r m completion) :
    c'.operations = c.operations := by
  obtain ⟨b, -, rfl⟩ := h.box
  rfl

namespace World

variable {w : World} {st : State} {a : Actor} {owner target : ActorRef}

theorem refuse_fst {α : Type} (e : Error) : (refuse e r st : Except Error α × State).1 = .error e :=
  rfl

/-- The context of an admitted request can always be stored. -/
theorem holdContext_spec (hv : st.core.Valid w.id) (stored : Stored) {id : OperationId}
    {p : PendingOperation} (hp : st.core.operations.locate id = .ok (.pending p))
    (hctx : p.context = none) {b : Box} (hn : Seated st.core.nodes target n)
    (hb : st.core.boxes[target.slot]? = some b) (hq : b.queue ≠ []) :
    (w.holdContext id target stored st).1 = .ok () ∧ ∃ d, st.tail target = some d ∧
      (w.holdContext id target stored st).2 =
        { st with operations :=
          (st.operations.setContext id ⟨stored, w.id, some d.envelope⟩).2 } := by
  obtain ⟨a, hc, ha, rfl⟩ := check_of_seated hv.owned hn
  have hbox := (State.core_boxes_get ha).symm.trans hb
  cases hbox
  unfold holdContext
  rw [hc]
  dsimp only
  rcases hl : a.queue.getLast? with - | d
  · rw [List.getLast?_eq_none_iff] at hl
    simp [Actor.box, hl] at hq
  · refine ⟨?_, d, by simp [State.tail, ha, hl], rfl⟩
    have hw : w.id = st.operations.world := hv.operating.world_eq.symm
    have hp : st.operations.locate id = .ok (.pending p) := hp
    simp [OperationTable.setContext, ← hw, hp, hctx]

theorem holdContext_admitted {m : Mail} {completion : Bool} (hv : st.core.Valid w.id)
    (h : Admitted c st.core target m completion) (stored : Stored) {id : OperationId}
    {p : PendingOperation} (hp : c.operations.locate id = .ok (.pending p))
    (hctx : p.context = none) :
    (w.holdContext id target stored st).1 = .ok () ∧ ∃ d, st.tail target = some d ∧
      (w.holdContext id target stored st).2 =
        { st with operations :=
          (st.operations.setContext id ⟨stored, w.id, some d.envelope⟩).2 } := by
  obtain ⟨n, hn, -⟩ := h.admits
  obtain ⟨b, hb, hcore⟩ := h.box
  have hseat : Seated st.core.nodes target n := by
    rw [hcore]
    exact hn
  have hbox : st.core.boxes[target.slot]? = some { b with queue := b.queue ++ [m] } := by
    rw [hcore]
    simp [Core.enqueue, (List.getElem?_eq_some_iff.mp hb).1]
  rw [← h.operations] at hp
  exact holdContext_spec hv stored hp hctx hseat hbox (by simp)

theorem release_requested {c₀ : Core} (hv : st.core.Valid w.id) {id : OperationId}
    (hp : st.core.operations.isPending id = true) :
    Evolves w.id (Move.byRequest c₀ r) st.core (releaseOperation id st).core ∧
      (releaseOperation id st).core.requests + 1 = st.core.requests := by
  have hs : Step w.id st.core (.release id) (releaseOperation id st).core := .release hp
  exact ⟨.single hv (.inr ⟨id, .inr (.inl rfl)⟩) hs (by simp) (by simp [Move.loosens]),
    hv.operating.requests_release hs⟩

/-- The operation of a request is reserved between two actors that run. -/
theorem reserve_pending (hv : st.core.Valid w.id) {deadline : Instant} {id : OperationId}
    {operations : OperationTable} (ho : w.executionStateLocked owner st = .ok .active)
    (ht : w.executionStateLocked target st = .ok .active)
    (hres : st.operations.reserve owner target deadline = (.ok id, operations)) :
    Step w.id st.core (.reserve id) { st with operations := operations }.core ∧
      operations.locate id = .ok (.pending ⟨owner, target, deadline, none⟩) := by
  obtain ⟨no, hno, heo⟩ := seated_of_execution hv.owned ho
  obtain ⟨nt, hnt, het⟩ := seated_of_execution hv.owned ht
  have hrok : (st.core.operations.reserve owner target deadline).1 = .ok id :=
    congrArg Prod.fst hres
  have hrop : (st.core.operations.reserve owner target deadline).2 = operations :=
    congrArg Prod.snd hres
  have hs : Step w.id st.core (.reserve id) _ :=
    .reserve owner target deadline (heo.running hno (.inl rfl)) (het.running hnt (.inl rfl)) hrok
  obtain ⟨-, -, -, h4⟩ := hv.operating.indexed.reserve hrok
  rw [hrop] at hs h4
  exact ⟨hs, (h4 id _).mpr (by simp)⟩

/-- Holding the context keeps the request outstanding. -/
theorem holdContext_requested {c c₀ : Core} {m : Mail} {completion : Bool}
    (hv : st.core.Valid w.id) (h : Admitted c st.core target m completion) (stored : Stored)
    {id : OperationId} {p : PendingOperation} (hp : c.operations.locate id = .ok (.pending p))
    (hctx : p.context = none) :
    ∃ st', w.holdContext id target stored st = (.ok (), st') ∧
      Evolves w.id (Move.byRequest c₀ target) st.core st'.core ∧
      st'.core.requests = st.core.requests := by
  obtain ⟨hok, d, -, hst'⟩ := holdContext_admitted hv h stored hp hctx
  rcases hh : w.holdContext id target stored st with ⟨e | u, st'⟩
  · simp [hh] at hok
  rw [hh] at hst'
  have hs : Step w.id st.core (.context id) st'.core := by
    rw [show st' = _ from hst']
    exact .context _
  exact ⟨st', rfl, .single hv (.inr ⟨id, .inr (.inr rfl)⟩) hs (by simp) (by simp [Move.loosens]),
    hv.operating.requests_eq hs (by simp)⟩

theorem requestLocked_spec (hv : st.core.Valid w.id) (payload : Payload) (deadline : Instant)
    (options : MessageOptions) (port : Option PortRef) :
    Requested w.id st.core (w.requestLocked owner target payload deadline options port st).2.core
      target (w.requestLocked owner target payload deadline options port st).1.isOk := by
  unfold requestLocked
  rcases hreq : w.executionStateLocked owner st with e | ownerReady
  · exact .refl _ _
  dsimp only
  rcases htgt : w.executionStateLocked target st with e | targetReady
  · exact .refl _ _
  dsimp only
  by_cases hready : ownerReady ≠ .active ∨ targetReady ≠ .active
  · rw [if_pos hready]
    exact .refl _ _
  rw [if_neg hready]
  obtain ⟨rfl, rfl⟩ : ownerReady = .active ∧ targetReady = .active := by
    simpa [not_or] using hready
  obtain ⟨nt, hnt, het⟩ := seated_of_execution hv.owned htgt
  have hactive : nt.state = .active := by
    cases het with
    | active _ hst => exact hst
  rcases hres : st.operations.reserve owner target deadline with ⟨e | id, operations⟩
  · exact .refl _ _
  dsimp only
  obtain ⟨hs₁, hpend⟩ := reserve_pending hv hreq htgt hres
  set st₁ : State := { st with operations := operations } with hst₁
  have h₁ : Evolves w.id (Move.byRequest st.core target) st.core st₁.core :=
    .single hv (.inr ⟨id, .inl rfl⟩) hs₁ (by simp) (by simp [Move.loosens])
  have hreq₁ := Core.Operating.requests_reserve hs₁
  have hv₁ := hv.step hs₁
  have hpend : st₁.core.operations.locate id = .ok (.pending ⟨owner, target, deadline, none⟩) := hpend
  have hisp : st₁.core.operations.isPending id = true := OperationTable.isPending_iff.mpr ⟨_, hpend⟩
  have hc₂ := @core_makeStoredWith w st₁ payload options none
  rcases hm : w.makeStoredWith payload options none st₁ with ⟨e | stored, st₂⟩
  · rw [hm] at hc₂
    have hc₂ : st₂.core = st₁.core := hc₂
    rw [← hc₂] at hisp hv₁ h₁ hreq₁
    obtain ⟨h₂, hreq₂⟩ := @release_requested target _ _ st.core hv₁ _ hisp
    refine ⟨h₁.trans h₂, ?_⟩
    show (releaseOperation id st₂).core.requests = _
    simp only [refuse_fst, Except.isOk, Except.toBool, Bool.toNat_false]
    omega
  rw [hm] at hc₂
  have hc₂ : st₂.core = st₁.core := hc₂
  rw [← hc₂] at hisp hv₁ h₁ hreq₁ hpend
  dsimp only
  rcases admitMessage_spec (w := w) (r := target) hv₁.owned stored none false (some id) with
    ⟨e, he, h⟩ | ⟨event, hid, h⟩
  · rcases ha : w.admitMessage target stored none false (some id) st₂ with ⟨e' | event, st₃⟩
    · rw [ha] at h
      have h₃ : Evolves w.id (Move.byRequest st.core target) st₂.core st₃.core :=
        h.evolves hv₁ (.inl (.inl rfl))
      have hisp₃ : st₃.core.operations.isPending id = true := h.operations ▸ hisp
      obtain ⟨h₄, hreq₄⟩ := @release_requested target _ _ st.core (h₃.valid hv₁) _ hisp₃
      refine ⟨h₁.trans (h₃.trans h₄), ?_⟩
      have := Core.requests_burnt h
      show (releaseOperation id st₃).core.requests = _
      dsimp only at this
      simp only [refuse_fst, Except.isOk, Except.toBool, Bool.toNat_false]
      omega
    · simp [ha] at he
  rcases ha : w.admitMessage target stored none false (some id) st₂ with ⟨e | event', st₃⟩
  · simp [ha] at hid
  rw [ha] at h
  dsimp only at h ⊢
  have hstep : Step w.id st₂.core (.enqueue target ⟨event, stored.options.deadline, none, some id⟩)
    st₃.core := h.step
  have h₃ : Evolves w.id (Move.byRequest st.core target) st₂.core st₃.core :=
    .single hv₁ (.inl (.inr ⟨_, rfl, rfl, nt, hnt, hactive⟩)) hstep (by simp)
      (by simp [Move.loosens])
  have hv₃ := h₃.valid hv₁
  have hreq₃ := Core.requests_admitted h
  -- the port is bookkeeping, so the context is held from any state with this core
  have hheld : ∀ st₄ : State, st₄.core = st₃.core →
      ∃ st₅, w.holdContext id target stored st₄ = (.ok (), st₅) ∧
        Evolves w.id (Move.byRequest st.core target) st₃.core st₅.core ∧
        st₅.core.requests = st₃.core.requests := by
    intro st₄ hc₄
    rw [← hc₄] at hv₃ h ⊢
    exact holdContext_requested hv₃ h stored hpend rfl
  rcases port with - | port
  · obtain ⟨st₅, hh, h₅, hreq₅⟩ := hheld st₃ rfl
    dsimp only
    rw [hh]
    exact ⟨h₁.trans (h₃.trans h₅), by
      simp only [core_markActivityDependentsLocked, Except.isOk, Except.toBool, Bool.toNat_true]
      omega⟩
  · obtain ⟨st₅, hh, h₅, hreq₅⟩ := hheld (setDestinationPort target port st₃) (by simp)
    dsimp only
    rw [hh]
    exact ⟨h₁.trans (h₃.trans h₅), by
      simp only [core_markActivityDependentsLocked, Except.isOk, Except.toBool, Bool.toNat_true]
      omega⟩

theorem requestWithPort_spec (hv : st.core.Valid w.id) (payload : Payload) (deadline : Instant)
    (options : MessageOptions) (port : Option PortRef) :
    Requested w.id st.core (w.requestWithPort owner target payload deadline options port st).2.core
      target (w.requestWithPort owner target payload deadline options port st).1.isOk := by
  unfold requestWithPort
  split_ifs
  · exact .refl _ _
  · exact @requestLocked_spec _ (countSubmitted st) _ _ hv _ _ _ _

end World

/-! ## Replies -/

/-- The moves of the calls that end or take one operation. -/
def Move.onOperation (m : Move) : Prop :=
  m = .burn ∨ (∃ id outcome, m = .endOperation id outcome) ∨ ∃ id, m = .take id

theorem Core.Valid.endOperation_evolves {c : Core} (hv : c.Valid world) (id : OperationId)
    (outcome : TerminalOutcome) : Evolves world Move.onOperation c (c.endOperation id outcome) :=
  hv.endOperation id outcome (.inr (.inl ⟨id, outcome, rfl⟩))

namespace World

variable {w : World} {st : State} {a : Actor} {owner target : ActorRef} {id : OperationId}

/-- A call that counts the transition it wins. -/
theorem core_complete (outcome : TerminalOutcome) (f : Bool → State → State)
    (hwin : ∀ st : State, (f true st).core =
      { st.core with ledger := st.core.ledger.endOperation outcome })
    (hlose : ∀ st : State, (f false st).core = st.core) :
    (match w.completeOperationLocked id outcome st with
      | (.error _, st) => st
      | (.ok won, st) => f won st).core = st.core.endOperation id outcome := by
  have hcases := @completeOperationLocked_cases w st id outcome
  unfold Core.endOperation
  rcases hc : w.completeOperationLocked id outcome st with ⟨e | won, st'⟩ <;>
    simp only [hc] at hcases
  · rcases hcases with ⟨h1, -⟩ | ⟨-, h2, h3⟩
    · simp at h1
    · exact h3.trans (if_neg h2).symm
  · rcases hcases with ⟨h1, h2, h3, h4⟩ | ⟨h1, h2, h3⟩
    · cases h1
      have h5 : (st.core.operations.participants id).isOk = true ∧
          (st.core.operations.complete id outcome).1 = .ok true := ⟨h2, h3⟩
      rw [if_pos h5]
      dsimp only
      rw [hwin, h4]
      rfl
    · have hf : won = false := by simpa using h1
      subst hf
      exact (hlose st').trans (h3.trans (if_neg h2).symm)

theorem core_replyTimedOut :
    (w.replyTimedOut id target st).2.core = st.core.endOperation id .timedOut := by
  have h := @core_complete w st id .timedOut (fun won st =>
      if won then
        (st.addMetrics fun m =>
          { m with operationTimedOut := m.operationTimedOut + 1 }).diagnostic
            .operationTimedOut (some target) (some id)
      else st) (fun _ => rfl) fun _ => rfl
  rw [← h]
  unfold replyTimedOut
  rcases w.completeOperationLocked id .timedOut st with ⟨e | won, st'⟩ <;> rfl

theorem core_replyTooLarge : ∃ outcome, outcome.isCompleted = false ∧
    (w.replyTooLarge id st).2.core = st.core.endOperation id outcome := by
  refine ⟨.failed .resultTooLarge "operation result exceeds configured budget", rfl, ?_⟩
  have h := @core_complete w st id
    (.failed .resultTooLarge "operation result exceeds configured budget")
    (fun won st => if won then countCompleted st else st) (fun _ => rfl) fun _ => rfl
  rw [← h]
  unfold replyTooLarge
  dsimp only
  rcases w.completeOperationLocked id _ st with ⟨e | won, st'⟩ <;> rfl

theorem core_replyCompleted (result : HeldPayload) :
    (w.replyCompleted id target result st).2.core =
      st.core.endOperation id (.completed result) := by
  have h := @core_complete w st id (.completed result)
    (fun won st => if won then countCompleted st else countLate id target st) (fun _ => rfl)
    fun _ => rfl
  rw [← h]
  unfold replyCompleted
  rcases w.completeOperationLocked id (.completed result) st with ⟨e | won, st'⟩ <;> rfl

theorem core_cancelOperation :
    (w.cancelOperation id st).2.core = st.core.endOperation id .cancelled := by
  have h := @core_complete w st id .cancelled (fun won st =>
      if won then
        st.addMetrics fun m => { m with operationCancelled := m.operationCancelled + 1 }
      else st) (fun _ => rfl) fun _ => rfl
  rw [← h]
  unfold cancelOperation
  rcases w.completeOperationLocked id .cancelled st with ⟨e | won, st'⟩ <;> rfl

theorem replyWith_evolves (hv : st.core.Valid w.id) (payload : Payload)
    (metadata : MessageOptions) :
    Evolves w.id Move.onOperation st.core
      (w.replyWith id owner target payload metadata st).2.core := by
  unfold replyWith
  dsimp only
  split_ifs
  · rw [core_replyTimedOut]
    exact hv.endOperation_evolves id _
  have hc := @core_makeStoredWith w st.tick payload metadata none
  rcases hm : w.makeStoredWith payload metadata none st.tick with ⟨e | stored, st₁⟩
  · rw [hm] at hc
    have hc : st₁.core = st.core := hc
    obtain ⟨outcome, -, h⟩ := @core_replyTooLarge w st₁ id
    dsimp only
    rw [h, hc]
    exact hv.endOperation_evolves id _
  rw [hm] at hc
  have hc : st₁.core = st.core := hc
  rw [← hc] at hv ⊢
  dsimp only
  by_cases hlimit : u64Max ≤ st₁.nextEvent
  · rw [nextEventId, if_pos hlimit]
    exact .refl _
  rw [nextEventId, if_neg hlimit]
  dsimp only
  set st₂ : State := ({ st₁ with nextEvent := st₁.nextEvent + 1 } : State).tick with hst₂
  have h₁ : Evolves w.id Move.onOperation st₁.core st₂.core :=
    .single hv (.inl rfl) .burn (by simp) (by simp [Move.loosens])
  have hv₂ := h₁.valid hv
  split
  · exact h₁
  split_ifs
  · rw [core_replyTimedOut]
    exact h₁.trans (hv₂.endOperation_evolves id _)
  · rw [core_replyCompleted]
    exact h₁.trans (hv₂.endOperation_evolves id _)

theorem Core.Valid.timeOut_evolves {c : Core} (hv : c.Valid world) (now : Instant) :
    Evolves world Move.onOperation c (c.timeOut id now) :=
  hv.timeOut id now (.inr (.inl ⟨id, _, rfl⟩))

theorem completeOperationWith_evolves (hv : st.core.Valid w.id) (payload : Payload)
    (options : Option MessageOptions) :
    Evolves w.id Move.onOperation st.core
      (w.completeOperationWith id target payload options st).2.core := by
  unfold completeOperationWith
  dsimp only
  set st₁ := w.timeOutOperation id (w.now st) (some target) st.tick with hst₁
  have hc₁ : st₁.core = st.core.timeOut id (w.now st) := core_timeOutOperation id _ _
  have h₁ : Evolves w.id Move.onOperation st.core st₁.core := by
    rw [hc₁]
    exact Core.Valid.timeOut_evolves hv _
  have hv₁ := h₁.valid hv
  clear_value st₁
  rcases st₁.operations.status id with e | e
  · cases e <;> exact h₁
  cases e with
  | terminal o => exact h₁
  | pending p =>
    dsimp only
    rcases w.replyOptions p target options st₁ with e | metadata
    · exact h₁
    · exact h₁.trans (replyWith_evolves hv₁ payload metadata)

theorem cancelOperation_evolves (hv : st.core.Valid w.id) :
    Evolves w.id Move.onOperation st.core (w.cancelOperation id st).2.core := by
  rw [core_cancelOperation]
  exact hv.endOperation_evolves id _

theorem takeOperation_evolves (hv : st.core.Valid w.id) :
    Evolves w.id Move.onOperation st.core (w.takeOperation id st).2.core := by
  unfold takeOperation
  rcases st.operations.participants id with e | ⟨owner, target⟩
  · exact .refl _
  set st₁ : State := { st with operations := (st.operations.take id).2 }
  have hs : Step w.id st.core (.take id) st₁.core := .take
  have h : Evolves w.id Move.onOperation st.core st₁.core :=
    .single hv (.inr (.inr ⟨id, rfl⟩)) hs (by simp) (by simp [Move.loosens])
  dsimp only
  rw [State.core_touchActivity]
  split
  · rw [core_markActivityDependentsLocked]
    exact h
  · exact h

end World

end Actorplane
