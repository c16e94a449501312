import Actorplane.Locked.Mail
import Actorplane.Mailboxes.Expiry

/-!
# Admission and claims

Each event that is admitted joins the tray of its target below the limits, and each that is
claimed leaves it. The entry of the actor follows.
-/

namespace Actorplane

variable {st st' : State} {m : Mailroom} {r : ActorRef} {t t' : Tray} {a : Actor} {w : World}

/-- The tray of a call that worked on one actor, with its entry. -/
theorem Shows.settled (h : m.Settled w) (hr : m.Holds r t)
    (hs : Shows { m with earliest := m.earliest.set r t'.deadlines.first } r t' st)
    (h' : t'.reference = r) (hb : t'.Balanced w.cfg) (same : t'.staged = t.staged) :
    st.mailroom.Settled w := by
  rw [hs.mailroom]
  exact h.put hr h' hb same

namespace Tray

/-- One more event waits. -/
def join (t : Tray) (i : Item) : Tray where
  reference := t.reference
  ended := t.ended
  queue := t.queue ++ [i]
  queueBytes := t.queueBytes + i.bytes
  staged := t.staged
  stagedBytes := t.stagedBytes
  deadlines := t.deadlines.add i.deadline

theorem Balanced.join {cfg : Config} {i : Item} (h : t.Balanced cfg) (ha : t.ended = false)
    (room : t.queue.length < cfg.mailboxCapacity)
    (limit : t.queueBytes + i.bytes ≤ cfg.mailboxBytes) : (t.join i).Balanced cfg where
  queueBytes := by
    have bytes := h.queueBytes
    simp only [Tray.join, List.map_append, List.sum_append, bytes]
    simp
  stagedBytes := h.stagedBytes
  counts := by
    apply (h.counts.add i.deadline).perm
    have before := t.times_eq
    have after : (t.join i).times = Actorplane.times (t.queue ++ [i]) ++
        Actorplane.times t.staged := (t.join i).times_eq
    have single : Actorplane.times [i] = i.deadline.toList := by
      rw [times_cons]
      exact List.append_nil _
    rw [before, after, times_append, single, List.append_assoc, List.append_assoc]
    exact List.Perm.append_left _ List.perm_append_comm
  queueRoom := by
    show (t.queue ++ [i]).length ≤ _
    rw [List.length_append]
    exact room
  queueLimit := limit
  stagedRoom := h.stagedRoom
  stagedLimit := h.stagedLimit
  quiet := fun ended => absurd (ha.symm.trans ended) (by decide)

/-- The first event is taken. -/
def pop (t : Tray) (i : Item) (rest : List Item) (d : ActorDeadlines) : Tray where
  reference := t.reference
  ended := t.ended
  queue := rest
  queueBytes := t.queueBytes - i.bytes
  staged := t.staged
  stagedBytes := t.stagedBytes
  deadlines := d

theorem Balanced.pop {cfg : Config} {i : Item} {rest : List Item} {d : ActorDeadlines}
    (h : t.Balanced cfg) (hq : t.queue = i :: rest) (hd : d.Counts (t.pop i rest d).times) :
    (t.pop i rest d).Balanced cfg where
  queueBytes := by
    have bytes := h.queueBytes
    show t.queueBytes - i.bytes = _
    rw [bytes, hq, List.map_cons, List.sum_cons, Nat.add_sub_cancel_left]
    rfl
  stagedBytes := h.stagedBytes
  counts := hd
  queueRoom := by
    have room := h.queueRoom
    rw [hq] at room
    exact (Nat.le_succ _).trans room
  queueLimit := (Nat.sub_le _ _).trans h.queueLimit
  stagedRoom := h.stagedRoom
  stagedLimit := h.stagedLimit
  quiet := fun ended => absurd ((h.quiet ended).1.symm.trans hq) (by simp)

end Tray

namespace World

/-! ## Admission -/

/-- Who is effectively running has not ended itself. -/
theorem execution_alive {s : Lifecycle} (h : w.executionStateLocked r st = .ok s)
    (hs : s ≠ .stopping) :
    ∃ a, w.checkRef r st = .ok a ∧ a.state ≠ .stopping ∧ a.state ≠ .stopped := by
  unfold executionStateLocked at h
  cases check : w.checkRef r st with
  | error e =>
    rw [check] at h
    cases h
  | ok a =>
    rw [check] at h
    refine ⟨a, rfl, ?_⟩
    rw [← not_or]
    intro ended
    have fuel : walkFuel = walkFuel - 1 + 1 := by decide
    dsimp only at h
    rw [fuel] at h
    unfold executionWalk at h
    rw [if_pos ended] at h
    exact hs (Except.ok.inj h).symm

/-- What `admissible` has checked of the target. -/
theorem admissible_room {stored : Stored} {completion : Bool}
    (h : w.admissible r stored completion st = .ok ()) :
    ∃ a, w.checkRef r st = .ok a ∧ a.state ≠ .stopping ∧ a.state ≠ .stopped ∧
      a.queue.length < w.cfg.mailboxCapacity ∧
      a.queueBytes + stored.bytes ≤ w.cfg.mailboxBytes := by
  unfold admissible at h
  dsimp only at h
  obtain ⟨s, execution, h⟩ := bind_ok.mp h
  obtain ⟨a, check, h⟩ := bind_ok.mp h
  obtain ⟨open_, h⟩ := guard_ok.mp h
  obtain ⟨-, h⟩ := guard_ok.mp h
  split_ifs at h with full
  have running : s ≠ .stopping := by
    rintro rfl
    simp at open_
  obtain ⟨b, check', stopping, stopped⟩ := execution_alive execution running
  obtain rfl : b = a := Except.ok.inj (check'.symm.trans check)
  obtain ⟨room, limit⟩ := not_or.mp full
  exact ⟨b, check, stopping, stopped, not_le.mp room, not_lt.mp limit⟩

/-- An event joins the tray of its target. -/
theorem enqueue_settled (h : st.mailroom.Settled w) (hc : w.checkRef r st = .ok a)
    (halive : a.state ≠ .stopping ∧ a.state ≠ .stopped) (d : Delivery)
    (room : a.queue.length < w.cfg.mailboxCapacity)
    (limit : a.queueBytes + d.payload.bytes ≤ w.cfg.mailboxBytes) :
    (w.enqueue r d st).mailroom.Settled w ∧
      (w.enqueue r d st).mailroom.Holds r (a.tray.join (.delivery d)) := by
  obtain ⟨-, current, holds⟩ := holds_of_check h hc
  have joined : Shows st.mailroom r (a.tray.join (.delivery d))
      (st.modifyActor r fun a => { a with
        queueBytes := a.queueBytes + d.payload.bytes
        deadlines := a.deadlines.add d.envelope.deadline
        queue := a.queue ++ [d] }) := by
    apply (Shows.refl holds).modify
    intro b same
    rw [← same]
    unfold Tray.join
    simp [Actor.tray]
  have noted : ∀ st : State, ((w.markActivityDependentsLocked r
      ((w.refreshPythonReadyLocked r st).addMetrics fun m =>
        { m with admitted := m.admitted + 1 })).note (.admitted d.eventId r)).mailroom =
          st.mailroom := fun _ => rfl
  have refreshed := joined.refresh.still (noted _)
  have seated : (a.tray.join (.delivery d)).reference = r := current
  constructor
  swap
  · have after : (w.enqueue r d st).mailroom = _ := refreshed.mailroom
    rw [after]
    refine (Mailroom.holds_set holds seated).mpr ?_
    rw [if_pos rfl]
  apply Shows.settled h holds refreshed
  · exact seated
  · apply (h.balanced _ _ holds.1).join
    · simp [Actor.tray, halive]
    · simpa [Actor.tray] using room
    · exact limit
  · rfl

/-- An admitted message waits in the tray of its target. -/
theorem admitMessage_settled (h : st.mailroom.Settled w) (stored : Stored) (sub : Option ℕ)
    (completion : Bool) (operation : Option OperationId) :
    (w.admitMessage r stored sub completion operation st).2.mailroom.Settled w ∧
      ∀ id, (w.admitMessage r stored sub completion operation st).1 = .ok id →
        ∃ t, (w.admitMessage r stored sub completion operation st).2.mailroom.Holds r t ∧
          t.queue ≠ [] := by
  have refused : ∀ (e : Error) (st' : State), st'.mailroom = st.mailroom →
      st'.mailroom.Settled w ∧ ∀ id, (.error e : Except Error ℕ) = .ok id →
        ∃ t, st'.mailroom.Holds r t ∧ t.queue ≠ [] := by
    intro e st' same
    rw [same]
    exact ⟨h, fun _ impossible => by cases impossible⟩
  unfold admitMessage
  dsimp only
  cases checkDeadline stored.options (w.now st) with
  | error e => exact refused e _ rfl
  | ok u =>
    dsimp only
    cases w.validateSource stored.options st.tick completion with
    | error e => exact refused e _ rfl
    | ok u =>
      dsimp only
      unfold nextEventId
      by_cases last : u64Max ≤ st.tick.nextEvent
      · rw [if_pos last]
        exact refused _ st.tick rfl
      rw [if_neg last]
      dsimp only
      set st₁ : State := { st.tick with nextEvent := st.tick.nextEvent + 1 } with hst₁
      cases w.envelopeFor r stored sub st.tick.nextEvent (w.now st) st₁ with
      | error e => exact refused e _ rfl
      | ok envelope =>
        dsimp only
        cases allowed : w.admissible r stored completion st₁ with
        | error e => exact refused e _ rfl
        | ok u =>
          obtain ⟨a, check, stopping, stopped, room, limit⟩ := admissible_room allowed
          have settled₁ : st₁.mailroom.Settled w := h
          obtain ⟨settled, holds⟩ :=
            enqueue_settled settled₁ check ⟨stopping, stopped⟩ ⟨_, _, _, _, _⟩ room limit
          refine ⟨settled, fun _ _ => ⟨_, holds, ?_⟩⟩
          exact List.append_ne_nil_of_right_ne_nil _ (List.cons_ne_nil _ _)

theorem admitMessage_posts (stored : Stored) (sub : Option ℕ) (completion : Bool)
    (operation : Option OperationId) :
    Posts w st (w.admitMessage r stored sub completion operation st).2 :=
  fun settled => (admitMessage_settled settled stored sub completion operation).1

theorem deliver_posts (stored : Stored) : Posts w st (w.deliver r stored st).2 := by
  have admitted := @admitMessage_posts st r w stored none false none
  unfold deliver
  rcases hcall : w.admitMessage r stored none false none st with ⟨e | id, st'⟩
  · rw [hcall] at admitted
    exact admitted.after rfl
  · rw [hcall] at admitted
    exact admitted.after rfl

theorem sendWith_posts (p : Payload) (o : MessageOptions) :
    Posts w st (w.sendWith r p o st).2 := by
  have stored := @desk_makeStoredWith (countSubmitted st) w p o none
  have counted : Posts w st (countSubmitted st) := .still rfl
  unfold sendWith
  dsimp only
  cases result : w.makeStoredWith p o none (countSubmitted st) with
  | mk answer st' =>
    rw [result] at stored
    cases answer with
    | error e => exact (counted.trans (.aside stored)).after rfl
    | ok s => exact (counted.trans (.aside stored)).trans (deliver_posts s)

theorem sendHeld_posts (held : HeldPayload) : Posts w st (w.sendHeld r held st).2 := by
  have counted : Posts w st (countSubmitted st) := .still rfl
  unfold sendHeld
  dsimp only
  split_ifs
  · exact .still rfl
  · exact counted.trans (deliver_posts held.stored)

theorem sendHeldFrom_posts (owner : ActorRef) (held : HeldPayload) :
    Posts w st (w.sendHeldFrom owner r held st).2 := by
  have counted : Posts w st (countSubmitted st) := .still rfl
  unfold sendHeldFrom
  dsimp only
  split_ifs
  · exact .still rfl
  cases w.checkRef owner (countSubmitted st) with
  | error e => exact .still rfl
  | ok a =>
    dsimp only
    split_ifs
    · exact .still rfl
    cases w.executionStateLocked owner (countSubmitted st) with
    | error e => exact .still rfl
    | ok s =>
      cases s with
      | active => exact counted.trans (deliver_posts held.stored)
      | starting => exact .still rfl
      | quiescing => exact .still rfl
      | stopping => exact .still rfl
      | stopped => exact .still rfl

/-! ## Destination ports -/

end World

def Item.address (port : PortRef) : Item → Item
  | delivery d => .delivery { d with envelope := { d.envelope with destinationPort := some port } }
  | output s => .output s

theorem Item.bytes_address (port : PortRef) (i : Item) : (i.address port).bytes = i.bytes := by
  cases i <;> rfl

theorem Item.deadline_address (port : PortRef) (i : Item) :
    (i.address port).deadline = i.deadline := by
  cases i <;> rfl

theorem map_address (port : PortRef) (queue : List Delivery) :
    (mapLast (fun d : Delivery =>
        { d with envelope := { d.envelope with destinationPort := some port } }) queue).map
      Item.delivery = mapLast (Item.address port) (queue.map Item.delivery) := by
  induction queue with
  | nil => rfl
  | cons d queue ih =>
    cases queue with
    | nil => rfl
    | cons d' queue => exact congrArg (Item.delivery d :: ·) ih

namespace Tray

/-- The last event is addressed to a port. -/
def address (t : Tray) (port : PortRef) : Tray :=
  { t with queue := mapLast (Item.address port) t.queue }

theorem times_address (t : Tray) (port : PortRef) : (t.address port).times = t.times := by
  have queue : Actorplane.times (mapLast (Item.address port) t.queue) =
      Actorplane.times t.queue := by
    have deadlines := World.mapLast_map (Item.deadline_address port) t.queue
    have read : ∀ items : List Item,
        Actorplane.times items = (items.map Item.deadline).filterMap id := by
      intro items
      rw [List.filterMap_map]
      rfl
    rw [read, read, deadlines]
  rw [times_eq, times_eq]
  exact congrArg (· ++ Actorplane.times t.staged) queue

theorem Balanced.address {cfg : Config} (h : t.Balanced cfg) (port : PortRef) :
    (t.address port).Balanced cfg where
  queueBytes := by
    have bytes := World.mapLast_map (Item.bytes_address port) t.queue
    exact h.queueBytes.trans (congrArg List.sum bytes.symm)
  stagedBytes := h.stagedBytes
  counts := by
    rw [times_address]
    exact h.counts
  queueRoom := by
    have length := congrArg List.length (World.mapLast_map (Item.bytes_address port) t.queue)
    rw [List.length_map, List.length_map] at length
    exact length.le.trans h.queueRoom
  queueLimit := h.queueLimit
  stagedRoom := h.stagedRoom
  stagedLimit := h.stagedLimit
  quiet := by
    intro ended
    obtain ⟨queue, staged⟩ := h.quiet ended
    exact ⟨congrArg (mapLast (Item.address port)) queue, staged⟩

end Tray

namespace World

theorem setDestinationPort_settled (h : st.mailroom.Settled w) (hr : st.mailroom.Holds r t)
    (port : PortRef) :
    (setDestinationPort r port st).mailroom.Settled w ∧
      (setDestinationPort r port st).mailroom.Holds r (t.address port) := by
  have addressed : Shows st.mailroom r (t.address port) (setDestinationPort r port st) := by
    apply (Shows.refl hr).modify
    intro b same
    rw [← same]
    show ({ b.tray with queue := (mapLast _ b.queue).map Item.delivery } : Tray) = _
    rw [map_address]
    rfl
  have seated : (t.address port).reference = r := hr.2
  rw [addressed.mailroom]
  constructor
  · apply Mailroom.Exact.put h hr seated ((h.balanced _ t hr.1).address port) h.index
    · intro q
      by_cases same : q = r
      · rw [if_pos same, same]
        exact h.earliest r t hr
      · rw [if_neg same]
    · exact fun _ _ => Iff.rfl
    · intro i
      by_cases here : i = r.slot
      · rw [if_pos here, here]
        exact h.staged r t hr
      · rw [if_neg here]
  · refine (Mailroom.holds_set hr seated).mpr ?_
    rw [if_pos rfl]

theorem sendPortWith_posts (port : PortRef) (p : Payload) (o : MessageOptions) :
    Posts w st (w.sendPortWith port p o st).2 := by
  have counted : Posts w st (countSubmitted st) := .still rfl
  unfold sendPortWith
  dsimp only
  cases w.inputPort port p (countSubmitted st) with
  | error e => exact .still rfl
  | ok u =>
    dsimp only
    have stored := @desk_makeStoredWith (countSubmitted st) w p o none
    cases result : w.makeStoredWith p o none (countSubmitted st) with
    | mk answer st' =>
      rw [result] at stored
      have reserved : Posts w st st' := counted.trans (.aside stored)
      cases answer with
      | error e => exact reserved.after rfl
      | ok s =>
        intro settled
        obtain ⟨admitted, waits⟩ :=
          admitMessage_settled (r := port.owner) (reserved settled) s none false none
        dsimp only
        rcases hcall : w.admitMessage port.owner s none false none st' with ⟨e | id, st''⟩
        · rw [hcall] at admitted
          exact admitted
        · rw [hcall] at admitted waits
          obtain ⟨t, holds, -⟩ := waits id rfl
          exact (setDestinationPort_settled admitted holds port).1

/-! ## Requests -/

/-- The context of a request is taken from the delivery that was just admitted. -/
theorem holdContext_posts (id : OperationId) (stored : Stored)
    (hr : ∀ t, st.mailroom.Holds r t → t.queue ≠ []) :
    Posts w st (w.holdContext id r stored st).2 := by
  intro settled
  unfold holdContext
  cases check : w.checkRef r st with
  | error e => exact settled
  | ok a =>
    obtain ⟨-, -, holds⟩ := holds_of_check settled check
    dsimp only
    cases last : a.queue.getLast? with
    | some d => exact settled
    | none =>
      have empty : a.queue = [] := List.getLast?_eq_none_iff.mp last
      exact absurd (congrArg (List.map Item.delivery) empty) (hr _ holds)

theorem requestLocked_posts (owner target : ActorRef) (p : Payload) (deadline : Instant)
    (o : MessageOptions) (port : Option PortRef) :
    Posts w st (w.requestLocked owner target p deadline o port st).2 := by
  intro settled
  unfold requestLocked
  cases w.executionStateLocked owner st with
  | error e => exact settled
  | ok ownerReady =>
  dsimp only
  cases w.executionStateLocked target st with
  | error e => exact settled
  | ok targetReady =>
  dsimp only
  split_ifs
  · exact settled
  rcases st.operations.reserve owner target deadline with ⟨e | id, operations⟩
  · exact settled
  dsimp only
  have reserved : ({ st with operations := operations } : State).mailroom.Settled w := settled
  generalize ({ st with operations := operations } : State) = st₁ at reserved ⊢
  have stored := @desk_makeStoredWith st₁ w p o none
  cases result : w.makeStoredWith p o none st₁ with
  | mk answer st₂ =>
  rw [result] at stored
  have settled₂ : st₂.mailroom.Settled w := Posts.aside stored reserved
  cases answer with
  | error e => exact settled₂
  | ok s =>
  dsimp only
  obtain ⟨admitted, waits⟩ := admitMessage_settled (r := target) settled₂ s none false (some id)
  rcases hcall : w.admitMessage target s none false (some id) st₂ with ⟨e | event, st₃⟩
  · rw [hcall] at admitted
    exact admitted
  rw [hcall] at admitted waits
  obtain ⟨t, holds, waiting⟩ := waits event rfl
  dsimp only
  have held : ∀ (st₄ : State) (t' : Tray), st₄.mailroom.Settled w →
      st₄.mailroom.Holds target t' → t'.queue ≠ [] →
      (w.holdContext id target s st₄).2.mailroom.Settled w := by
    intro st₄ t' settled₄ holds' waiting'
    refine holdContext_posts id s ?_ settled₄
    intro x holdsx
    rw [holds'.unique holdsx]
    exact waiting'
  cases port with
  | none =>
    have context := held st₃ t admitted holds waiting
    dsimp only
    rcases hhold : w.holdContext id target s st₃ with ⟨e | u, st₄⟩
    · rw [hhold] at context
      exact context
    · rw [hhold] at context
      exact context
  | some port =>
    obtain ⟨addressed, holds'⟩ := setDestinationPort_settled admitted holds port
    have context := held _ _ addressed holds' (mapLast_ne_nil _ waiting)
    dsimp only
    rcases hhold : w.holdContext id target s (setDestinationPort target port st₃) with ⟨e | u, st₄⟩
    · rw [hhold] at context
      exact context
    · rw [hhold] at context
      exact context

theorem requestWithPort_posts (owner target : ActorRef) (p : Payload) (deadline : Instant)
    (o : MessageOptions) (port : Option PortRef) :
    Posts w st (w.requestWithPort owner target p deadline o port st).2 := by
  have counted : Posts w st (countSubmitted st) := .still rfl
  unfold requestWithPort
  split_ifs
  · exact .still rfl
  · exact (counted.trans (requestLocked_posts owner target p _ _ port)).after rfl

/-! ## Claims -/

theorem popDelivery_settled (h : st.mailroom.Settled w) (hr : st.mailroom.Holds r t)
    (d : Delivery) (rest : List Delivery)
    (hq : t.queue = .delivery d :: rest.map Item.delivery) :
    ∃ x, (w.popDelivery r d rest st).mailroom.Settled w ∧
      (w.popDelivery r d rest st).mailroom.Holds r
        (t.pop (.delivery d) (rest.map Item.delivery) x) := by
  have balanced := h.balanced _ t hr.1
  have popped : Shows st.mailroom r
      { t with
        queue := rest.map Item.delivery
        queueBytes := t.queueBytes - d.payload.bytes }
      (st.modifyActor r fun a => { a with
        queue := rest
        queueBytes := a.queueBytes - d.payload.bytes }) := by
    apply (Shows.refl hr).modify
    intro b same
    rw [← same]
    rfl
  have counts : t.deadlines.Counts t.times := balanced.counts
  have split : t.times.Perm (d.envelope.deadline.toList ++
      (times (rest.map Item.delivery) ++ times t.staged)) := by
    rw [t.times_eq, hq, times_cons, List.append_assoc]
    exact .refl _
  obtain ⟨x, counts', removed⟩ := popped.remove counts split
  have refreshed := removed.refresh
  have noted : ∀ st : State, (w.markActivityDependentsLocked r
      (w.refreshPythonReadyLocked r st)).mailroom = st.mailroom := fun _ => rfl
  have shows := refreshed.still (noted _)
  have kept : (t.pop (.delivery d) (rest.map Item.delivery) x).Balanced w.cfg := by
    apply balanced.pop hq
    rw [Tray.times_eq]
    exact counts'
  refine ⟨x, Shows.settled h hr shows hr.2 kept rfl, ?_⟩
  have after : (w.popDelivery r d rest st).mailroom = _ := shows.mailroom
  have current : (t.pop (.delivery d) (rest.map Item.delivery) x).reference = r := hr.2
  rw [after]
  refine (Mailroom.holds_set hr current).mpr ?_
  rw [if_pos rfl]

theorem claimNext_settled (queue : List Delivery) (h : st.mailroom.Settled w)
    (hr : st.mailroom.Holds r t) (hq : t.queue = queue.map Item.delivery) :
    (w.claimNext r queue st).2.mailroom.Settled w := by
  induction queue generalizing st t with
  | nil => exact h
  | cons d rest ih =>
    obtain ⟨x, settled, holds⟩ := popDelivery_settled h hr d rest hq
    unfold claimNext
    dsimp only
    generalize w.popDelivery r d rest st = st₁ at settled holds ⊢
    -- what happens to the event itself leaves the mailboxes alone
    have next : ∀ st' : State, st'.desk = st₁.desk →
        (w.claimNext r rest st').2.mailroom.Settled w := by
      intro st' same
      have same : st'.mailroom = st₁.mailroom := State.mailroom_of_desk same
      apply ih
      · rw [same]
        exact settled
      · rw [same]
        exact holds
      · rfl
    have live : (w.operationLive r d st₁.tick).2.desk = st₁.desk :=
      @desk_operationLive st₁.tick r w d
    generalize w.operationLive r d st₁.tick = answer at live ⊢
    split_ifs
    · apply next
      rw [State.desk_note rfl]
      exact desk_expireDeliveryLocked d (w.now st₁)
    · apply next
      exact (desk_skipDelivery d .operationEnded).trans live
    · apply next
      exact (desk_skipDelivery d .routeRemoved).trans live
    · have started := @State.mailroom_modify answer.2 r (fun a => { a with inFlight := true })
        fun _ => rfl
      have same : (w.startDelivery r d answer.2).2.mailroom = st₁.mailroom :=
        Eq.trans started (State.mailroom_of_desk live)
      show (w.startDelivery r d answer.2).2.mailroom.Settled w
      rw [same]
      exact settled

theorem claim_posts : Posts w st (w.claim r st).2 := by
  intro settled
  unfold claim
  cases check : w.checkRef r st with
  | error e => exact settled
  | ok a =>
    obtain ⟨-, -, holds⟩ := holds_of_check settled check
    dsimp only
    cases w.executionStateLocked r st with
    | error e => exact settled
    | ok s =>
      dsimp only
      split_ifs
      · exact settled
      · exact claimNext_settled a.queue settled holds rfl

end World

end Actorplane
