import Actorplane.Reach.Ownership

/-!
# The ledgers of a reachable state

The requests that were granted are pending or have ended in one counted way, and
every admitted delivery is queued, in flight, or has ended once.
-/

namespace Actorplane

variable {world : ℕ} {c c' : Core} {m : Move}

/-! ## Requests -/

/-- A request that was accepted. -/
def Outcome.granted : Outcome → Bool
  | .operation (.ok _) => true
  | _ => false

/-- The moves that change the number of counted requests. -/
def Move.counts : Move → Prop
  | .reserve _ | .release _ => True
  | _ => False

theorem Steps.requests_eq {P : Move → Prop} (hs : Steps world P c c') (hP : ∀ m, P m → ¬m.counts)
    (hv : c.Valid world) : c'.requests = c.requests := by
  induction hs with
  | refl => rfl
  | tail hsteps hp hs ih =>
    rw [(hsteps.valid hv).operating.requests_eq hs ⟨fun id he => hP _ hp (he ▸ trivial),
      fun id he => hP _ hp (he ▸ trivial)⟩, ih]

namespace World

variable {w : World} {st : State} {action : Action}

theorem Rests.requests_step (h : w.Rests st) (action : Action) :
    (w.step action st).2.core.requests =
      st.core.requests + if (w.step action st).1.granted then 1 else 0 := by
  by_cases ha : action.requests
  · have hgrant : ∀ result : Except Error OperationId,
        (if (Outcome.operation result).granted then 1 else 0) = result.isOk.toNat := by
      intro result
      cases result <;> rfl
    cases action with
    | request owner r p deadline options =>
      have hreq := (@requestWithPort_spec _ _ owner r h.valid p deadline options none).requests
      rw [← hgrant] at hreq
      exact hreq
    | resumeRequest call =>
      by_cases hl : call ∈ st.serviceCalls
      · have hreq := (@requestWithPort_spec _ ({ st with serviceCalls := st.serviceCalls.erase call }) call.owner call.target h.valid call.payload call.deadline call.options (some call.port)).requests
        rw [← hgrant] at hreq
        show (outstanding _ _ _ _).2.core.requests = _ + if (outstanding _ _ _ _).1.granted then 1 else 0
        rw [outstanding, if_pos hl]
        exact hreq
      · show (outstanding _ _ _ _).2.core.requests = _ + if (outstanding _ _ _ _).1.granted then 1 else 0
        rw [outstanding, if_neg hl]
        rfl
    | _ => exact ha.elim
  · rw [(step_evolves h.valid action).steps.requests_eq (fun m hm hc => ?_) h.valid]
    · have hno : (w.step action st).1.granted = false := by
        cases action with
        | request => exact absurd trivial ha
        | resumeRequest => exact absurd trivial ha
        | deliveryPublish | taskPublish | finishDelivery | dropDelivery | dropTask | dropCallback
        | finishFailure | dropFailure =>
          show (outstanding _ _ _ _).1.granted = false
          unfold outstanding
          split_ifs <;> rfl
        | _ => rfl
      rw [hno]
      rfl
    · cases m with
      | reserve id => exact ha (makes_of_moves hm not_false)
      | release id => exact ha (makes_of_moves hm not_false)
      | _ => exact hc

/-- A running actor of the current generation. -/
def RunningActor (w : World) (st : State) (r : ActorRef) : Prop :=
  ∃ a, w.checkRef r st = .ok a ∧ (a.state = .active ∨ a.state = .quiescing)

theorem Rests.running (h : w.Rests st) {r : ActorRef} (hr : Running st.core.nodes r) :
    w.RunningActor st r := by
  obtain ⟨n, hn, hs⟩ := hr
  obtain ⟨a, ha, rfl⟩ := h.check_iff_seated.mp hn
  exact ⟨a, ha, hs⟩

/-- Every granted request is pending or was counted once, and the endpoints of what is pending run. -/
theorem request_ledger (w : World) (actions : List Action) :
    (w.outcomes w.init actions).countP Outcome.granted =
        (w.exec w.init actions).operations.pending +
          (w.exec w.init actions).metrics.operationCompleted +
          (w.exec w.init actions).metrics.operationTimedOut +
          (w.exec w.init actions).metrics.operationCancelled ∧
      ∀ id p, (w.exec w.init actions).operations.locate id = .ok (.pending p) →
        w.RunningActor (w.exec w.init actions) p.owner ∧
          w.RunningActor (w.exec w.init actions) p.target := by
  have h := Rests.countP (g := fun st => st.core.requests) (p := Outcome.granted)
    (fun st action h => h.requests_step action) (rests_init (w := w)) actions
  have h' : w.Rests (w.exec w.init actions) := rests actions
  refine ⟨?_, fun id p hp => ?_⟩
  · have h0 : w.init.core.requests = 0 := rfl
    simp only [h0, Nat.zero_add] at h
    exact h.symm
  · obtain ⟨ho, ht⟩ := h'.valid.operating.endpoints id p hp
    exact ⟨h'.running ho, h'.running ht⟩

end World

/-! ## Claims -/

/-- The delivery and the actor of a claim. -/
def Event.claim? : Event → Option (ℕ × ActorRef)
  | .claimed e r => some (e, r)
  | _ => none

/-- The delivery that a call returned, and its actor. -/
def Outcome.claim? : Outcome → Option (ℕ × ActorRef)
  | .delivery (.ok (some l)) => some (l.delivery.eventId, l.target)
  | _ => none

/-- The claims of a core, in order. -/
def Core.claims (c : Core) : List (ℕ × ActorRef) := c.mail.filterMap Event.claim?

theorem Step.claims (hs : Step world c m c') (hm : ∀ r x, m ≠ .start r x) : c'.claims = c.claims := by
  have hlost : ∀ l : List ℕ, (l.map Event.stagedLost).filterMap Event.claim? = [] := fun l => by
    simp [List.filterMap_map, Function.comp_def, Event.claim?]
  unfold Core.claims
  cases hs
  case start => exact absurd rfl (hm _ _)
  all_goals simp [Event.claim?, Core.enqueue, Core.setNode, Core.setHold, hlost]

theorem Steps.claims {P : Move → Prop} (hs : Steps world P c c') (hP : ∀ r x, ¬P (.start r x)) :
    c'.claims = c.claims := by
  induction hs with
  | refl => rfl
  | tail _ hp hs ih => rw [hs.claims fun r x he => hP r x (he ▸ hp), ih]

theorem Core.claims_timeOutOf (operation : Option OperationId) (now : Instant) :
    (c.timeOutOf operation now).claims = c.claims := by
  rw [Core.timeOutOf_frame]
  rfl

theorem Core.claims_noted (c : Core) (ledger : Ledger) {e : Event} (he : e.claim? = none) :
    ({ c with ledger := ledger, mail := c.mail ++ [e] } : Core).claims = c.claims := by
  simp [Core.claims, he]

namespace World

variable {w : World} {st : State} {r : ActorRef}

theorem claims_popDelivery (d : Delivery) (rest : List Delivery) :
    (w.popDelivery r d rest st).core.claims = st.core.claims := by
  unfold popDelivery
  dsimp only
  rw [core_markActivityDependentsLocked, core_refreshPythonReadyLocked, core_refreshEarliest,
    core_removeDeadline]
  rfl

/-- A claim adds the delivery that it returns, and nothing else, to the claims. -/
theorem claims_claimNext (queue : List Delivery) :
    (w.claimNext r queue st).2.core.claims = st.core.claims ++
      ((w.claimNext r queue st).1.map fun l => (l.delivery.eventId, l.target)).toList := by
  induction queue generalizing st with
  | nil => simp [claimNext]
  | cons d rest ih =>
    unfold claimNext
    dsimp only
    have hpop := @claims_popDelivery w st r d rest
    set st₁ := w.popDelivery r d rest st
    have hlive : (w.operationLive r d st₁.tick).2.core.claims = st.core.claims := by
      obtain ⟨⟨now, h⟩, -⟩ := @operationLive_spec r w st₁.tick d
      rw [h, Core.claims_timeOutOf]
      exact hpop
    have hskip : ∀ (reason : CancelReason) (st₂ : State), st₂.core.claims = st.core.claims →
        (skipDelivery r d reason st₂).core.claims = st.core.claims := by
      intro reason st₂ h
      rw [← h]
      unfold skipDelivery
      rw [State.core_note_mail _ rfl]
      exact Core.claims_noted st₂.core _ rfl
    have hexpire : ((w.expireDeliveryLocked d (w.now st₁) st₁.tick).note
        (.cancelled d.eventId r .expired)).core.claims = st.core.claims := by
      rw [State.core_note_mail _ rfl, core_expireDeliveryLocked]
      refine (Core.claims_noted _ _ rfl).trans ?_
      rw [Core.claims_timeOutOf]
      exact hpop
    by_cases hdue : isDue (w.now st₁) d.envelope.deadline = true
    · rw [if_pos hdue, ih, hexpire]
    rw [if_neg hdue]
    rcases hol : w.operationLive r d st₁.tick with ⟨live, st₂⟩
    rw [hol] at hlive
    dsimp only at hlive ⊢
    split_ifs with h1 h2
    · rw [ih, hskip _ _ hlive]
    · rw [ih, hskip _ _ hlive]
    · show (w.startDelivery r d st₂).2.core.claims = _
      unfold startDelivery
      dsimp only
      rw [State.core_note_mail _ rfl]
      show (st₂.core.mail ++ [_]).filterMap Event.claim? = _
      rw [List.filterMap_append]
      exact congrArg (· ++ _) hlive

theorem claims_claim : (w.claim r st).2.core.claims = st.core.claims ++
    (Outcome.delivery (w.claim r st).1).claim?.toList := by
  unfold claim
  rcases w.checkRef r st with e | a
  · simp [Outcome.claim?]
  rcases w.executionStateLocked r st with e | s
  · simp [Outcome.claim?]
  dsimp only
  split_ifs
  · simp [Outcome.claim?]
  · rw [State.core_touchActivity, claims_claimNext]
    cases (w.claimNext r a.queue st).1 <;> rfl

/-- The claims in the history are those that were returned, in order. -/
theorem Rests.claims_step (h : w.Rests st) (action : Action) :
    (w.step action st).2.core.claims =
      st.core.claims ++ (w.step action st).1.claim?.toList := by
  by_cases ha : ∃ r, action = .claim r
  · obtain ⟨r, rfl⟩ := ha
    exact claims_claim
  · have hno : (w.step action st).1.claim? = none := by
      cases action with
      | claim r => exact absurd ⟨r, rfl⟩ ha
      | resumeRequest | deliveryPublish | taskPublish | finishDelivery | dropDelivery | dropTask
      | dropCallback | finishFailure | dropFailure =>
        show (outstanding _ _ _ _).1.claim? = none
        unfold outstanding
        split_ifs <;> rfl
      | _ => rfl
    rw [hno, (step_evolves h.valid action).steps.claims fun r x hx =>
      ha ⟨r, makes_of_moves hx not_false⟩]
    exact (List.append_nil _).symm

theorem claims_exec (w : World) (actions : List Action) :
    (w.exec w.init actions).core.claims =
      (w.outcomes w.init actions).filterMap Outcome.claim? := by
  have h := Rests.filterMap (g := fun st => st.core.claims) (f := Outcome.claim?)
    (fun st action h => h.claims_step action) (rests_init (w := w)) actions
  exact h

/-! ## Deliveries -/

/-- In how many mailbox places an event waits. -/
def queuedAs (st : State) (e : ℕ) : ℕ :=
  (st.actors.map fun a => (a.queue.map Delivery.eventId).count e).sum

/-- In how many leases an event is in flight. -/
def flownAs (st : State) (e : ℕ) : ℕ := st.deliveryLeases.countP (·.delivery.eventId = e)

/-- The startup-staged publications that were lost to a stop or to expiry. -/
def stagedLosses (st : State) : ℕ := st.log.countP Event.isStagedLoss

/-- The delivery counters of a state, and where each event is. -/
structure Deliveries (st : State) : Prop where
  total : st.metrics.admitted + stagedLosses st = (st.actors.map (·.queue.length)).sum +
    st.actors.countP (·.inFlight) + st.metrics.completed + st.metrics.failed + st.metrics.cancelled
  started : st.metrics.started = st.actors.countP (·.inFlight) + st.metrics.completed +
    st.metrics.failed + st.log.countP Event.isAbandonment
  discarded : st.metrics.discarded ≤ st.metrics.cancelled
  expired : st.metrics.expired ≤ st.metrics.discarded
  once : ∀ e, st.log.countP (Event.admits e) ≤ 1
  place : ∀ e, st.log.countP (Event.admits e) = queuedAs st e + flownAs st e +
    st.log.countP (Event.finishes e) + st.log.countP (Event.cancels e)

theorem countP_mail {p : Event → Bool} (hp : ∀ e, p e = true → e.isMail = true) :
    st.core.mail.countP p = st.log.countP p := by
  show (st.log.filter Event.isMail).countP p = _
  rw [List.countP_filter]
  refine List.countP_congr fun e _ => ?_
  simp only [Bool.and_eq_true, and_iff_left_iff_imp]
  exact hp e

theorem Rests.deliveries (h : w.Rests st) : Deliveries st := by
  have hflights : st.actors.countP (·.inFlight) = st.core.leases.length := by
    rw [← h.valid.leased.count]
    show _ = (st.actors.map Actor.box).countP _
    rw [List.countP_map]
    rfl
  have hlosses : stagedLosses st = st.core.stagedLosses :=
    (countP_mail fun e he => by cases e <;> simp_all [Event.isStagedLoss, Event.isMail]).symm
  have hmail : mailTotal st.core.boxes = (st.actors.map (·.queue.length)).sum := by
    simp [mailTotal, State.core, Function.comp_def, Actor.box]
  have hqueued : ∀ e, queuedCount st.core.boxes e = queuedAs st e := fun e => by
    simp [queuedCount, State.core, Function.comp_def, Actor.box, Box.count, queuedAs, Delivery.mail]
  have hflown : ∀ e, leasedCount st.core.leases e = flownAs st e := fun e => by
    show (st.deliveryLeases.map _).count e = _
    rw [List.count, List.countP_map]
    rfl
  constructor
  · rw [hlosses, hflights, ← hmail]
    exact h.valid.tallied.total
  · have := h.valid.tallied.claims
    rw [countP_mail fun e he => by
      cases e <;> simp_all [Event.isAbandonment, Event.isMail]] at this
    rw [hflights]
    exact this
  · exact h.valid.tallied.discarded
  · exact h.valid.tallied.expired
  · intro e
    rw [← countP_mail fun x hx => by cases x <;> simp_all [Event.admits, Event.isMail]]
    exact h.valid.conserved.once e
  · intro e
    have := h.valid.conserved.place e
    rwa [hqueued, hflown,
      countP_mail fun x hx => by cases x <;> simp_all [Event.admits, Event.isMail],
      countP_mail fun x hx => by cases x <;> simp_all [Event.finishes, Event.isMail],
      countP_mail fun x hx => by cases x <;> simp_all [Event.cancels, Event.isMail]] at this

/-- Deliveries are conserved, and claim returns each at most once. -/
theorem delivery_conservation (w : World) (actions : List Action) :
    Deliveries (w.exec w.init actions) ∧
      ∀ e, ((w.outcomes w.init actions).filterMap Outcome.claim?).countP (·.1 = e) ≤ 1 := by
  have h : w.Rests (w.exec w.init actions) := rests actions
  refine ⟨h.deliveries, fun e => ?_⟩
  rw [← claims_exec]
  refine le_trans (le_of_eq ?_) (h.valid.conserved.claims_le e)
  unfold Core.claims
  rw [List.countP_filterMap]
  refine List.countP_congr fun x _ => ?_
  cases x <;> simp [Event.claim?, Event.claims]

end World

end Actorplane
