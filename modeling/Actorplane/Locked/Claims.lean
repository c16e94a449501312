import Actorplane.Locked.Mail

/-!
# Claims and delivery leases

The claim loop cancels deliveries from the head of a mailbox until one may start.
Each cancelled delivery is due, names an operation that has ended, or came by a route
that is gone.
-/

namespace Actorplane

variable {world : ℕ} {c c' c'' : Core} {r : ActorRef} {n : Node}

/-- An operation that is not pending stays so without a reservation. -/
theorem Steps.pending_back {P : Move → Prop} (hs : Steps world P c c') (hv : c.Valid world)
    (hP : ∀ id, ¬P (.reserve id)) {id : OperationId} {q : PendingOperation}
    (hq : c'.operations.locate id = .ok (.pending q)) :
    ∃ p, c.operations.locate id = .ok (.pending p) := by
  induction hs generalizing q with
  | refl => exact ⟨q, hq⟩
  | tail hss hm hstep ih =>
    obtain ⟨p, hp⟩ := (hss.valid hv).operating.pending_back hstep
      (fun i he => hP i (he ▸ hm)) hq
    exact ih hp

/-- Why a claim passes over a delivery, seen from the core it leaves behind. -/
def Passes (clock : ℕ → Instant) (subs : RouteTable) (final : Core) (mail : Mail) :
    CancelReason → Prop
  | .expired => ∃ d k, mail.deadline = some d ∧ d ≤ clock k
  | .operationEnded => ∃ id, mail.operation = some id ∧
      ∀ p, final.operations.locate id ≠ .ok (.pending p)
  | .routeRemoved => ∃ id, mail.subscription = some id ∧ subs.get id = none
  | _ => False

/-- The moves of a claim. -/
def Move.byClaim (clock : ℕ → Instant) (subs : RouteTable) (final : Core) (r : ActorRef) :
    Move → Prop
  | .cancel q mail reason => q = r ∧ Passes clock subs final mail reason
  | .endOperation _ outcome => outcome = .timedOut
  | .start q mail => q = r ∧ ∀ id, mail.subscription = some id → subs.get id ≠ none
  | _ => False

namespace World

variable {w : World} {st : State} {a : Actor} {now : Instant}

theorem core_popDelivery (d : Delivery) (rest : List Delivery)
    (ha : st.actors[r.slot]? = some a) :
    (w.popDelivery r d rest st).core =
      st.core.setBox r.slot { a.box with queue := rest.map Delivery.mail } := by
  unfold popDelivery
  dsimp only
  rw [core_markActivityDependentsLocked, core_refreshPythonReadyLocked, core_refreshEarliest,
    core_removeDeadline, State.core_modify_box _ ha rfl rfl]
  rfl

/-- Whether the operation still counts, once its deadline was checked. -/
theorem operationLive_spec (d : Delivery) :
    (∃ now, (w.operationLive r d st).2.core = st.core.timeOutOf d.operation now) ∧
      ((w.operationLive r d st).1 = false → ∃ id, d.operation = some id ∧
        ∀ p, (w.operationLive r d st).2.core.operations.locate id ≠ .ok (.pending p)) := by
  unfold operationLive
  rcases hop : d.operation with - | id
  · exact ⟨⟨0, rfl⟩, by simp⟩
  dsimp only
  set st₁ := w.timeOutOperation id (w.now st) (some r) st.tick with hst₁
  have hc₁ : st₁.core = st.core.timeOut id (w.now st) := core_timeOutOperation id _ _
  have hno : ∀ (x : Except Error OperationStatus), st₁.operations.status id = x →
      (∀ p, x ≠ .ok (.pending p)) → ∀ p, st₁.core.operations.locate id ≠ .ok (.pending p) :=
    fun x hx hne p hp => hne p (hx.symm.trans hp)
  clear_value st₁
  rcases hs : st₁.operations.status id with e | (p | o)
  · exact ⟨⟨_, hc₁⟩, fun _ => ⟨id, rfl, hno _ hs (by simp)⟩⟩
  · exact ⟨⟨_, hc₁⟩, fun h => by simp at h⟩
  · exact ⟨⟨_, hc₁⟩, fun _ => ⟨id, rfl, hno _ hs (by simp)⟩⟩

theorem routeLive_iff (d : Delivery) : routeLive d st = true ↔
    ∀ id, d.subscription = some id → st.core.subs.get id ≠ none := by
  unfold routeLive
  rcases d.subscription with - | id
  · simp
  · simp only [RouteTable.containsActive, Option.some.injEq, forall_eq', Option.isSome_iff_ne_none]
    rfl

theorem core_skipDelivery (d : Delivery) {reason : CancelReason}
    (hr : reason ≠ .expired ∧ reason ≠ .fenced) :
    (skipDelivery r d reason st).core =
      { st.core with
        ledger := st.core.ledger.cancel reason
        mail := st.core.mail ++ [.cancelled d.eventId r reason] } := by
  unfold skipDelivery
  rw [State.core_note_mail _ rfl]
  cases reason <;> first | rfl | simp at hr

theorem core_startDelivery (d : Delivery) (ha : st.actors[r.slot]? = some a) :
    (w.startDelivery r d st).2.core =
      { st.core.setBox r.slot { a.box with inFlight := true } with
        ledger := { st.core.ledger with started := st.core.ledger.started + 1 }
        leases := ⟨r, d.operation, d⟩ :: st.core.leases
        mail := st.core.mail ++ [.claimed d.eventId r] } := by
  unfold startDelivery
  dsimp only
  rw [State.core_note_mail _ rfl]
  set put : Actor → Actor := fun a => { a with inFlight := true }
  have h : (st.modifyActor r put).core = st.core.setBox r.slot { a.box with inFlight := true } :=
    State.core_modify_box put ha rfl rfl
  show ({ (st.modifyActor r put).core with
    ledger := { (st.modifyActor r put).core.ledger with
      started := (st.modifyActor r put).core.ledger.started + 1 }
    leases := _ :: (st.modifyActor r put).core.leases
    mail := (st.modifyActor r put).core.mail ++ [_] } : Core) = _
  rw [h]
  rfl

end World

/-- A timeout only changes the operations and the ledger. -/
theorem Core.timeOutOf_frame {now : Instant} (operation : Option OperationId) :
    c.timeOutOf operation now =
      { c with
        operations := (c.timeOutOf operation now).operations
        ledger := (c.timeOutOf operation now).ledger } := by
  cases operation with
  | none => rfl
  | some id =>
    show c.timeOut id now = { c with
      operations := (c.timeOut id now).operations
      ledger := (c.timeOut id now).ledger }
    unfold Core.timeOut
    split_ifs <;> rfl

/-- The timeout of a claimed delivery's operation. -/
theorem Core.Valid.timeOutOf_claim (hv : c.Valid world) {clock : ℕ → Instant} {subs : RouteTable}
    {final : Core} (operation : Option OperationId) (now : Instant) :
    Evolves world (Move.byClaim clock subs final r) c (c.timeOutOf operation now) := by
  cases operation with
  | none => exact .refl c
  | some id => exact hv.timeOut id now rfl

/-- The actor may start its next delivery. -/
structure Claimable (c : Core) (r : ActorRef) (queue : List Mail) : Prop where
  running : Running c.nodes r
  box : ∃ b, c.boxes[r.slot]? = some b ∧ b.queue = queue ∧ b.inFlight = false
  control : ∀ h, c.holds[r.slot]? = some h → h.control = false

theorem Claimable.seated {queue : List Mail} (h : Claimable c r queue) : ∃ n, Seated c.nodes r n := by
  obtain ⟨n, hn, -⟩ := h.running
  exact ⟨n, hn⟩

theorem Claimable.timeOutOf {queue : List Mail} {now : Instant} (h : Claimable c r queue)
    (operation : Option OperationId) : Claimable (c.timeOutOf operation now) r queue := by
  rw [Core.timeOutOf_frame]
  exact ⟨h.running, h.box, h.control⟩

theorem Core.timeOutOf_setBox {now : Instant} (operation : Option OperationId) (i : ℕ) (b : Box) :
    (c.setBox i b).timeOutOf operation now = (c.timeOutOf operation now).setBox i b := by
  cases operation with
  | none => rfl
  | some id =>
    unfold Core.timeOutOf Core.timeOut Core.setBox
    dsimp only
    split_ifs <;> rfl

/-- A timeout does not look at the delivery history. -/
theorem Core.timeOutOf_noted {now : Instant} (operation : Option OperationId) (mail : List Event) :
    { c.timeOutOf operation now with mail := mail } =
      ({ c with mail := mail } : Core).timeOutOf operation now := by
  cases operation with
  | none => rfl
  | some id =>
    unfold Core.timeOutOf Core.timeOut
    dsimp only
    split_ifs <;> rfl

/-- The first delivery of the mailbox is passed over. -/
theorem Claimable.pass {m : Mail} {rest : List Mail} {reason : CancelReason}
    (h : Claimable c r (m :: rest)) (hr : reason ≠ .abandoned)
    (hc' : ∀ b, c.boxes[r.slot]? = some b → c' =
      { c.setBox r.slot { b with queue := rest } with
        ledger := c.ledger.cancel reason
        mail := c.mail ++ [.cancelled m.eventId r reason] }) :
    Step world c (.cancel r m reason) c' ∧ Claimable c' r rest := by
  obtain ⟨n, hn⟩ := h.seated
  obtain ⟨b, hb, hq, hfl⟩ := h.box
  rw [hc' b hb]
  refine ⟨.cancel b n [] rest hn hb hq hr, h.running, ⟨{ b with queue := rest }, ?_, rfl, hfl⟩,
    h.control⟩
  simp [Core.setBox, (List.getElem?_eq_some_iff.mp hb).1]

namespace World

variable {w : World} {st : State} {a : Actor} {now : Instant}

/-- A passed delivery leaves the rest of the mailbox to the claim. -/
theorem claimNext_skip {subs : RouteTable} {final : Core} {d : Delivery} {rest : List Delivery}
    {b : Box} {leased : Prop} (reason : CancelReason) (operation : Option OperationId)
    (now : Instant) (hv : c.Valid w.id) (hcl : Claimable c r ((d :: rest).map Delivery.mail))
    (hsubs : c.subs = subs) (hr : reason ≠ .abandoned) (hb : c.boxes[r.slot]? = some b)
    (hst : st.core = ({ c.setBox r.slot { b with queue := rest.map Delivery.mail } with
      ledger := c.ledger.cancel reason
      mail := c.mail ++ [.cancelled d.eventId r reason] } : Core).timeOutOf operation now)
    (hrest : st.core.Valid w.id → Claimable st.core r (rest.map Delivery.mail) →
      st.core.subs = subs →
        Evolves w.id (Move.byClaim w.clock subs final r) st.core final ∧ leased)
    (hpass : (∀ id p, final.operations.locate id = .ok (.pending p) →
      ∃ p, st.core.operations.locate id = .ok (.pending p)) →
        Passes w.clock subs final d.mail reason) :
    Evolves w.id (Move.byClaim w.clock subs final r) c final ∧ leased := by
  set c₁ : Core := { c.setBox r.slot { b with queue := rest.map Delivery.mail } with
    ledger := c.ledger.cancel reason
    mail := c.mail ++ [.cancelled d.eventId r reason] } with hc₁
  obtain ⟨hs, hcl₁⟩ := @Claimable.pass w.id _ c₁ _ _ _ _ hcl hr fun b' hb' => by
    rw [hb] at hb'
    cases hb'
    rfl
  have hv₁ := hv.step hs
  have h₁ : Evolves w.id (Move.byClaim w.clock subs final r) c₁ st.core := by
    rw [hst]
    exact hv₁.timeOutOf_claim operation now
  have hcl₂ : Claimable st.core r (rest.map Delivery.mail) := by
    rw [hst]
    exact hcl₁.timeOutOf operation
  have hsubs₂ : st.core.subs = subs := by
    rw [hst, Core.timeOutOf_frame]
    exact hsubs
  obtain ⟨h₂, hlease⟩ := hrest (h₁.valid hv₁) hcl₂ hsubs₂
  have hpassed : Passes w.clock subs final d.mail reason :=
    hpass fun id p hp => h₂.steps.pending_back (h₁.valid hv₁) (fun _ => not_false) hp
  exact ⟨.trans (.single hv (m := .cancel r d.mail reason) ⟨rfl, hpassed⟩ hs (by simp)
    (by simp [Move.loosens])) (h₁.trans h₂), hlease⟩

/-- The first delivery starts. -/
theorem claimNext_start {subs : RouteTable} {final : Core} {d : Delivery} {rest : List Delivery}
    {b : Box} (hv : c.Valid w.id) (hcl : Claimable c r ((d :: rest).map Delivery.mail))
    (hb : c.boxes[r.slot]? = some b)
    (hst : st.core = c.setBox r.slot { b with queue := rest.map Delivery.mail })
    (hopen : ∀ id, d.subscription = some id → subs.get id ≠ none)
    (hfinal : (w.startDelivery r d st).2.core = final) :
    Evolves w.id (Move.byClaim w.clock subs final r) c final ∧
      (w.startDelivery r d st).1 ∈ final.leases := by
  obtain ⟨b', hb', hq, hfl⟩ := hcl.box
  obtain rfl : b = b' := Option.some.inj (hb.symm.trans hb')
  have hlt : r.slot < c.boxes.length := (List.getElem?_eq_some_iff.mp hb).1
  obtain ⟨a, ha, hbox⟩ := @State.actors_get_of_box st r.slot
    { b with queue := rest.map Delivery.mail } (by
      rw [hst]
      simp [Core.setBox, hlt])
  have hcore := core_startDelivery (w := w) (r := r) d ha
  rw [hfinal, hbox, hst] at hcore
  have hs : Step w.id c (.start r d.mail) final := by
    rw [hcore]
    simp only [Core.setBox, List.set_set]
    exact .start b (rest.map Delivery.mail) ⟨r, d.operation, d⟩ hcl.running hb hq hfl hcl.control
      rfl rfl
  refine ⟨.single hv (m := .start r d.mail) ⟨rfl, hopen⟩ hs (by simp) (by simp [Move.loosens]), ?_⟩
  rw [hcore]
  exact List.mem_cons_self

theorem claimNext_spec {subs : RouteTable} {final : Core} (queue : List Delivery)
    (hv : st.core.Valid w.id) (hcl : Claimable st.core r (queue.map Delivery.mail))
    (hsubs : st.core.subs = subs) (hfinal : (w.claimNext r queue st).2.core = final) :
    Evolves w.id (Move.byClaim w.clock subs final r) st.core final ∧
      ∀ l, (w.claimNext r queue st).1 = some l → l.target = r ∧ l ∈ final.leases ∧
        ∀ id, l.delivery.subscription = some id → subs.get id ≠ none := by
  induction queue generalizing st with
  | nil =>
    subst hfinal
    exact ⟨.refl _, by simp [claimNext]⟩
  | cons d rest ih =>
    obtain ⟨b, hb, -⟩ := hcl.box
    obtain ⟨a, ha, rfl⟩ := State.actors_get_of_box hb
    have hpop := core_popDelivery (w := w) d rest ha
    unfold claimNext at hfinal ⊢
    dsimp only at hfinal ⊢
    set st₁ := w.popDelivery r d rest st with hst₁
    clear_value st₁
    by_cases hdue : isDue (w.now st₁) d.envelope.deadline = true
    · rw [if_pos hdue] at hfinal ⊢
      obtain ⟨t, ht, hle⟩ := isDue_iff.mp hdue
      refine claimNext_skip .expired d.operation (w.now st₁) hv hcl hsubs (by simp) hb ?_
        (fun hv hcl hsubs => ih hv hcl hsubs hfinal) fun _ => ⟨t, _, ht, hle⟩
      rw [State.core_note_mail _ rfl, core_expireDeliveryLocked, State.core_tick, hpop,
        Core.timeOutOf_noted, (Core.timeOutOf_columns d.operation).2.2]
      rfl
    rw [if_neg hdue] at hfinal ⊢
    obtain ⟨⟨now, hlive⟩, hended⟩ := @operationLive_spec r w st₁.tick d
    rcases hol : w.operationLive r d st₁.tick with ⟨live, st₂⟩
    rw [hol] at hfinal hlive hended
    dsimp only at hfinal hlive hended ⊢
    set c₁ := st.core.timeOutOf d.operation now with hc₁
    have hst₂ : st₂.core =
        c₁.setBox r.slot { a.box with queue := rest.map Delivery.mail } := by
      rw [hlive, State.core_tick, hpop]
      exact Core.timeOutOf_setBox d.operation r.slot _
    have h₁ : Evolves w.id (Move.byClaim w.clock subs final r) st.core c₁ :=
      hv.timeOutOf_claim d.operation now
    have hcl₁ : Claimable c₁ r ((d :: rest).map Delivery.mail) := hcl.timeOutOf d.operation
    have hsubs₁ : c₁.subs = subs := by
      rw [hc₁, Core.timeOutOf_frame]
      exact hsubs
    have hbox₁ : c₁.boxes[r.slot]? = some a.box := by
      rw [hc₁, Core.timeOutOf_frame]
      exact hb
    have hskip : ∀ reason, reason ≠ .expired ∧ reason ≠ .fenced →
        (skipDelivery r d reason st₂).core =
          ({ c₁.setBox r.slot { a.box with queue := rest.map Delivery.mail } with
            ledger := c₁.ledger.cancel reason
            mail := c₁.mail ++ [.cancelled d.eventId r reason] } : Core).timeOutOf none 0 := by
      intro reason hr
      rw [core_skipDelivery d hr, hst₂]
      rfl
    have hroute := @routeLive_iff st₂ d
    rw [show st₂.core.subs = subs by rw [hst₂]; exact hsubs₁] at hroute
    -- from here on the claim goes on from the core that the timeout left
    suffices h : Evolves w.id (Move.byClaim w.clock subs final r) c₁ final ∧ _ from
      ⟨h₁.trans h.1, h.2⟩
    cases live with
    | false =>
      simp only [Bool.not_false, if_true] at hfinal ⊢
      refine claimNext_skip .operationEnded none 0 (h₁.valid hv) hcl₁ hsubs₁ (by simp) hbox₁
        (hskip _ (by simp)) (fun hv hcl hsubs => ih hv hcl hsubs hfinal) fun hback => ?_
      obtain ⟨id, hid, hgone⟩ := hended rfl
      refine ⟨id, hid, fun p hp => ?_⟩
      obtain ⟨q, hq⟩ := hback id p hp
      rw [core_skipDelivery d (by simp)] at hq
      exact hgone q hq
    | true =>
      simp only [Bool.not_true, Bool.false_eq_true, if_false] at hfinal ⊢
      cases hrl : routeLive d st₂ with
      | false =>
        simp only [hrl, Bool.not_false, if_true] at hfinal ⊢
        refine claimNext_skip .routeRemoved none 0 (h₁.valid hv) hcl₁ hsubs₁ (by simp) hbox₁
          (hskip _ (by simp)) (fun hv hcl hsubs => ih hv hcl hsubs hfinal) fun _ => ?_
        simp only [hrl, Bool.false_eq_true, false_iff, not_forall, not_not] at hroute
        obtain ⟨id, hid, hgone⟩ := hroute
        exact ⟨id, hid, hgone⟩
      | true =>
        simp only [hrl, Bool.not_true, Bool.false_eq_true, if_false] at hfinal ⊢
        have hopen := hroute.mp hrl
        obtain ⟨h₂, hlease⟩ := claimNext_start (h₁.valid hv) hcl₁ hbox₁ hst₂ hopen hfinal
        refine ⟨h₂, fun l hl => ?_⟩
        obtain rfl : (w.startDelivery r d st₂).1 = l := Option.some.inj hl
        exact ⟨rfl, hlease, hopen⟩

/-- What a claim that returns a lease has checked. -/
structure Leases (subs : RouteTable) (c' : Core) (r : ActorRef) (l : DeliveryLease) : Prop where
  target : l.target = r
  outstanding : l ∈ c'.leases
  route : ∀ id, l.delivery.subscription = some id → subs.get id ≠ none

theorem claim_spec (hv : st.core.Valid w.id) :
    Evolves w.id (Move.byClaim w.clock st.core.subs (w.claim r st).2.core r) st.core
        (w.claim r st).2.core ∧
      ∀ l, (w.claim r st).1 = .ok (some l) → Leases st.core.subs (w.claim r st).2.core r l := by
  unfold claim
  rcases hr : w.checkRef r st with e | a
  · exact ⟨.refl _, by simp⟩
  rcases he : w.executionStateLocked r st with e | s
  · exact ⟨.refl _, by simp⟩
  dsimp only
  split_ifs with hbusy
  · exact ⟨.refl _, by simp⟩
  simp only [not_or, Bool.not_eq_true] at hbusy
  obtain ⟨hs, hfl, hcl⟩ := hbusy
  obtain ⟨ha, -⟩ := (checkRef_ok hv.owned).mp hr
  obtain ⟨n, hn, heff⟩ := seated_of_execution hv.owned he
  have hrun : Running st.core.nodes r := heff.running hn (by
    by_contra h
    exact hs ⟨fun h1 => h (.inl h1), fun h2 => h (.inr h2)⟩)
  obtain ⟨h1, h2⟩ := claimNext_spec (w := w) a.queue hv
    ⟨hrun, ⟨a.box, State.core_boxes_get ha, rfl, hfl⟩, fun h hh => by
      rw [State.core_holds_get ha] at hh
      cases hh
      exact hcl⟩ rfl rfl
  refine ⟨h1, fun l hl => ?_⟩
  obtain ⟨ht, ho, hroute⟩ := h2 l (Except.ok.inj hl)
  exact ⟨ht, ho, hroute⟩

/-! ## Ends of delivery leases -/

end World

/-- The moves that end a delivery lease. -/
def Move.byRelease (l : DeliveryLease) : Move → Prop
  | .finish l' _ | .abandon l' => l' = l
  | .endOperation id outcome => l.operation = some id ∧ outcome.isCompleted = false
  | .finalize _ => True
  | _ => False

theorem Evolves.settles {P : Move → Prop} (h : Evolves world P c c') (h' : Settles world P r c' c'') :
    Settles world P r c c'' :=
  ⟨h.steps.trans h'.steps, fun X hX => h'.draining X (h.draining X hX),
    fun X hX => h'.blocked X (h.blocked _ hX)⟩

namespace World

variable {w : World} {st : State} {l : DeliveryLease}

theorem core_clearInFlight (hv : st.core.Valid w.id) (hl : l ∈ st.core.leases) :
    ∃ b, st.core.boxes[l.target.slot]? = some b ∧
      (clearInFlight l st).core = st.core.release l b := by
  obtain ⟨n, -, -, b, hb, -⟩ := hv.leased.target l hl
  obtain ⟨a, ha, rfl⟩ := State.actors_get_of_box hb
  refine ⟨_, hb, ?_⟩
  set put : Actor → Actor := fun a => { a with inFlight := false }
  set st₁ : State := { st with deliveryLeases := st.deliveryLeases.erase l }
  show (st₁.modifyActor l.target put).core = _
  rw [@State.core_modify_box st₁ _ _ put ha rfl rfl]
  rfl

/-- A lease ends, perhaps with its operation, and its target may be finalized. -/
theorem endLease_evolves {st₁ st₂ : State} {m : Move} (hv : st.core.Valid w.id)
    (hl : l ∈ st.core.leases) (hm : (∃ success, m = .finish l success) ∨ m = .abandon l)
    (hs : Step w.id st.core m st₁.core) (h : Evolves w.id (Move.byRelease l) st₁.core st₂.core) :
    Evolves w.id (Move.byRelease l) st.core (w.tryFinalize walkFuel l.target st₂).core := by
  have hv₁ := hv.step hs
  have hnodes : st₁.core.nodes = st.core.nodes := by
    generalize st₁.core = c₁ at hs
    rcases hm with ⟨success, rfl⟩ | rfl <;> cases hs <;> rfl
  refine Evolves.settle (r := l.target) hv ?_ hs ?_ ?_
    (h.settles (tryFinalize_settles (h.valid hv₁) fun x => trivial))
  · rcases hm with ⟨success, rfl⟩ | rfl <;> rfl
  · rcases hm with ⟨success, rfl⟩ | rfl <;> simp
  · intro x k hx hloose
    obtain ⟨n, hn, -⟩ := hv.leased.target l hl
    rw [hnodes] at hx
    rcases hm with ⟨success, rfl⟩ | rfl <;> exact hx.slot_eq hn hloose

theorem core_countCompleted : (countCompleted st).core =
    { st.core with ledger := st.core.ledger.endOperation failHandler } := rfl

theorem finishDelivery_evolves (hv : st.core.Valid w.id) (hl : l ∈ st.core.leases)
    (success : Bool) :
    Evolves w.id (Move.byRelease l) st.core (w.finishDelivery l success st).core := by
  obtain ⟨b, hb, hclear⟩ := core_clearInFlight hv hl
  have hs := @Step.finish w.id _ _ success b hl hb
  unfold finishDelivery
  dsimp only
  set st₁ : State := ((clearInFlight l st).addMetrics fun m =>
    { m with
      completed := m.completed + (if success then 1 else 0)
      failed := m.failed + (if success then 0 else 1) }).note
        (.finished l.delivery.eventId success) with hst₁
  have hc₁ : st₁.core =
      { st.core.release l b with
        ledger :=
          { st.core.ledger with
            completed := st.core.ledger.completed + (if success then 1 else 0)
            failed := st.core.ledger.failed + (if success then 0 else 1) }
        mail := st.core.mail ++ [.finished l.delivery.eventId success] } := by
    rw [hst₁, State.core_note_mail _ rfl, State.core_addMetrics, hclear]
    have hm : (clearInFlight l st).metrics = st.metrics := rfl
    rw [hm]
    rfl
  clear_value st₁
  rw [← hc₁] at hs
  rw [State.core_touchActivity]
  refine endLease_evolves hv hl (.inl ⟨success, rfl⟩) hs ?_
  have hv₁ := hv.step hs
  -- the diagnostic changes nothing
  set st₂ : State := if (!success && !_) = true then _ else st₁
  have hc₂ : st₂.core = st₁.core := by
    simp only [st₂]
    split_ifs <;> rfl
  rw [← hc₂] at hv₁ ⊢
  rcases hop : l.operation with - | id
  · exact .refl _
  dsimp only
  split_ifs
  · exact .refl _
  · rw [core_endOperation id _ _ fun st => core_countCompleted]
    exact hv₁.endOperation id _ ⟨hop, rfl⟩

theorem dropDelivery_evolves (hv : st.core.Valid w.id) (hl : l ∈ st.core.leases) :
    Evolves w.id (Move.byRelease l) st.core (w.dropDelivery l st).core := by
  obtain ⟨b, hb, hclear⟩ := core_clearInFlight hv hl
  have hs := @Step.abandon w.id _ _ b hl hb
  unfold dropDelivery
  dsimp only
  set st₁ := skipDelivery l.target l.delivery .abandoned (clearInFlight l st) with hst₁
  have hc₁ : st₁.core =
      { st.core.release l b with
        ledger := st.core.ledger.cancel .abandoned
        mail := st.core.mail ++ [.cancelled l.delivery.eventId l.target .abandoned] } := by
    rw [hst₁, core_skipDelivery _ (by simp), hclear]
    rfl
  clear_value st₁
  rw [← hc₁] at hs
  rw [State.core_touchActivity]
  refine endLease_evolves hv hl (.inr rfl) hs ?_
  rcases hop : l.operation with - | id
  · exact .refl _
  · dsimp only
    rw [core_endOperation id]
    · exact (hv.step hs).endOperation id _ ⟨hop, rfl⟩
    · intro st
      rfl

end World

end Actorplane
