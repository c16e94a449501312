import Actorplane.Locked.Claims

/-!
# Routes, staged outputs and routing turns

A route connects actors that are not stopping. A flush releases staged outputs in
the order in which they were staged. A routing turn takes its publication out of the
table; on the core the publication stays where it is until the turn puts it back.
-/

namespace Actorplane

variable {world : ℕ} {c c' c'' : Core} {r : ActorRef} {n : Node}

theorem bind_ok {ε α β : Type} {x : Except ε α} {f : α → Except ε β} {b : β} :
    x >>= f = .ok b ↔ ∃ a, x = .ok a ∧ f a = .ok b := by
  cases x with
  | error e => simp [bind, Except.bind]
  | ok a => simp [bind, Except.bind]

/-- A passed guard of a `do` block. -/
theorem guard_ok {ε α : Type} {p : Prop} [Decidable p] {e : ε} {k : PUnit → Except ε α}
    {x : Except ε α} {a : α} :
    (if p then throw e >>= k else x) = .ok a ↔ ¬p ∧ x = .ok a := by
  by_cases hp : p
  · rw [if_pos hp]
    constructor
    · intro h
      cases h
    · exact fun h => absurd hp h.1
  · rw [if_neg hp]
    exact ⟨fun h => ⟨hp, h⟩, And.right⟩

/-! ## Routes -/

/-- The moves that make a route. -/
def Move.byConnect : Move → Prop
  | .connect _ => True
  | _ => False

/-- The moves that remove one route. -/
def Move.byUnroute (id : ℕ) : Move → Prop
  | .unroute i _ => i = id
  | _ => False

namespace World

variable {w : World} {st : State} {a : Actor} {source target : ActorRef}

theorem mayConnect_iff {state : Lifecycle} :
    mayConnect state = true ↔ state = .starting ∨ state = .active := by
  simp [mayConnect]

theorem present_of_check (ho : st.core.Owned w.id) (h : w.checkRef r st = .ok a)
    (hs : mayConnect a.state = true) : Present st.core.nodes r := by
  refine ⟨a.node, seated_of_check ho h, ?_⟩
  show a.state ≠ .stopping ∧ a.state ≠ .stopped
  rcases mayConnect_iff.mp hs with hs | hs <;> simp [hs]

theorem connectable_ok (ho : st.core.Owned w.id) (h : w.connectable r st = .ok ()) :
    Present st.core.nodes r := by
  unfold connectable at h
  rcases he : w.executionStateLocked r st with e | s
  · simp [he, bind, Except.bind] at h
  obtain ⟨n, hn, heff⟩ := seated_of_execution ho he
  refine heff.present hn fun hs => ?_
  simp [he, hs, mayConnect, bind, Except.bind, throw, throwThe, MonadExceptOf.throw] at h

theorem core_insertRoute (route : Sub) :
    (w.insertRoute route st).2.core =
      { st.core with
        subs := st.core.subs.insert st.core.nextSub route
        nextSub := st.core.nextSub + 1 } := by
  unfold insertRoute
  dsimp only
  rw [core_markRouteActivityLocked]
  rfl

theorem insertRoute_evolves (hv : st.core.Valid w.id) {route : Sub}
    (ho : Present st.core.nodes route.owner) (hs : Present st.core.nodes route.source)
    (ht : Present st.core.nodes route.target) :
    Evolves w.id Move.byConnect st.core (w.insertRoute route st).2.core := by
  rw [core_insertRoute]
  exact .single hv (m := .connect route) trivial (.connect ho hs ht) (by simp)
    (by simp [Move.loosens])

theorem subscribable_ok (ho : st.core.Owned w.id) (h : w.subscribable source target st = .ok ()) :
    Present st.core.nodes source ∧ Present st.core.nodes target := by
  unfold subscribable at h
  rcases hs : w.checkRef source st with e | s
  · simp [hs, bind, Except.bind] at h
  rcases ht : w.checkRef target st with e | t
  · simp [hs, ht, bind, Except.bind] at h
  simp only [hs, ht, bind, Except.bind] at h
  by_cases hc : (!mayConnect s.state || !mayConnect t.state) = true
  · rw [if_pos hc] at h
    cases h
  · simp only [Bool.or_eq_true, Bool.not_eq_true', not_or, Bool.not_eq_false] at hc
    exact ⟨present_of_check ho hs hc.1, present_of_check ho ht hc.2⟩

theorem subscribe_evolves (hv : st.core.Valid w.id) :
    Evolves w.id Move.byConnect st.core (w.subscribe source target st).2.core := by
  unfold subscribe
  rcases h : w.subscribable source target st with e | u
  · exact .refl _
  · obtain ⟨hs, ht⟩ := subscribable_ok hv.owned h
    exact insertRoute_evolves hv hs hs ht

theorem linkable_ok (ho : st.core.Owned w.id) {owner : ActorRef} {source target : PortRef}
    (h : w.linkable owner source target st = .ok ()) :
    Present st.core.nodes owner ∧ Present st.core.nodes source.owner ∧
      Present st.core.nodes target.owner := by
  unfold linkable at h
  rcases h1 : w.connectable owner st with e | u
  · simp [h1, bind, Except.bind] at h
  rcases h2 : w.connectable source.owner st with e | u
  · simp [h1, h2, bind, Except.bind] at h
  rcases h3 : w.connectable target.owner st with e | u
  · simp [h1, h2, h3, bind, Except.bind] at h
  · exact ⟨connectable_ok ho h1, connectable_ok ho h2, connectable_ok ho h3⟩

theorem link_evolves (hv : st.core.Valid w.id) {owner : ActorRef} {source target : PortRef} :
    Evolves w.id Move.byConnect st.core (w.link owner source target st).2.core := by
  unfold link
  rcases h : w.linkable owner source target st with e | u
  · exact .refl _
  · obtain ⟨ho, hs, ht⟩ := linkable_ok hv.owned h
    exact insertRoute_evolves hv ho hs ht

theorem unsubscribe_spec (hv : st.core.Valid w.id) (id : ℕ) :
    Evolves w.id (Move.byUnroute id) st.core (w.unsubscribe id st).2.core ∧
      (w.unsubscribe id st).2.core.subs.get id = none := by
  unfold unsubscribe RouteTable.remove
  rcases h : st.subs.get id with - | route
  · exact ⟨.refl _, h⟩
  · dsimp only
    rw [State.core_touchActivity, core_markRouteActivityLocked]
    have hs : Step w.id st.core (.unroute id route) { st.core with subs := st.core.subs.erase id route } :=
      .unroute route h
    refine ⟨.single hv (m := .unroute id route) rfl hs (by simp) (by simp [Move.loosens]), ?_⟩
    show (st.subs.erase id route).get id = none
    simp [RouteTable.get_erase]

end World

/-! ## Publications -/

/-- The moves of a submission that is refused after it took a ticket. -/
def Move.isTicket (m : Move) : Prop := m = .ticket

/-- The moves of a submitted publication. -/
def Move.byPublish (source : ActorRef) (port : Option ℕ) (completion : Bool) : Move → Prop
  | .submit | .refuse | .ticket => True
  | .accept p => p.source = source ∧ p.sourcePort = port ∧ p.completion = completion
  | _ => False

/-- A publication was submitted, and accepted or refused. -/
structure Submitted (world : ℕ) (c c' : Core) (source : ActorRef) (port : Option ℕ)
    (completion : Bool) : Prop where
  evolves : Evolves world (Move.byPublish source port completion) c c'
  submitted : c'.ledger.publicationSubmitted = c.ledger.publicationSubmitted + 1
  answered : c'.ledger.publicationAdmitted + c'.ledger.publicationRejected =
    c.ledger.publicationAdmitted + c.ledger.publicationRejected + 1

namespace World

variable {w : World} {st : State} {a : Actor} {source : ActorRef} {port : Option ℕ}

theorem stageOutput_spec (ho : st.core.Owned w.id) (index : ℕ) (stored : Stored) (ticket : ℕ) :
    (∃ e, w.stageOutput source index stored ticket st = (.error e, st)) ∨
      ∃ a, st.actors[source.slot]? = some a ∧
        (w.stageOutput source index stored ticket st).1 = .ok () ∧
        (w.stageOutput source index stored ticket st).2.core = st.core.setBox source.slot
          { a.box with staged := a.box.staged ++ [⟨index, stored, ticket⟩] } := by
  unfold stageOutput
  rcases ha : w.checkRef source st with e | a
  · exact .inl ⟨e, rfl⟩
  dsimp only
  split_ifs
  · exact .inl ⟨_, rfl⟩
  obtain ⟨hget, -⟩ := (checkRef_ok ho).mp ha
  refine .inr ⟨a, hget, rfl, ?_⟩
  set put : Actor → Actor := fun a =>
    { a with
      stagedBytes := a.stagedBytes + stored.bytes
      deadlines := a.deadlines.add stored.options.deadline
      staged := a.staged ++ [⟨index, stored, ticket⟩] }
  show (refreshEarliest source (st.modifyActor source put)).core = _
  rw [core_refreshEarliest, State.core_modify_box put hget rfl rfl]
  rfl

theorem core_acceptPublication (p : Publication) :
    (w.acceptPublication p st).core =
      { st.core with
        publications := st.core.publications.insert p
        ledger :=
          { st.core.ledger with publicationAdmitted := st.core.ledger.publicationAdmitted + 1 }
        published := st.core.published ++ [.accepted p.ticket p.source] } := by
  have hroute : ∀ st : State, (if p.staged then st else st.markRoutingLocked).core = st.core := by
    intro st
    split_ifs <;> rfl
  unfold acceptPublication
  dsimp only
  rw [State.core_note_published _ rfl, hroute, core_markActivityDependentsLocked,
    State.core_addMetrics]
  rfl

theorem abandonTicket_evolves (hv : st.core.Valid w.id) (staged : Bool) {ticket : ℕ} {st' : State}
    (hc : st'.core = { st.core with publications := (st.publications.reserve source staged).2 }) :
    Evolves w.id Move.isTicket st.core (abandonTicket ticket st').core := by
  have hs₁ : Step w.id st.core .ticket st'.core := hc ▸ .reserveTicket source staged
  have hs₂ : Step w.id st'.core .ticket (abandonTicket ticket st').core := .dropHandle ticket
  have hloose : ∀ (c : Core) (x : ActorRef), ¬Move.loosens c x .ticket := by simp [Move.loosens]
  exact .trans (.single hv rfl hs₁ (by simp) (hloose _))
    (.single (hv.step hs₁) rfl hs₂ (by simp) (hloose _))

/-- A submission to the table: refused without a trace but for a ticket, or accepted. -/
theorem submitPublicationLocked_spec (hv : st.core.Valid w.id) {s : Lifecycle}
    (he : w.executionStateLocked source st = .ok s) (hs : s ≠ .stopping)
    (hport : s = .starting → port.isSome = true) (p : Payload) (options : MessageOptions)
    (completion : Bool) :
    (∃ e, (w.submitPublicationLocked source port p options completion st).1 = .error e ∧
        Evolves w.id Move.isTicket st.core
          (w.submitPublicationLocked source port p options completion st).2.core) ∨
      ∃ q, (w.submitPublicationLocked source port p options completion st).1 = .ok q.ticket ∧
        q.source = source ∧ q.sourcePort = port ∧ q.completion = completion ∧
        q.stored.options = options ∧
        Step w.id st.core (.accept q)
          (w.submitPublicationLocked source port p options completion st).2.core := by
  obtain ⟨n, hn, heff⟩ := seated_of_execution hv.owned he
  obtain ⟨n', hn', hp1, hp2⟩ := heff.present hn hs
  obtain ⟨b, hb⟩ : ∃ b, st.core.boxes[source.slot]? = some b := by
    obtain ⟨a, ha, -⟩ := State.actors_get_of_node hn.1
    exact ⟨_, State.core_boxes_get ha⟩
  unfold submitPublicationLocked
  rw [he]
  dsimp only
  rcases hres : st.publications.reserve source (decide (s = .starting)) with ⟨e | ticket, t⟩
  · exact .inl ⟨e, rfl, .refl _⟩
  dsimp only
  set st₁ : State := { st with publications := t } with hst₁
  have hc₁ : st₁.core = { st.core with publications :=
      (st.publications.reserve source (decide (s = .starting))).2 } := by
    rw [hres]
    rfl
  have hmake := @core_makeStoredWith w st₁ p options (port.map fun index => (⟨source, index⟩ : PortRef))
  rcases hm : w.makeStoredWith p options (port.map fun index => (⟨source, index⟩ : PortRef)) st₁
    with ⟨e | stored, st₂⟩
  · rw [hm] at hmake
    exact .inl ⟨e, rfl, abandonTicket_evolves hv _ (hmake.trans hc₁)⟩
  have hoptions := makeStoredWith_options (congrArg Prod.fst hm)
  rw [hm] at hmake
  dsimp only at hmake ⊢
  rw [hc₁] at hmake
  -- the accepted publication, whether its output was staged or not
  have haccept : ∀ st₃ : State,
      st₃.core = { st₂.core with
        boxes :=
          if decide (s = .starting) then
            st.core.boxes.set source.slot
              { b with staged := b.staged ++ [⟨port.getD 0, stored, ticket⟩] }
          else st.core.boxes } →
      Step w.id st.core
        (.accept ⟨source, port, stored, decide (s = .starting), completion, ticket, none, 0,
          { staged := if decide (s = .starting) then 1 else 0 }⟩)
        (w.acceptPublication ⟨source, port, stored, decide (s = .starting), completion, ticket, none,
          0, { staged := if decide (s = .starting) then 1 else 0 }⟩ st₃).core := by
    intro st₃ h₃
    rw [core_acceptPublication, h₃, hmake]
    refine .accept n' b ⟨port.getD 0, stored, ticket⟩ (congrArg Prod.fst hres) rfl rfl rfl rfl rfl
      hn' hp1 hp2 hb fun hst => ⟨rfl, rfl, ?_⟩
    obtain ⟨index, rfl⟩ := Option.isSome_iff_exists.mp (hport (of_decide_eq_true hst))
    rfl
  by_cases hst : s = .starting
  · obtain ⟨index, rfl⟩ := Option.isSome_iff_exists.mp (hport hst)
    simp only [hst, decide_true, if_true] at haccept ⊢
    have ho₂ : st₂.core.Owned w.id := by
      rw [hmake]
      exact hv.owned
    rcases @stageOutput_spec w _ source ho₂ index stored ticket with
      ⟨e, hstage⟩ | ⟨a, ha, hstage, hcore⟩
    · rw [hstage]
      exact .inl ⟨e, rfl, abandonTicket_evolves hv _ hmake⟩
    · rcases hstaged : w.stageOutput source index stored ticket st₂ with ⟨r, st₃⟩
      rw [hstaged] at hstage hcore
      dsimp only at hstage hcore ⊢
      rw [hstage]
      refine .inr ⟨_, rfl, rfl, rfl, rfl, hoptions, haccept st₃ ?_⟩
      have hab : a.box = b := by
        have h₁ : st₂.core.boxes = st.core.boxes := by rw [hmake]
        have := h₁ ▸ State.core_boxes_get ha
        exact Option.some.inj (this.symm.trans hb)
      rw [hcore, hab, hmake]
      rfl
  · simp only [hst, decide_false, Bool.false_eq_true, if_false] at haccept ⊢
    refine .inr ⟨_, rfl, rfl, rfl, rfl, hoptions, haccept st₂ ?_⟩
    rw [hmake]

theorem publishable_ok {p : Payload} {owner : Option ActorRef}
    (h : w.publishable source p owner port st = .ok ()) :
    ∃ s, w.executionStateLocked source st = .ok s ∧
      (s = .starting ∧ port.isSome = true ∧ owner = none ∨ s = .active ∨
        s = .quiescing ∧ owner.isSome = true) := by
  have key : ∀ k k' : Except Error Unit,
      (w.executionStateLocked source st >>= fun execution =>
        if ¬(execution = .starting ∧ owner.isNone = true ∧ port.isSome = true) ∧
            execution ≠ .active ∧ ¬(owner.isSome = true ∧ execution = .quiescing) then
          throw .actorNotReady >>= fun _ : PUnit => k
        else k') = .ok () →
      ∃ s, w.executionStateLocked source st = .ok s ∧
        (s = .starting ∧ port.isSome = true ∧ owner = none ∨ s = .active ∨
          s = .quiescing ∧ owner.isSome = true) := by
    intro k k' h
    obtain ⟨s, hs, h⟩ := bind_ok.mp h
    refine ⟨s, hs, ?_⟩
    split_ifs at h with hc
    · cases h
    · by_contra hne
      refine hc ⟨fun h1 => hne (.inl ⟨h1.1, h1.2.2, Option.isNone_iff_eq_none.mp h1.2.1⟩),
        fun h1 => hne (.inr (.inl h1)), fun h1 => hne (.inr (.inr ⟨h1.2, h1.1⟩))⟩
  unfold publishable at h
  -- the payload and port checks come first
  dsimp only at h
  split at h
  · split_ifs at h
    · cases h
    · split at h
      · exact key _ _ h
      · obtain ⟨spec, -, h⟩ := bind_ok.mp h
        split_ifs at h
        · cases h
        · exact key _ _ h
  · split at h
    · exact key _ _ h
    · obtain ⟨spec, -, h⟩ := bind_ok.mp h
      split_ifs at h
      · cases h
      · exact key _ _ h

/-- Refused, at the cost of a ticket at most, or accepted. -/
def Publishes (w : World) (source : ActorRef) (port : Option ℕ) (completion : Bool) (st : State)
    (call : Except Error ℕ × State) : Prop :=
  (∃ e, call.1 = .error e ∧ Evolves w.id Move.isTicket st.core call.2.core) ∨
    ∃ q : Publication, call.1 = .ok q.ticket ∧ q.source = source ∧ q.sourcePort = port ∧
      q.completion = completion ∧ Step w.id st.core (.accept q) call.2.core

theorem publishMetadata_ok {options metadata : MessageOptions}
    (h : w.publishMetadata source options st = .ok metadata) :
    metadata = { options with source := some source } := by
  unfold publishMetadata at h
  dsimp only at h
  split_ifs at h
  · cases h
  · obtain ⟨-, -, h⟩ := bind_ok.mp h
    exact (Except.ok.inj h).symm

/-- What `Publishes` says, and the options that an accepted publication keeps. -/
theorem publishLocked_accepts (hv : st.core.Valid w.id) (p : Payload) (owner : Option ActorRef)
    (options : MessageOptions) :
    (∃ e, (w.publishLocked source p owner port options st).1 = .error e ∧
        Evolves w.id Move.isTicket st.core
          (w.publishLocked source p owner port options st).2.core) ∨
      ∃ q : Publication, (w.publishLocked source p owner port options st).1 = .ok q.ticket ∧
        q.source = source ∧ q.sourcePort = port ∧ q.completion = owner.isSome ∧
        q.stored.options = { options with source := some source } ∧
        Step w.id st.core (.accept q) (w.publishLocked source p owner port options st).2.core := by
  unfold publishLocked
  rcases hmeta : w.publishMetadata source options st with e | metadata
  · exact .inl ⟨e, rfl, .refl _⟩
  obtain rfl := publishMetadata_ok hmeta
  dsimp only
  rcases checkDeadline { options with source := some source } (w.now st) with e | u
  · exact .inl ⟨e, rfl, .refl _⟩
  dsimp only
  rcases h : w.publishable source p owner port st.tick with e | u
  · exact .inl ⟨e, rfl, .refl _⟩
  obtain ⟨s, hs, hstate⟩ := publishable_ok h
  refine @submitPublicationLocked_spec _ st.tick _ _ hv _ hs ?_ ?_ p _ owner.isSome
  · rcases hstate with ⟨rfl, -⟩ | rfl | ⟨rfl, -⟩ <;> simp
  · rintro rfl
    rcases hstate with ⟨-, h, -⟩ | h | ⟨h, -⟩
    · exact h
    · cases h
    · cases h

theorem publishLocked_spec (hv : st.core.Valid w.id) (p : Payload) (owner : Option ActorRef)
    (options : MessageOptions) :
    w.Publishes source port owner.isSome st (w.publishLocked source p owner port options st) := by
  rcases publishLocked_accepts hv p owner options with h | ⟨q, hq, h1, h2, h3, -, hs⟩
  · exact .inl h
  · exact .inr ⟨q, hq, h1, h2, h3, hs⟩

/-- A refused submission leaves the counted publications alone. -/
theorem ticket_ledger (h : Evolves world Move.isTicket c c') : c'.ledger = c.ledger := by
  refine h.steps.invariant (I := fun x => x.ledger = c.ledger) ?_ rfl
  rintro x m x' hx rfl hs
  cases hs <;> exact hx

theorem publishInternal_spec (hv : st.core.Valid w.id) (p : Payload) (owner : Option ActorRef)
    (options : MessageOptions) :
    Submitted w.id st.core (w.publishInternal source p owner port options st).2.core source port
      owner.isSome := by
  unfold publishInternal
  dsimp only
  set st₁ : State := st.addMetrics fun m =>
    { m with
      publicationSubmitted := m.publicationSubmitted + 1
      submitted := m.submitted + 1 } with hst₁
  have hs₁ : Step w.id st.core .submit st₁.core := .submit
  have hv₁ := hv.step hs₁
  have h₁ : Evolves w.id (Move.byPublish source port owner.isSome) st.core st₁.core :=
    .single hv (m := .submit) trivial hs₁ (by simp) (by simp [Move.loosens])
  have hsub : st₁.core.ledger = { st.core.ledger with
      publicationSubmitted := st.core.ledger.publicationSubmitted + 1 } := rfl
  have hp := @publishLocked_spec _ _ source port hv₁ p owner options
  clear_value st₁
  rcases hcall : w.publishLocked source p owner port options st₁ with ⟨e | ticket, st₂⟩
  · rw [hcall] at hp
    rcases hp with ⟨e', -, h⟩ | ⟨q, hq, -⟩
    · have hl := ticket_ledger h
      have hs₂ : Step w.id st₂.core .refuse
          (reject e source (st₂.addMetrics fun m =>
            { m with publicationRejected := m.publicationRejected + 1 })).touchActivity.core :=
        .refuse
      have h₂ : Evolves w.id (Move.byPublish source port owner.isSome) st₁.core st₂.core :=
        h.mono fun m hm => by
          cases hm
          trivial
      refine ⟨h₁.trans (h₂.trans (.single (h₂.valid hv₁) (m := .refuse) trivial hs₂ (by simp)
        (by simp [Move.loosens]))), ?_, ?_⟩
      · show st₂.core.ledger.publicationSubmitted = _
        rw [hl, hsub]
      · show st₂.core.ledger.publicationAdmitted + (st₂.core.ledger.publicationRejected + 1) = _
        rw [hl, hsub]
        rfl
    · simp at hq
  · rw [hcall] at hp
    rcases hp with ⟨e', he, -⟩ | ⟨q, -, hq1, hq2, hq3, hs₂⟩
    · simp at he
    · have h₂ : Evolves w.id (Move.byPublish source port owner.isSome) st₁.core st₂.core :=
        .single hv₁ (m := .accept q) ⟨hq1, hq2, hq3⟩ hs₂ (by simp) (by simp [Move.loosens])
      have hl : st₂.core.ledger = { st₁.core.ledger with
          publicationAdmitted := st₁.core.ledger.publicationAdmitted + 1 } := by
        dsimp only at hs₂
        generalize st₂.core = c₂ at hs₂
        cases hs₂
        rfl
      refine ⟨h₁.trans h₂, ?_, ?_⟩
      · show st₂.core.ledger.publicationSubmitted = _
        rw [hl, hsub]
      · show st₂.core.ledger.publicationAdmitted + st₂.core.ledger.publicationRejected = _
        rw [hl, hsub]
        simp only
        omega

theorem deliveryPublish_spec (hv : st.core.Valid w.id) (l : DeliveryLease) (from' : PortRef)
    (p : Payload) (options : MessageOptions) :
    (w.deliveryPublish l from' p options st).2.core = st.core ∨
      Submitted w.id st.core (w.deliveryPublish l from' p options st).2.core from'.owner
        (some from'.index) true := by
  unfold deliveryPublish
  rcases options.validate with e | u
  · exact .inl rfl
  dsimp only
  split_ifs
  · exact .inl rfl
  · exact .inr (publishInternal_spec hv p (some l.target) _)

/-! ## Staged outputs -/

theorem core_enqueuePublicationLocked (id : ℕ) :
    (w.enqueuePublicationLocked id st).core =
      { st.core with publications := st.core.publications.unstage id } := by
  have hcore : st.core.publications = st.publications := rfl
  rw [hcore]
  unfold enqueuePublicationLocked PublicationTable.unstage
  rcases h : st.publications.entries.lookup id with - | p
  · rfl
  · dsimp only
    rw [State.core_markRoutingLocked, core_markActivityDependentsLocked]
    rfl

end World

/-- The moves of a flush. -/
def Move.byFlush : Move → Prop
  | .flush _ _ => True
  | _ => False

/-- Staged outputs are released one after the other. -/
theorem Core.Valid.flush (hv : c.Valid world) (staged : List StagedOutput) {b : Box}
    (hn : Seated c.nodes r n) (hb : c.boxes[r.slot]? = some b) (hst : b.staged = staged) :
    Evolves world Move.byFlush c
      { c.setBox r.slot { b with staged := [] } with
        publications := staged.foldl (fun t s => t.unstage s.publication) c.publications } := by
  have hlt := (List.getElem?_eq_some_iff.mp hb).1
  induction staged generalizing c b with
  | nil =>
    have hset : c.boxes.set r.slot { b with staged := [] } = c.boxes := by
      rw [← hst, ← (List.getElem?_eq_some_iff.mp hb).2]
      exact List.set_getElem_self hlt
    have : ({ c.setBox r.slot { b with staged := [] } with publications := c.publications } : Core) =
        c := by
      simp only [Core.setBox, hset]
    rw [List.foldl_nil, this]
    exact .refl c
  | cons s rest ih =>
    have hs : Step world c (.flush r s.publication)
        { c with
          boxes := c.boxes.set r.slot { b with staged := rest }
          publications := c.publications.unstage s.publication } :=
      .flush n b s rest hn hb hst rfl
    have h := ih (hv.step hs) hn (b := { b with staged := rest })
      (by simp [hlt]) rfl (by simpa using hlt)
    refine .trans (.single hv (m := .flush r s.publication) trivial hs (by simp)
      (by simp [Move.loosens])) ?_
    simpa [Core.setBox, List.set_set] using h

namespace World

variable {w : World} {st : State} {a : Actor} {source : ActorRef} {port : Option ℕ}

theorem core_flush_foldl (staged : List StagedOutput) :
    (staged.foldl (fun st s => w.enqueuePublicationLocked s.publication st) st).core =
      { st.core with
        publications :=
          staged.foldl (fun t s => t.unstage s.publication) st.core.publications } := by
  induction staged generalizing st with
  | nil => rfl
  | cons s rest ih =>
    rw [List.foldl_cons, List.foldl_cons, ih, core_enqueuePublicationLocked]

theorem flushSource_evolves (hv : st.core.Valid w.id) :
    Evolves w.id Move.byFlush st.core (w.flushSource st source).core := by
  unfold flushSource
  rcases ha : w.checkRef source st with e | a
  · exact .refl _
  dsimp only
  obtain ⟨hget, -⟩ := (checkRef_ok hv.owned).mp ha
  rw [core_markActivityDependentsLocked, core_flush_foldl]
  set put : Actor → Actor := fun a => { a with staged := [], stagedBytes := 0 }
  have hc : (refreshEarliest source (expireStagedDeadlines source a.staged
      (st.modifyActor source put))).core = st.core.setBox source.slot { a.box with staged := [] } := by
    rw [core_refreshEarliest, core_expireStagedDeadlines, State.core_modify_box put hget rfl rfl]
    rfl
  set st₁ := refreshEarliest source (expireStagedDeadlines source a.staged
    (st.modifyActor source put))
  clear_value st₁
  have hfinal : ({ st₁ with stagedActors := st₁.stagedActors.erase source.slot } : State).core =
      st₁.core := rfl
  rw [hfinal, hc]
  exact hv.flush a.staged (seated_of_check hv.owned ha) (State.core_boxes_get hget) rfl

end World

/-- The moves of the flush at an activation: what is due expires first. -/
def Move.byActivationFlush (now : Instant) (c₀ : Core) (m : Move) : Prop :=
  m.byExpiry now c₀ ∨ m.byFlush

namespace World

variable {w : World} {st : State} {source : ActorRef}

theorem flushSources_evolves (sources : List ActorRef) (hv : st.core.Valid w.id) :
    Evolves w.id Move.byFlush st.core (sources.foldl w.flushSource st).core := by
  induction sources generalizing st with
  | nil => exact .refl _
  | cons source sources ih =>
    have h := @flushSource_evolves _ _ source hv
    exact h.trans (ih (h.valid hv))

theorem flushStagedLocked_evolves (hv : st.core.Valid w.id) :
    Evolves w.id (Move.byActivationFlush (w.now st) st.core) st.core
      (w.flushStagedLocked st).core := by
  unfold flushStagedLocked
  dsimp only
  have h : Evolves w.id (Move.byExpiry (w.now st) st.core) st.core
      (w.expireEventsLocked (w.now st) st.tick).core :=
    @expireEventsLocked_expires _ _ st.tick hv
  exact (h.mono fun m hm => .inl hm).trans
    ((flushSources_evolves _ (h.valid hv)).mono fun m hm => .inr hm)

end World

end Actorplane
