import Actorplane.Mailboxes.Expiry
import Actorplane.Supervision.Fencing

/-!
# Fences of mailboxes

A fence takes the entries of its actor out of the tables before anything else falls, and
clears the tray at its end. In between the tables lack exactly these entries.
-/

namespace Actorplane

variable {st st' st'' : State} {r : ActorRef} {a : Actor} {X Y : List ActorRef} {w : World}

/-! ## Parts that leave the mailboxes alone -/

namespace World

theorem mailroom_foldl {α : Type} (f : State → α → State)
    (hf : ∀ st x, (f st x).mailroom = st.mailroom) (xs : List α) (st : State) :
    (xs.foldl f st).mailroom = st.mailroom := by
  induction xs generalizing st with
  | nil => rfl
  | cons x xs ih => exact (ih (f st x)).trans (hf st x)

theorem mailroom_finalizeActor (ha : st.actors[r.slot]? = some a) (hs : a.state = .stopping) :
    (w.finalizeActor r st).mailroom = st.mailroom := by
  set stop : Actor → Actor := fun a => { a with state := .stopped } with hstop
  have stopped : (st.modifyActor r stop).mailroom = st.mailroom := by
    apply State.mailroom_modify_at ha
    simp [hstop, Actor.tray, hs]
  set st₀ := w.refreshPythonReadyLocked r (st.modifyActor r stop)
  set st₁ : State := ({ st₀ with
    liveActors := st₀.liveActors - 1
    operations := (st₀.operations.retireOwner r).2
    free := r.slot :: st₀.free } : State).note (.finalized r) with hst₁
  have found : st₁.actors[r.slot]? = some (stop a) := State.modifyActor_get stop ha
  have rolled : w.finalizeActor r st = rollUp r st₁ := rfl
  have same : st₁.mailroom = st.mailroom := stopped
  rw [rolled, rollUp, found, ← same]
  dsimp only
  cases (stop a).parent with
  | none => rfl
  | some p =>
    dsimp only
    cases st₁.actors[p.slot]? with
    | none => rfl
    | some parent =>
      dsimp only
      split_ifs
      · rfl
      · exact State.mailroom_modify fun _ => rfl

theorem mailroom_tryFinalize (fuel : ℕ) : (w.tryFinalize fuel r st).mailroom = st.mailroom := by
  induction fuel generalizing r st with
  | zero => rfl
  | succ fuel ih =>
    unfold tryFinalize
    dsimp only
    set st₁ := w.markActivityDependentsLocked r (w.refreshPythonReadyLocked r st)
    have same : st₁.mailroom = st.mailroom := rfl
    rw [← same]
    cases found : st₁.actors[r.slot]? with
    | none => rfl
    | some a =>
      dsimp only
      split_ifs with stale ready
      · rfl
      · have stopping : a.state = .stopping := by
          unfold finalizable at ready
          simp only [Bool.and_eq_true, decide_eq_true_eq] at ready
          exact ready.1.1.1.1.1.1
        have finalized := @mailroom_finalizeActor st₁ r a w found stopping
        cases a.parent with
        | none => exact finalized
        | some p => exact ih.trans finalized
      · rfl

theorem mailroom_detachScope : (w.detachScope r st).mailroom = st.mailroom := by
  unfold detachScope
  cases st.services.leases.lookup r <;> rfl

theorem mailroom_discardNotificationsFor :
    (w.discardNotificationsFor r st).mailroom = st.mailroom := by
  have discarded : ∀ (st : State) (source : ActorRef),
      (w.discardNotification r st source).mailroom = st.mailroom := by
    intro st source
    unfold discardNotification
    dsimp only
    rw [mailroom_tryFinalize]
    have silent := @State.mailroom_modify st source (fun a => { a with notification := none })
      fun _ => rfl
    have heard := @State.mailroom_modify
      (st.modifyActor source fun a => { a with notification := none }) r
      (fun a => { a with pendingFailures := a.pendingFailures - 1 }) fun _ => rfl
    exact heard.trans silent
  unfold discardNotificationsFor
  cases w.checkRef r st with
  | error e => rfl
  | ok a =>
    dsimp only
    have all := mailroom_foldl _ discarded (a.children.filter (w.notifying st)) st
    split_ifs
    · exact all
    · exact all

theorem mailroom_cancelOperationsOf : (w.cancelOperationsOf r st).mailroom = st.mailroom :=
  State.mailroom_of_desk desk_cancelOperationsOf

theorem mailroom_removeActorRoutes : (w.removeActorRoutes r st).mailroom = st.mailroom :=
  State.mailroom_of_desk desk_removeActorRoutes

/-- What the actor had in its mailbox is gone. -/
theorem mailroom_stopActor (ha : st.actors[r.slot]? = some a) (hr : a.reference = r) :
    (stopActor r a st).mailroom =
      { st.mailroom with trays := st.mailroom.trays.set r.slot (.cleared r true) } := by
  have noted : ∀ (staged : List StagedOutput) (queue : List Delivery) (st : State),
      (queue.foldl (fun st d => st.note (.cancelled d.eventId r .fenced))
        (staged.foldl (fun st s => st.note (.stagedLost s.publication)) st)).mailroom =
          st.mailroom := by
    intro staged queue st
    rw [mailroom_foldl (fun st (d : Delivery) => st.note (.cancelled d.eventId r .fenced))
      fun _ _ => rfl]
    exact mailroom_foldl (fun st (s : StagedOutput) => st.note (.stagedLost s.publication))
      (fun _ _ => rfl) _ _
  have holds : st.mailroom.Holds r a.tray := State.holds_iff.mpr ⟨a, ha, hr, rfl⟩
  set stop : Actor → Actor := fun a =>
    { a with
      state := .stopping
      staged := []
      stagedBytes := 0
      deadlines := .new
      queue := []
      queueBytes := 0 } with hstop
  have cleared : Shows st.mailroom r (.cleared r true) (st.modifyActor r stop) := by
    apply (Shows.refl holds).modify
    intro b same
    have reference : b.reference = r := (congrArg Tray.reference same).trans hr
    show (⟨b.reference, true, [], 0, [], 0, .new⟩ : Tray) = _
    rw [reference]
    rfl
  exact (noted a.staged a.queue _).trans cleared.mailroom

end World

/-! ## What a fence leaves in the trays -/

/-- A tray stays, or its actor has ended and it is cleared. -/
def Tray.Falls (t t' : Tray) : Prop := t' = t ∨ t' = .cleared t.reference true

theorem Tray.Falls.trans {t t' t'' : Tray} (h : t.Falls t') (h' : t'.Falls t'') : t.Falls t'' := by
  rcases h with rfl | rfl
  · exact h'
  · rcases h' with rfl | rfl
    · exact .inr rfl
    · exact .inr rfl

/-- A part of a fence: the tables lack what they lacked before. -/
structure Empties (w : World) (st st' : State) : Prop where
  exact : ∀ X Y, st.mailroom.Exact w X Y → st'.mailroom.Exact w X Y
  trays : Slotwise Tray.Falls st.mailroom.trays st'.mailroom.trays

namespace Empties

theorem still (h : st'.mailroom = st.mailroom) : Empties w st st' := by
  constructor
  · intro X Y exact
    rw [h]
    exact exact
  · rw [h]
    exact Slotwise.refl (fun _ => .inl rfl) _

theorem refl (st : State) : Empties w st st := still rfl

theorem trans (h : Empties w st st') (h' : Empties w st' st'') : Empties w st st'' where
  exact X Y exact := h'.exact X Y (h.exact X Y exact)
  trays := h.trays.trans (fun _ _ _ => Tray.Falls.trans) h'.trays

theorem posts (h : Empties w st st') : Posts w st st' := h.exact [] []

end Empties

namespace Mailroom

variable {m : Mailroom} {t : Tray}

/-- The tray of an actor without entries is cleared. -/
theorem Exact.clear (h : m.Exact w (r :: X) (r :: Y)) (hr : m.Holds r t) :
    Exact w X Y { m with trays := m.trays.set r.slot (.cleared r true) } := by
  have cleared : Exact w (r :: X) (r :: Y)
      { m with trays := m.trays.set r.slot (.cleared r true) } := by
    apply h.put hr rfl (Tray.balanced_cleared _ _ _) h.index
    · intro q
      split_ifs with same present
      · rw [same, h.earliest r t hr]
        simp
      · exact absurd List.mem_cons_self present
      · rfl
    · exact fun _ _ => Iff.rfl
    · intro i
      split_ifs with here absent
      · rw [here, h.staged r t hr]
        simp
      · exact absurd (.inl List.mem_cons_self) absent
      · rfl
  apply cleared.spare
  intro x holds
  rw [holds_set hr rfl, if_pos rfl] at holds
  subst holds
  exact ⟨rfl, rfl⟩

end Mailroom

/-! ## The fence -/

namespace World

/-- A function that empties every tray within its fuel. -/
def Emptier (w : World) (fuel : ℕ) (fence : ActorRef → State → Except Error Unit × State) : Prop :=
  ∀ r st, st.core.Valid w.id → Deep st.core.nodes r fuel → Empties w st (fence r st).2

variable {fuel : ℕ} {fence : ActorRef → State → Except Error Unit × State}

theorem revokeScopes_empties (hf : w.Emptier fuel fence) (he : w.Fencer (fun _ => True) fuel fence)
    {service : ActorRef} (scopes : List ActorRef) (hv : st.core.Valid w.id)
    (hd : ∀ q ∈ scopes, Deep st.core.nodes q fuel) :
    Empties w st (scopes.foldl (w.revokeScope fence service) st) := by
  induction scopes generalizing st with
  | nil => exact .refl st
  | cons q scopes ih =>
    obtain ⟨-, step⟩ := @revoked_spec w st service q
    have revoked : (w.revoked service q st).mailroom = st.mailroom := by
      unfold revoked
      cases st.services.leases.lookup q <;> rfl
    have first : Empties w st (w.revokeScope fence service st q) :=
      (Empties.still revoked).trans (hf q (w.revoked service q st) (hv.step step)
        ((hv.reduces step trivial).deep (hd q List.mem_cons_self)))
    have fenced := @revokeScope_fenced _ _ _ _ _ he service q hv (everyone st) trivial
      (hd q List.mem_cons_self)
    apply first.trans
    apply ih (Evolves.valid fenced hv)
    intro x hx
    exact (fenced.reduces hv).deep (hd x (List.mem_cons_of_mem q hx))

theorem detachService_empties (hf : w.Emptier fuel fence) (he : w.Fencer (fun _ => True) fuel fence)
    (hv : st.core.Valid w.id) (hdeep : Deep st.core.nodes r (fuel + 1)) :
    Empties w st (w.detachService fence r st) := by
  unfold detachService
  cases target : st.services.byTarget.lookup r with
  | none => exact .refl st
  | some name =>
    dsimp only
    cases recorded : st.services.records.lookup name with
    | none => exact .still rfl
    | some record =>
      dsimp only
      set services : Registry :=
        { st.services with
          byTarget := st.services.byTarget.erase r
          records := st.services.records.erase name } with hservices
      have step : Step w.id st.core .unserve ({ st with services := services } : State).core := by
        refine .unserve (c := st.core) services ⟨?_, fun _ _ h => h, ?_⟩
        · intro service x found
          have found : (st.services.byTarget.erase r).lookup service = some x := found
          rw [Assoc.lookup_erase_ite] at found
          split_ifs at found
          exact found
        · intro other x found
          have found : (st.services.records.erase name).lookup other = some x := found
          rw [Assoc.lookup_erase_ite] at found
          split_ifs at found
          exact ⟨x, found, rfl, fun _ h => h⟩
      have removed : Empties w st ({ st with services := services } : State) := .still rfl
      apply removed.trans
      apply revokeScopes_empties hf he _ (hv.step step)
      intro q hq
      exact (hv.reduces step trivial).deep
        (deep_scope hv target recorded ((List.mem_insertionSort _).mp hq) hdeep)

theorem fenceAll_empties (hf : w.Emptier fuel fence) (he : w.Fencer (fun _ => True) fuel fence)
    (children : List ActorRef) (hv : st.core.Valid w.id)
    (hd : ∀ q ∈ children, Deep st.core.nodes q fuel) :
    Empties w st (fenceAll fence children st).2 := by
  induction children generalizing st with
  | nil => exact .refl st
  | cons q children ih =>
    have first := hf q st hv (hd q List.mem_cons_self)
    have fenced := (he q st hv (everyone st) trivial (hd q List.mem_cons_self)).1
    have reduces := fenced.reduces hv
    have hv₁ := Evolves.valid fenced hv
    unfold fenceAll
    rcases hcall : fence q st with ⟨e | u, st'⟩
    · rw [hcall] at first
      exact first
    · rw [hcall] at first hv₁ reduces
      apply first.trans
      apply ih hv₁
      intro x hx
      exact reduces.deep (hd x (List.mem_cons_of_mem q hx))

/-- The end of a fence: whoever has entries left to strike is cleared or has nothing. -/
theorem halts_empties (hc : w.checkRef r st = .ok a)
    (h : st.mailroom.Exact w (r :: X) (r :: Y)) :
    (if a.state = .stopped then st else
      w.tryFinalize walkFuel r
        (stopActor r a (w.removeActorRoutes r st))).mailroom.Exact w X Y := by
  obtain ⟨found, current, holds⟩ := holds_of_check h hc
  split_ifs with stopped
  · apply h.spare
    intro t held
    rw [holds.unique held]
    apply (h.balanced _ _ holds.1).quiet
    simp [Actor.tray, stopped]
  · have found' : (w.removeActorRoutes r st).actors[r.slot]? = some a := by
      rw [actors_removeActorRoutes, found]
    rw [mailroom_tryFinalize, mailroom_stopActor found' current, mailroom_removeActorRoutes]
    exact h.clear holds

theorem trays_halt (found : st.actors[r.slot]? = some a) (current : a.reference = r) :
    Slotwise Tray.Falls st.mailroom.trays (if a.state = .stopped then st else
      w.tryFinalize walkFuel r
        (stopActor r a (w.removeActorRoutes r st))).mailroom.trays := by
  split_ifs
  · exact Slotwise.refl (fun _ => .inl rfl) _
  · have found' : (w.removeActorRoutes r st).actors[r.slot]? = some a := by
      rw [actors_removeActorRoutes, found]
    have held : st.mailroom.Holds r a.tray := State.holds_iff.mpr ⟨a, found, current, rfl⟩
    rw [mailroom_tryFinalize, mailroom_stopActor found' current, mailroom_removeActorRoutes]
    apply Slotwise.set (fun _ => .inl rfl) held.1
    exact .inr (by rw [held.2])

/-- A fence strikes the actor's own entries, detaches it and ends its operations. From the
first of these on the tables lack the entries of the actor. -/
theorem prepare_empties (hf : w.Emptier fuel fence) (he : w.Fencer (fun _ => True) fuel fence)
    (hv : st.core.Valid w.id) (hdeep : Deep st.core.nodes r (fuel + 1)) :
    let st₁ := w.cancelSourcePublicationsLocked r st
    let st₂ : State := { st₁ with
      eventDeadlines := st₁.eventDeadlines.remove r
      stagedActors := st₁.stagedActors.erase r.slot
      drainRoots := st₁.drainRoots.erase r.slot }
    st₂.mailroom = { st.mailroom with
      earliest := st.mailroom.earliest.remove r
      stagedActors := st.mailroom.stagedActors.erase r.slot } ∧
    Empties w st₂ (w.cancelOperationsOf r (w.discardNotificationsFor r
      (w.detachService fence r (w.detachScope r st₂)))) := by
  intro st₁ st₂
  obtain ⟨h₁, hu, -⟩ := fence_prepare he hv (everyone st) trivial hdeep
  have cancelled : st₁.mailroom = st.mailroom :=
    State.mailroom_of_desk desk_cancelSourcePublicationsLocked
  constructor
  · rw [← cancelled]
    rfl
  have hv₁ := h₁.valid hv
  have hv₂ : st₂.core.Valid w.id := hv₁.step hu
  have detached : (w.detachScope r st₂).mailroom = st₂.mailroom := mailroom_detachScope
  obtain ⟨evolves, -⟩ := @detachScope_spec Move.fencing r w st₂ hv₂ trivial
  have reduces : st.core.Reduces (w.detachScope r st₂).core :=
    ((h₁.reduces hv).trans (hv₁.reduces hu trivial)).trans
      (evolves.steps.reduces (fun _ h => h) hv₂)
  have services := detachService_empties hf he (evolves.valid hv₂) (reduces.deep hdeep)
  apply ((Empties.still detached).trans services).trans
  apply Empties.still
  rw [mailroom_cancelOperationsOf, mailroom_discardNotificationsFor]

theorem fenceLocked_emptier (fuel : ℕ) : w.Emptier fuel (w.fenceLocked fuel) := by
  induction fuel with
  | zero => exact fun r st _ _ => .refl st
  | succ fuel ih =>
    intro r st hv hdeep
    have he : w.Fencer (fun _ => True) fuel (w.fenceLocked fuel) := fenceLocked_fencer _ fuel
    rcases hcheck : w.checkRef r st with e | a
    · have h : w.fenceLocked (fuel + 1) r st = (.error e, st) := by
        unfold fenceLocked
        rw [hcheck]
      rw [h]
      exact .refl st
    have hn := seated_of_check hv.owned hcheck
    obtain ⟨h₁, hu, h₂, -⟩ := fence_prepare he hv (everyone st) trivial hdeep
    obtain ⟨struck, prepared⟩ := prepare_empties ih he hv hdeep
    unfold fenceLocked
    rw [hcheck]
    dsimp only
    set st₁ := w.cancelSourcePublicationsLocked r st
    set st₂ : State := { st₁ with
      eventDeadlines := st₁.eventDeadlines.remove r
      stagedActors := st₁.stagedActors.erase r.slot
      drainRoots := st₁.drainRoots.erase r.slot } with hst₂
    set st₃ := w.cancelOperationsOf r (w.discardNotificationsFor r
      (w.detachService (w.fenceLocked fuel) r (w.detachScope r st₂)))
    have hv₁ := h₁.valid hv
    have hv₂ := hv₁.step hu
    have hv₃ : st₃.core.Valid w.id := h₂.valid hv₂
    have reduces₃ : st.core.Reduces st₃.core :=
      ((h₁.reduces hv).trans (hv₁.reduces hu trivial)).trans (h₂.reduces hv₂)
    obtain ⟨n₃, hn₃, -⟩ := reduces₃.seated hn
    obtain ⟨a₃, hc₃, ha₃, rfl⟩ := check_of_seated hv₃.owned hn₃
    rw [hc₃]
    dsimp only
    have children := fenceAll_empties ih he a₃.children hv₃ fun q hq =>
      (hv₃.owned.deep_child (reduces₃.deep hdeep) hn₃ hq).1
    obtain ⟨hok, h₄, -⟩ := fenceAll_fenced he a₃.children hv₃ (everyone st₃)
      (fun hne => by
        obtain ⟨q, hq⟩ := List.exists_mem_of_ne_nil _ hne
        exact (hv₃.owned.deep_child (reduces₃.deep hdeep) hn₃ hq).2.1)
      fun q hq => by
        obtain ⟨hdq, -, hk⟩ := hv₃.owned.deep_child (reduces₃.deep hdeep) hn₃ hq
        exact ⟨trivial, hdq, hk⟩
    rcases hall : fenceAll (w.fenceLocked fuel) a₃.children st₃ with ⟨e | u, st₄⟩
    · simp [hall] at hok
    rw [hall] at h₄ children
    dsimp only at h₄ children ⊢
    have hv₄ : st₄.core.Valid w.id := h₄.valid hv₃
    obtain ⟨n₄, hn₄, -⟩ := (h₄.reduces hv₃).seated hn₃
    obtain ⟨a₄, hc₄, ha₄, rfl⟩ := check_of_seated hv₄.owned hn₄
    rw [hc₄]
    dsimp only
    have fallen := prepared.trans children
    have same : (if a₄.state = .stopped then ((.ok (), st₄) : Except Error Unit × State) else
        (.ok (), w.tryFinalize walkFuel r (stopActor r a₄ (w.removeActorRoutes r st₄)))).2 =
      if a₄.state = .stopped then st₄ else
        w.tryFinalize walkFuel r (stopActor r a₄ (w.removeActorRoutes r st₄)) := by
      split_ifs <;> rfl
    rw [same]
    constructor
    · intro X Y exact
      obtain ⟨-, -, holds⟩ := holds_of_check exact hcheck
      have lacking := exact.strike holds
      rw [← struck] at lacking
      exact halts_empties hc₄ (fallen.exact _ _ lacking)
    · have before := fallen.trays
      rw [struck] at before
      exact before.trans (fun _ _ _ => Tray.Falls.trans) (trays_halt ha₄ hn₄.2)

theorem stopLocked_empties (hv : st.core.Valid w.id) : Empties w st (w.stopLocked r st).2 :=
  fenceLocked_emptier fenceFuel r st hv (deep_of_le (by simp [fenceFuel, walkFuel]))

theorem closeLocked_empties (hv : st.core.Valid w.id) : Empties w st (w.closeLocked st) := by
  have fold : ∀ (refs : List ActorRef) (st : State), st.core.Valid w.id →
      Empties w st (refs.foldl (fun st r => (w.fenceLocked fenceFuel r st).2) st) := by
    intro refs
    induction refs with
    | nil => exact fun st _ => .refl st
    | cons r refs ih =>
      intro st hv
      have first : Empties w st (w.fenceLocked fenceFuel r st).2 := stopLocked_empties hv
      have valid : (w.fenceLocked fenceFuel r st).2.core.Valid w.id :=
        (stopLocked_fences hv (st.core.closed_doomed r) .self).fenced.stops.valid hv
      exact first.trans (ih _ valid)
  have closing : Empties w st ({ st with closed := true } : State).closeRoutingLocked := .still rfl
  exact closing.trans (fold _ _ hv)

end World

end Actorplane
