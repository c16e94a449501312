import Actorplane.Reach.Runs
import Actorplane.Supervision.Failures

/-!
# Steps of the roster

Registrations, leases and drains complete the calls. So a step of the World reports one
failure, claims one notification, abandons one claim, or does none of these.
-/

namespace Actorplane

variable {t : Roster} {r : ActorRef} {m : Member}

namespace World

variable {w : World} {st st' : State} {a : Actor}

/-! ## Services -/

theorem serviceRegistrable_free {name : String} {target : ActorRef} {required : InterfaceSpec}
    (h : w.serviceRegistrable name target required st = .ok ()) :
    st.services.records.lookup name = none ∧ st.services.byTarget.lookup target = none ∧
      st.services.records.keys.length < w.cfg.maxServices := by
  unfold serviceRegistrable at h
  dsimp only at h
  obtain ⟨-, h⟩ := guard_ok.mp h
  obtain ⟨taken, h⟩ := guard_ok.mp h
  obtain ⟨room, -⟩ := guard_ok.mp h
  simp only [Bool.or_eq_true, not_or, Option.not_isSome_iff_eq_none] at taken
  exact ⟨taken.1, taken.2, not_le.mp (by simpa using room)⟩

theorem registerService_calm (hv : st.core.Valid w.id) (hs : st.services.Served) {name : String}
    {target : ActorRef} {required : InterfaceSpec} :
    Calm w st (w.registerService name target required st).2 := by
  unfold registerService
  cases allowed : w.serviceRegistrable name target required st with
  | error e => exact .refl st
  | ok u =>
    obtain ⟨free, idle, room⟩ := serviceRegistrable_free allowed
    obtain ⟨a, check, root, active⟩ := serviceRegistrable_ok allowed
    obtain ⟨found, current⟩ := (checkRef_ok hv.owned).mp check
    dsimp only
    have may : st.roster.May w.cfg (.register name target required) := by
      refine ⟨free, idle, room, ?_, a.member, ?_, root, active⟩
      · intro scope l leased same
        have served := hs scope l leased
        rw [same, idle] at served
        cases served
      · exact State.seats_iff.mpr ⟨a, found, current, rfl⟩
    refine ⟨.single (x := .register name target required) trivial may, ?_⟩
    intro served scope l leased
    have before := served scope l leased
    show ((AList.insert target name st.services.byTarget).lookup l.service).isSome
    rw [Assoc.lookup_insert_ite]
    split_ifs
    · rfl
    · exact before

theorem acquirable_room {owner : ActorRef} {name : String} {required : InterfaceSpec}
    {expected : Option ActorRef} {record : ServiceRecord}
    (h : w.acquirable owner name required expected st = .ok record) :
    st.services.leases.keys.length < w.cfg.maxServiceLeases ∧
      (st.services.byHolder.members owner).length < w.cfg.maxLeasesPerActor := by
  unfold acquirable at h
  dsimp only at h
  obtain ⟨-, h⟩ := guard_ok.mp h
  obtain ⟨-, h⟩ := guard_ok.mp h
  obtain ⟨s, -, h⟩ := bind_ok.mp h
  obtain ⟨-, h⟩ := guard_ok.mp h
  cases recorded : st.services.records.lookup name with
  | none =>
    rw [recorded] at h
    cases h
  | some found =>
    rw [recorded] at h
    obtain ⟨-, h⟩ := guard_ok.mp h
    obtain ⟨-, h⟩ := guard_ok.mp h
    obtain ⟨a, -, h⟩ := bind_ok.mp h
    obtain ⟨-, h⟩ := guard_ok.mp h
    obtain ⟨room, -⟩ := guard_ok.mp h
    simp only [Bool.or_eq_true, decide_eq_true_eq, not_or, not_le] at room
    exact room

/-- The state of an acquisition before its lease is placed. -/
def admitted (w : World) (scope : ActorRef) (st : State) : State :=
  w.refreshPythonReadyLocked scope (st.modifyActor scope fun a => { a with state := .active })

theorem roster_admitted (scope : ActorRef) :
    (w.admitted scope st).roster = st.roster.after (.enter scope .active) :=
  State.roster_modify fun _ => rfl

theorem roster_placeLease {name : String} {lease : ServiceLease} {record : ServiceRecord}
    (h : st.services.records.lookup name = some record) :
    (placeLease name lease st).roster = st.roster.after (.lease name lease) := by
  unfold placeLease Roster.after Registry.place
  have services : st.roster.services = st.services := rfl
  dsimp only
  rw [services, h]
  rfl

/-- A scope joins below its owner, becomes active and takes the lease. -/
theorem acquireServiceLockedTarget_seating (hv : st.core.Valid w.id) (ht : st.services.Tidy)
    {owner : ActorRef} {name : String} {required : InterfaceSpec} {expected : Option ActorRef} :
    Calls w Change.seating st (w.acquireServiceLockedTarget owner name required expected st).2 := by
  unfold acquireServiceLockedTarget
  cases allowed : w.acquirable owner name required expected st with
  | error e => exact .refl st
  | ok record =>
    dsimp only
    have recorded := acquirable_ok allowed
    obtain ⟨room, shares⟩ := acquirable_room allowed
    have joined := allocateLocked_seating hv.owned .native (some owner)
    have joins := roster_allocateLocked hv.owned .native (some owner)
    have allocates := @allocateLocked_spec w st .native (some owner) hv
    have fresh := @nextRef_fresh w st
    rcases hcall : w.allocateLocked .native (some owner) st with ⟨e | scope, st₁⟩
    · rw [hcall] at joined
      exact joined
    rw [hcall] at joined joins allocates
    dsimp only at joined joins allocates ⊢
    obtain ⟨e, he⟩ | ⟨hok, roster₁, -⟩ := joins
    · cases he
    obtain rfl : scope = w.nextRef st := Except.ok.inj hok
    obtain ⟨e, he, -⟩ | ⟨scope, hok', -, seated⟩ := allocates
    · cases he
    obtain rfl : w.nextRef st = scope := Except.ok.inj hok'
    obtain ⟨b, seat, -, node⟩ := State.seats_of_seated seated
    have starting : b.state = .starting := congrArg Node.state node
    have below : b.parent = some owner := congrArg Node.parent node
    have services₁ : st₁.services = st.services :=
      (congrArg Roster.services roster₁).trans (Roster.services_join _ _)
    set scope := w.nextRef st with hscope
    have may₂ : st₁.roster.May w.cfg (.enter scope .active) := by
      refine ⟨b.member, seat, ?_, by decide, by decide, ?_, ?_⟩
      · show b.state ≠ .stopped
        rw [starting]
        decide
      · intro stopping
        exact absurd (starting.symm.trans stopping) (by decide)
      · exact fun impossible => absurd impossible (by decide)
    have entered : Calls w Change.seating st₁ (w.admitted scope st₁) :=
      .single (x := .enter scope .active) trivial may₂ (roster_admitted scope) rfl
    set lease : ServiceLease := ⟨scope, owner, record.service⟩ with hlease
    have services₂ : (w.admitted scope st₁).services = st.services := services₁
    have recorded₂ : (w.admitted scope st₁).services.records.lookup name = some record := by
      rw [services₂]
      exact recorded
    have may₃ : (w.admitted scope st₁).roster.May w.cfg (.lease name lease) := by
      have unleased : st.services.leases.lookup scope = none := by
        cases leased : st.services.leases.lookup scope with
        | none => rfl
        | some l =>
          obtain ⟨n, old, -⟩ := hv.serving.leases scope l leased
          exact (fresh.not_seated old).elim
      have unleased₂ : (w.admitted scope st₁).services.leases.lookup scope = none := by
        rw [services₂]
        exact unleased
      refine ⟨record, b.member.enter .active, recorded₂, rfl, unleased₂, ?_, below, rfl, ?_, ?_⟩
      · rw [roster_admitted]
        exact (Roster.seats_modify (f := (Member.enter · .active)) fun _ => rfl).mpr
          ⟨b.member, seat, by simp [hlease]⟩
      · show (w.admitted scope st₁).services.leases.keys.length < _
        rw [services₂]
        exact room
      · show ((w.admitted scope st₁).services.byHolder.members owner).length < _
        rw [services₂]
        exact shares
    have placed := @roster_placeLease (w.admitted scope st₁) name lease record recorded₂
    have leased : Calls w Change.seating (w.admitted scope st₁)
        (placeLease name lease (w.admitted scope st₁)) := by
      constructor
      · rw [placed]
        exact .single (x := .lease name lease) trivial may₃
      · intro served other l held
        have services := congrArg Roster.services placed
        have tables : (placeLease name lease (w.admitted scope st₁)).services =
            st.services.place name lease := by
          rw [← services₂]
          exact services
        rw [services₂] at served
        rw [tables] at held ⊢
        unfold Registry.place at held ⊢
        rw [recorded] at held ⊢
        dsimp only at held ⊢
        rw [Assoc.lookup_insert_ite] at held
        split_ifs at held
        · obtain rfl := Option.some.inj held
          rw [(ht.targets record.service name).mpr ⟨record, recorded, rfl⟩]
          rfl
        · exact served other l held
    refine ((joined.trans entered).trans leased).after ?_
    rw [roster_touch, State.roster_note rfl]
    rfl

theorem acquireServiceFrom_seating (hv : st.core.Valid w.id) (ht : st.services.Tidy)
    {owner expected : ActorRef} {name : String} {required : InterfaceSpec} :
    Calls w Change.seating st (w.acquireServiceFrom owner name required expected st).2 := by
  unfold acquireServiceFrom
  split_ifs
  · exact .refl st
  · exact acquireServiceLockedTarget_seating hv ht

/-! ## Drains -/

/-- Every actor sits in the slot of its reference. -/
def Slotted (w : World) (st : State) : Prop :=
  ∀ (i : ℕ) (n : Node), st.core.nodes[i]? = some n →
    n.reference.world = w.id ∧ n.reference.slot = i

theorem Slotted.modifyActor (h : w.Slotted st) {f : Actor → Actor}
    (hf : ∀ a, (f a).reference = a.reference) : w.Slotted (st.modifyActor r f) := by
  intro i n hn
  obtain ⟨b, found, rfl⟩ := State.actors_get_of_node hn
  have found : (st.actors.modify r.slot f)[i]? = some b := found
  rw [List.getElem?_modify] at found
  cases hget : st.actors[i]? with
  | none => simp [hget] at found
  | some a =>
    have kept : b.reference = a.reference := by
      rw [hget] at found
      split_ifs at found
      · obtain rfl := Option.some.inj found
        exact hf a
      · obtain rfl := Option.some.inj found
        rfl
    have slot := h i a.node (State.core_nodes_get hget)
    show b.reference.world = w.id ∧ b.reference.slot = i
    rw [kept]
    exact slot

/-- A walk that keeps the slots. -/
def Walks (w : World) (st st' : State) : Prop := Calm w st st' ∧ w.Slotted st'

theorem markAllQuiescing_walks {mark : ActorRef → Instant → State → Except Error Instant × State}
    (hm : ∀ q d st, w.Slotted st → w.Walks st (mark q d st).2) (children : List ActorRef)
    (deadline : Instant) (hs : w.Slotted st) :
    w.Walks st (markAllQuiescing mark children deadline st).2 := by
  induction children generalizing deadline st with
  | nil => exact ⟨.refl st, hs⟩
  | cons q children ih =>
    obtain ⟨first, slotted⟩ := hm q deadline st hs
    unfold markAllQuiescing
    rcases hcall : mark q deadline st with ⟨e | d, st'⟩
    · rw [hcall] at first slotted
      exact ⟨first, slotted⟩
    · rw [hcall] at first slotted
      obtain ⟨rest, slotted'⟩ := ih d slotted
      exact ⟨first.trans rest, slotted'⟩

theorem markQuiescing_walks (root : ActorRef) (fuel : ℕ) (r : ActorRef) (deadline : Instant)
    (st : State) (hs : w.Slotted st) : w.Walks st (w.markQuiescing root fuel r deadline st).2 := by
  induction fuel generalizing r deadline st with
  | zero => exact ⟨.refl st, hs⟩
  | succ fuel ih =>
    unfold markQuiescing
    dsimp only
    cases check : w.checkRef r st with
    | error e => exact ⟨.refl st, hs⟩
    | ok a =>
      obtain ⟨found, current⟩ := (checkRef_slotted hs).mp check
      dsimp only
      by_cases ended : a.state = .stopping ∨ a.state = .stopped
      · rw [if_pos ended]
        exact ⟨.refl st, hs⟩
      rw [if_neg ended]
      obtain ⟨live, running⟩ := not_or.mp ended
      set mark : Actor → Actor := fun a =>
        { a with
          state := .quiescing
          publicationCutoff := some (a.publicationCutoff.getD st.publications.lastIssued)
          drainRoot := some root
          drainDeadline := none } with hmark
      set st₁ : State :=
        { st.modifyActor r mark with drainRoots := st.drainRoots.erase r.slot } with hst₁
      have marked : st₁.roster = st.roster.after (.enter r .quiescing) :=
        State.roster_modify (f := mark) fun _ => rfl
      have slotted : w.Slotted st₁ := hs.modifyActor fun _ => rfl
      have may : st.roster.May w.cfg (.enter r .quiescing) :=
        ⟨a.member, State.seats_iff.mpr ⟨a, found, current, rfl⟩, running, by decide, by decide,
          fun stopping => absurd stopping live, fun impossible => absurd impossible (by decide)⟩
      have entered : Calm w st st₁ :=
        .single (x := .enter r .quiescing) trivial may marked rfl
      have walked := @markAllQuiescing_walks w st₁ (w.markQuiescing root fuel)
        (fun q d st hs => ih q d st hs) a.children (sooner a.drainDeadline deadline) slotted
      split
      case h_1 e st' heq =>
        have same : markAllQuiescing (w.markQuiescing root fuel) a.children
          (sooner a.drainDeadline deadline) st₁ = (.error e, st') := heq
        rw [same] at walked
        exact ⟨entered.trans walked.1, walked.2⟩
      case h_2 d st' heq =>
        have same : markAllQuiescing (w.markQuiescing root fuel) a.children
          (sooner a.drainDeadline deadline) st₁ = (.ok d, st') := heq
        rw [same] at walked
        exact ⟨(entered.trans walked.1).after rfl, walked.2⟩

theorem drainLocked_calm (hv : st.core.Valid w.id) (ht : st.services.Tidy) (deadline : Instant) :
    Calm w st (w.drainLocked r deadline st).2 := by
  unfold drainLocked
  cases check : w.checkRef r st with
  | error e => exact .refl st
  | ok a =>
    dsimp only
    cases state : a.state with
    | starting => exact (stopLocked_falls hv ht).calm
    | active =>
      obtain ⟨walked, -⟩ := markQuiescing_walks (w := w) r walkFuel r deadline st hv.owned.slotted
      dsimp only
      rcases hcall : w.markQuiescing r walkFuel r deadline st with ⟨e | d, st'⟩
      · rw [hcall] at walked
        exact walked
      · rw [hcall] at walked
        exact walked.after (State.roster_modify_soft fun _ => rfl)
    | quiescing =>
      dsimp only
      cases w.checkRef (a.drainRoot.getD r) st with
      | error e => exact .refl st
      | ok b => exact .still (State.roster_modify_soft fun _ => rfl)
    | stopping => exact .refl st
    | stopped => exact .refl st

/-! ## Maintenance -/

/-- What a maintenance pass notes of a drain that ran out of time. -/
def timedOut (root : ActorRef) (st : State) : State :=
  let st := st.modifyActor root fun a => { a with drainTimedOut := true }
  let st := st.addMetrics fun m => { m with drainTimeouts := m.drainTimeouts + 1 }
  (st.diagnostic .drainTimeout (some root) none).note (.drainTimeout root)

theorem roster_timedOut (root : ActorRef) :
    (timedOut root st).roster = st.roster.after (.late root) := by
  have marked := @State.roster_modify st root (fun a => { a with drainTimedOut := true })
    Member.late fun _ => rfl
  have late : (st.log ++ [Event.drainTimeout root]).filterMap Event.late =
      st.log.filterMap Event.late ++ [root] := by
    rw [List.filterMap_append]
    rfl
  show ({ (st.modifyActor root fun a => { a with drainTimedOut := true }).roster with
    timeouts := st.roster.timeouts + 1
    late := (st.log ++ [Event.drainTimeout root]).filterMap Event.late } : Roster) = _
  rw [marked, late]
  rfl

theorem maintainRoot_calm (hv : st.core.Valid w.id) (ht : st.services.Tidy) (now : Instant)
    (root : ActorRef) : Calm w st (w.maintainRoot now st root) := by
  unfold maintainRoot
  split_ifs with stale
  · exact .refl st
  dsimp only
  split_ifs with due late
  · have lookup : st.drainRoots.lookup root.slot = some root := not_not.mp stale
    obtain ⟨-, n, seated, quiescing, -⟩ := hv.drains.roots root.slot root lookup
    obtain ⟨a, seat, found, node⟩ := State.seats_of_seated seated
    have may : st.roster.May w.cfg (.late root) := by
      refine ⟨a.member, seat, ?_⟩
      have state : a.state = .quiescing := (congrArg Node.state node).trans quiescing
      show a.state ≠ .stopped
      rw [state]
      decide
    have timed : Calm w st (timedOut root st) :=
      .single (x := .late root) trivial may (roster_timedOut root) rfl
    have core : (timedOut root st).core =
        { st.core with life := st.core.life ++ [.drainTimeout root] } := by
      have soft : (st.modifyActor root fun a => { a with drainTimedOut := true }).core = st.core :=
        State.core_modify_soft _ (fun _ => rfl) (fun _ => rfl) fun _ => rfl
      show ((st.modifyActor root fun a => { a with drainTimedOut := true }).note
        (.drainTimeout root)).core = _
      rw [State.core_note_life _ rfl, soft]
    have step : Step w.id st.core (.timeout root) (timedOut root st).core := by
      rw [core]
      exact .timeout
    exact timed.trans (stopLocked_falls (hv.step step) (timed.tidy ht)).calm
  · exact (stopLocked_falls hv ht).calm
  · exact .refl st

theorem maintainLocked_calm (hv : st.core.Valid w.id) (ht : st.services.Tidy) (now : Instant) :
    Calm w st (w.maintainLocked now st) := by
  have fold : ∀ (roots : List ActorRef) (st : State), st.core.Valid w.id → st.services.Tidy →
      Calm w st (roots.foldl (w.maintainRoot now) st) := by
    intro roots
    induction roots with
    | nil => exact fun st _ _ => .refl st
    | cons root roots ih =>
      intro st hv ht
      have first := maintainRoot_calm hv ht now root
      have valid := (@maintainRoot_upkeep root w st now hv).valid hv
      exact first.trans (ih _ valid (first.tidy ht))
  have expired : Calm w st (w.expireAll now st) := .still (roster_expireAll now)
  exact expired.trans (fold _ _ ((expireAll_expires hv).valid hv) (expired.tidy ht))

theorem requestDrain_calm (hv : st.core.Valid w.id) (ht : st.services.Tidy) (deadline : Instant) :
    Calm w st (w.requestDrain r deadline st).2 := by
  have drained := drainLocked_calm (r := r) hv ht deadline
  have valid := ((drainLocked_spec (w := w) (r := r) hv deadline).1.evolves hv).valid hv
  unfold requestDrain
  rcases hcall : w.drainLocked r deadline st with ⟨e | u, st'⟩
  · rw [hcall] at drained
    exact drained
  · rw [hcall] at drained valid
    have ticked : Calm w st st'.tick := drained.after rfl
    have valid : st'.tick.core.Valid w.id := valid
    exact (ticked.trans (maintainLocked_calm valid (ticked.tidy ht) (w.now st'))).after roster_touch

theorem drainRootsLocked_calm (hv : st.core.Valid w.id) (ht : st.services.Tidy)
    (deadline : Instant) : Calm w st (w.drainRootsLocked deadline st) := by
  have fold : ∀ (roots : List ActorRef) (st : State), st.core.Valid w.id → st.services.Tidy →
      Calm w st (roots.foldl (fun st r => (w.drainLocked r deadline st).2) st) := by
    intro roots
    induction roots with
    | nil => exact fun st _ _ => .refl st
    | cons root roots ih =>
      intro st hv ht
      have first := drainLocked_calm (r := root) hv ht deadline
      have valid := ((drainLocked_spec (w := w) (r := root) hv deadline).1.evolves hv).valid hv
      exact first.trans (ih _ valid (first.tidy ht))
  have closed : Calm w st { st with closed := true } := .still rfl
  exact closed.trans (fold _ { st with closed := true } hv ht)

theorem drainAll_calm (hv : st.core.Valid w.id) (ht : st.services.Tidy) (deadline : Instant) :
    Calm w st (w.drainAll deadline st) := by
  have drained := drainRootsLocked_calm hv ht deadline
  have valid := ((drainRootsLocked_requests hv deadline).drains hv).valid hv
  unfold drainAll
  generalize w.drainRootsLocked deadline st = st' at drained valid ⊢
  have ticked : Calm w st st'.tick := drained.after rfl
  have valid : st'.tick.core.Valid w.id := valid
  exact (ticked.trans (maintainLocked_calm valid (ticked.tidy ht) (w.now st'))).after roster_touch

theorem maintain_calm (hv : st.core.Valid w.id) (ht : st.services.Tidy) (now : Instant) :
    Calm w st (w.maintain now st) := by
  have maintained := maintainLocked_calm hv ht now
  unfold maintain
  dsimp only
  split_ifs
  · exact maintained
  · exact maintained.after roster_touch

/-! ## Steps -/

theorem roster_registerSchema (version : ℕ) : (registerSchema version st).roster = st.roster := by
  unfold registerSchema
  split_ifs <;> rfl

theorem roster_activity : (w.activity r st).2.roster = st.roster := by
  unfold activity
  cases w.checkRef r st <;> rfl

theorem roster_pollActivity (observed waker : ℕ) :
    (w.pollActivity r observed waker st).2.roster = st.roster := by
  unfold pollActivity
  cases w.checkRef r st <;> rfl

theorem outstanding_calm {α : Type} [DecidableEq α] {leases : List α} {lease : α}
    {call : Outcome × State} (h : Calm w st call.2) :
    Calm w st (outstanding leases lease call st).2 := by
  unfold outstanding
  split_ifs
  · exact h
  · exact .refl st

end World

/-- The calls that report, claim or abandon a failure. -/
def Action.supervises : Action → Bool
  | .reportFailure _ _ _ _ _ _ | .claimFailure _ | .dropFailure _ => true
  | _ => false

/-- The calls that seat an actor. -/
def Action.seats : Action → Bool
  | .allocate _ _ | .acquireService _ _ _ | .acquireServiceFrom _ _ _ _ => true
  | _ => false

namespace World

variable {w : World} {st st' : State} {a : Actor}

/-- What supervision and the registry rely on when the lock is free. -/
structure Staffed (w : World) (st : State) : Prop where
  rests : w.Rests st
  tidy : st.services.Tidy
  served : st.services.Served

theorem Staffed.seating (h : w.Staffed st) {action : Action} (ha : action.seats = true) :
    Calls w Change.seating st (w.step action st).2 := by
  have hv := h.rests.valid
  cases action with
  | allocate kind parent => exact allocate_seating hv.owned
  | acquireService owner name required => exact acquireServiceLockedTarget_seating hv h.tidy
  | acquireServiceFrom owner name required expected => exact acquireServiceFrom_seating hv h.tidy
  | _ => cases ha

theorem Staffed.calm (h : w.Staffed st) {action : Action} (ha : action.supervises = false)
    (hs : action.seats = false) : Calm w st (w.step action st).2 := by
  have hv := h.rests.valid
  have ho := hv.owned
  cases action with
  | allocate => cases hs
  | activate r => exact activate_calm ho
  | finishPython r => exact finishPython_calm ho
  | registerSchema version => exact .still (roster_registerSchema version)
  | registerComponent owner d => exact .still (roster_registerComponent owner d)
  | subscribe source target => exact .still (roster_subscribe source target)
  | unsubscribe route => exact .still (roster_unsubscribe route)
  | link owner source target => exact .still (roster_link owner source target)
  | hold p o => exact .still (roster_holdWith p o)
  | send r p o => exact .still (roster_sendWith p o)
  | sendPort port p o => exact .still (roster_sendPortWith port p o)
  | sendHeld r held => exact .still (roster_sendHeld held)
  | sendHeldFrom owner r held => exact .still (roster_sendHeldFrom owner held)
  | request owner r p deadline o =>
    exact .still (roster_requestWithPort owner r p deadline o none)
  | serviceRequest lease port p deadline o =>
    exact .still (roster_serviceRequest lease port p deadline o)
  | resumeRequest call => exact outstanding_calm (.still (roster_resumeRequest call))
  | completeOperation op r p o => exact .still (roster_completeOperationWith op r p o)
  | cancelOperation op => exact .still (roster_cancelOperation op)
  | takeOperation op => exact .still (roster_takeOperation op)
  | publish source p o => exact .still (roster_publishInternal source p none none o)
  | publishPort source p o =>
    exact .still (roster_publishInternal source.owner p none (some source.index) o)
  | deliveryPublish lease source p o =>
    exact outstanding_calm (.still (roster_deliveryPublish lease source p o))
  | taskPublish owner source port p o =>
    exact outstanding_calm (.still (roster_publishInternal source p (some owner) port o))
  | cloneTicket ticket => exact .still rfl
  | dropTicket ticket => exact .still rfl
  | routeBatch => exact .still roster_routeBatch
  | claim r => exact .still roster_claim
  | finishDelivery lease success => exact outstanding_calm (finishDelivery_calm ho lease success)
  | dropDelivery lease => exact outstanding_calm (dropDelivery_calm ho lease)
  | trackTask r => exact .still roster_trackTask
  | dropTask r => exact outstanding_calm (dropTask_calm ho)
  | claimNativeCallback r startup => exact .still (roster_claimNativeHook _)
  | claimNativeDrainCallback r => exact .still (roster_claimNativeHook _)
  | dropCallback r => exact outstanding_calm (dropCallback_calm ho)
  | reportFailure => cases ha
  | claimFailure => cases ha
  | finishFailure lease action => exact outstanding_calm (finishFailure_calm hv h.tidy lease action)
  | dropFailure => cases ha
  | registerService name target required => exact registerService_calm hv h.served
  | acquireService => cases hs
  | acquireServiceFrom => cases hs
  | releaseService lease => exact releaseService_calm hv h.tidy lease
  | stop r => exact stop_calm hv h.tidy
  | close => exact close_calm hv h.tidy
  | requestDrain r deadline => exact requestDrain_calm hv h.tidy deadline
  | drainAll deadline => exact drainAll_calm hv h.tidy deadline
  | maintain now => exact maintain_calm hv h.tidy now
  | activity r => exact .still roster_activity
  | pollActivity r observed waker => exact .still (roster_pollActivity observed waker)

theorem Staffed.mild (h : w.Staffed st) {action : Action} (ha : action.supervises = false) :
    Calls w Change.mild st (w.step action st).2 := by
  cases seats : action.seats with
  | true => exact (h.seating seats).mono fun _ seating => seating.mild
  | false => exact (h.calm ha seats).mono fun _ calm => calm.mild

/-- A step makes at most one change that a mild call does not make. -/
theorem Staffed.makes (h : w.Staffed st) (action : Action) :
    Calls w Change.mild st (w.step action st).2 ∨ ∃ x, Makes w x st (w.step action st).2 := by
  have hv := h.rests.valid
  cases action with
  | reportFailure r event schema op phase failure =>
    obtain ⟨-, -, same⟩ | ⟨a, -, -, -, makes⟩ :=
      reportFailure_makes (r := r) hv h.tidy event schema op phase failure
    · exact .inl (.still same)
    · exact .inr ⟨_, makes⟩
  | claimFailure r =>
    obtain ⟨-, same⟩ | ⟨source, n, -, -, -, makes⟩ := claimFailure_makes (r := r) hv
    · exact .inl (.still same)
    · exact .inr ⟨_, makes⟩
  | dropFailure lease =>
    show Calls w Change.mild st (outstanding _ _ _ _).2 ∨
      ∃ x, Makes w x st (outstanding _ _ _ _).2
    unfold outstanding
    split_ifs
    · exact .inr ⟨.lapse, dropFailure_makes hv.owned lease⟩
    · exact .inl (.refl st)
  | _ => exact .inl (h.mild rfl)

theorem Staffed.alters (h : w.Staffed st) (action : Action) :
    Alters w.cfg (fun _ => True) st.roster (w.step action st).2.roster := by
  obtain mild | ⟨x, makes⟩ := h.makes action
  · exact mild.alters.mono fun _ _ => trivial
  · exact (Alters.single trivial makes.may).trans (makes.alters.mono fun _ _ => trivial)

theorem Staffed.step (h : w.Staffed st) (action : Action) : w.Staffed (w.step action st).2 := by
  refine ⟨h.rests.step action, (h.alters action).tidy h.tidy, ?_⟩
  obtain mild | ⟨x, makes⟩ := h.makes action
  · exact mild.served h.served
  · exact makes.served h.served

theorem staffed_init : w.Staffed w.init where
  rests := rests_init
  tidy := Registry.tidy_new
  served := by
    intro scope l leased
    cases leased

theorem Staffed.exec (h : w.Staffed st) (actions : List Action) :
    w.Staffed (w.exec st actions) := by
  induction actions generalizing st with
  | nil => exact h
  | cons action actions ih => exact ih (h.step action)

theorem staffed (actions : List Action) : w.Staffed (w.exec w.init actions) :=
  staffed_init.exec actions

/-- What every change of a tidy roster keeps holds of the roster after every run. -/
theorem roster_invariant {I : Roster → Prop} (h₀ : I w.init.roster)
    (hx : ∀ t x, t.services.Tidy → I t → t.May w.cfg x → I (t.after x)) (actions : List Action) :
    I (w.exec w.init actions).roster := by
  have steps : ∀ (actions : List Action) (st : State), w.Staffed st → I st.roster →
      I (w.exec st actions).roster := by
    intro actions
    induction actions with
    | nil => exact fun st _ hI => hI
    | cons action actions ih =>
      intro st h hI
      apply ih _ (h.step action)
      have kept := (h.alters action).invariant (I := fun t => t.services.Tidy ∧ I t) ⟨h.tidy, hI⟩
        fun t x both _ may => ⟨may.tidy both.1, hx t x both.1 both.2 may⟩
      exact kept.2
  exact steps actions w.init staffed_init h₀

end World

end Actorplane
