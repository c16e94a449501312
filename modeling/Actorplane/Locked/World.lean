import Actorplane.Locked.Claims
import Actorplane.Locked.Services
import Actorplane.Locked.Turns
import Actorplane.Model.World

/-!
# Calls and their moves

Every call changes the core by a sequence of the moves that its kind allows. So
every invariant of the moves holds in every reachable state, and the two
invariants that a fence suspends hold again whenever the lock is free.
-/

namespace Actorplane

variable {c c' : Core} {r : ActorRef}

namespace Action

def allocates : Action → Prop
  | .allocate _ _ | .acquireService _ _ _ | .acquireServiceFrom _ _ _ _ => True
  | _ => False

def requests : Action → Prop
  | .request _ _ _ _ _ | .resumeRequest _ => True
  | _ => False

/-- The actor that a message or a request is for. -/
def sendsTo : Action → Option ActorRef
  | .send r _ _ | .sendHeld r _ | .sendHeldFrom _ r _ | .request _ r _ _ _ => some r
  | .sendPort port _ _ => some port.owner
  | .resumeRequest call => some call.target
  | _ => none

/-- The source of a publication, its port, and whether it is a completion. -/
def publishes : Action → Option (ActorRef × Option ℕ × Bool)
  | .publish source _ _ => some (source, none, false)
  | .publishPort source _ _ => some (source.owner, some source.index, false)
  | .deliveryPublish _ source _ _ => some (source.owner, some source.index, true)
  | .taskPublish _ source port _ _ => some (source, port, true)
  | _ => none

def connects : Action → Prop
  | .subscribe _ _ | .link _ _ _ => True
  | _ => False

def drains : Action → Prop
  | .requestDrain _ _ | .drainAll _ => True
  | _ => False

/-- The calls that make a move, if it is not one of a fence or of expiry. -/
def makes (a : Action) : Move → Prop
  | .allocate _ => a.allocates
  | .activate r => a = .activate r
  | .flush _ _ => ∃ r, a = .activate r
  | .start r _ => a = .claim r
  | .finish l _ | .abandon l => (∃ s, a = .finishDelivery l s) ∨ a = .dropDelivery l
  | .reserve _ | .release _ | .context _ => a.requests
  | .enqueue r _ => a.sendsTo = some r
  | .accept p => a.publishes = some (p.source, p.sourcePort, p.completion)
  | .capture _ _ _ | .attempt _ _ _ _ | .requeue _ => a = .routeBatch
  | .connect _ => a.connects
  | .quiesce _ | .setDeadline _ => a.drains
  | _ => True

end Action

namespace World

variable (w : World) {st : State}

/-- The moves that a call may change the core by. -/
def moves (action : Action) (st : State) : Move → Prop :=
  match action with
  | .allocate _ _ => Move.byAllocate
  | .activate r => Move.byActivate r (w.now st) st.core
  | .registerSchema _ | .registerComponent _ _ | .hold _ _ | .serviceRequest _ _ _ _ _
  | .activity _ | .pollActivity _ _ _ => fun _ => False
  | .subscribe _ _ | .link _ _ _ => Move.byConnect
  | .unsubscribe route => Move.byUnroute route
  | .send r _ _ | .sendHeld r _ | .sendHeldFrom _ r _ => Move.bySend st.core r
  | .sendPort port _ _ => Move.bySend st.core port.owner
  | .request _ r _ _ _ => Move.byRequest st.core r
  | .resumeRequest call => Move.byRequest st.core call.target
  | .completeOperation _ _ _ _ | .cancelOperation _ | .takeOperation _ => Move.onOperation
  | .publish source _ _ => Move.byPublish source none false
  | .publishPort source _ _ => Move.byPublish source.owner (some source.index) false
  | .deliveryPublish _ source _ _ => Move.byPublish source.owner (some source.index) true
  | .taskPublish _ source port _ _ => Move.byPublish source port true
  | .cloneTicket _ | .dropTicket _ => Move.isTicket
  | .routeBatch => Move.byTurn w.cfg.routingBatchSize st.core
  | .claim r => Move.byClaim w.clock st.core.subs (w.claim r st).2.core r
  | .finishDelivery lease _ | .dropDelivery lease => Move.byRelease lease
  | .finishPython r | .trackTask r | .dropTask r | .claimNativeCallback r _
  | .claimNativeDrainCallback r | .dropCallback r => Move.byHold r
  | .reportFailure r event schema op phase failure =>
    Move.byHandler r (Ended (w.reportFailure r event schema op phase failure st).2.core.nodes)
  | .claimFailure r => Move.byHandler r fun _ => False
  | .finishFailure lease failure =>
    Move.byHandler lease.supervisor (Ended (w.finishFailure lease failure st).2.core.nodes)
  | .dropFailure lease => Move.byHandler lease.supervisor fun _ => False
  | .registerService _ _ _ => Move.byRegister
  | .acquireService _ _ _ | .acquireServiceFrom _ _ _ _ =>
    Move.byService fun _ => False
  | .releaseService lease => Move.byFence (Ended (w.releaseService lease st).2.core.nodes)
  | .stop r => Move.byFence (Ended (w.stop r st).2.core.nodes)
  | .close => Move.byFence (Ended (w.close st).core.nodes)
  | .requestDrain r deadline =>
    Move.byDraining (Ended (w.requestDrain r deadline st).2.core.nodes)
  | .drainAll deadline => Move.byDraining (Ended (w.drainAll deadline st).core.nodes)
  | .maintain now => Move.byMaintenance now st.core (Ended (w.maintain now st).core.nodes)

variable {w}

theorem registerSchema_core (version : ℕ) : (registerSchema version st).core = st.core := by
  unfold registerSchema
  split_ifs <;> rfl

theorem registerComponent_core (owner : ActorRef) (d : ComponentDescriptor) :
    (w.registerComponent owner d st).2.core = st.core := by
  unfold registerComponent
  rcases w.registrable owner d st with e | incoming
  · rfl
  · apply State.core_modify_soft <;> exact fun a => rfl

theorem activity_core : (w.activity r st).2.core = st.core := by
  unfold activity
  rcases w.checkRef r st with e | a <;> rfl

theorem pollActivity_core (observed waker : ℕ) :
    (w.pollActivity r observed waker st).2.core = st.core := by
  unfold pollActivity
  rcases w.checkRef r st with e | a <;> rfl

/-- A lease that is not outstanding changes nothing. -/
theorem outstanding_evolves {α : Type} [DecidableEq α] {leases : List α} {lease : α}
    {call : Outcome × State} {P : Move → Prop}
    (h : lease ∈ leases → Evolves w.id P st.core call.2.core) :
    Evolves w.id P st.core (outstanding leases lease call st).2.core := by
  unfold outstanding
  split_ifs with hl
  · exact h hl
  · exact .refl _

theorem step_evolves (hv : st.core.Valid w.id) (action : Action) :
    Evolves w.id (w.moves action st) st.core (w.step action st).2.core := by
  have hticket : ∀ {t : PublicationTable}, Step w.id st.core .ticket { st.core with publications := t } →
      Evolves w.id Move.isTicket st.core { st.core with publications := t } := fun hs =>
    .single hv (m := .ticket) rfl hs (by simp) (by simp [Move.loosens])
  cases action with
  | allocate kind parent => exact allocate_evolves hv
  | activate r => exact activate_evolves hv
  | finishPython r => exact finishPython_evolves hv
  | registerSchema version => exact .still (registerSchema_core version)
  | registerComponent owner d => exact .still (registerComponent_core owner d)
  | subscribe source target => exact subscribe_evolves hv
  | unsubscribe route => exact (unsubscribe_spec hv route).1
  | link owner source target => exact link_evolves hv
  | hold p options => exact .still (core_holdWith p options)
  | send r p options => exact (sendWith_sent hv p options).evolves hv
  | sendPort port p options => exact (sendPortWith_sent hv port p options).evolves hv
  | sendHeld r held => exact (sendHeld_sent hv held).evolves hv
  | sendHeldFrom owner r held => exact (sendHeldFrom_sent hv owner held).evolves hv
  | request owner r p deadline options =>
    exact (requestWithPort_spec hv p deadline options none).evolves
  | serviceRequest lease port p deadline options =>
    exact .still (serviceRequest_core lease port p deadline options)
  | resumeRequest call =>
    exact outstanding_evolves fun _ =>
      (@requestWithPort_spec _ ({ st with serviceCalls := st.serviceCalls.erase call }) _ _ hv call.payload call.deadline call.options (some call.port)).evolves
  | completeOperation op r p options => exact completeOperationWith_evolves hv p options
  | cancelOperation op => exact cancelOperation_evolves hv
  | takeOperation op => exact takeOperation_evolves hv
  | publish source p options => exact (publishInternal_spec hv p none options).evolves
  | publishPort source p options => exact (publishInternal_spec hv p none options).evolves
  | deliveryPublish lease source p options =>
    refine outstanding_evolves fun _ => ?_
    rcases deliveryPublish_spec hv lease source p options with h | h
    · exact .still h
    · exact h.evolves
  | taskPublish owner source port p options =>
    exact outstanding_evolves fun _ => (publishInternal_spec hv p (some owner) options).evolves
  | cloneTicket ticket => exact hticket (.cloneHandle ticket)
  | dropTicket ticket => exact hticket (.dropHandle ticket)
  | routeBatch => exact routeBatch_evolves hv
  | claim r => exact (claim_spec hv).1
  | finishDelivery lease success =>
    exact outstanding_evolves fun hl => finishDelivery_evolves hv hl success
  | dropDelivery lease => exact outstanding_evolves fun hl => dropDelivery_evolves hv hl
  | trackTask r => exact trackTask_evolves hv
  | dropTask r => exact outstanding_evolves fun hr => dropTask_evolves hv hr
  | claimNativeCallback r startup =>
    exact claimNativeHook_evolves hv (by cases startup <;> decide)
  | claimNativeDrainCallback r => exact claimNativeHook_evolves hv (by decide)
  | dropCallback r => exact outstanding_evolves fun hr => dropCallback_evolves hv hr
  | reportFailure r event schema op phase failure => exact reportFailure_evolves hv
  | claimFailure r => exact claimFailure_evolves hv
  | finishFailure lease failure =>
    exact outstanding_evolves fun hl => finishFailure_evolves hv hl failure
  | dropFailure lease => exact outstanding_evolves fun hl => dropFailure_evolves hv hl
  | registerService name target required => exact registerService_evolves hv
  | acquireService owner name required => exact acquireService_evolves hv
  | acquireServiceFrom owner name required expected => exact acquireServiceFrom_evolves hv
  | releaseService lease => exact releaseService_stops hv lease
  | stop r => exact stop_stops hv r
  | close => exact close_stops hv
  | requestDrain r deadline => exact requestDrain_evolves hv deadline
  | drainAll deadline => exact drainAll_evolves hv deadline
  | maintain now =>
    show Maintains _ now _ (w.maintain now st).core
    rw [maintain_core]
    exact maintainLocked_maintains hv
  | activity r => exact .still activity_core
  | pollActivity r observed waker => exact .still (pollActivity_core observed waker)

theorem makes_of_moves {action : Action} {m : Move} (h : w.moves action st m)
    (hm : ¬m.fencing) : action.makes m := by
  have hfence : ∀ {D : ActorRef → Prop}, ¬m.byFence D := fun h => hm h.fencing
  have hexpiry : ∀ {now : Instant} {c : Core}, ¬m.byExpiry now c := fun h => hm h.fencing
  have hupkeep : ∀ {D : ActorRef → Prop}, ¬m.byUpkeep D := fun h => hm h.fencing
  have hmaintenance : ∀ {now : Instant} {c : Core} {D : ActorRef → Prop},
      ¬m.byMaintenance now c D := fun h => h.elim hexpiry hupkeep
  have hhandler : ∀ {r : ActorRef} {D : ActorRef → Prop}, m.byHandler r D → action.makes m :=
    fun h => h.elim (fun he => he ▸ trivial) fun h => absurd h hfence
  have hhold : ∀ {r : ActorRef}, m.byHold r → action.makes m := fun h => by
    cases m <;> first | exact trivial | exact h.elim
  have honop : m.onOperation → action.makes m := fun h => by
    rcases h with rfl | ⟨id, o, rfl⟩ | ⟨id, rfl⟩ <;> exact trivial
  have hdrain : ∀ {D : ActorRef → Prop}, action.drains → m.byDraining D → action.makes m := by
    rintro D ha ((⟨root, rfl | rfl⟩ | h) | ⟨now, c₀, h⟩)
    · exact ha
    · exact ha
    · exact absurd h hfence
    · exact absurd h hmaintenance
  have hservice : ∀ {D : ActorRef → Prop}, action.allocates → m.byService D → action.makes m := by
    rintro D ha (rfl | ⟨r, rfl | rfl⟩ | h)
    · trivial
    · exact ha
    · trivial
    · exact absurd h hfence
  have hsend : ∀ {r : ActorRef}, action.sendsTo = some r → m.bySend st.core r → action.makes m := by
    rintro r ha (rfl | ⟨x, rfl, -⟩)
    · trivial
    · exact ha
  have hrequest : ∀ {r : ActorRef}, action.sendsTo = some r → action.requests →
      m.byRequest st.core r → action.makes m := by
    rintro r ha hr (h | ⟨id, rfl | rfl | rfl⟩)
    · exact hsend ha h
    · exact hr
    · exact hr
    · exact hr
  have hconnect : action.connects → m.byConnect → action.makes m := fun ha h => by
    cases m <;> first | exact ha | exact h.elim
  have hpublish : ∀ {source : ActorRef} {port : Option ℕ} {completion : Bool},
      action.publishes = some (source, port, completion) →
      m.byPublish source port completion → action.makes m := fun ha h => by
    cases m <;> first | exact trivial | exact h.elim | skip
    case accept p =>
      obtain ⟨rfl, rfl, rfl⟩ := h
      exact ha
  have hrelease : ∀ {lease : DeliveryLease}, (∃ s, action = .finishDelivery lease s) ∨
      action = .dropDelivery lease → m.byRelease lease → action.makes m := fun ha h => by
    cases m <;> first | exact trivial | exact h.elim | (cases h; exact ha)
  cases action with
  | allocate kind parent =>
    obtain ⟨r, rfl⟩ := h
    trivial
  | activate r =>
    rcases h with rfl | h | h
    · rfl
    · exact absurd h hexpiry
    · cases m <;> first | exact ⟨r, rfl⟩ | exact h.elim
  | subscribe => exact hconnect trivial h
  | link => exact hconnect trivial h
  | unsubscribe route => cases m <;> first | exact trivial | exact h.elim
  | send => exact hsend rfl h
  | sendPort => exact hsend rfl h
  | sendHeld => exact hsend rfl h
  | sendHeldFrom => exact hsend rfl h
  | request => exact hrequest rfl trivial h
  | resumeRequest => exact hrequest rfl trivial h
  | completeOperation => exact honop h
  | cancelOperation => exact honop h
  | takeOperation => exact honop h
  | publish => exact hpublish rfl h
  | publishPort => exact hpublish rfl h
  | deliveryPublish => exact hpublish rfl h
  | taskPublish => exact hpublish rfl h
  | cloneTicket => exact (show m = .ticket from h) ▸ trivial
  | dropTicket => exact (show m = .ticket from h) ▸ trivial
  | routeBatch => cases m <;> first | exact trivial | exact rfl | exact h.elim
  | claim r =>
    cases m <;> first | exact trivial | exact h.elim | skip
    case start q x => exact h.1 ▸ rfl
  | finishDelivery lease success => exact hrelease (.inl ⟨success, rfl⟩) h
  | dropDelivery lease => exact hrelease (.inr rfl) h
  | finishPython => exact hhold h
  | trackTask => exact hhold h
  | dropTask => exact hhold h
  | claimNativeCallback => exact hhold h
  | claimNativeDrainCallback => exact hhold h
  | dropCallback => exact hhold h
  | reportFailure => exact hhandler h
  | claimFailure => exact hhandler h
  | finishFailure => exact hhandler h
  | dropFailure => exact hhandler h
  | registerService => exact (show m = .serve from h) ▸ trivial
  | acquireService => exact hservice trivial h
  | acquireServiceFrom => exact hservice trivial h
  | releaseService => exact absurd h hfence
  | stop => exact absurd h hfence
  | close => exact absurd h hfence
  | requestDrain => exact hdrain trivial h
  | drainAll => exact hdrain trivial h
  | maintain => exact absurd h hmaintenance
  | _ => exact h.elim

/-! ## Reachable states -/

/-- What holds whenever the World lock is free. -/
structure Rests (w : World) (st : State) : Prop where
  valid : st.core.Valid w.id
  draining : st.core.Draining fun _ => False
  blocked : st.core.Blocked fun _ => False

theorem Rests.step (h : w.Rests st) (action : Action) : w.Rests (w.step action st).2 := by
  have he := step_evolves h.valid action
  exact ⟨he.valid h.valid, he.draining _ h.draining, he.blocked _ h.blocked⟩

end World

end Actorplane
