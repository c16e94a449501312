import Actorplane.Locked.Failures

/-!
# Services and leases under the World lock

Registration names an active root, acquiring allocates a scope that starts active,
and releasing a lease stops its scope.
-/

namespace Actorplane

variable {world : ℕ} {c c' : Core} {r : ActorRef} {n : Node}

/-- The move of a registration. -/
def Move.byRegister (m : Move) : Prop := m = .serve

/-- The moves of a service call. -/
def Move.byService (D : ActorRef → Prop) (m : Move) : Prop :=
  m = .serve ∨ (∃ r, m = .allocate r ∨ m = .lease r) ∨ m.byFence D

namespace World

variable {w : World} {st : State} {a : Actor} {owner target : ActorRef} {name : String}
  {required : InterfaceSpec} {expected : Option ActorRef}

theorem serviceRegistrable_ok (h : w.serviceRegistrable name target required st = .ok ()) :
    ∃ a, w.checkRef target st = .ok a ∧ a.parent = none ∧ a.state = .active := by
  unfold serviceRegistrable at h
  dsimp only at h
  obtain ⟨-, h⟩ := guard_ok.mp h
  obtain ⟨-, h⟩ := guard_ok.mp h
  obtain ⟨-, h⟩ := guard_ok.mp h
  obtain ⟨a, ha, h⟩ := bind_ok.mp h
  obtain ⟨hc, -⟩ := guard_ok.mp h
  refine ⟨a, ha, ?_⟩
  simp only [Bool.or_eq_true, decide_eq_true_eq, not_or, not_not, Option.not_isSome_iff_eq_none]
    at hc
  exact ⟨hc.1.2, hc.2⟩

theorem registerService_evolves (hv : st.core.Valid w.id) :
    Evolves w.id Move.byRegister st.core (w.registerService name target required st).2.core := by
  unfold registerService
  rcases h : w.serviceRegistrable name target required st with e | u
  · exact .refl _
  obtain ⟨a, ha, hp, hst⟩ := serviceRegistrable_ok h
  have hn := seated_of_check hv.owned ha
  dsimp only
  rw [State.core_touchActivity, core_markActivityDependentsLocked]
  set services : Registry :=
    { st.services with
      byTarget := AList.insert target name st.services.byTarget
      records := AList.insert name ⟨name, target, required, []⟩ st.services.records } with hservices
  have hs : Step w.id st.core .serve { st.core with services := services } := by
    have hstate : a.node.state = .active := hst
    refine .serve services target name a.node hn hp (by simp [hstate]) (by simp [hstate]) rfl rfl
      fun name' record hrec => ?_
    simp only [hservices, Assoc.lookup_insert_ite] at hrec
    split_ifs at hrec
    · cases hrec
      exact .inl rfl
    · exact .inr hrec
  exact .single hv rfl hs (by simp) (by simp [Move.loosens])

theorem acquirable_ok {record : ServiceRecord}
    (h : w.acquirable owner name required expected st = .ok record) :
    st.services.records.lookup name = some record := by
  unfold acquirable at h
  dsimp only at h
  obtain ⟨-, h⟩ := guard_ok.mp h
  obtain ⟨-, h⟩ := guard_ok.mp h
  obtain ⟨s, -, h⟩ := bind_ok.mp h
  obtain ⟨-, h⟩ := guard_ok.mp h
  rcases hrec : st.services.records.lookup name with - | found
  · rw [hrec] at h
    cases h
  rw [hrec] at h
  obtain ⟨-, h⟩ := guard_ok.mp h
  obtain ⟨-, h⟩ := guard_ok.mp h
  obtain ⟨a, -, h⟩ := bind_ok.mp h
  obtain ⟨-, h⟩ := guard_ok.mp h
  obtain ⟨-, h⟩ := guard_ok.mp h
  exact congrArg some (Except.ok.inj h)

theorem core_placeLease {record : ServiceRecord} {l : ServiceLease}
    (hrec : st.services.records.lookup name = some record) :
    ∃ services : Registry, (placeLease name l st).core = { st.core with services := services } ∧
      services.byTarget = st.services.byTarget ∧
      services.leases = AList.insert l.scope l st.services.leases ∧
      ∀ name' record', services.records.lookup name' = some record' →
        ∃ old, st.services.records.lookup name' = some old ∧ record'.service = old.service ∧
          ∀ x ∈ record'.scopes, x ∈ old.scopes ∨ x = l.scope := by
  unfold placeLease
  rw [hrec]
  refine ⟨_, rfl, rfl, rfl, fun name' record' h => ?_⟩
  simp only [Assoc.lookup_insert_ite] at h
  split_ifs at h with hname
  · cases h
    exact ⟨record, hname ▸ hrec, rfl, fun x hx => (List.mem_insert_iff.mp hx).symm⟩
  · exact ⟨record', h, rfl, fun x hx => .inl hx⟩

/-- A scope leaves the registry and the state of its owner alone. -/
theorem services_allocateLocked {kind : EndpointKind} {scope : ActorRef}
    (ho : st.core.Owned w.id) (hok : (w.allocateLocked kind (some owner) st).1 = .ok scope) :
    (w.allocateLocked kind (some owner) st).2.services = st.services ∧
      ∀ m, Seated (w.allocateLocked kind (some owner) st).2.core.nodes owner m →
        m.state = .starting ∨ m.state = .active := by
  obtain ⟨hscope, hallows, hc⟩ := core_allocateLocked ho hok
  refine ⟨congrArg Core.services hc, fun m hm => ?_⟩
  have hf : FreshSlot st.core.nodes st.core.free scope := hscope ▸ nextRef_fresh
  obtain ⟨k, -, hk, hstate, -⟩ := parentAllows_ok ho hallows owner rfl
  rw [hc] at hm
  rcases (seated_alloc (hf.le ho)).mp hm with ⟨rfl, -⟩ | ⟨-, k₀, hk₀, rfl⟩
  · exact absurd hk hf.not_seated
  · obtain rfl := hk.unique hk₀
    rwa [(atParent_frame _ (.adopt scope) (fun _ => ⟨rfl, rfl, rfl⟩) k).2.1]

theorem acquireServiceLockedTarget_evolves (hv : st.core.Valid w.id) :
    Evolves w.id (Move.byService fun _ => False) st.core
      (w.acquireServiceLockedTarget owner name required expected st).2.core := by
  unfold acquireServiceLockedTarget
  rcases h : w.acquirable owner name required expected st with e | record
  · exact .refl _
  have hrec := acquirable_ok h
  dsimp only
  rcases @allocateLocked_spec w _ .native (some owner) hv with
    ⟨e, he, hsame⟩ | ⟨scope, hok, hs₁, hn₁⟩
  · rcases hcall : w.allocateLocked .native (some owner) st with ⟨e' | r, st'⟩
    · rw [hcall] at hsame
      obtain rfl : st' = st := hsame
      exact .refl _
    · simp [hcall] at he
  obtain ⟨hserv, howner⟩ := services_allocateLocked hv.owned hok
  rcases hcall : w.allocateLocked .native (some owner) st with ⟨e' | scope', st₁⟩
  · simp [hcall] at hok
  rw [hcall] at hok hs₁ hn₁ hserv howner
  obtain rfl : scope' = scope := Except.ok.inj hok
  dsimp only at hs₁ hn₁ hserv howner ⊢
  have hv₁ := hv.step hs₁
  have h₁ : Evolves w.id (Move.byService fun _ => False) st.core st₁.core :=
    .single hv (.inr (.inl ⟨scope', .inl rfl⟩)) hs₁ (by simp) (by simp [Move.loosens])
  obtain ⟨a, hget, hnode⟩ := State.actors_get_of_node hn₁.1
  set put : Actor → Actor := fun a => { a with state := .active }
  set st₂ := w.refreshPythonReadyLocked scope' (st₁.modifyActor scope' put) with hst₂
  have hc₂ : st₂.core = st₁.core.setNode scope'.slot { a.node with state := .active } := by
    rw [hst₂, core_refreshPythonReadyLocked, State.core_modify_node put hget rfl rfl]
    rfl
  have hrec₂ : st₂.services.records.lookup name = some record := by
    show st₂.core.services.records.lookup name = some record
    rw [hc₂]
    show st₁.services.records.lookup name = some record
    rw [hserv]
    exact hrec
  obtain ⟨services, hc₃, hb, hl, hrecs⟩ := @core_placeLease st₂ _ _ (⟨scope', owner, record.service⟩) hrec₂
  rw [State.core_touchActivity, State.core_note_life _ rfl, core_markActivityDependentsLocked,
    core_markActivityDependentsLocked, hc₃, hc₂]
  refine h₁.trans (.single hv₁ (m := .lease scope') (.inr (.inl ⟨scope', .inr rfl⟩)) ?_ (by simp)
    (by simp [Move.loosens]))
  have hserv₂ : st₂.services = st₁.core.services := by
    show st₂.core.services = _
    rw [hc₂]
    rfl
  rw [hserv₂] at hb hl hrecs
  refine .lease a.node services ⟨scope', owner, record.service⟩ (hnode ▸ hn₁) (by rw [hnode]; rfl)
    (by rw [hnode]; rfl) howner hb hl hrecs

theorem acquireService_evolves (hv : st.core.Valid w.id) :
    Evolves w.id (Move.byService fun _ => False) st.core
      (w.acquireService owner name required st).2.core :=
  acquireServiceLockedTarget_evolves hv

theorem acquireServiceFrom_evolves (hv : st.core.Valid w.id) {service : ActorRef} :
    Evolves w.id (Move.byService fun _ => False) st.core
      (w.acquireServiceFrom owner name required service st).2.core := by
  unfold acquireServiceFrom
  split_ifs
  · exact .refl _
  · exact acquireServiceLockedTarget_evolves hv

theorem releaseService_stops (hv : st.core.Valid w.id) (l : ServiceLease) :
    Stops w.id st.core (w.releaseService l st).2.core := by
  unfold releaseService
  split_ifs
  · exact .refl _
  rcases st.services.leases.lookup l.scope with - | current
  · exact .refl _
  dsimp only
  split_ifs
  · exact .refl _
  have h : Stops w.id st.core (w.stopLocked l.scope st).2.core :=
    (stopLocked_fences hv (st.core.closed_doomed l.scope) .self).fenced.stops
  rcases hcall : w.stopLocked l.scope st with ⟨e | u, st'⟩
  · rw [hcall] at h
    exact h
  · rw [hcall] at h
    exact h

theorem serviceRequest_core (l : ServiceLease) (port : String) (p : Payload) (deadline : Instant)
    (options : MessageOptions) :
    (w.serviceRequest l port p deadline options st).2.core = st.core := by
  unfold serviceRequest
  rcases w.serviceRequestable l port p st with e | q <;> rfl

end World

end Actorplane
