import Actorplane.Locked.Turns

/-!
# Actors and the leases on them

Allocation takes a free slot under a parent that still starts actors, activation
flushes the staged outputs that it makes routable, and every call that releases a
blocker of an actor settles this actor.
-/

namespace Actorplane

variable {world : ℕ} {c c' c'' : Core} {r : ActorRef} {n : Node}

/-- The moves of an allocation. -/
def Move.byAllocate (m : Move) : Prop := ∃ r, m = .allocate r

namespace World

variable {w : World} {st : State} {a : Actor} {kind : EndpointKind} {parent : Option ActorRef}

/-! ## Allocation -/

theorem depthAllowed_ok (ho : st.core.Owned w.id) {steps : ℕ} {next : Option ActorRef}
    (h : w.depthAllowed st steps next = .ok ()) {p : ActorRef} {l : List ActorRef}
    (hp : next = some p) (hl : Lineage st.core.nodes p l) : l.length ≤ steps := by
  induction steps generalizing next p l with
  | zero =>
    subst hp
    cases h
  | succ steps ih =>
    subst hp
    unfold depthAllowed at h
    rcases ha : w.checkRef p st with e | a
    · simp [ha] at h
    simp only [ha] at h
    have hn := seated_of_check ho ha
    cases hl with
    | root => simp
    | @child _ m q l hm hq hl =>
      have hpar : a.parent = some q := by
        rw [← hq, hm.unique hn]
        rfl
      have := ih h hpar hl
      simp only [List.length_cons]
      omega

theorem parentAllows_ok (ho : st.core.Owned w.id) (h : w.parentAllows parent st = .ok ()) :
    ∀ p, parent = some p → ∃ m l, Seated st.core.nodes p m ∧
      (m.state = .starting ∨ m.state = .active) ∧ Lineage st.core.nodes p l ∧ l.length ≤ 128 := by
  rintro p rfl
  unfold parentAllows at h
  rcases ha : w.checkRef p st with e | a
  · simp [ha, bind, Except.bind] at h
  simp only [ha, bind, Except.bind] at h
  by_cases hm : mayConnect a.state = true
  swap
  · rw [if_pos (by simpa using hm)] at h
    cases h
  rw [if_neg (by simpa using hm)] at h
  have hn := seated_of_check ho ha
  have hs : a.node.state = .starting ∨ a.node.state = .active := mayConnect_iff.mp hm
  obtain ⟨l, hl, -⟩ := ho.lineage p a.node hn (by rcases hs with hs | hs <;> simp [hs])
  refine ⟨a.node, l, hn, hs, hl, ?_⟩
  cases hl with
  | root => simp
  | @child _ m q l hm' hq hl =>
    have hpar : a.parent = some q := by
      rw [← hq, hm'.unique hn]
      rfl
    have := depthAllowed_ok ho h hpar hl
    simp only [List.length_cons]
    omega

theorem nextRef_fresh : FreshSlot st.core.nodes st.core.free (w.nextRef st) := by
  refine ⟨?_, fun n hn => ?_⟩
  · show st.free.headD st.actors.length = st.free.headD (st.actors.map Actor.node).length
    rw [List.length_map]
  · obtain ⟨a, ha, rfl⟩ := State.actors_get_of_node hn
    have ha : st.actors[nextSlot st]? = some a := ha
    show a.reference.generation < (w.nextRef st).generation
    unfold nextRef
    dsimp only
    rw [ha]
    exact Nat.lt_succ_self _

theorem core_placeActor (x : Actor) :
    (placeActor x st).core =
      { st.core with
        nodes := put st.core.nodes x.reference.slot x.node
        boxes := put st.core.boxes x.reference.slot x.box
        holds := put st.core.holds x.reference.slot x.hold
        free := st.core.free.tail } := by
  have hput : ∀ {β : Type} (f : Actor → β),
      (if x.reference.slot = st.actors.length then st.actors ++ [x]
        else st.actors.set x.reference.slot x).map f =
      put (st.actors.map f) x.reference.slot (f x) := fun f => put_map f st.actors _ x
  unfold placeActor
  dsimp only
  simp only [State.core, hput]

/-- The columns after a new actor was placed and adopted. -/
theorem core_allocateLocked (ho : st.core.Owned w.id) {r : ActorRef}
    (hok : (w.allocateLocked kind parent st).1 = .ok r) :
    r = w.nextRef st ∧ w.parentAllows parent st = .ok () ∧
      (w.allocateLocked kind parent st).2.core =
        { st.core with
          nodes := allocNodes st.core.nodes r parent
          boxes := put st.core.boxes r.slot ⟨[], [], false⟩
          holds := put st.core.holds r.slot ⟨false, false, 0, kind = .native⟩
          live := st.core.live + 1
          free := st.core.free.tail } := by
  unfold allocateLocked at hok ⊢
  by_cases hlimit : w.cfg.maxActors ≤ st.liveActors
  · simp [hlimit] at hok
  rw [if_neg hlimit] at hok ⊢
  rcases hp : w.parentAllows parent st with e | u
  · simp [hp] at hok
  rw [hp] at hok
  dsimp only at hok ⊢
  by_cases horder : u64Max ≤ st.nextReadyOrder
  · simp [horder] at hok
  rw [if_neg horder] at hok ⊢
  dsimp only at hok ⊢
  obtain rfl : w.nextRef st = r := Except.ok.inj hok
  refine ⟨rfl, rfl, ?_⟩
  have hfresh := @nextRef_fresh w st
  set r := w.nextRef st with hr
  set x := newActor r st.nextReadyOrder kind parent with hx
  have hplace := @core_placeActor st x
  set st₁ := placeActor x st with hst₁
  have hle : r.slot ≤ st.core.nodes.length := hfresh.le ho
  rw [core_markActivityDependentsLocked, core_refreshPythonReadyLocked]
  rcases parent with - | p
  · show ({ st₁.core with live := st₁.core.live + 1 } : Core) = _
    rw [hplace]
    have hnodes : allocNodes st.core.nodes r none = put st.core.nodes r.slot x.node := by
      refine List.ext_getElem? fun j => ?_
      rw [allocNodes_get hle, put_get hle]
      split_ifs
      · rfl
      · cases st.core.nodes[j]? <;> rfl
    rw [hnodes]
    rfl
  · obtain ⟨m, l, hm, hstate, hl, -⟩ := parentAllows_ok ho hp p rfl
    have hslot : p.slot ≠ r.slot := by
      intro he
      have := (hfresh.old_stopped ho (he ▸ hm.1)).1
      rcases hstate with hs | hs <;> simp [this] at hs
    obtain ⟨b, hb, rfl⟩ := State.actors_get_of_node hm.1
    have hb₁ : st₁.actors[p.slot]? = some b := by
      have hlen : r.slot ≤ st.actors.length := by simpa [State.core] using hle
      show (put st.actors r.slot x)[p.slot]? = some b
      rw [put_get hlen, if_neg hslot, hb]
    have hnodes : allocNodes st.core.nodes r (some p) =
        (put st.core.nodes r.slot x.node).set p.slot (b.node.adopt r) := by
      refine List.ext_getElem? fun j => ?_
      have hlt : p.slot < (put st.core.nodes r.slot x.node).length := by
        have := (List.getElem?_eq_some_iff.mp hm.1).1
        rw [put_length hle]
        omega
      rw [allocNodes_get hle, List.getElem?_set, put_get hle]
      by_cases hpj : p.slot = j
      · subst hpj
        rw [if_neg hslot, if_pos rfl, if_pos hlt, hm.1]
        have : b.node.reference = p := hm.2
        simp [atParent, this]
      · rw [if_neg hpj]
        split_ifs with hj
        · rfl
        · rcases hk : st.core.nodes[j]? with - | k
          · rfl
          · have hne : p ≠ k.reference := fun he => hpj (he ▸ (ho.slotted j k hk).2)
            simp [atParent, hne]
    set put' : Actor → Actor := fun a => { a with children := a.children ++ [r] }
    show ({ (st₁.modifyActor p put').core with live := (st₁.modifyActor p put').core.live + 1 } :
      Core) = _
    rw [State.core_modify_node put' hb₁ rfl rfl, hplace, hnodes]
    rfl

theorem allocateLocked_spec (hv : st.core.Valid w.id) :
    (∃ e, (w.allocateLocked kind parent st).1 = .error e ∧
        (w.allocateLocked kind parent st).2 = st) ∨
      ∃ r, (w.allocateLocked kind parent st).1 = .ok r ∧
        Step w.id st.core (.allocate r) (w.allocateLocked kind parent st).2.core ∧
        Seated (w.allocateLocked kind parent st).2.core.nodes r (.fresh r parent) := by
  rcases hcall : (w.allocateLocked kind parent st).1 with e | r
  · refine .inl ⟨e, rfl, ?_⟩
    unfold allocateLocked at hcall ⊢
    by_cases hlimit : w.cfg.maxActors ≤ st.liveActors
    · rw [if_pos hlimit]
    rw [if_neg hlimit] at hcall ⊢
    rcases hp : w.parentAllows parent st with e' | u
    · rfl
    rw [hp] at hcall
    dsimp only at hcall ⊢
    by_cases horder : u64Max ≤ st.nextReadyOrder
    · rw [if_pos horder]
    · rw [if_neg horder] at hcall
      cases hcall
  · obtain ⟨hr, hp, hc⟩ := core_allocateLocked hv.owned hcall
    refine .inr ⟨r, rfl, ?_⟩
    have hfresh : FreshSlot st.core.nodes st.core.free r := hr ▸ nextRef_fresh
    rw [hc]
    refine ⟨.allocate parent _ hfresh (hr ▸ rfl) (parentAllows_ok hv.owned hp), ?_, rfl⟩
    rw [allocNodes_get (hfresh.le hv.owned), if_pos rfl]

theorem allocate_evolves (hv : st.core.Valid w.id) :
    Evolves w.id Move.byAllocate st.core (w.allocate kind parent st).2.core := by
  unfold allocate
  split_ifs
  · exact .refl _
  rw [State.core_touchActivity]
  rcases @allocateLocked_spec _ _ kind parent hv with ⟨e, -, h⟩ | ⟨r, -, hs, -⟩
  · rw [h]
    exact .refl _
  · exact .single hv ⟨r, rfl⟩ hs (by simp) (by simp [Move.loosens])

end World

/-! ## Activation -/

/-- The moves of an activation and of the flush that it triggers. -/
def Move.byActivate (r : ActorRef) (now : Instant) (c₀ : Core) (m : Move) : Prop :=
  m = .activate r ∨ m.byActivationFlush now c₀

namespace World

variable {w : World} {st : State} {a : Actor}

theorem activatable_ok (ho : st.core.Owned w.id) (h : w.activatable r st = .ok ()) :
    ∃ a, w.checkRef r st = .ok a ∧ a.state = .starting ∧
      ∀ p m, a.parent = some p → Seated st.core.nodes p m → m.state = .starting ∨ m.state = .active := by
  unfold activatable at h
  obtain ⟨a, ha, h⟩ := bind_ok.mp h
  refine ⟨a, ha, ?_⟩
  have hstarting : ∀ {x : Except Error Unit},
      (if a.state ≠ .starting then throw .actorStopped else x) = .ok () → a.state = .starting := by
    intro x hx
    by_contra hne
    rw [if_pos hne] at hx
    cases hx
  dsimp only at h
  rcases hp : a.parent with - | p
  · rw [hp] at h
    exact ⟨hstarting h, by simp⟩
  · rw [hp] at h
    obtain ⟨parent, hparent, h⟩ := bind_ok.mp h
    by_cases hm : mayConnect parent.state = true
    · rw [if_neg (by simpa using hm)] at h
      refine ⟨hstarting h, ?_⟩
      rintro q m he hm'
      cases he
      rw [hm'.unique (seated_of_check ho hparent)]
      exact mayConnect_iff.mp hm
    · rw [if_pos (by simpa using hm)] at h
      cases h

theorem reads_refreshPythonSubtreeLocked :
    (w.refreshPythonSubtreeLocked r st).reads = st.reads := by
  unfold refreshPythonSubtreeLocked
  generalize w.subtree st walkFuel r = refs
  induction refs generalizing st with
  | nil => rfl
  | cons x refs ih => rw [List.foldl_cons, ih]; rfl

theorem activate_evolves (hv : st.core.Valid w.id) :
    Evolves w.id (Move.byActivate r (w.now st) st.core) st.core (w.activate r st).2.core := by
  unfold activate
  rcases h : w.activatable r st with e | u
  · exact .refl _
  obtain ⟨a, ha, hst, hparent⟩ := activatable_ok hv.owned h
  obtain ⟨hget, hrefr⟩ := (checkRef_ok hv.owned).mp ha
  dsimp only
  rw [State.core_touchActivity]
  set put : Actor → Actor := fun a => { a with state := .active }
  set st₁ := w.markActivityTreeLocked r (w.refreshPythonSubtreeLocked r
    ((st.modifyActor r put).note (.activated r))) with hst₁
  have hc₁ : st₁.core =
      { st.core with
        nodes := st.core.nodes.set r.slot { a.node with state := .active }
        life := st.core.life ++ [.activated r] } := by
    rw [hst₁, core_markActivityTreeLocked, core_refreshPythonSubtreeLocked,
      State.core_note_life _ rfl, State.core_modify_node put hget rfl rfl]
    rfl
  have hnow : w.now st₁ = w.now st := by
    show w.clock (w.refreshPythonSubtreeLocked r _).reads = _
    rw [reads_refreshPythonSubtreeLocked]
    rfl
  clear_value st₁
  have hs : Step w.id st.core (.activate r) st₁.core := by
    rw [hc₁]
    exact .activate a.node (seated_of_check hv.owned ha) hst hparent
  have h₁ : Evolves w.id (Move.byActivate r (w.now st) st.core) st.core st₁.core :=
    .single hv (.inl rfl) hs (by simp) (by simp [Move.loosens])
  refine h₁.trans ((flushStagedLocked_evolves (hv.step hs)).mono fun m hm => .inr ?_)
  rw [hnow, hc₁] at hm
  refine hm.imp_left fun hm => ?_
  cases m <;> exact hm

/-! ## Python hosts and tasks -/

end World

/-- The moves of a call that changes what holds one actor. -/
def Move.byHold (r : ActorRef) : Move → Prop
  | .hold q => q = r
  | .finalize _ => True
  | _ => False

namespace World

variable {w : World} {st : State} {a : Actor}

/-- One actor's blockers change, and it is settled. -/
theorem hold_evolves {st₁ : State} (hv : st.core.Valid w.id) (hs : Step w.id st.core (.hold r) st₁.core) :
    Evolves w.id (Move.byHold r) st.core (w.tryFinalize walkFuel r st₁).core := by
  have hn : ∃ n, Seated st.core.nodes r n ∧ st₁.core.nodes = st.core.nodes := by
    generalize st₁.core = c₁ at hs
    cases hs with
    | hold n h h' failures callbacks tasks hn => exact ⟨n, hn, rfl⟩
  obtain ⟨n, hn, hnodes⟩ := hn
  refine .settle (m := .hold r) hv rfl hs (by simp) ?_ (tryFinalize_settles (hv.step hs) fun x => trivial)
  intro x k hx hloose
  rw [hnodes] at hx
  exact hx.slot_eq hn hloose

/-- Settling alone breaks nothing. -/
theorem tryFinalize_evolves (hv : st.core.Valid w.id) (r q : ActorRef) :
    Evolves w.id (Move.byHold q) st.core (w.tryFinalize walkFuel r st).core := by
  have h := tryFinalize_settles (w := w) (P := Move.byHold q) (r := r) hv fun x => trivial
  exact ⟨h.steps, h.draining, fun X hX => h.blocked X (hX.mono fun x hx => .inl hx)⟩

/-- One actor's blockers change without a release: the actor is not stopping. -/
theorem grip_evolves {st₁ : State} (hv : st.core.Valid w.id)
    (hs : Step w.id st.core (.hold r) st₁.core)
    (hr : ∀ n, Seated st.core.nodes r n → n.state ≠ .stopping) :
    Evolves w.id (Move.byHold r) st.core st₁.core := by
  have hn : ∃ n, Seated st.core.nodes r n ∧ st₁.core.nodes = st.core.nodes := by
    generalize st₁.core = c₁ at hs
    cases hs with
    | hold n h h' failures callbacks tasks hn => exact ⟨n, hn, rfl⟩
  obtain ⟨n, hn, hnodes⟩ := hn
  refine .settle (r := r) (m := .hold r) hv rfl hs (by simp) ?_ (.refl fun n hn hst => ?_)
  · intro x k hx hloose
    rw [hnodes] at hx
    exact hx.slot_eq hn hloose
  · rw [hnodes] at hn
    exact absurd hst (hr n hn)

theorem holds_set_self {h : Hold} (hh : st.core.holds[r.slot]? = some h) :
    st.core.setHold r.slot h = st.core := by
  have hlt := (List.getElem?_eq_some_iff.mp hh).1
  have : st.core.holds.set r.slot h = st.core.holds := by
    rw [← (List.getElem?_eq_some_iff.mp hh).2]
    exact List.set_getElem_self hlt
  simp only [Core.setHold, this]

theorem finishPython_evolves (hv : st.core.Valid w.id) :
    Evolves w.id (Move.byHold r) st.core (w.finishPython r st).2.core := by
  unfold finishPython
  rcases ha : w.checkRef r st with e | a
  · exact .refl _
  obtain ⟨hget, -⟩ := (checkRef_ok hv.owned).mp ha
  have hn := seated_of_check hv.owned ha
  have hh := State.core_holds_get hget
  dsimp only
  rw [State.core_touchActivity]
  set put : Actor → Actor := fun a => { a with pythonDone := true }
  have hc : (st.modifyActor r put).core =
      st.core.setHold r.slot { a.hold with pythonDone := true } :=
    State.core_modify_hold put hget rfl rfl
  by_cases hst : a.state = .stopped
  · -- the host of a stopped actor was done before
    have hsame : (st.modifyActor r put).core = st.core := by
      have := hv.controlled.released r a.node a.hold hn hst hh
      rw [this] at hh
      rw [hc, this]
      exact holds_set_self hh
    have h := @tryFinalize_evolves w (st.modifyActor r put) (hsame ▸ hv) r r
    rwa [hsame] at h
  · have hs : Step w.id st.core (.hold r) (st.modifyActor r put).core := by
      rw [hc]
      exact .hold a.node a.hold _ _ _ _ hn hst hh .cleanup
    exact hold_evolves hv hs

theorem trackTask_evolves (hv : st.core.Valid w.id) :
    Evolves w.id (Move.byHold r) st.core (w.trackTask r st).2.core := by
  unfold trackTask
  rcases ha : w.checkRef r st with e | a
  · exact .refl _
  dsimp only
  split_ifs with hm
  · exact .refl _
  simp only [Bool.not_eq_true, Bool.not_eq_false'] at hm
  obtain ⟨hget, -⟩ := (checkRef_ok hv.owned).mp ha
  have hn := seated_of_check hv.owned ha
  have hstate : a.node.state = .starting ∨ a.node.state = .active := mayConnect_iff.mp hm
  set put : Actor → Actor := fun a => { a with nativeTasks := a.nativeTasks + 1 }
  set st₁ := w.markActivityDependentsLocked r (st.modifyActor r put) with hst₁
  have hc₁ : st₁.core = st.core.setHold r.slot { a.hold with tasks := a.hold.tasks + 1 } := by
    rw [hst₁, core_markActivityDependentsLocked, State.core_modify_hold put hget rfl rfl]
    rfl
  rw [State.core_touchActivity]
  refine @grip_evolves _ _ _ { st₁ with taskLeases := r :: st₁.taskLeases } hv ?_ fun n hn' => ?_
  · show Step w.id st.core (.hold r) { st₁.core with tasks := r :: st₁.core.tasks }
    rw [hc₁]
    exact .hold a.node a.hold _ _ _ _ hn (by rcases hstate with h | h <;> simp [h])
      (State.core_holds_get hget) .task
  · rw [hn'.unique hn]
    rcases hstate with h | h <;> simp [h]

theorem dropTask_evolves (hv : st.core.Valid w.id) (hr : r ∈ st.core.tasks) :
    Evolves w.id (Move.byHold r) st.core (w.dropTask r st).core := by
  unfold dropTask
  dsimp only
  rw [State.core_touchActivity]
  obtain ⟨n, hn, hst⟩ := hv.controlled.not_stopped hv.columns (.inr hr)
  obtain ⟨a, hget, rfl⟩ := State.actors_get_of_node hn.1
  have hh := State.core_holds_get hget
  obtain ⟨-, htasks⟩ := hv.controlled.gripped r a.node a.hold hn hh
  have hpos : 0 < a.nativeTasks := by
    rw [show a.nativeTasks = a.hold.tasks from rfl, ← htasks]
    exact List.count_pos_iff.mpr hr
  set st₁ : State := { st with taskLeases := st.taskLeases.erase r }
  set put : Actor → Actor := fun a =>
    if a.reference = r ∧ 0 < a.nativeTasks then { a with nativeTasks := a.nativeTasks - 1 } else a
  have hput : put a = { a with nativeTasks := a.nativeTasks - 1 } := if_pos ⟨hn.2, hpos⟩
  have hc : (st₁.modifyActor r put).core =
      { st.core.setHold r.slot { a.hold with tasks := a.hold.tasks - 1 } with
        tasks := st.core.tasks.erase r } := by
    rw [@State.core_modify_hold st₁ _ _ put hget (by rw [hput]; rfl) (by rw [hput]; rfl), hput]
    rfl
  refine hold_evolves hv ?_
  rw [hc]
  exact .hold a.node a.hold _ _ _ _ hn hst hh (.endTask hr)

/-! ## Native callbacks -/

theorem hookEligible_ok (ho : st.core.Owned w.id) {expected : Lifecycle}
    (h : w.hookEligible r expected st = .ok true) :
    ∃ a, w.checkRef r st = .ok a ∧ Effective st.core.nodes r a.node expected ∧
      a.inFlight = false ∧ a.controlInFlight = false := by
  unfold hookEligible at h
  obtain ⟨s, hs, h⟩ := bind_ok.mp h
  obtain ⟨a, ha, h⟩ := bind_ok.mp h
  obtain ⟨n, hn, heff⟩ := seated_of_execution ho hs
  simp only [pure, Except.pure, Except.ok.injEq, Bool.and_eq_true, decide_eq_true_eq,
    Bool.not_eq_true'] at h
  obtain ⟨⟨⟨⟨-, rfl, -⟩, hfl⟩, hcl⟩, -⟩ := h
  rw [hn.unique (seated_of_check ho ha)] at heff
  exact ⟨a, ha, heff, hfl, hcl⟩

theorem claimNativeHook_evolves (hv : st.core.Valid w.id) {expected : Lifecycle}
    (he : expected ≠ .stopping) :
    Evolves w.id (Move.byHold r) st.core (w.claimNativeHook r expected st).2.core := by
  unfold claimNativeHook
  rcases h : w.hookEligible r expected st with e | - | -
  · exact .refl _
  · exact .refl _
  obtain ⟨a, ha, heff, hfl, hcl⟩ := hookEligible_ok hv.owned h
  obtain ⟨hget, -⟩ := (checkRef_ok hv.owned).mp ha
  have hn := seated_of_check hv.owned ha
  obtain ⟨n', hn', hp1, hp2⟩ := heff.present hn he
  obtain rfl := hn'.unique hn
  dsimp only
  set put : Actor → Actor := fun a => { a with controlInFlight := true }
  set st₁ := w.refreshPythonReadyLocked r
    (w.markActivityDependentsLocked r (st.modifyActor r put)) with hst₁
  have hc₁ : st₁.core = st.core.setHold r.slot { a.hold with control := true } := by
    rw [hst₁, core_refreshPythonReadyLocked, core_markActivityDependentsLocked,
      State.core_modify_hold put hget rfl rfl]
    rfl
  rw [State.core_touchActivity]
  refine @grip_evolves _ _ _ { st₁ with callbackLeases := r :: st₁.callbackLeases } hv ?_
    fun n hn' => ?_
  · show Step w.id st.core (.hold r) { st₁.core with callbacks := r :: st₁.core.callbacks }
    rw [hc₁]
    refine .hold a.node a.hold _ _ _ _ hn hp2 (State.core_holds_get hget) (.callback hcl fun b hb => ?_)
    rw [State.core_boxes_get hget] at hb
    cases hb
    exact hfl
  · rw [hn'.unique hn]
    exact hp1

theorem core_clearControl {h : Hold} (hn : Seated st.core.nodes r n)
    (hh : st.core.holds[r.slot]? = some h) {st₁ : State} (hc : st₁.core.nodes = st.core.nodes)
    (hc' : st₁.core.holds = st.core.holds) (ho : st₁.core.Owned w.id) :
    (w.clearControl r st₁).core = st₁.core.setHold r.slot { h with control := false } := by
  obtain ⟨a, ha, hget, -⟩ := @check_of_seated w st₁ _ _ ho (hc ▸ hn)
  unfold clearControl
  rw [ha]
  dsimp only
  set put : Actor → Actor := fun a => { a with controlInFlight := false }
  rw [State.core_modify_hold put hget rfl rfl]
  have : a.hold = h := by
    have := State.core_holds_get hget
    rw [hc', hh] at this
    exact (Option.some.inj this).symm
  rw [← this]
  rfl

theorem dropCallback_evolves (hv : st.core.Valid w.id) (hr : r ∈ st.core.callbacks) :
    Evolves w.id (Move.byHold r) st.core (w.dropCallback r st).core := by
  unfold dropCallback
  dsimp only
  rw [State.core_touchActivity]
  obtain ⟨n, hn, hst⟩ := hv.controlled.not_stopped hv.columns
    (.inl (List.mem_append_right _ hr))
  obtain ⟨a, hget, rfl⟩ := State.actors_get_of_node hn.1
  have hh := State.core_holds_get hget
  set st₁ : State := { st with callbackLeases := st.callbackLeases.erase r }
  refine hold_evolves hv ?_
  rw [@core_clearControl _ _ _ _ _ hn hh st₁ rfl rfl hv.owned]
  exact .hold a.node a.hold _ _ _ _ hn hst hh (.endCallback hr)

end World

end Actorplane
