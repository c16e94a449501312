import Actorplane.Locked.Expiry

/-!
# Finalization

A stopping actor without blockers is finalized, and its parent after it. The moves
that take a blocker away leave one actor to be settled; `try_finalize` settles it
together with the ancestors that only waited for it.
-/

namespace Actorplane

variable {world : ℕ} {c c' c'' : Core} {P Q : Move → Prop} {r : ActorRef} {n : Node}

theorem Core.Reduces.lineage_back (h : c.Reduces c') {l : List ActorRef}
    (hl : Lineage c'.nodes r l) : Lineage c.nodes r l := by
  induction hl with
  | root hn hp =>
    obtain ⟨k, hk, hr⟩ := h.seated_back hn
    exact .root hk (hr.parent.symm.trans hp)
  | child hn hp _ ih =>
    obtain ⟨k, hk, hr⟩ := h.seated_back hn
    exact .child hk (hr.parent.symm.trans hp) ih

/-- Moves after which one actor is no longer an exception among the blocked ones. -/
structure Settles (world : ℕ) (P : Move → Prop) (r : ActorRef) (c c' : Core) : Prop where
  steps : Steps world P c c'
  draining : ∀ X, c.Draining X → c'.Draining X
  blocked : ∀ X, c.Blocked (fun x => X x ∨ x = r) → c'.Blocked X

namespace Settles

/-- Nothing has to be done for an actor that is held or not stopping. -/
theorem refl (hr : ∀ n, Seated c.nodes r n → n.state = .stopping → c.Held r n) :
    Settles world P r c c :=
  ⟨.refl c, fun _ h => h, fun _ h => h.settle hr⟩

theorem valid (h : Settles world P r c c') (hv : c.Valid world) : c'.Valid world :=
  h.steps.valid hv

/-- A finalized actor leaves its parent to be settled. -/
theorem finalize {p : ActorRef} (hv : c.Valid world) (hP : P (.finalize r))
    (hs : Step world c (.finalize r) c') (hn : Seated c.nodes r n) (hp : n.parent = some p)
    (h : Settles world P p c' c'') : Settles world P r c c'' := by
  refine ⟨(Steps.single hP hs).trans h.steps, fun X hX => ?_, fun X hX => ?_⟩
  · exact h.draining X (hX.step hv.owned hs (by simp))
  · refine h.blocked X ((hX.finalize hv.owned hv.columns hs).mono ?_)
    rintro x (hx | ⟨k, hk, hkp⟩)
    · exact .inl hx
    · rw [hk.unique hn, hp] at hkp
      exact .inr (Option.some.inj hkp).symm

theorem finalize_root (hv : c.Valid world) (hP : P (.finalize r))
    (hs : Step world c (.finalize r) c') (hn : Seated c.nodes r n) (hp : n.parent = none) :
    Settles world P r c c' := by
  refine ⟨.single hP hs, fun X hX => hX.step hv.owned hs (by simp), fun X hX => ?_⟩
  refine (hX.finalize hv.owned hv.columns hs).mono ?_
  rintro x (hx | ⟨k, hk, hkp⟩)
  · exact hx
  · rw [hk.unique hn, hp] at hkp
    simp at hkp

end Settles

/-- The only seated actor in the slot of a seated actor is this actor. -/
theorem Seated.slot_eq {nodes : List Node} {x : ActorRef} {k : Node} (hx : Seated nodes x k)
    (hn : Seated nodes r n) (hs : x.slot = r.slot) : x = r := by
  have hk : k = n := Option.some.inj (hx.1.symm.trans (hs ▸ hn.1))
  rw [← hx.2, hk, hn.2]

/-- A move that takes a blocker of one actor away, and what settles this actor. -/
theorem Evolves.settle {m : Move} (hv : c.Valid world) (hP : P m) (hs : Step world c m c')
    (hdrain : ∀ slot, m ≠ .undrain slot)
    (hloose : ∀ x k, Seated c'.nodes x k → m.loosens c x → x = r)
    (h : Settles world P r c' c'') : Evolves world P c c'' := by
  refine ⟨(Steps.single hP hs).trans h.steps, fun X hX => ?_, fun X hX => ?_⟩
  · exact h.draining X (hX.step hv.owned hs fun slot he => absurd he (hdrain slot))
  · refine h.blocked X fun x k hk hst => ?_
    rcases hX.step hv.owned hv.columns hs x k hk hst with hh | he | hl
    · exact .inl hh
    · exact .inr (.inl he)
    · exact .inr (.inr (hloose x k hk hl))

/-! ## Finalizing one actor -/

theorem retireNodes_root {nodes : List Node} (hr : n.reference = r) (hp : n.parent = none) :
    retireNodes nodes n = nodes.set r.slot { n with state := .stopped } := by
  subst hr
  have hmap : nodes.map (atParent none (.disown n.reference)) = nodes :=
    (List.map_congr_left fun k _ => by simp [atParent]).trans (List.map_id nodes)
  rw [retireNodes, hp, hmap]

theorem retireNodes_child {nodes : List Node} {p : ActorRef} {m : Node}
    (hslots : ∀ (i : ℕ) (k : Node), nodes[i]? = some k → k.reference.slot = i)
    (hr : n.reference = r) (hp : n.parent = some p) (hm : Seated nodes p m)
    (hne : p.slot ≠ r.slot) :
    retireNodes nodes n =
      (nodes.set r.slot { n with state := .stopped }).set p.slot (m.disown r) := by
  subst hr
  have hlt := (List.getElem?_eq_some_iff.mp hm.1).1
  have hmodify : nodes.modify p.slot (.disown n.reference) =
      nodes.set p.slot (m.disown n.reference) := by
    refine List.ext_getElem? fun j => ?_
    rw [List.getElem?_modify, List.getElem?_set]
    by_cases hj : p.slot = j
    · subst hj
      rw [hm.1]
      simp [hlt]
    · rcases nodes[j]? with - | k <;> simp [hj]
  rw [retireNodes, map_atParent hslots hp hm, hmodify, List.set_comm _ _ hne]

/-- A living actor is not its own parent. -/
theorem Core.Owned.parent_slot_ne (ho : c.Owned world) {p : ActorRef} {m : Node}
    (hn : Seated c.nodes r n) (hs : n.state ≠ .stopped) (hp : n.parent = some p)
    (hm : Seated c.nodes p m) : p.slot ≠ r.slot := by
  intro hslot
  have hpr : p = r := hm.slot_eq hn hslot
  subst hpr
  obtain ⟨l, hl, -⟩ := ho.lineage p n hn hs
  cases hl with
  | root hn' hp' => simp [hn'.unique hn, hp] at hp'
  | @child _ _ q l hn' hp' hl' =>
    rw [hn'.unique hn, hp] at hp'
    cases hp'
    have hself : p ∈ l := by cases hl' <;> exact List.mem_cons_self
    exact (List.nodup_cons.mp (Lineage.child hn hp hl').nodup).1 hself

namespace World

variable {w : World} {st : State} {a : Actor}

/-- The last part of a finalization: the parent takes over the totals of its child. -/
def rollUp (r : ActorRef) (st : State) : State :=
  match st.actors[r.slot]? with
  | none => st.poison
  | some retired =>
    match retired.parent with
    | none => st
    | some p =>
      match st.actors[p.slot]? with
      | none => st
      | some parent =>
        if parent.reference ≠ p then st
        else st.modifyActor p fun parent =>
          { parent with
            children := parent.children.filter (· ≠ r)
            drainTimedOut := parent.drainTimedOut || retired.drainTimedOut
            errors := min (parent.errors + retired.errors) u64Max
            lastError := keepLatest parent.lastError retired.lastError }

theorem core_finalizeActor (ho : st.core.Owned w.id) (ha : st.actors[r.slot]? = some a)
    (hr : a.reference = r) (hs : a.state ≠ .stopped) :
    (w.finalizeActor r st).core =
      { st.core with
        nodes := retireNodes st.core.nodes a.node
        live := st.core.live - 1
        free := r.slot :: st.core.free
        operations := (st.core.operations.retireOwner r).2
        life := st.core.life ++ [.finalized r] } := by
  have hn : Seated st.core.nodes r a.node := ⟨State.core_nodes_get ha, hr⟩
  set stop : Actor → Actor := fun a => { a with state := .stopped } with hstop
  set st₀ := w.refreshPythonReadyLocked r (st.modifyActor r stop) with hst₀
  set st₁ : State := ({ st₀ with
    liveActors := st₀.liveActors - 1
    operations := (st₀.operations.retireOwner r).2
    free := r.slot :: st₀.free } : State).note (.finalized r) with hst₁
  have hc₁ : st₁.core = { st.core with
      nodes := st.core.nodes.set r.slot { a.node with state := .stopped }
      live := st.core.live - 1
      free := r.slot :: st.core.free
      operations := (st.core.operations.retireOwner r).2
      life := st.core.life ++ [.finalized r] } := by
    have h : (st.modifyActor r stop).core =
        st.core.setNode r.slot { a.node with state := .stopped } :=
      State.core_modify_node stop ha rfl rfl
    rw [State.core_note_life _ rfl]
    show ({ (st.modifyActor r stop).core with
      life := (st.modifyActor r stop).core.life ++ [.finalized r]
      live := (st.modifyActor r stop).core.live - 1
      operations := ((st.modifyActor r stop).core.operations.retireOwner r).2
      free := r.slot :: (st.modifyActor r stop).core.free } : Core) = _
    rw [h]
    rfl
  have ha₁ : st₁.actors[r.slot]? = some (stop a) := State.modifyActor_get stop ha
  have hfin : w.finalizeActor r st = rollUp r st₁ := rfl
  rw [hfin, rollUp, ha₁]
  dsimp only
  rcases hp : (stop a).parent with - | p
  · rw [retireNodes_root (n := a.node) hr hp]
    exact hc₁
  · obtain ⟨m, hm, hms, -⟩ := ho.parent r a.node p hn hs hp
    obtain ⟨x, hx, rfl⟩ := State.actors_get_of_node hm.1
    have hne := ho.parent_slot_ne hn hs hp hm
    have hx₁ : st₁.actors[p.slot]? = some x := by
      show (st.actors.modify r.slot stop)[p.slot]? = some x
      simp [Ne.symm hne, hx]
    have hslots : ∀ (i : ℕ) (k : Node), st.core.nodes[i]? = some k → k.reference.slot = i :=
      fun i k hk => (ho.slotted i k hk).2
    dsimp only
    rw [hx₁]
    dsimp only
    have hxp : x.reference = p := hm.2
    rw [if_neg (not_not.mpr hxp), State.core_modify_node _ hx₁ rfl rfl, hc₁,
      retireNodes_child hslots (n := a.node) hr hp hm hne]
    rfl

/-- Nothing is left of the children of an actor that may be finalized. -/
theorem childDone_iff {q : ActorRef} :
    childDone st q = true ↔ ∀ k, Seated st.core.nodes q k → k.state = .stopped := by
  unfold childDone
  rcases hq : st.actors[q.slot]? with - | x
  · simp only [true_iff]
    intro k hk
    obtain ⟨y, hy, -⟩ := State.actors_get_of_node hk.1
    simp [hq] at hy
  · simp only [ne_eq, Bool.or_eq_true, decide_eq_true_eq]
    constructor
    · rintro h k hk
      obtain ⟨y, hy, rfl⟩ := State.actors_get_of_node hk.1
      rw [hq] at hy
      cases hy
      exact h.resolve_left (not_not.mpr hk.2)
    · intro h
      by_cases hr : x.reference = q
      · exact .inr (h x.node ⟨State.core_nodes_get hq, hr⟩)
      · exact .inl hr

/-- A stopping actor that is not finalizable is held. -/
theorem held_of_not_finalizable (ha : st.actors[r.slot]? = some a) (hs : a.state = .stopping)
    (hf : ¬finalizable st a = true) :
    st.core.Held r a.node := by
  by_cases hfl : a.inFlight = true
  · exact .inl ⟨a.box, State.core_boxes_get ha, hfl⟩
  by_cases hh : a.hold = ⟨false, false, 0, true⟩
  · refine .inr (.inr fun hch => hf ?_)
    have hch : a.children = [] := hch
    simp only [Actor.hold, Hold.mk.injEq] at hh
    obtain ⟨h1, h2, h3, h4⟩ := hh
    unfold finalizable
    simp_all
  · exact .inr (.inl ⟨a.hold, State.core_holds_get ha, hh⟩)

theorem finalize_step (ho : st.core.Owned w.id) (ha : st.actors[r.slot]? = some a)
    (hr : a.reference = r) (hf : finalizable st a = true) :
    Step w.id st.core (.finalize r) (w.finalizeActor r st).core := by
  unfold finalizable at hf
  simp only [Bool.and_eq_true, decide_eq_true_eq, Bool.not_eq_true', List.all_eq_true,
    Option.isNone_iff_eq_none] at hf
  obtain ⟨⟨⟨⟨⟨⟨h1, h2⟩, h3⟩, h4⟩, h5⟩, h6⟩, h7⟩ := hf
  rw [core_finalizeActor ho ha hr (by simp [h1])]
  refine .finalize a.node a.box a.hold ⟨State.core_nodes_get ha, hr⟩ h1 (State.core_boxes_get ha) h2
    (State.core_holds_get ha) (by simp [Actor.hold, h3, h4, h5, h6]) fun q hq => ?_
  exact childDone_iff.mp (h7 q hq)

/-- Enough fuel reaches the root. -/
theorem tryFinalize_fuel (hv : st.core.Valid w.id) (hP : ∀ x, P (.finalize x)) {fuel : ℕ}
    (hf : ∀ n l, Seated st.core.nodes r n → n.state = .stopping → Lineage st.core.nodes r l →
      l.length ≤ fuel) :
    Settles w.id P r st.core (w.tryFinalize fuel r st).core := by
  induction fuel generalizing st r with
  | zero =>
    refine .refl fun n hn hs => ?_
    obtain ⟨l, hl, -⟩ := hv.owned.lineage r n hn (by simp [hs])
    have := hf n l hn hs hl
    cases hl <;> simp at this
  | succ fuel ih =>
    unfold tryFinalize
    dsimp only
    set st₁ := w.markActivityDependentsLocked r (w.refreshPythonReadyLocked r st)
    have hc₁ : st₁.core = st.core := rfl
    rw [← hc₁] at hv hf ⊢
    rcases ha : st₁.actors[r.slot]? with - | a
    · refine .refl fun n hn _ => ?_
      obtain ⟨x, hx, -⟩ := State.actors_get_of_node hn.1
      simp [ha] at hx
    dsimp only
    by_cases hr : a.reference = r
    · rw [if_neg (not_not.mpr hr)]
      have hn : Seated st₁.core.nodes r a.node := ⟨State.core_nodes_get ha, hr⟩
      split_ifs with hfin
      · have hs := finalize_step hv.owned ha hr hfin
        have hst : a.state = .stopping := by
          simp only [finalizable, Bool.and_eq_true, decide_eq_true_eq] at hfin
          exact hfin.1.1.1.1.1.1
        rcases hp : a.parent with - | p
        · exact .finalize_root hv (hP r) hs hn hp
        · refine .finalize hv (hP r) hs hn hp (ih (hv.step hs) fun k l _ _ hl => ?_)
          have hl' := (hv.reduces hs trivial).lineage_back hl
          have := hf _ _ hn hst (.child hn hp hl')
          simp only [List.length_cons] at this
          omega
      · refine .refl fun n hn' hs => ?_
        rw [hn'.unique hn] at hs ⊢
        exact held_of_not_finalizable ha hs hfin
    · rw [if_pos hr]
      refine .refl fun n hn _ => ?_
      obtain ⟨x, hx, rfl⟩ := State.actors_get_of_node hn.1
      rw [ha] at hx
      cases hx
      exact absurd hn.2 hr

theorem tryFinalize_settles (hv : st.core.Valid w.id) (hP : ∀ x, P (.finalize x)) :
    Settles w.id P r st.core (w.tryFinalize walkFuel r st).core := by
  refine tryFinalize_fuel hv hP fun n l hn hs hl => ?_
  obtain ⟨l', hl', hlen⟩ := hv.owned.lineage r n hn (by simp [hs])
  rw [hl.unique hl', walkFuel]
  omega

/-! ## Discarded notifications -/

/-- One child's notification is taken from it and from the count of its supervisor. -/
def silenced (supervisor source : ActorRef) (st : State) : State :=
  ((st.modifyActor source fun a => { a with notification := none }).modifyActor supervisor
    fun a => { a with pendingFailures := a.pendingFailures - 1 }).addMetrics fun m =>
      { m with notificationsDiscarded := m.notificationsDiscarded + 1 }

theorem silence_step (supervisor : ActorRef) (hn : Seated st.core.nodes r n) :
    Step w.id st.core (.silence r) (silenced supervisor r st).core ∧
      Seated (silenced supervisor r st).core.nodes r n := by
  obtain ⟨a, ha, rfl⟩ := State.actors_get_of_node hn.1
  set silence : Actor → Actor := fun a => { a with notification := none }
  have hc : (st.modifyActor r silence).core =
      st.core.setHold r.slot { a.hold with notified := false } :=
    State.core_modify_hold silence ha rfl rfl
  have hc₁ : (silenced supervisor r st).core =
      st.core.setHold r.slot { a.hold with notified := false } := by
    rw [silenced, State.core_addMetrics, ← hc]
    show ((st.modifyActor r silence).modifyActor supervisor _).core = _
    exact State.core_modify_soft _ (fun _ => rfl) (fun _ => rfl) fun _ => rfl
  rw [hc₁]
  exact ⟨.silence a.hold (State.core_holds_get ha), hn⟩

theorem discardNotification_evolves (hv : st.core.Valid w.id) (hP : ∀ x, P (.finalize x))
    (hP' : ∀ x, P (.silence x)) {supervisor : ActorRef} (hn : Seated st.core.nodes r n) :
    Evolves w.id P st.core (w.discardNotification supervisor st r).core := by
  obtain ⟨hs, hn₁⟩ := silence_step (w := w) supervisor hn
  refine Evolves.settle (P := P) hv (hP' r) hs (by simp) (fun x k hx hl => ?_)
    (tryFinalize_settles (hv.step hs) hP)
  exact hx.slot_eq hn₁ hl

theorem discardNotificationsFor_evolves (hv : st.core.Valid w.id) (hP : ∀ x, P (.finalize x))
    (hP' : ∀ x, P (.silence x)) (hPf : ∀ m, P m → m.fencing) :
    Evolves w.id P st.core (w.discardNotificationsFor r st).core := by
  have hfold : ∀ (xs : List ActorRef) (st : State), st.core.Valid w.id →
      (∀ x ∈ xs, ∃ n, Seated st.core.nodes x n) →
      Evolves w.id P st.core (xs.foldl (w.discardNotification r) st).core := by
    intro xs
    induction xs with
    | nil => exact fun st _ _ => .refl _
    | cons x xs ih =>
      intro st hv hx
      obtain ⟨n, hn⟩ := hx x (by simp)
      have h₁ := @discardNotification_evolves P _ _ w _ hv hP hP' r hn
      refine h₁.trans (ih _ (h₁.valid hv) fun y hy => ?_)
      obtain ⟨k, hk⟩ := hx y (List.mem_cons_of_mem _ hy)
      obtain ⟨k', hk', -⟩ := (h₁.steps.reduces hPf hv).seated hk
      exact ⟨k', hk'⟩
  unfold discardNotificationsFor
  rcases w.checkRef r st with e | a
  · exact .refl _
  dsimp only
  set sources := a.children.filter (w.notifying st) with hsources
  have h := hfold sources st hv fun x hx => by
    have hmem := (List.mem_filter.mp (hsources ▸ hx)).2
    unfold notifying at hmem
    rcases hc : w.checkRef x st with e | y
    · simp [hc] at hmem
    · exact ⟨_, seated_of_check hv.owned hc⟩
  split_ifs <;> exact h

end World

end Actorplane
