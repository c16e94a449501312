import Actorplane.Locked.Settling

/-!
# Fences

A fence ends the work of one actor, after that of its children and of the scopes of
its services. Each part leaves a container of the actor empty, and later parts only
reduce the core, so that all of them are empty when the actor stops.
-/

namespace Actorplane

variable {world : ℕ} {c c' c'' : Core} {P Q : Move → Prop} {r : ActorRef} {n : Node}

/-! ## Operations -/

/-- Offering one outcome to several operations, with the transitions counted. -/
theorem Core.Valid.transitionIds (hv : c.Valid world) (ids : List OperationId)
    {outcome : TerminalOutcome} (ho : outcome = .ownerStopped ∨ outcome = .targetStopped)
    (hP : ∀ id, P (.endOperation id outcome)) :
    Evolves world P c
      { c with
        operations := (c.operations.transitionIds ids outcome).2
        ledger :=
          { c.ledger with
            operationCancelled :=
              c.ledger.operationCancelled + (c.operations.transitionIds ids outcome).1 } } := by
  induction ids generalizing c with
  | nil => exact .refl c
  | cons id ids ih =>
    unfold OperationTable.transitionIds
    dsimp only
    by_cases hwon : (c.operations.complete id outcome).1 = .ok true
    · obtain ⟨hp, hf⟩ := OperationTable.complete_true hwon
      have hs := @Step.endOperation world _ _ _ hp hf
      have hl : c.ledger.endOperation outcome =
          { c.ledger with operationCancelled := c.ledger.operationCancelled + 1 } := by
        rcases ho with rfl | rfl <;> rfl
      rw [hl] at hs
      have h₁ : Evolves world P c _ := .single hv (hP id) hs (by simp) (by simp [Move.loosens])
      have h₂ := ih (h₁.valid hv)
      rw [if_pos hwon]
      convert h₁.trans h₂ using 3
      dsimp only
      omega
    · rw [if_neg hwon]
      have h := ih hv
      rw [OperationTable.complete_lost hwon]
      exact h

theorem OperationTable.transitionIds_pending {t : OperationTable} {ids : List OperationId}
    {outcome : TerminalOutcome} (h : t.Indexed fun _ => True) (hf : t.foreign outcome = false)
    (hn : ids.Nodup) {id : OperationId} {p : PendingOperation}
    (hp : (t.transitionIds ids outcome).2.locate id = .ok (.pending p)) :
    t.locate id = .ok (.pending p) ∧ id ∉ ids := by
  obtain ⟨-, -, -, -, -, -, -, h8, -⟩ := OperationTable.transitionIds_spec h ids hf hn
  have := (h8 id _).mp hp
  split_ifs at this with hc
  refine ⟨this, fun hm => hc ⟨hm, ?_⟩⟩
  exact OperationTable.isPending_iff.mpr ⟨p, this⟩

namespace World

variable {w : World} {st : State} {a : Actor}

theorem cancelOperationsOf_spec (hv : st.core.Valid w.id) (hP : ∀ id o, o.isCompleted = false → P (.endOperation id o)) :
    Evolves w.id P st.core (w.cancelOperationsOf r st).core ∧
      ∀ id p, (w.cancelOperationsOf r st).core.operations.locate id = .ok (.pending p) →
        p.owner ≠ r ∧ p.target ≠ r := by
  set t := st.core.operations with ht
  have hcore : (w.cancelOperationsOf r st).core = { st.core with
      operations := ((t.cancelOwner r).2.stopTarget r).2
      ledger := { st.core.ledger with
        operationCancelled := st.core.ledger.operationCancelled +
          ((t.cancelOwner r).1 + ((t.cancelOwner r).2.stopTarget r).1) } } := by
    unfold cancelOperationsOf
    dsimp only
    rw [core_foldl (fun st _ => st.diagnostic .cancelled (some r) none) fun _ _ => rfl]
    set st₁ : State := { st with operations := ((t.cancelOwner r).2.stopTarget r).2 } with hst₁
    have hmark : ∀ (xs : List OperationOwner) (st : State), (xs.foldl
        (fun st p => w.markOperationActivityLocked p.owner (some p.target) st) st).core = st.core :=
      fun xs st => core_foldl (fun st (p : OperationOwner) =>
        w.markOperationActivityLocked p.owner (some p.target) st) (fun _ _ => rfl) xs st
    have hcount : ∀ (st : State) (k : ℕ), (st.addMetrics fun m =>
        { m with operationCancelled := m.operationCancelled + k }).core =
        { st.core with ledger := { st.core.ledger with
          operationCancelled := st.core.ledger.operationCancelled + k } } := fun _ _ => rfl
    rw [hcount, hmark]
    rfl
  have h₁ := hv.transitionIds (P := P) (sortIds (t.ownerIndex.members r)) (.inl rfl)
    fun id => hP id .ownerStopped rfl
  have hv₁ := h₁.valid hv
  have h₂ := hv₁.transitionIds (P := P) (sortIds ((t.cancelOwner r).2.targetIndex.members r))
    (.inr rfl) fun id => hP id .targetStopped rfl
  rw [hcore, ← Nat.add_assoc]
  refine ⟨h₁.trans h₂, fun id p hp => ?_⟩
  have hidx := hv.operating.indexed
  have hidx₁ : (t.cancelOwner r).2.Indexed fun _ => True := hv₁.operating.indexed
  obtain ⟨hp₁, htarget⟩ := OperationTable.transitionIds_pending hidx₁ rfl
    (OperationTable.nodup_sortIds _ |>.mpr (hidx₁.indexes.targetIndex.nodup r)) hp
  obtain ⟨hp₀, howner⟩ := OperationTable.transitionIds_pending hidx rfl
    (OperationTable.nodup_sortIds _ |>.mpr (hidx.indexes.ownerIndex.nodup r)) hp₁
  refine ⟨fun he => howner ?_, fun he => htarget ?_⟩
  · rw [OperationTable.mem_sortIds]
    exact (hidx.indexes.ownerIndex.mem r id).mpr
      ⟨⟨_, hp₀⟩, he ▸ hidx.columns.owner_of_locate hp₀⟩
  · rw [OperationTable.mem_sortIds]
    exact (hidx₁.indexes.targetIndex.mem r id).mpr ⟨p, hp₁, he⟩

/-! ## Routes -/

/-- Routes that touch one actor leave the table one after the other. -/
theorem removeRoutes_foldl
    (hP : ∀ id s, s.owner = r ∨ s.source = r ∨ s.target = r → P (.unroute id s)) :
    ∀ (ids : List ℕ) (st : State), st.core.Valid w.id →
      (∀ id ∈ ids, ∀ s, st.subs.get id = some s → s.owner = r ∨ s.source = r ∨ s.target = r) →
      let st' := ids.foldl
        (fun st id =>
          match st.subs.remove id with
          | (none, _) => st
          | (some route, subs) => w.markRouteActivityLocked route { st with subs := subs }) st
      Evolves w.id P st.core st'.core ∧
        ∀ id s, st'.core.subs.get id = some s → st.core.subs.get id = some s ∧ id ∉ ids := by
  intro ids
  induction ids with
  | nil => exact fun st _ _ => ⟨.refl _, fun id s hs => ⟨hs, by simp⟩⟩
  | cons id ids ih =>
    intro st hv hr
    dsimp only
    rw [List.foldl_cons]
    rcases hget : st.subs.get id with - | route
    · have hrem : st.subs.remove id = (none, st.subs) := by
        unfold RouteTable.remove
        rw [hget]
      rw [hrem]
      obtain ⟨h₁, h₂⟩ := ih st hv fun i hi => hr i (List.mem_cons_of_mem _ hi)
      refine ⟨h₁, fun i s hs => ?_⟩
      obtain ⟨hs₀, hi⟩ := h₂ i s hs
      refine ⟨hs₀, fun hm => (List.mem_cons.mp hm).elim ?_ hi⟩
      rintro rfl
      exact Option.some_ne_none _ (hs₀.symm.trans hget)
    · have hrem : st.subs.remove id = (some route, st.subs.erase id route) := by
        unfold RouteTable.remove
        rw [hget]
      rw [hrem]
      set st₁ := w.markRouteActivityLocked route { st with subs := st.subs.erase id route }
      have hc₁ : st₁.core = { st.core with subs := st.core.subs.erase id route } := rfl
      have hs₁ : Step w.id st.core (.unroute id route) st₁.core := by
        rw [hc₁]
        exact .unroute route hget
      have hback : ∀ i s, st₁.subs.get i = some s → st.subs.get i = some s ∧ i ≠ id := by
        intro i s hs
        have hs : (st.subs.erase id route).get i = some s := hs
        rw [RouteTable.get_erase] at hs
        split_ifs at hs with hi
        exact ⟨hs, hi⟩
      have h₀ : Evolves w.id P st.core st₁.core :=
        .single hv (hP id route (hr id (by simp) route hget)) hs₁ (by simp) (by simp [Move.loosens])
      obtain ⟨h₁, h₂⟩ := ih st₁ (hv.step hs₁) fun i hi s hs =>
        hr i (List.mem_cons_of_mem _ hi) s (hback i s hs).1
      refine ⟨h₀.trans h₁, fun i s hs => ?_⟩
      obtain ⟨hs₀, hi⟩ := h₂ i s hs
      obtain ⟨hs₀, hne⟩ := hback i s hs₀
      exact ⟨hs₀, fun hm => (List.mem_cons.mp hm).elim hne hi⟩

theorem removeActorRoutes_spec (hv : st.core.Valid w.id)
    (hP : ∀ id s, s.owner = r ∨ s.source = r ∨ s.target = r → P (.unroute id s)) :
    Evolves w.id P st.core (w.removeActorRoutes r st).core ∧
      ∀ id s, (w.removeActorRoutes r st).core.subs.get id = some s →
        s.owner ≠ r ∧ s.source ≠ r ∧ s.target ≠ r := by
  have hmem := fun i => hv.routed.indexed.mem_actorRouteIds (a := r) (i := i)
  obtain ⟨h₁, h₂⟩ := removeRoutes_foldl hP (st.subs.actorRouteIds r) st hv fun id hid s hs => by
    obtain ⟨s', hs', hr⟩ := (hmem id).mp hid
    have := hs.symm.trans hs'
    cases this
    exact hr
  refine ⟨h₁, fun id s hs => ?_⟩
  obtain ⟨hs₀, hid⟩ := h₂ id s hs
  by_contra hr
  refine hid ((hmem id).mpr ⟨s, hs₀, ?_⟩)
  by_contra hn
  simp only [not_or] at hn
  exact hr hn

@[simp] theorem actors_removeActorRoutes : (w.removeActorRoutes r st).actors = st.actors := by
  unfold removeActorRoutes
  generalize st.subs.actorRouteIds r = ids
  induction ids generalizing st with
  | nil => rfl
  | cons id ids ih =>
    rw [List.foldl_cons, ih]
    split <;> rfl

/-! ## Services -/

theorem detachScope_spec (hv : st.core.Valid w.id) (hP : P .unserve) :
    Evolves w.id P st.core (w.detachScope r st).core ∧
      (w.detachScope r st).core.services.leases.lookup r = none := by
  rcases hl : st.services.leases.lookup r with - | lease
  · have h : w.detachScope r st = st := by
      unfold detachScope
      rw [hl]
    rw [h]
    exact ⟨.refl _, hl⟩
  obtain ⟨services, hservices, hsh, hnone⟩ : ∃ services : Registry,
      (w.detachScope r st).core = { st.core with services := services } ∧
        st.services.Shrinks services ∧ services.leases.lookup r = none := by
    have hleases : ∀ scope x, (st.services.leases.erase r).lookup scope = some x →
        st.services.leases.lookup scope = some x := by
      intro scope x hx
      rw [Assoc.lookup_erase_ite] at hx
      split_ifs at hx
      exact hx
    have hgone : (st.services.leases.erase r).lookup r = none := by simp
    unfold detachScope
    rw [hl]
    dsimp only
    rcases st.services.byTarget.lookup lease.service with - | name
    · exact ⟨_, rfl, ⟨fun _ _ h => h, hleases, fun _ x hx => ⟨x, hx, rfl, fun _ h => h⟩⟩, hgone⟩
    · dsimp only
      rcases hrec : st.services.records.lookup name with - | record
      · exact ⟨_, rfl, ⟨fun _ _ h => h, hleases, fun _ x hx => ⟨x, hx, rfl, fun _ h => h⟩⟩, hgone⟩
      · refine ⟨_, rfl, ⟨fun _ _ h => h, hleases, fun name' x hx => ?_⟩, hgone⟩
        have hx : (AList.insert name { record with scopes := record.scopes.erase r }
          st.services.records).lookup name' = some x := hx
        rw [Assoc.lookup_insert_ite] at hx
        split_ifs at hx with hn
        · cases hx
          exact ⟨record, hn ▸ hrec, rfl, fun _ h => List.mem_of_mem_erase h⟩
        · exact ⟨x, hx, rfl, fun _ h => h⟩
  rw [hservices]
  exact ⟨.single hv hP (.unserve services hsh) (by simp) (by simp [Move.loosens]), hnone⟩

/-! ## Stopping one actor -/

theorem core_foldl_cancelled (queue : List Delivery) (reason : CancelReason) :
    (queue.foldl (fun st d => st.note (.cancelled d.eventId r reason)) st).core =
      { st.core with
        mail := st.core.mail ++
          (queue.map Delivery.mail).map fun m => .cancelled m.eventId r reason } := by
  induction queue generalizing st with
  | nil => simp
  | cons d queue ih =>
    rw [List.foldl_cons, ih, State.core_note_mail _ rfl]
    simp [Delivery.mail]

theorem core_stopActor (ha : st.actors[r.slot]? = some a) :
    (stopActor r a st).core =
      { (st.core.setBox r.slot { a.box with queue := [], staged := [] }).setNode r.slot
          { a.node with state := .stopping } with
        ledger := { st.core.ledger with
          cancelled := st.core.ledger.cancelled + (a.staged.length + a.queue.length)
          discarded := st.core.ledger.discarded + (a.staged.length + a.queue.length) }
        mail := st.core.mail ++ (a.staged.map (·.publication)).map .stagedLost ++
          (a.queue.map Delivery.mail).map fun m => .cancelled m.eventId r .fenced } := by
  have hcount : ∀ (st : State) (k : ℕ), (st.addMetrics fun m =>
      { m with cancelled := m.cancelled + k, discarded := m.discarded + k }).core =
      { st.core with ledger := { st.core.ledger with
        cancelled := st.core.ledger.cancelled + k
        discarded := st.core.ledger.discarded + k } } := fun _ _ => rfl
  unfold stopActor
  dsimp only
  set stop : Actor → Actor := fun a =>
    { a with
      state := .stopping
      staged := []
      stagedBytes := 0
      deadlines := .new
      queue := []
      queueBytes := 0 }
  rw [hcount, core_foldl_cancelled, core_foldl_stagedLost, State.core_modifyActor stop ha]
  simp only [Core.setNode, Core.setBox, Core.setHold]
  rw [show (stop a).hold = a.hold from rfl]
  have hh : st.core.holds.set r.slot a.hold = st.core.holds := State.set_map_self Actor.hold ha
  rw [hh]
  rfl

end World

/-- The deliveries of a mailbox are cancelled from its head. -/
theorem Core.Valid.cancelQueue (hv : c.Valid world) (hn : Seated c.nodes r n)
    (hP : ∀ m, P (.cancel r m .fenced)) (queue : List Mail) {b : Box}
    (hb : c.boxes[r.slot]? = some b) (hq : b.queue = queue) :
    Evolves world P c
      { c.setBox r.slot { b with queue := [] } with
        ledger := { c.ledger with
          cancelled := c.ledger.cancelled + queue.length
          discarded := c.ledger.discarded + queue.length }
        mail := c.mail ++ queue.map fun m => .cancelled m.eventId r .fenced } := by
  have hlt := (List.getElem?_eq_some_iff.mp hb).1
  induction queue generalizing c b with
  | nil =>
    have hsame : c.boxes.set r.slot { b with queue := [] } = c.boxes := by
      rw [← hq]
      refine List.ext_getElem? fun j => ?_
      rw [List.getElem?_set]
      split_ifs with hj
      · rw [← hj, hb]
      · rfl
    simp only [Core.setBox, hsame, List.length_nil, Nat.add_zero, List.map_nil, List.append_nil]
    exact .refl c
  | cons m queue ih =>
    have hs := @Step.cancel world _ _ m .fenced b n [] queue hn hb hq (by simp)
    have h₁ : Evolves world P c _ := .single hv (hP m) hs (by simp) (by simp [Move.loosens])
    have h₂ := ih (h₁.valid hv) hn (b := { b with queue := queue }) (by simp [hlt]) rfl
      (by simpa using hlt)
    have hcount : ∀ k : ℕ, k + (queue.length + 1) = k + 1 + queue.length := fun k => by omega
    have h := h₁.trans h₂
    simp only [Core.setBox, List.set_set, Ledger.cancel] at h
    simpa [Core.setBox, hcount] using h

/-- What an actor that stops leaves behind must be gone. -/
structure Core.Idle (c : Core) (r : ActorRef) : Prop where
  children : ∀ n q k, Seated c.nodes r n → q ∈ n.children → Seated c.nodes q k →
    k.state = .stopping ∨ k.state = .stopped
  operations : ∀ id p, c.operations.locate id = .ok (.pending p) → p.owner ≠ r ∧ p.target ≠ r
  publications : c.publications.queueOf r = []
  routes : ∀ id s, c.subs.get id = some s → s.owner ≠ r ∧ s.source ≠ r ∧ s.target ≠ r
  service : c.services.byTarget.lookup r = none
  lease : c.services.leases.lookup r = none
  root : c.drainRoots.lookup r.slot = none

namespace World

variable {w : World} {st : State} {a : Actor}

theorem stopActor_spec (hv : st.core.Valid w.id) (ha : st.actors[r.slot]? = some a)
    (hr : a.reference = r) (hs : a.state ≠ .stopped) (hidle : st.core.Idle r)
    (hP : ∀ lost, P (.lose r lost)) (hP' : ∀ m, P (.cancel r m .fenced)) :
    ∃ c, Evolves w.id P st.core c ∧ Step w.id c (.stop r) (stopActor r a st).core := by
  have hn : Seated st.core.nodes r a.node := ⟨State.core_nodes_get ha, hr⟩
  have hb := State.core_boxes_get ha
  have hlt := (List.getElem?_eq_some_iff.mp hb).1
  have hgone : ∀ id ∈ a.staged.map (·.publication),
      st.core.publications.entries.lookup id = none := by
    intro id hid
    obtain ⟨s, hmem, rfl⟩ := List.mem_map.mp hid
    rcases hp : st.core.publications.entries.lookup s.publication with - | p
    · rfl
    · have hsrc := (hv.staging.data r.slot a.node a.box s p hn.1 hb hmem hp).1
      have := (hv.publishing.sound.queue r s.publication).mpr ⟨p, hp, hsrc.trans hr⟩
      simp [hidle.publications] at this
  have hlose := @Step.lose w.id _ _ _ a.box a.node [] false hn hb (List.nil_sublist _) (fun s hs => .inr (List.mem_map_of_mem hs)) hgone
  have h₁ : Evolves w.id P st.core _ :=
    .single hv (hP _) hlose (by simp) (by simp [Move.loosens])
  have h₂ := (h₁.valid hv).cancelQueue (P := P) hn hP' (a.queue.map Delivery.mail)
    (b := { a.box with staged := [] }) (by simp [hlt]) rfl
  set d : Core := { st.core.setBox r.slot { a.box with queue := [], staged := [] } with
    ledger := { st.core.ledger with
      cancelled := st.core.ledger.cancelled + (a.staged.length + a.queue.length)
      discarded := st.core.ledger.discarded + (a.staged.length + a.queue.length) }
    mail := st.core.mail ++ (a.staged.map (·.publication)).map .stagedLost ++
      (a.queue.map Delivery.mail).map fun m => .cancelled m.eventId r .fenced } with hd
  have h : Evolves w.id P st.core d := by
    have h := h₁.trans h₂
    simp only [Core.setBox, List.set_set, Ledger.lose, List.length_map, Nat.add_assoc] at h
    exact h
  refine ⟨d, h, ?_⟩
  rw [core_stopActor ha]
  exact Step.stop (c := d) a.node { a.box with queue := [], staged := [] } hn hs
    (by simp [hd, Core.setBox, hlt]) rfl rfl (fun q hq k hk => hidle.children _ q k hn hq hk)
    hidle.operations hidle.publications hidle.routes hidle.service hidle.lease hidle.root

end World

end Actorplane
