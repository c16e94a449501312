import Actorplane.Locked.Fencing

/-!
# Stopping a subtree

`fence_locked` by induction on its fuel. A fence within a closed set ends its actor
and cancels only the work of actors that have ended with it.
-/

namespace Actorplane

variable {world : ℕ} {c c' c'' : Core} {P Q : Move → Prop} {D X : ActorRef → Prop} {r : ActorRef}
  {n : Node} {fuel : ℕ}

/-! ## What a reduced core keeps -/

/-- The fuel is enough for the subtree of an actor that is not stopped. -/
def Deep (nodes : List Node) (r : ActorRef) (fuel : ℕ) : Prop :=
  ∀ n l, Seated nodes r n → n.state ≠ .stopped → Lineage nodes r l → walkFuel ≤ fuel + l.length

theorem Node.Reduces.alive {n n' : Node} (h : n.Reduces n') (hs : n'.state ≠ .stopped) :
    n.state ≠ .stopped := by
  intro hst
  have hrank := h.rank
  rw [hst] at hrank
  revert hs hrank
  cases n'.state <;> simp [Lifecycle.rank]

theorem Core.Reduces.deep (h : c.Reduces c') (hd : Deep c.nodes r fuel) : Deep c'.nodes r fuel := by
  intro n' l hn' hs hl
  obtain ⟨n, hn, hred⟩ := h.seated_back hn'
  exact hd n l hn (hred.alive hs) (h.lineage_back hl)

/-- Emptiness lasts through a reduction. -/
theorem Core.Reduces.idle_parts (h : c.Reduces c') :
    (c.publications.queueOf r = [] → c'.publications.queueOf r = []) ∧
      ((∀ id p, c.operations.locate id = .ok (.pending p) → p.owner ≠ r ∧ p.target ≠ r) →
        ∀ id p, c'.operations.locate id = .ok (.pending p) → p.owner ≠ r ∧ p.target ≠ r) ∧
      (c.services.byTarget.lookup r = none → c'.services.byTarget.lookup r = none) ∧
      (c.services.leases.lookup r = none → c'.services.leases.lookup r = none) ∧
      (c.drainRoots.lookup r.slot = none → c'.drainRoots.lookup r.slot = none) := by
  refine ⟨fun hq => ?_, fun hp id p hid => hp id p (h.pending id p hid), fun ht => ?_, fun hl => ?_,
    fun hd => ?_⟩
  · exact List.sublist_nil.mp (hq ▸ h.queues r)
  · rcases hx : c'.services.byTarget.lookup r with - | name
    · rfl
    · exact absurd (h.services.targets r name hx) (by simp [ht])
  · rcases hx : c'.services.leases.lookup r with - | l
    · rfl
    · exact absurd (h.services.leases r l hx) (by simp [hl])
  · rcases hx : c'.drainRoots.lookup r.slot with - | d
    · rfl
    · exact absurd (h.roots r.slot d hx) (by simp [hd])

/-- An actor that is not stopped needs some fuel. -/
theorem Core.Owned.deep_pos (ho : c.Owned world) (hd : Deep c.nodes r fuel)
    (hn : Seated c.nodes r n) (hs : n.state ≠ .stopped) : 0 < fuel := by
  obtain ⟨l, hl, hlen⟩ := ho.lineage r n hn hs
  have := hd n l hn hs hl
  simp only [walkFuel] at this
  omega

/-- The children of a seated actor need less fuel than the actor itself. -/
theorem Core.Owned.deep_child (ho : c.Owned world) (hd : Deep c.nodes r (fuel + 1))
    (hn : Seated c.nodes r n) {q : ActorRef} (hq : q ∈ n.children) :
    Deep c.nodes q fuel ∧ 0 < fuel ∧ ∃ k, Seated c.nodes q k := by
  obtain ⟨k, hk, hks, hkp⟩ := (ho.child r n q hn).mp hq
  obtain ⟨m, hm, hms, -⟩ := ho.parent q k r hk hks hkp
  have hdeep : Deep c.nodes q fuel := by
    intro k' l hk' _ hl
    cases hl with
    | root hr hp => simp [hr.unique hk, hkp] at hp
    | @child _ _ p l hr hp hl =>
      rw [hr.unique hk, hkp] at hp
      cases hp
      have := hd m l hm hms hl
      simp only [List.length_cons]
      omega
  exact ⟨hdeep, ho.deep_pos hdeep hk hks, k, hk⟩

/-! ## A fence from its parts -/

/-- The end of a fence: the actor stops and is settled, unless it had stopped before. -/
inductive Halts (world : ℕ) (r : ActorRef) (c : Core) : Core → Prop
  | before {n : Node} : Seated c.nodes r n → n.state = .stopped → Halts world r c c
  | now {d e c' : Core} : Evolves world (Move.byFence fun x => x = r) c d →
      Step world d (.stop r) e → Settles world (fun m => ∃ x, m = .finalize x) r e c' →
      Halts world r c c'

theorem Halts.fencing (h : Halts world r c c') (hv : c.Valid world) :
    Steps world (Move.byFence fun x => x = r) c c' ∧ c.Reduces c' ∧ Ended c'.nodes r := by
  cases h with
  | before hn hs => exact ⟨.refl c, .refl c, _, hn, .inr hs⟩
  | @now d e _ h₁ hs h₂ =>
    have hsteps : Steps world (Move.byFence fun x => x = r) c e :=
      h₁.steps.tail (show Move.byFence (fun x => x = r) (.stop r) from rfl) hs
    have hall : Steps world (Move.byFence fun x => x = r) c c' :=
      hsteps.trans (h₂.steps.mono fun m hm => by
        obtain ⟨x, rfl⟩ := hm
        trivial)
    refine ⟨hall, hall.reduces (fun _ hm => hm.fencing) hv, ?_⟩
    have hve := hsteps.valid hv
    refine (h₂.steps.reduces (fun m hm => ?_) hve).ended ?_
    · obtain ⟨x, rfl⟩ := hm
      trivial
    · cases hs with
      | stop n b hn =>
        refine ⟨{ n with state := .stopping }, ?_, .inl rfl⟩
        exact (seated_set { n with state := .stopping } hn.1 (by rfl)).mpr (.inl ⟨rfl, rfl, hn⟩)

theorem Halts.draining (h : Halts world r c c') (hv : c.Valid world)
    (hX : c.Draining fun x => X x ∨ x = r) : c'.Draining X := by
  cases h with
  | @before n hn hs =>
    intro x k hk hq hd
    rcases hX x k hk hq hd with hl | he | rfl
    · exact .inl hl
    · exact .inr he
    · rw [hk.unique hn, hs] at hq
      simp at hq
  | now h₁ hs h₂ => exact h₂.draining X ((h₁.draining _ hX).stop (h₁.valid hv).owned hs)

theorem Halts.blocked (h : Halts world r c c') (hv : c.Valid world) (hX : c.Blocked X) :
    c'.Blocked X := by
  cases h with
  | before hn hs => exact hX
  | @now d e _ h₁ hs h₂ =>
    refine h₂.blocked X fun x k hk hst => ?_
    have hv₁ := h₁.valid hv
    rcases (h₁.blocked X hX).step hv₁.owned hv₁.columns hs x k hk hst with hh | he | hl
    · exact .inl hh
    · exact .inr (.inl he)
    · obtain ⟨m, hm⟩ : ∃ m, Seated e.nodes r m := by
        cases hs with
        | stop n b hn =>
          exact ⟨_, (seated_set { n with state := .stopping } hn.1 (by rfl)).mpr
            (.inl ⟨rfl, rfl, hn⟩)⟩
      exact .inr (.inr (hk.slot_eq hm hl))

/-- The parts of a fence around the removal of the drain root. -/
theorem Fenced.assemble {c₁ c₂ c₃ c₄ : Core} (hv : c.Valid world) (hD : D r)
    (hn : Seated c.nodes r n) (h₁ : Fenced world D (fun x => x = r) c c₁)
    (hu : Step world c₁ (.undrain r.slot) c₂) (h₂ : Fenced world D (fun x => x = r) c₂ c₃)
    (h₃ : Halts world r c₃ c₄) : Fenced world D (fun _ => False) c c₄ ∧ Ended c₄.nodes r := by
  have hv₁ := Evolves.valid h₁ hv
  have hv₂ := hv₁.step hu
  have hv₃ := Evolves.valid h₂ hv₂
  obtain ⟨hsteps, hred₃, hended⟩ := h₃.fencing hv₃
  have hred₂ := (h₂.reduces hv₂).trans hred₃
  have hred₁ := (hv₁.reduces hu trivial).trans hred₂
  have hlift : ∀ {c' : Core} {m : Move}, c'.Reduces c₄ →
      (m.byFence fun x => D x ∧ (x = r ∨ Ended c'.nodes x)) →
      m.byFence fun x => D x ∧ (False ∨ Ended c₄.nodes x) := by
    intro c' m hred hm
    refine hm.mono fun x hx => ⟨hx.1, .inr ?_⟩
    rcases hx.2 with rfl | he
    · exact hended
    · exact hred.ended he
  refine ⟨⟨?_, fun Y hY => ?_, fun Y hY => ?_⟩, hended⟩
  · refine (((h₁.steps.mono fun m => hlift hred₁).tail ?_ hu).trans
      (h₂.steps.mono fun m => hlift hred₃)).trans (hsteps.mono fun m hm => hm.mono fun x hx => ?_)
    · trivial
    · rw [hx]
      exact ⟨hD, .inr hended⟩
  · refine h₃.draining hv₃ (h₂.draining _ fun x k hk hq hd => ?_)
    obtain ⟨k₁, hk₁, -⟩ := (h₁.reduces hv).seated hn
    have hnodes : c₂.nodes = c₁.nodes := by
      cases hu
      rfl
    have hstep := ((h₁.draining Y hY).mono
      (fun _ hx => .inl hx : ∀ x, Y x → Y x ∨ x.slot = r.slot)).step hv₁.owned hu
      (fun slot he x hx => .inr (by
        cases he
        exact hx))
    rcases hstep x k hk hq hd with hl | he | he
    · exact .inl hl
    · exact .inr (.inl he)
    · exact .inr (.inr (Seated.slot_eq (hnodes ▸ hk) hk₁ he))
  · refine h₃.blocked hv₃ (h₂.blocked _ fun x k hk hst => ?_)
    exact ((h₁.blocked Y hY).step hv₁.owned hv₁.columns hu x k hk hst).imp_right fun he =>
      he.resolve_right not_false

/-! ## The recursion -/

namespace World

variable {w : World} {st : State} {a : Actor}

/-- What a call that fences one actor does. -/
structure Fences (w : World) (D : ActorRef → Prop) (r : ActorRef) (st : State)
    (result : Except Error Unit × State) : Prop where
  fenced : Fenced w.id D (fun _ => False) st.core result.2.core
  ended : (∃ n, Seated st.core.nodes r n) → result.1 = .ok () ∧ Ended result.2.core.nodes r

/-- A function that fences every actor within its fuel. -/
def Fencer (w : World) (D : ActorRef → Prop) (fuel : ℕ)
    (fence : ActorRef → State → Except Error Unit × State) : Prop :=
  ∀ r st, st.core.Valid w.id → st.core.Closed D → D r → Deep st.core.nodes r fuel →
    Fenced w.id D (fun _ => False) st.core (fence r st).2.core ∧
      (0 < fuel → w.Fences D r st (fence r st))

variable {fence : ActorRef → State → Except Error Unit × State}

theorem fenceAll_fenced (hf : w.Fencer D fuel fence) (children : List ActorRef)
    (hv : st.core.Valid w.id) (hc : st.core.Closed D) (hfuel : children ≠ [] → 0 < fuel)
    (hch : ∀ q ∈ children, D q ∧ Deep st.core.nodes q fuel ∧ ∃ k, Seated st.core.nodes q k) :
    (fenceAll fence children st).1 = .ok () ∧
      Fenced w.id D (fun _ => False) st.core (fenceAll fence children st).2.core ∧
      ∀ q ∈ children, Ended (fenceAll fence children st).2.core.nodes q := by
  induction children generalizing st with
  | nil => exact ⟨rfl, .refl _, by simp⟩
  | cons q children ih =>
    obtain ⟨hD, hdeep, hseat⟩ := hch q (by simp)
    obtain ⟨hfenced, hended⟩ := hf q st hv hc hD hdeep
    obtain ⟨hok, hend⟩ := (hended (hfuel (by simp))).ended hseat
    have hred := hfenced.reduces hv
    unfold fenceAll
    rcases hq : fence q st with ⟨e | u, st₁⟩
    · simp [hq] at hok
    rw [hq] at hfenced hend hred
    have hfuel' : children ≠ [] → 0 < fuel := fun _ => hfuel (by simp)
    obtain ⟨h1, h2, h3⟩ := ih (Evolves.valid hfenced hv) (hred.closed hc) hfuel' fun x hx => by
      obtain ⟨hDx, hdx, k, hk⟩ := hch x (List.mem_cons_of_mem _ hx)
      obtain ⟨k', hk', -⟩ := hred.seated hk
      exact ⟨hDx, hred.deep hdx, k', hk'⟩
    refine ⟨h1, hfenced.trans h2 hv, fun x hx => ?_⟩
    rcases List.mem_cons.mp hx with rfl | hx
    · exact (h2.reduces (Evolves.valid hfenced hv)).ended hend
    · exact h3 x hx

theorem revokeScope_fenced (hf : w.Fencer D fuel fence) {service q : ActorRef}
    (hv : st.core.Valid w.id) (hc : st.core.Closed D) (hD : D q)
    (hdeep : Deep st.core.nodes q fuel) :
    Fenced w.id D (fun _ => False) st.core (w.revokeScope fence service st q).core := by
  obtain ⟨st₁, hst₁, services, hcore, hsh⟩ : ∃ st₁,
      w.revokeScope fence service st q = (fence q st₁).2 ∧ ∃ services : Registry,
        st₁.core = { st.core with services := services } ∧ st.services.Shrinks services := by
    refine ⟨_, rfl, ?_⟩
    rcases hl : st.services.leases.lookup q with - | lease
    · exact ⟨st.services, rfl, .refl _⟩
    · refine ⟨_, rfl, fun _ _ h => h, fun scope x hx => ?_, fun _ x hx =>
        ⟨x, hx, rfl, fun _ h => h⟩⟩
      have hx : (st.services.leases.erase q).lookup scope = some x := hx
      rw [Assoc.lookup_erase_ite] at hx
      split_ifs at hx
      exact hx
  rw [hst₁]
  have hs : Step w.id st.core .unserve st₁.core := by
    rw [hcore]
    exact .unserve services hsh
  have h₁ : Fenced w.id D (fun _ => False) st.core st₁.core :=
    .single hv (m := .unserve) trivial hs (by simp) (by simp [Move.loosens])
  have hred := h₁.reduces hv
  exact h₁.trans (hf q st₁ (hv.step hs) (hred.closed hc) hD (hred.deep hdeep)).1 hv

theorem revokeScopes_fenced (hf : w.Fencer D fuel fence) {service : ActorRef}
    (scopes : List ActorRef) (hv : st.core.Valid w.id) (hc : st.core.Closed D)
    (hs : ∀ q ∈ scopes, D q ∧ Deep st.core.nodes q fuel) :
    Fenced w.id D (fun _ => False) st.core
      (scopes.foldl (w.revokeScope fence service) st).core := by
  induction scopes generalizing st with
  | nil => exact .refl _
  | cons q scopes ih =>
    obtain ⟨hD, hdeep⟩ := hs q (by simp)
    have h₁ := @revokeScope_fenced _ _ _ _ _ hf service _ hv hc hD hdeep
    have hred := h₁.reduces hv
    refine h₁.trans (ih (Evolves.valid h₁ hv) (hred.closed hc) fun x hx => ?_) hv
    obtain ⟨hDx, hdx⟩ := hs x (List.mem_cons_of_mem _ hx)
    exact ⟨hDx, hred.deep hdx⟩

theorem detachService_spec (hf : w.Fencer D fuel fence) (hv : st.core.Valid w.id)
    (hc : st.core.Closed D) (hD : D r) (hdeep : Deep st.core.nodes r (fuel + 1)) :
    Fenced w.id D (fun _ => False) st.core (w.detachService fence r st).core ∧
      (w.detachService fence r st).core.services.byTarget.lookup r = none := by
  rcases ht : st.services.byTarget.lookup r with - | name
  · have h : w.detachService fence r st = st := by
      unfold detachService
      rw [ht]
    rw [h]
    exact ⟨.refl _, ht⟩
  obtain ⟨n, hn, hroot, -, hns⟩ := hv.serving.targets r name ht
  have hfuel : walkFuel ≤ fuel + 1 + 1 := hdeep n [r] hn hns (.root hn hroot)
  have htargets : ∀ service x, (st.services.byTarget.erase r).lookup service = some x →
      st.services.byTarget.lookup service = some x := by
    intro service x hx
    rw [Assoc.lookup_erase_ite] at hx
    split_ifs at hx
    exact hx
  have hgone : (st.services.byTarget.erase r).lookup r = none := by simp
  rcases hrec : st.services.records.lookup name with - | record
  · set services : Registry :=
      { st.services with byTarget := st.services.byTarget.erase r } with hservices
    have h : w.detachService fence r st = { st with services := services } := by
      unfold detachService
      rw [ht]
      dsimp only
      rw [hrec]
    rw [h]
    refine ⟨.single hv (m := .unserve) trivial (.unserve services ?_) (by simp)
      (by simp [Move.loosens]), hgone⟩
    exact ⟨htargets, fun _ _ h => h, fun _ x hx => ⟨x, hx, rfl, fun _ h => h⟩⟩
  · set services : Registry :=
      { st.services with
        byTarget := st.services.byTarget.erase r
        records := st.services.records.erase name } with hservices
    set st₁ : State := { st with services := services }
    have h : w.detachService fence r st =
        (record.scopes.insertionSort ActorRef.before).foldl (w.revokeScope fence r) st₁ := by
      unfold detachService
      rw [ht]
      dsimp only
      rw [hrec]
    have hs : Step w.id st.core .unserve st₁.core := by
      refine .unserve services ⟨htargets, fun _ _ h => h, fun name' x hx => ?_⟩
      have hx : (st.services.records.erase name).lookup name' = some x := hx
      rw [Assoc.lookup_erase_ite] at hx
      split_ifs at hx
      exact ⟨x, hx, rfl, fun _ h => h⟩
    have h₁ : Fenced w.id D (fun _ => False) st.core st₁.core :=
      .single hv (m := .unserve) trivial hs (by simp) (by simp [Move.loosens])
    have hred := h₁.reduces hv
    have h₂ := @revokeScopes_fenced _ _ _ _ _ hf r
      (record.scopes.insertionSort ActorRef.before) (hv.step hs) (hred.closed hc) fun q hq => by
        have hq : q ∈ record.scopes := (List.mem_insertionSort _).mp hq
        refine ⟨hc.scope r name record q hD ht hrec hq, fun k l hk _ hl => ?_⟩
        have hpar := (hv.serving.scopes name record q hrec hq).parent hk
        cases hl with
        | root hk' hp => exact absurd (hk.unique hk' ▸ hp) hpar
        | child _ _ hl =>
          cases hl <;>
          · simp only [List.length_cons]
            omega
    rw [h]
    exact ⟨h₁.trans h₂ hv,
      ((h₂.reduces (hv.step hs)).idle_parts (r := r)).2.2.1 hgone⟩

/-- What a fence has emptied stays empty until its actor stops. -/
structure Emptied (st : State) (r : ActorRef) : Prop where
  publications : st.core.publications.queueOf r = []
  operations : ∀ id p, st.core.operations.locate id = .ok (.pending p) → p.owner ≠ r ∧ p.target ≠ r
  service : st.core.services.byTarget.lookup r = none
  lease : st.core.services.leases.lookup r = none
  root : st.core.drainRoots.lookup r.slot = none

theorem Emptied.reduces {st' : State} (h : Emptied st r) (hr : st.core.Reduces st'.core) :
    Emptied st' r := by
  have hparts := hr.idle_parts (r := r)
  exact ⟨hparts.1 h.publications, hparts.2.1 h.operations, hparts.2.2.1 h.service,
    hparts.2.2.2.1 h.lease, hparts.2.2.2.2 h.root⟩

/-- The fence up to the point where the actor itself stops. -/
theorem fence_prepare (hf : w.Fencer D fuel fence) (hv : st.core.Valid w.id)
    (hc : st.core.Closed D) (hD : D r) (hdeep : Deep st.core.nodes r (fuel + 1)) :
    let st₁ := w.cancelSourcePublicationsLocked r st
    let st₂ := { st₁ with
      eventDeadlines := st₁.eventDeadlines.remove r
      stagedActors := st₁.stagedActors.erase r.slot
      drainRoots := st₁.drainRoots.erase r.slot }
    let st₃ := w.cancelOperationsOf r (w.discardNotificationsFor r
      (w.detachService fence r (w.detachScope r st₂)))
    Fenced w.id D (fun x => x = r) st.core st₁.core ∧
      Step w.id st₁.core (.undrain r.slot) st₂.core ∧
      Fenced w.id D (fun x => x = r) st₂.core st₃.core ∧ Emptied st₃ r := by
  intro st₁ st₂ st₃
  obtain ⟨h₁, hqueue⟩ := @cancelSourcePublicationsLocked_spec (Move.byFence fun x => D x ∧ (x = r ∨ Ended st₁.core.nodes x)) w st r hv
    fun id => ⟨rfl, hD, .inl rfl⟩
  have hv₁ : st₁.core.Valid w.id := h₁.valid hv
  have hu : Step w.id st₁.core (.undrain r.slot) st₂.core := .undrain
  have hv₂ := hv₁.step hu
  have hred₂ : st.core.Reduces st₂.core :=
    (Fenced.reduces (D := D) (X := fun x => x = r) h₁ hv).trans (hv₁.reduces hu trivial)
  have hroot : st₂.core.drainRoots.lookup r.slot = none := by
    show (st₁.drainRoots.erase r.slot).lookup r.slot = none
    simp
  -- every later part is a fence within the set
  set sa := w.detachScope r st₂ with hsa
  obtain ⟨ha, hlease⟩ := @detachScope_spec (Move.byFence fun x => D x ∧ (x = r ∨ Ended sa.core.nodes x)) r w st₂ hv₂ trivial
  have ha : Fenced w.id D (fun x => x = r) st₂.core sa.core := ha
  have hva : sa.core.Valid w.id := ha.valid hv₂
  have hra := ha.reduces hv₂
  set sb := w.detachService fence r sa with hsb
  obtain ⟨hb, hservice⟩ := detachService_spec hf hva ((hred₂.trans hra).closed hc) hD
    ((hred₂.trans hra).deep hdeep)
  have hb : Fenced w.id D (fun x => x = r) sa.core sb.core :=
    hb.widen fun _ hx => absurd hx not_false
  have hvb : sb.core.Valid w.id := hb.valid hva
  have hrb := hb.reduces hva
  set sc := w.discardNotificationsFor r sb with hsc
  have hc' : Fenced w.id D (fun x => x = r) sb.core sc.core :=
    discardNotificationsFor_evolves hvb (fun _ => trivial) (fun _ => trivial)
      fun _ hm => hm.fencing
  have hvc : sc.core.Valid w.id := hc'.valid hvb
  have hrc := hc'.reduces hvb
  obtain ⟨hd, hoperations⟩ := @cancelOperationsOf_spec (Move.byFence fun x => D x ∧ (x = r ∨ Ended st₃.core.nodes x)) r w sc hvc
    fun _ _ h => h
  have hd : Fenced w.id D (fun x => x = r) sc.core st₃.core := hd
  have hrd := hd.reduces hvc
  have hall : Fenced w.id D (fun x => x = r) st₂.core st₃.core :=
    ((ha.trans hb hv₂).trans hc' hv₂).trans hd hv₂
  have hrall := hall.reduces hv₂
  refine ⟨h₁, hu, hall, ?_, hoperations, ?_, ?_, ?_⟩
  · exact (hrall.idle_parts (r := r)).1 hqueue
  · exact ((hrc.trans hrd).idle_parts (r := r)).2.2.1 hservice
  · exact (((hrb.trans hrc).trans hrd).idle_parts (r := r)).2.2.2.1 hlease
  · exact (hrall.idle_parts (r := r)).2.2.2.2 hroot

/-- Without its routes, an emptied actor whose children have ended is idle. -/
theorem removeActorRoutes_idle (hv : st.core.Valid w.id) (ha : st.actors[r.slot]? = some a)
    (hr : a.reference = r) (hch : ∀ q ∈ a.children, Ended st.core.nodes q) (he : Emptied st r) :
    (w.removeActorRoutes r st).core.Idle r := by
  obtain ⟨h₁, hroutes⟩ := removeActorRoutes_spec (w := w) (r := r)
    (P := Move.byFence fun x => x = r) hv fun _ _ h => h
  have hred := h₁.steps.reduces (fun _ hm => hm.fencing) hv
  have ha₁ : (w.removeActorRoutes r st).actors[r.slot]? = some a := by
    rw [actors_removeActorRoutes, ha]
  have hn₁ : Seated (w.removeActorRoutes r st).core.nodes r a.node :=
    ⟨State.core_nodes_get ha₁, hr⟩
  have hparts := hred.idle_parts (r := r)
  refine ⟨fun n q k hn hq hk => ?_, hparts.2.1 he.operations, hparts.1 he.publications, hroutes,
    hparts.2.2.1 he.service, hparts.2.2.2.1 he.lease, hparts.2.2.2.2 he.root⟩
  rw [hn.unique hn₁] at hq
  obtain ⟨k', hk', hst⟩ := hred.ended (hch q hq)
  rwa [hk.unique hk']

/-- The end of a fence on an actor whose children have ended. -/
theorem fence_halts (hv : st.core.Valid w.id) (ha : st.actors[r.slot]? = some a)
    (hr : a.reference = r) (hs : a.state ≠ .stopped)
    (hch : ∀ q ∈ a.children, Ended st.core.nodes q) (he : Emptied st r) :
    Halts w.id r st.core
      (w.tryFinalize walkFuel r (stopActor r a (w.removeActorRoutes r st))).core := by
  obtain ⟨h₁, -⟩ := removeActorRoutes_spec (w := w) (r := r)
    (P := Move.byFence fun x => x = r) hv fun _ _ h => h
  have ha₁ : (w.removeActorRoutes r st).actors[r.slot]? = some a := by
    rw [actors_removeActorRoutes, ha]
  obtain ⟨d, h₂, hstop⟩ := stopActor_spec (P := Move.byFence fun x => x = r) (h₁.valid hv) ha₁ hr hs
    (removeActorRoutes_idle hv ha hr hch he) (fun _ => rfl) fun _ => ⟨rfl, rfl⟩
  exact .now (h₁.trans h₂) hstop
    (tryFinalize_settles ((h₂.valid (h₁.valid hv)).step hstop) fun x => ⟨x, rfl⟩)

theorem fenceLocked_fencer (D : ActorRef → Prop) (fuel : ℕ) :
    w.Fencer D fuel (w.fenceLocked fuel) := by
  induction fuel with
  | zero => exact fun r st _ _ _ _ => ⟨.refl _, fun h => absurd h (lt_irrefl 0)⟩
  | succ fuel ih =>
    intro r st hv hc hD hdeep
    rcases hcheck : w.checkRef r st with e | a
    · have h : w.fenceLocked (fuel + 1) r st = (.error e, st) := by
        unfold fenceLocked
        rw [hcheck]
      rw [h]
      refine ⟨.refl _, fun _ => ⟨.refl _, ?_⟩⟩
      rintro ⟨n, hn⟩
      exact absurd hn (checkRef_error hv.owned hcheck n)
    suffices hmain : Fenced w.id D (fun _ => False) st.core (w.fenceLocked (fuel + 1) r st).2.core ∧
        (w.fenceLocked (fuel + 1) r st).1 = .ok () ∧
        Ended (w.fenceLocked (fuel + 1) r st).2.core.nodes r from
      ⟨hmain.1, fun _ => ⟨hmain.1, fun _ => hmain.2⟩⟩
    have hn := seated_of_check hv.owned hcheck
    obtain ⟨h₁, hu, h₂, hemptied⟩ := fence_prepare ih hv hc hD hdeep
    unfold fenceLocked
    rw [hcheck]
    dsimp only
    set st₁ := w.cancelSourcePublicationsLocked r st
    set st₂ : State := { st₁ with
      eventDeadlines := st₁.eventDeadlines.remove r
      stagedActors := st₁.stagedActors.erase r.slot
      drainRoots := st₁.drainRoots.erase r.slot }
    set st₃ := w.cancelOperationsOf r (w.discardNotificationsFor r
      (w.detachService (w.fenceLocked fuel) r (w.detachScope r st₂)))
    have hv₁ := h₁.valid hv
    have hv₂ := hv₁.step hu
    have hv₃ : st₃.core.Valid w.id := h₂.valid hv₂
    have hred₃ : st.core.Reduces st₃.core :=
      ((h₁.reduces hv).trans (hv₁.reduces hu trivial)).trans (h₂.reduces hv₂)
    obtain ⟨n₃, hn₃, -⟩ := hred₃.seated hn
    obtain ⟨a₃, hc₃, ha₃, rfl⟩ := check_of_seated hv₃.owned hn₃
    rw [hc₃]
    dsimp only
    obtain ⟨hok, h₄, hch⟩ := fenceAll_fenced ih a₃.children hv₃ (hred₃.closed hc)
      (fun hne => by
        obtain ⟨q, hq⟩ := List.exists_mem_of_ne_nil _ hne
        exact (hv₃.owned.deep_child (hred₃.deep hdeep) hn₃ hq).2.1)
      fun q hq => by
        obtain ⟨hdq, -, hk⟩ := hv₃.owned.deep_child (hred₃.deep hdeep) hn₃ hq
        exact ⟨(hred₃.closed hc).child r _ q hD hn₃ hq, hdq, hk⟩
    rcases hall : fenceAll (w.fenceLocked fuel) a₃.children st₃ with ⟨e | u, st₄⟩
    · simp [hall] at hok
    rw [hall] at h₄ hch
    dsimp only at h₄ hch ⊢
    have hv₄ : st₄.core.Valid w.id := h₄.valid hv₃
    have hred₄ := h₄.reduces hv₃
    obtain ⟨n₄, hn₄, hnode⟩ := hred₄.seated hn₃
    obtain ⟨a₄, hc₄, ha₄, rfl⟩ := check_of_seated hv₄.owned hn₄
    rw [hc₄]
    dsimp only
    have h₂₄ : Fenced w.id D (fun x => x = r) st₂.core st₄.core :=
      h₂.trans (h₄.widen fun _ hx => absurd hx not_false) hv₂
    by_cases hstopped : a₄.state = .stopped
    · rw [if_pos hstopped]
      obtain ⟨h, he⟩ := Fenced.assemble hv hD hn h₁ hu h₂₄ (.before hn₄ hstopped)
      exact ⟨h, rfl, he⟩
    · rw [if_neg hstopped]
      have hhalts := fence_halts hv₄ ha₄ hn₄.2 hstopped
        (fun q hq => hch q (hnode.children.subset hq)) (hemptied.reduces hred₄)
      obtain ⟨h, he⟩ := Fenced.assemble hv hD hn h₁ hu h₂₄ hhalts
      exact ⟨h, rfl, he⟩

theorem deep_of_le {c : Core} (hf : walkFuel ≤ fuel) : Deep c.nodes r fuel := by
  intro n l _ _ hl
  have : 0 < l.length := by cases hl <;> simp
  omega

/-- `stop_locked` fences its actor within everything the stop reaches. -/
theorem stopLocked_fences (hv : st.core.Valid w.id) (hc : st.core.Closed D) (hD : D r) :
    w.Fences D r st (w.stopLocked r st) :=
  (fenceLocked_fencer D fenceFuel r st hv hc hD
    (deep_of_le (by simp [fenceFuel, walkFuel]))).2 (by simp [fenceFuel, walkFuel])

theorem closeLocked_fenced (hv : st.core.Valid w.id) :
    Fenced w.id (fun _ => True) (fun _ => False) st.core (w.closeLocked st).core := by
  have hfold : ∀ (refs : List ActorRef) (st : State), st.core.Valid w.id →
      Fenced w.id (fun _ => True) (fun _ => False) st.core
        (refs.foldl (fun st r => (w.fenceLocked fenceFuel r st).2) st).core := by
    intro refs
    induction refs with
    | nil => exact fun st _ => .refl _
    | cons r refs ih =>
      intro st hv
      have h := (stopLocked_fences (w := w) (r := r) (D := fun _ => True) hv
        ⟨fun _ _ _ _ _ _ => trivial, fun _ _ _ _ _ _ _ _ => trivial⟩ trivial).fenced
      exact h.trans (ih _ (Evolves.valid h hv)) hv
  exact hfold _ _ hv

end World

end Actorplane
