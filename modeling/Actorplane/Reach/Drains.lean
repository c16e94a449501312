import Actorplane.Core.Cutoffs
import Actorplane.Reach.Publishing

/-!
# Drains along runs

A draining actor keeps its cutoff, drains under one root on its ownership path, and
its deadline is never later than that of a drain request that reached its tree.
Only completions and publications from before the cutoff still enter its mailbox.
-/

namespace Actorplane

variable {world : ℕ} {c c' c'' : Core} {m : Move} {r : ActorRef} {P : Move → Prop}
  {deadline : Instant}

/-! ## What a drain request covers -/

/-- Whatever is at or below the actor drains by the deadline, or has ended. -/
def Covers (r : ActorRef) (deadline : Instant) (c c' : Core) : Prop :=
  ∀ x n n' l, Seated c.nodes x n → Lineage c.nodes x l → r ∈ l → Seated c'.nodes x n' →
    (n'.state = .stopping ∨ n'.state = .stopped) ∨ ∃ d t, DrainsBy c'.nodes x d t ∧ t ≤ deadline

theorem DrainRequest.covers (h : DrainRequest world r deadline c c') (hv : c.Valid world)
    (hk : Kin c.nodes) : Covers r deadline c c' := by
  have hev := h.evolves hv
  have hv' := hev.valid hv
  have hf := hev.steps.forward hv.owned
  intro x n n' l hn hl hr hn'
  by_cases hs' : n'.state = .stopping ∨ n'.state = .stopped
  · exact .inl hs'
  obtain ⟨hs1, hs2⟩ := not_or.mp hs'
  right
  have hl' := hl.forward hf hv'.owned hn' hs2
  obtain ⟨y, hy, hys⟩ := hv'.owned.lineage_alive hl' hn' hs2 hr
  have hbounds := hv'.owned.lineage_bounds hl' hn' hs2 hr hy
  -- the actor of the request has not ended, since something below it has not
  have hnot : ¬Ended c'.nodes r := by
    rintro ⟨z, hz, hzs⟩
    rw [hz.unique hy] at hzs
    rcases hzs with hs | hs
    · exact hs1 (hbounds.1 hs)
    · exact hys hs
  have hdrains : y.state = .quiescing → n'.state = .quiescing := fun hq =>
    (hbounds.2 hq).resolve_right hs1
  cases h with
  | missing hno => exact absurd hy (hno y)
  | ended he => exact absurd he hnot
  | early _ _ _ he => exact absurd he hnot
  | @sooner k z root t hseat hkq hroot hz hle hlt =>
    have hyq : y.state = .quiescing ∧ y.drainRoot = some root := by
      rcases (seated_set { z with drainDeadline := some t } hz.1 (by rfl)).mp hy with
        ⟨-, rfl, hzr⟩ | ⟨-, hyc⟩
      · rw [hzr.unique hseat]
        exact ⟨hkq, hroot⟩
      · rw [hyc.unique hseat]
        exact ⟨hkq, hroot⟩
    obtain ⟨d, t', hby⟩ := hv'.drains.by hn' (hdrains hyq.1)
    refine ⟨d, t', hby, ?_⟩
    obtain ⟨n₁, hn₁, hq₁, hu⟩ := hby
    obtain ⟨u, hu₁, -, -, hut⟩ := hu.self
    have hk' : Kin (c.nodes.set root.slot { z with drainDeadline := some t }) :=
      kin_set hk hz rfl rfl (fun hq => hq) rfl
    have hsame : n₁.drainRoot = y.drainRoot :=
      @Kin.root world _ r hk' hv'.owned x n₁ y l hl' hn₁ hq₁ hr hy hyq.1
    have hd : d = root := by
      rw [hu.root, hyq.2] at hsame
      exact Option.some.inj hsame
    subst hd
    rcases (seated_set { z with drainDeadline := some t } hz.1 (by rfl)).mp hu₁ with
      ⟨-, rfl, -⟩ | ⟨hslot, -⟩
    · have ht : t' = t := by simpa [eq_comm] using hut
      exact ht.le.trans hlt
    · exact absurd rfl hslot
  | @begun k t c' hseat hkact hs hq hlt =>
    have hns : n.state ≠ .stopping ∧ n.state ≠ .stopped := by
      obtain ⟨n₂, hn₂, hr₂, -, -, hst⟩ := hq.restated.node _ n hn.1
      rcases hq.node _ n n' hn.1 hn'.1 with ⟨rfl, -⟩ | ⟨⟨k1, k2, -⟩, -⟩
      · exact ⟨hs1, hs2⟩
      · exact ⟨k1, k2⟩
    have hcov : Covered c.nodes r n := ⟨hns.1, hns.2, l, hn.2.symm ▸ hl, hr⟩
    have hq' : n'.state = .quiescing := by
      rcases hq.node _ n n' hn.1 hn'.1 with ⟨-, hout⟩ | ⟨-, rfl, -⟩
      · exact absurd hcov hout
      · rfl
    obtain ⟨d, t', hby⟩ := hv'.drains.by hn' hq'
    refine ⟨d, t', hby, ?_⟩
    obtain ⟨n₁, hn₁, -, hu⟩ := hby
    obtain ⟨u, hu₁, -, -, hut⟩ := hu.self
    have hd : d = r := by
      rcases hq.node _ n n₁ hn.1 hn₁.1 with ⟨-, hout⟩ | ⟨-, rfl, -⟩
      · exact absurd hcov hout
      · exact (Option.some.inj hu.root).symm
    subst hd
    obtain ⟨lr, hlr, -⟩ := hv.owned.lineage d k hseat (by simp [hkact])
    have hself : d ∈ lr := by cases hlr <;> simp
    obtain ⟨k', hk', ⟨-, hout⟩ | ⟨-, rfl, -⟩⟩ := hq.get hseat.1
    · exact absurd ⟨by simp [hkact], by simp [hkact], lr, hseat.2.symm ▸ hlr, hself⟩ hout
    · rw [hu₁.unique ⟨hk', hseat.2⟩] at hut
      have ht : t' = t := by simpa [Node.quiesce, hseat.2, eq_comm] using hut
      exact ht.le.trans hlt

/-- Later moves keep the actors of a request to its deadline. -/
theorem Covers.later (h : Covers r deadline c c') (hf : Forward c.nodes c'.nodes)
    (ht : Tightens c'.nodes c''.nodes) : Covers r deadline c c'' := by
  intro x n n'' l hn hl hr hn''
  obtain ⟨n', hn', -, h2⟩ := hf.between ht.forward hn hn''
  by_cases hq'' : n''.state = .quiescing
  · rcases h x n n' l hn hl hr hn' with hs | ⟨d, t, hby, hle⟩
    · rw [hq''] at h2
      rcases hs with hs | hs <;> simp [hs, Lifecycle.rank] at h2
    · obtain ⟨d', t', hby', hle'⟩ := ht.hastens x n'' d t hby hn'' hq''
      exact .inr ⟨d', t', hby', hle'.trans hle⟩
  · left
    have hrank : Lifecycle.rank .quiescing ≤ n''.state.rank := by
      apply le_trans _ h2
      rcases h x n n' l hn hl hr hn' with (hs | hs) | ⟨d, t, ⟨k, hk, hkq, -⟩, -⟩
      · simp [hs, Lifecycle.rank]
      · simp [hs, Lifecycle.rank]
      · rw [hn'.unique hk, hkq]
    revert hq'' hrank
    cases n''.state <;> simp [Lifecycle.rank]

/-- Earlier moves too. -/
theorem Covers.earlier (h : Covers r deadline c' c'') (hf : Forward c.nodes c'.nodes)
    (hf' : Forward c'.nodes c''.nodes) (ho : c'.Owned world) : Covers r deadline c c'' := by
  intro x n n'' l hn hl hr hn''
  obtain ⟨n', hn', -, hrank⟩ := hf.between hf' hn hn''
  by_cases hs' : n'.state = .stopped
  · left
    rw [hs'] at hrank
    revert hrank
    cases n''.state <;> simp [Lifecycle.rank]
  · exact h x n' n'' l hn' (hl.forward hf ho hn' hs') hr hn''

theorem DrainRequests.covers {roots : List ActorRef}
    (h : DrainRequests world deadline roots c c') (hv : c.Valid world) (hk : Kin c.nodes) :
    ∀ root ∈ roots, Covers root deadline c c' := by
  induction h with
  | nil => simp
  | cons h hs ih =>
    have hev := h.evolves hv
    have hv₁ := hev.valid hv
    have hsteps := (hs.drains hv₁).steps
    intro root hroot
    rcases List.mem_cons.mp hroot with rfl | hroot
    · exact (h.covers hv hk).later (hev.steps.forward hv.owned) (hsteps.tightens hv₁)
    · exact (ih hv₁ (hev.steps.kin hv hk) root hroot).earlier (hev.steps.forward hv.owned)
        (hsteps.forward hv₁.owned) hv₁.owned

/-! ## What a move admits -/

/-- The delivery that a move puts into a mailbox. -/
def Move.admits : Move → ℕ → ActorRef → Prop
  | .enqueue r x, e, q => x.eventId = e ∧ r = q
  | .attempt _ _ target (some x), e, q => x.eventId = e ∧ target = q
  | _, _, _ => False

theorem Step.admits (hs : Step world c m c') :
    ∃ new, c'.mail = c.mail ++ new ∧ ∀ e q, .admitted e q ∈ new → m.admits e q := by
  cases hs
  case enqueue r x b _ _ _ =>
    exact ⟨[.admitted x.eventId r], rfl, fun e q h => by simp_all [Move.admits]⟩
  case deliver id route target x p routes b sub _ _ _ _ _ _ _ _ _ =>
    exact ⟨[.admitted x.eventId target], rfl, fun e q h => by simp_all [Move.admits]⟩
  case lose r lost b n kept late _ _ _ _ _ => exact ⟨_, rfl, fun e q h => by simp at h⟩
  case cancel => exact ⟨_, rfl, fun e q h => by simp at h⟩
  case start => exact ⟨_, rfl, fun e q h => by simp at h⟩
  case finish => exact ⟨_, rfl, fun e q h => by simp at h⟩
  case abandon => exact ⟨_, rfl, fun e q h => by simp at h⟩
  all_goals exact ⟨[], (List.append_nil _).symm, fun _ _ h => by cases h⟩

theorem Steps.admits (hs : Steps world P c c') :
    ∃ new, c'.mail = c.mail ++ new ∧ ∀ e q, .admitted e q ∈ new → ∃ m, P m ∧ m.admits e q := by
  induction hs with
  | refl => exact ⟨[], (List.append_nil _).symm, fun _ _ h => by cases h⟩
  | @tail _ _ m _ hm hst ih =>
    obtain ⟨new, hnew, hall⟩ := ih
    obtain ⟨more, hmore, hone⟩ := hst.admits
    refine ⟨new ++ more, by rw [hmore, hnew, List.append_assoc], fun e q h => ?_⟩
    rcases List.mem_append.mp h with h | h
    · exact hall e q h
    · exact ⟨m, hm, hone e q h⟩

namespace World

variable {w : World} {st : State}

/-- A send or request only reaches an actor that is active on its own account. -/
theorem enqueue_active {action : Action} {q : ActorRef} {x : Mail}
    (h : w.moves action st (.enqueue q x)) :
    ∃ n, Seated st.core.nodes q n ∧ n.state = .active := by
  have hto : action.sendsTo = some q := makes_of_moves h not_false
  have hsend : ∀ {r : ActorRef}, Move.bySend st.core r (.enqueue q x) →
      ∃ n, Seated st.core.nodes q n ∧ n.state = .active := by
    rintro r (h | ⟨y, h, -, hn⟩)
    · cases h
    · cases h
      exact hn
  have hrequest : ∀ {r : ActorRef}, Move.byRequest st.core r (.enqueue q x) →
      ∃ n, Seated st.core.nodes q n ∧ n.state = .active := by
    rintro r (h | ⟨id, h | h | h⟩)
    · exact hsend h
    · cases h
    · cases h
    · cases h
  cases action with
  | send => exact hsend h
  | sendPort => exact hsend h
  | sendHeld => exact hsend h
  | sendHeldFrom => exact hsend h
  | request => exact hrequest h
  | resumeRequest => exact hrequest h
  | _ => cases hto

/-- The mailbox events of a state, in order. -/
def mailEvents (st : State) : List Event := st.log.filter Event.isMail

/-- An admission into a mailbox is a send to an active actor, or a routing turn that the target
may still receive. -/
theorem Rests.admits (h : w.Rests st) (action : Action) :
    ∃ new, mailEvents (w.step action st).2 = mailEvents st ++ new ∧ ∀ e q, .admitted e q ∈ new →
      (∃ a, w.checkRef q st = .ok a ∧ a.state = .active) ∨
        action = .routeBatch ∧ ∃ p route, st.core.turn = some p ∧ w.Receivable st p route q := by
  obtain ⟨new, hnew, hall⟩ := (step_evolves h.valid action).steps.admits
  refine ⟨new, hnew, fun e q hmem => ?_⟩
  obtain ⟨m, hm, had⟩ := hall e q hmem
  cases m with
  | enqueue r x =>
    obtain ⟨-, rfl⟩ := had
    obtain ⟨n, hn, hs⟩ := enqueue_active hm
    obtain ⟨a, ha, rfl⟩ := h.check_iff_seated.mp hn
    exact .inl ⟨a, ha, hs⟩
  | attempt id route target delivery =>
    rcases delivery with - | x
    · exact had.elim
    · obtain ⟨-, rfl⟩ := had
      have hmake : action = .routeBatch := makes_of_moves hm not_false
      subst hmake
      obtain ⟨p, hp, -, -, hdel⟩ := hm
      obtain ⟨-, ⟨sub, hsub, hown⟩, n, hn, hstate⟩ := hdel x rfl
      obtain ⟨a, ha, rfl⟩ := h.check_iff_seated.mp hn
      exact .inr ⟨rfl, p, route, hp, ⟨sub, hsub, h.running hown⟩, a, ha, hstate⟩
  | _ => exact had.elim

/-! ## Drains -/

/-- The deadline of the tree that an actor drains in. -/
def effectiveDeadline (w : World) (st : State) (x : ActorRef) : Option Instant :=
  match w.checkRef x st with
  | .error _ => none
  | .ok a =>
    match a.drainRoot with
    | none => none
    | some d =>
      match w.checkRef d st with
      | .error _ => none
      | .ok b => b.drainDeadline

/-- The actor is there and quiescing. -/
def Quiescing (w : World) (st : State) (x : ActorRef) (a : Actor) : Prop :=
  w.checkRef x st = .ok a ∧ a.state = .quiescing

theorem Rests.drainsBy (h : w.Rests st) {x d : ActorRef} {t : Instant}
    (hx : DrainsBy st.core.nodes x d t) :
    (∃ a, w.Quiescing st x a ∧ a.drainRoot = some d) ∧ w.effectiveDeadline st x = some t := by
  obtain ⟨n, hn, hq, hu⟩ := hx
  obtain ⟨a, ha, rfl⟩ := h.check_iff_seated.mp hn
  obtain ⟨k, hk, -, -, hkt⟩ := hu.self
  obtain ⟨b, hb, rfl⟩ := h.check_iff_seated.mp hk
  have hroot : a.drainRoot = some d := hu.root
  refine ⟨⟨a, ⟨ha, hq⟩, hroot⟩, ?_⟩
  unfold effectiveDeadline
  rw [ha]
  dsimp only
  rw [hroot]
  dsimp only
  rw [hb]
  exact hkt

theorem Rests.drainsBy_of (h : w.Rests st) {x : ActorRef} {a : Actor} (ha : w.Quiescing st x a) :
    ∃ d t, DrainsBy st.core.nodes x d t :=
  h.valid.drains.by (seated_of_check h.valid.owned ha.1) ha.2

/-- How the draining actors of a state hang together. -/
structure Draining (w : World) (st : State) : Prop where
  quiescing : ∀ x a, w.Quiescing st x a → a.publicationCutoff ≠ none ∧
    ∃ d b t, a.drainRoot = some d ∧ d ∈ w.ancestors st walkFuel x ∧ w.Quiescing st d b ∧
      st.drainRoots.lookup d.slot = some d ∧ b.drainDeadline = some t
  roots : ∀ s d, st.drainRoots.lookup s = some d ↔
    d.slot = s ∧ ∃ a, w.Quiescing st d a ∧ a.drainRoot = some d

theorem Rests.drainingTree (h : w.Rests st) : w.Draining st := by
  constructor
  · intro x a ha
    have hn := seated_of_check h.valid.owned ha.1
    obtain ⟨hcut, d, t, hroot, ⟨l, hl, hmem⟩, k, hk, hkq, hkr, hkt⟩ :=
      h.valid.drains.under x a.node hn ha.2
    obtain ⟨b, hb, rfl⟩ := h.check_iff_seated.mp hk
    refine ⟨hcut, d, b, t, hroot, ?_, ⟨hb, hkq⟩, ?_, hkt⟩
    · obtain ⟨l', hl', hlen⟩ := h.valid.owned.lineage x a.node hn (by simp [show a.node.state = _ from ha.2])
      rw [ancestors_eq h hl' (hlen.trans (by decide))]
      rwa [hl.unique hl'] at hmem
    · exact (h.draining d b.node hk hkq hkr).resolve_right not_false
  · intro s d
    constructor
    · intro hs
      obtain ⟨hslot, n, hn, hq, hr⟩ := h.valid.drains.roots s d hs
      obtain ⟨a, ha, rfl⟩ := h.check_iff_seated.mp hn
      exact ⟨hslot, a, ⟨ha, hq⟩, hr⟩
    · rintro ⟨rfl, a, ha, hr⟩
      exact (h.draining d a.node (seated_of_check h.valid.owned ha.1) ha.2 hr).resolve_right not_false

/-- The drain requests of a call: an actor it reaches, with the deadline. -/
def Asks (w : World) (st : State) (y : ActorRef) (deadline : Instant) : Action → Prop
  | .requestDrain r t => t = deadline ∧ r ∈ w.ancestors st walkFuel y
  | .drainAll t => t = deadline ∧ ∃ a, w.Living st y a
  | _ => False

theorem Lineage.top {nodes : List Node} {x : ActorRef} {l : List ActorRef}
    (hl : Lineage nodes x l) : ∃ r n, r ∈ l ∧ Seated nodes r n ∧ n.parent = none := by
  induction hl with
  | root hn hp => exact ⟨_, _, by simp, hn, hp⟩
  | child _ _ _ ih =>
    obtain ⟨r, n, hr, hn, hp⟩ := ih
    exact ⟨r, n, List.mem_cons_of_mem _ hr, hn, hp⟩

theorem mem_liveRoots {r : ActorRef} {a : Actor} (ha : st.actors[r.slot]? = some a)
    (hr : a.reference = r) (hp : a.parent = none) (hs : a.state ≠ .stopped) : r ∈ liveRoots st := by
  apply List.mem_map.mpr
  refine ⟨a, List.mem_filter.mpr ⟨List.mem_of_getElem? ha, ?_⟩, hr⟩
  simp [hp, hs]

/-- After a drain request, what it reaches drains by its deadline or has ended. -/
theorem Rests.asked (h : w.Rests st) (hk : Kin st.core.nodes) {action : Action} {y : ActorRef}
    {deadline : Instant} (hask : w.Asks st y deadline action) {n n₁ : Node}
    (hn : Seated st.core.nodes y n) (hn₁ : Seated (w.step action st).2.core.nodes y n₁) :
    (n₁.state = .stopping ∨ n₁.state = .stopped) ∨
      ∃ d t, DrainsBy (w.step action st).2.core.nodes y d t ∧ t ≤ deadline := by
  by_cases hs : n.state = .stopped
  · left
    have hrank := ((step_evolves h.valid action).steps.forward h.valid.owned |>.rank_le hn hn₁).1
    rw [hs] at hrank
    revert hrank
    cases n₁.state <;> simp [Lifecycle.rank]
  obtain ⟨l, hl, hlen⟩ := h.valid.owned.lineage y n hn hs
  cases action with
  | requestDrain r t =>
    obtain ⟨rfl, hr⟩ := hask
    rw [ancestors_eq h hl (hlen.trans (by decide))] at hr
    obtain ⟨c₁, hreq, hc | hm⟩ := requestDrain_spec (w := w) (r := r) h.valid t
    · have hcov := hreq.covers h.valid hk
      rw [← hc] at hcov
      exact hcov y n n₁ l hn hl hr hn₁
    · have hv₁ := (hreq.evolves h.valid).valid h.valid
      have hcov := (hreq.covers h.valid hk).later
        ((hreq.evolves h.valid).steps.forward h.valid.owned) (hm.steps.tightens hv₁)
      exact hcov y n n₁ l hn hl hr hn₁
  | drainAll t =>
    obtain ⟨rfl, -⟩ := hask
    obtain ⟨c₁, hreq, hm⟩ := drainAll_spec (w := w) h.valid t
    obtain ⟨r, k, hr, hk', hp⟩ := Lineage.top hl
    obtain ⟨k', hk'', hks⟩ := h.valid.owned.lineage_alive hl hn hs hr
    obtain ⟨a, ha, rfl⟩ := h.check_iff_seated.mp hk'
    rw [hk''.unique hk'] at hks
    obtain ⟨hget, href⟩ := h.check.mp ha
    have hmem : r ∈ liveRoots st := mem_liveRoots hget href hp hks
    have hv₁ := (hreq.drains h.valid).valid h.valid
    have hcov := (hreq.covers h.valid hk r hmem).later
      ((hreq.drains h.valid).steps.forward h.valid.owned) (hm.steps.tightens hv₁)
    exact hcov y n n₁ l hn hl hr hn₁
  | _ => exact hask.elim

theorem kin_init : Kin w.init.core.nodes := by
  intro x n p m hn
  have hnil : w.init.core.nodes = [] := rfl
  simp [Seated, hnil] at hn

theorem Rests.tightens (h : w.Rests st) (actions : List Action) :
    Tightens st.core.nodes (w.exec st actions).core.nodes :=
  (h.steps actions).tightens h.valid

/-- An actor that drained keeps what its mailbox may still take. -/
theorem Rests.fenced (h : w.Rests st) {q : ActorRef} {a : Actor} {k : ℕ}
    (ha : w.Quiescing st q a) (hk : a.publicationCutoff = some k) (later : List Action)
    (action : Action) :
    ∃ new, mailEvents (w.step action (w.exec st later)).2 = mailEvents (w.exec st later) ++ new ∧
      ∀ e, .admitted e q ∈ new → action = .routeBatch ∧
        ∃ p, (w.exec st later).core.turn = some p ∧ (p.completion = true ∨ p.ticket ≤ k) := by
  have h' := h.exec later
  have ht := h.tightens later
  have hn := seated_of_check h.valid.owned ha.1
  obtain ⟨new, hnew, hall⟩ := h'.admits action
  refine ⟨new, hnew, fun e he => ?_⟩
  have hstate : ∀ b, w.checkRef q (w.exec st later) = .ok b → b.state ≠ .active ∧
      b.publicationCutoff = some k := by
    intro b hb
    have hn' := seated_of_check h'.valid.owned hb
    refine ⟨fun hact => ?_, ht.cuts q a.node b.node k hn hn' hk⟩
    have hrank := (ht.forward.rank_le hn hn').1
    rw [show a.node.state = .quiescing from ha.2, show b.node.state = .active from hact] at hrank
    simp [Lifecycle.rank] at hrank
  rcases hall e q he with ⟨b, hb, hact⟩ | ⟨rfl, p, route, hp, -, b, hb, hrec⟩
  · exact absurd hact (hstate b hb).1
  · refine ⟨rfl, p, hp, ?_⟩
    obtain ⟨hna, hcut⟩ := hstate b hb
    rcases hrec with hact | ⟨-, hc | ⟨cutoff, hcutoff, hle⟩⟩
    · exact absurd hact hna
    · exact .inl hc
    · rw [hcut] at hcutoff
      cases hcutoff
      exact .inr hle

/-- A drain request names an actor that is there. -/
theorem Rests.asked_seated (h : w.Rests st) {y : ActorRef} {deadline : Instant} {action : Action}
    (hask : w.Asks st y deadline action) : ∃ n, Seated st.core.nodes y n := by
  cases action with
  | requestDrain r t =>
    obtain ⟨-, hr⟩ := hask
    rcases hc : w.checkRef y st with e | z
    · rw [show walkFuel = 129 + 1 from rfl, ancestors, hc] at hr
      cases hr
    · exact ⟨z.node, seated_of_check h.valid.owned hc⟩
  | drainAll t =>
    obtain ⟨-, z, hz, -⟩ := hask
    exact ⟨z.node, seated_of_check h.valid.owned hz⟩
  | _ => exact hask.elim

/-- An actor that was asked to drain, and still does later, drains by the deadline it was given. -/
theorem Rests.asked_later (h : w.Rests st) (hk : Kin st.core.nodes) {action : Action}
    {y : ActorRef} {deadline : Instant} (hask : w.Asks st y deadline action)
    (during : List Action) {a : Actor}
    (ha : w.Quiescing (w.exec (w.step action st).2 during) y a) :
    ∃ d t, DrainsBy (w.exec (w.step action st).2 during).core.nodes y d t ∧ t ≤ deadline := by
  have h₁ : w.Rests (w.step action st).2 := h.step action
  have hn₂ := seated_of_check (h₁.exec during).valid.owned ha.1
  obtain ⟨n, hn⟩ := h.asked_seated hask
  have hf₁ := (step_evolves h.valid action).steps.forward h.valid.owned
  obtain ⟨n₁, hn₁, -, hrank⟩ := hf₁.between (h₁.tightens during).forward hn hn₂
  rw [show a.node.state = .quiescing from ha.2] at hrank
  have hby := (h.asked hk hask hn hn₁).resolve_left fun hs => by
    rcases hs with hs | hs <;> simp [hs, Lifecycle.rank] at hrank
  obtain ⟨d, t, hby, hle⟩ := hby
  obtain ⟨d₂, t₂, hy₂, hle₂⟩ := (h₁.tightens during).hastens y a.node d t hby hn₂ ha.2
  exact ⟨d₂, t₂, hy₂, hle₂.trans hle⟩

/-- Actors that drain under one root have one deadline. -/
theorem Rests.shared (h : w.Rests st) {x y d : ActorRef} {a b : Actor} {t : Instant}
    (ha : w.Quiescing st y a) (hb : w.Quiescing st x b) (hroot : a.drainRoot = b.drainRoot)
    (hy : DrainsBy st.core.nodes y d t) : DrainsBy st.core.nodes x d t := by
  obtain ⟨e, u, hx⟩ := h.drainsBy_of hb
  have hroots : e = d := by
    obtain ⟨⟨z, hz, hzr⟩, -⟩ := h.drainsBy hy
    obtain ⟨⟨z', hz', hzr'⟩, -⟩ := h.drainsBy hx
    have hza : z = a := Except.ok.inj (hz.1.symm.trans ha.1)
    have hzb : z' = b := Except.ok.inj (hz'.1.symm.trans hb.1)
    rw [hza] at hzr
    rw [hzb, ← hroot, hzr] at hzr'
    exact (Option.some.inj hzr').symm
  subst hroots
  exact hy.shared hx ▸ hx

/-- A drain deadline holds for all actors that at some time drain under the root of the actor that
was asked. -/
theorem Rests.deadline_bound (h : w.Rests st) (hk : Kin st.core.nodes) {action : Action}
    {x y : ActorRef} {deadline : Instant} (hask : w.Asks st y deadline action)
    (during after : List Action) {a b a' : Actor}
    (ha : w.Quiescing (w.exec (w.step action st).2 during) y a)
    (hb : w.Quiescing (w.exec (w.step action st).2 during) x b)
    (hroot : a.drainRoot = b.drainRoot)
    (ha' : w.Quiescing (w.exec (w.exec (w.step action st).2 during) after) x a') :
    ∃ t, w.effectiveDeadline (w.exec (w.exec (w.step action st).2 during) after) x = some t ∧
      t ≤ deadline := by
  have h₂ := (h.step action).exec during
  have h₃ := h₂.exec after
  obtain ⟨d, t, hy, hle⟩ := h.asked_later hk hask during ha
  have hx := h₂.shared ha hb hroot hy
  obtain ⟨d', t', hx', hle'⟩ := (h₂.tightens after).hastens x a'.node d t hx
    (seated_of_check h₃.valid.owned ha'.1) ha'.2
  exact ⟨t', (h₃.drainsBy hx').2, hle'.trans hle⟩

/-- Draining actors keep their cutoffs and drain under listed roots above them, deadlines only
move earlier and below every request that a draining actor of the tree got, and nothing but completions and
publications from before the cutoff is admitted to a draining actor. -/
theorem drain_fence (w : World) (before during after : List Action) (action : Action) :
    let st := w.exec w.init before
    let st₁ := (w.step action st).2
    let st₂ := w.exec st₁ during
    let st₃ := w.exec st₂ after
    w.Draining st ∧
    (∀ x a a', w.checkRef x st₂ = .ok a → w.checkRef x st₃ = .ok a' →
      (∀ k, a.publicationCutoff = some k → a'.publicationCutoff = some k) ∧
      (a.state = .quiescing → a'.state = .quiescing → ∃ t t',
        w.effectiveDeadline st₂ x = some t ∧ w.effectiveDeadline st₃ x = some t' ∧ t' ≤ t)) ∧
    (∀ y x a b a' deadline, w.Asks st y deadline action → w.Quiescing st₂ y a →
      w.Quiescing st₂ x b → a.drainRoot = b.drainRoot → w.Quiescing st₃ x a' →
      ∃ t, w.effectiveDeadline st₃ x = some t ∧ t ≤ deadline) ∧
    ∀ q a k, w.Quiescing st q a → a.publicationCutoff = some k → ∀ later action',
      ∃ new, mailEvents (w.step action' (w.exec st later)).2 = mailEvents (w.exec st later) ++ new ∧
        ∀ e, .admitted e q ∈ new → action' = .routeBatch ∧
          ∃ p, (w.exec st later).core.turn = some p ∧ (p.completion = true ∨ p.ticket ≤ k) := by
  intro st st₁ st₂ st₃
  have hi : w.Rests w.init := rests_init
  have h : w.Rests st := rests before
  have h₁ : w.Rests st₁ := h.step action
  have h₂ : w.Rests st₂ := h₁.exec during
  have h₃ : w.Rests st₃ := h₂.exec after
  have ht := h₂.tightens after
  have hkin : Kin st.core.nodes := (hi.steps before).kin hi.valid kin_init
  refine ⟨h.drainingTree, fun x a a' ha ha' => ⟨fun k hk => ?_, fun hq hq' => ?_⟩,
    fun y x a b a' deadline hask ha hb hroot ha' =>
      h.deadline_bound hkin hask during after ha hb hroot ha',
    fun q a k ha hk later action' => h.fenced ha hk later action'⟩
  · exact ht.cuts x a.node a'.node k (seated_of_check h₂.valid.owned ha)
      (seated_of_check h₃.valid.owned ha') hk
  · obtain ⟨d, t, hby⟩ := h₂.drainsBy_of ⟨ha, hq⟩
    obtain ⟨d', t', hby', hle⟩ :=
      ht.hastens x a'.node d t hby (seated_of_check h₃.valid.owned ha') hq'
    exact ⟨t, t', (h₂.drainsBy hby).2, (h₃.drainsBy hby').2, hle⟩

theorem exists_check {x : ActorRef} {P : Actor → Prop} [DecidablePred P]
    (h : (w.checkRef x st).toOption.any (P ·) = true) :
    ∃ a, w.checkRef x st = .ok a ∧ P a := by
  cases check : w.checkRef x st with
  | error e =>
    rw [check] at h
    cases h
  | ok a =>
    rw [check] at h
    exact ⟨a, rfl, of_decide_eq_true h⟩

/-- A child is drained by 10 and runs out of time with a delivery in flight; its parent is drained
by 100 then, and keeps that deadline. -/
theorem stopping_child_forgotten :
    ¬∀ (w : World) (before after : List Action) (action : Action) (x y : ActorRef)
      (deadline : Instant), w.Asks (w.exec w.init before) y deadline action →
      (∃ b, w.Quiescing (w.exec w.init (before ++ [action])) y b) →
      (∃ b, w.Living (w.exec w.init (before ++ action :: after)) y b) →
      x ∈ w.ancestors (w.exec w.init (before ++ action :: after)) walkFuel y →
      (∃ a, w.Quiescing (w.exec w.init (before ++ action :: after)) x a) →
      ∃ t, w.effectiveDeadline (w.exec w.init (before ++ action :: after)) x = some t ∧
        t ≤ deadline := by
  intro h
  obtain ⟨t, kept, le⟩ := h
    ⟨1, {}, by decide, fun n => if n < 5 then 0 else 20, fun _ => 0⟩
    [.allocate .native none, .allocate .native (some ⟨1, 0, 1⟩), .activate ⟨1, 0, 1⟩,
      .activate ⟨1, 1, 1⟩, .send ⟨1, 1, 1⟩ (.pulse 1) {}, .claim ⟨1, 1, 1⟩]
    [.maintain 20, .requestDrain ⟨1, 0, 1⟩ 100] (.requestDrain ⟨1, 1, 1⟩ 10)
    ⟨1, 0, 1⟩ ⟨1, 1, 1⟩ 10 ⟨rfl, by decide +kernel⟩
    (exists_check (by decide +kernel)) (exists_check (by decide +kernel)) (by decide +kernel)
    (exists_check (by decide +kernel))
  obtain rfl : t = 100 := Option.some.inj (kept.symm.trans (by decide +kernel))
  exact absurd le (by decide)

end World

end Actorplane
