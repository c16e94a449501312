import Actorplane.Locked.Attempts
import Actorplane.Reach.Blockers
import Actorplane.Reach.Drains

/-!
# Actors that were never activated

A generation is opened by its activation, or as the scope of a lease. Before that
it is never active, so no message and no request reaches it. A drain makes it
quiescing, though, and a routing turn delivers to a quiescing destination. So the fence
holds along a run exactly if no attempt of a turn passes its checks at such an actor.
-/

namespace Actorplane

variable {world : ℕ} {c c' : Core} {m : Move} {P : Move → Prop}

/-- The generation was activated, or leased as the scope of a service. -/
def Core.Opened (c : Core) (r : ActorRef) : Prop :=
  Event.activated r ∈ c.life ∨ Event.leased r ∈ c.life

/-- Whatever is active, holds a delivery or has claimed one was opened. -/
structure Core.Gated (c : Core) : Prop where
  active : ∀ r n, Seated c.nodes r n → n.state = .active → c.Opened r
  mail : ∀ r n b, Seated c.nodes r n → c.boxes[r.slot]? = some b → b.queue ≠ [] → c.Opened r
  claimed : ∀ e r, Event.claimed e r ∈ c.mail → c.Opened r

def Action.isTurn : Action → Bool
  | .routeBatch => true
  | _ => false

/-- The target of a delivery. -/
def Move.delivers : Move → Option ActorRef
  | .enqueue r _ => some r
  | .attempt _ _ target (some _) => some target
  | _ => none

theorem Step.life_prefix (hs : Step world c m c') : c.life <+: c'.life := by
  cases hs
  case timeout => exact List.prefix_append _ _
  case finalize => exact List.prefix_append _ _
  case activate => exact List.prefix_append _ _
  case lease => exact List.prefix_append _ _
  all_goals exact List.prefix_rfl

theorem Core.Opened.step {r : ActorRef} (h : c.Opened r) (hs : Step world c m c') :
    c'.Opened r :=
  h.imp (fun he => hs.life_prefix.subset he) fun he => hs.life_prefix.subset he

theorem Core.Opened.steps {r : ActorRef} (h : c.Opened r) (hs : Steps world P c c') :
    c'.Opened r := by
  induction hs with
  | refl => exact h
  | tail _ _ hst ih => exact ih.step hst

/-! ## One move back -/

/-- Only an allocation brings a generation into its slot. -/
theorem Step.seated_back (ho : c.Owned world) (hs : Step world c m c') {r : ActorRef} {n' : Node}
    (hm : ∀ q, m = .allocate q → q.slot ≠ r.slot) (hn' : Seated c'.nodes r n') :
    ∃ n, Seated c.nodes r n := by
  by_cases hall : ∃ q, m = .allocate q
  · obtain ⟨q, rfl⟩ := hall
    have hslot := hm q rfl
    cases hs
    case allocate parent _ _ _ _ =>
      have hfresh := ‹FreshSlot c.nodes c.free q›
      rcases (seated_alloc (hfresh.le ho)).mp hn' with ⟨rfl, -⟩ | ⟨-, k, hk, -⟩
      · exact absurd rfl hslot
      · exact ⟨k, hk⟩
  · have href := hs.references (fun q hq => hall ⟨q, hq⟩) r.slot
    rw [hn'.1] at href
    obtain ⟨n, hn, he⟩ := Option.map_eq_some_iff.mp href.symm
    exact ⟨n, hn, he.trans hn'.2⟩

/-- Only an activation or a lease makes an actor active. -/
theorem Step.active_back (ho : c.Owned world) (hs : Step world c m c') {r : ActorRef} {n' : Node}
    (hn' : Seated c'.nodes r n') (hst : n'.state = .active) :
    (∃ n, Seated c.nodes r n ∧ n.state = .active) ∨ c'.Opened r := by
  have hset : ∀ (q : ActorRef) (n k : Node), Seated c.nodes q n → k.reference = n.reference →
      (k.state = .active → n.state = .active) → Seated (c.nodes.set q.slot k) r n' →
      ∃ n, Seated c.nodes r n ∧ n.state = .active := by
    intro q n k hn href hk hseat
    rcases (seated_set k hn.1 href).mp hseat with ⟨-, rfl, hr⟩ | ⟨-, hr⟩
    · exact ⟨n, hr, hk hst⟩
    · exact ⟨n', hr, hst⟩
  have hopen : ∀ (q : ActorRef) (n : Node), Seated c.nodes q n →
      Seated (c.nodes.set q.slot { n with state := .active }) r n' →
      (∃ n, Seated c.nodes r n ∧ n.state = .active) ∨ r = q := by
    intro q n hn hseat
    rcases (seated_set { n with state := .active } hn.1 rfl).mp hseat with ⟨-, -, hr⟩ | ⟨-, hr⟩
    · exact .inr (hr.2.symm.trans hn.2)
    · exact .inl ⟨n', hr, hst⟩
  cases hs
  case stop q n b hn _ _ _ _ _ _ _ _ _ _ _ =>
    exact .inl (hset q n { n with state := .stopping } hn rfl (by simp) hn')
  case finalize q n b hd hn _ _ _ _ _ _ =>
    rcases (seated_retire hn).mp hn' with ⟨rfl, rfl⟩ | ⟨-, k, hk, rfl⟩
    · cases hst
    · rw [(atParent_frame n.parent (.disown q) (fun _ => ⟨rfl, rfl, rfl⟩) k).2.1] at hst
      exact .inl ⟨k, hk, hst⟩
  case allocate q parent done hf _ _ =>
    rcases (seated_alloc (hf.le ho)).mp hn' with ⟨rfl, rfl⟩ | ⟨-, k, hk, rfl⟩
    · cases hst
    · rw [(atParent_frame parent (.adopt q) (fun _ => ⟨rfl, rfl, rfl⟩) k).2.1] at hst
      exact .inl ⟨k, hk, hst⟩
  case activate q n hn _ _ =>
    rcases hopen q n hn hn' with h | rfl
    · exact .inl h
    · exact .inr (.inl (by simp))
  case lease q n services lease hn _ _ _ _ _ _ =>
    rcases hopen q n hn hn' with h | rfl
    · exact .inl h
    · exact .inr (.inr (by simp))
  case quiesce root n deadline nodes drainRoots _ _ hq _ _ _ _ =>
    obtain ⟨k, hk, -⟩ := hq.restated.symm.seated hn'
    rcases hq.cases hk.1 hn'.1 with rfl | ⟨-, -, hquiet, -⟩
    · exact .inl ⟨n', hk, hst⟩
    · rw [hst] at hquiet
      cases hquiet
  case setDeadline q n deadline hn _ =>
    exact .inl (hset q n { n with drainDeadline := some deadline } hn rfl id hn')
  all_goals exact .inl ⟨n', hn', hst⟩

/-- A mailbox is filled by deliveries to the actor in its slot. -/
theorem Step.queue_back (ho : c.Owned world) (hc : c.Columns) (hs : Step world c m c') {i : ℕ}
    {b' : Box} (hb' : c'.boxes[i]? = some b') (hq : b'.queue ≠ []) :
    ((∃ b, c.boxes[i]? = some b ∧ b.queue ≠ []) ∧ ∀ q, m = .allocate q → q.slot ≠ i) ∨
      ∃ q, m.delivers = some q ∧ q.slot = i ∧ Running c.nodes q := by
  have hset : ∀ (j : ℕ) (b k : Box), c.boxes[j]? = some b → (k.queue ≠ [] → b.queue ≠ []) →
      (c.boxes.set j k)[i]? = some b' → ∃ b, c.boxes[i]? = some b ∧ b.queue ≠ [] := by
    intro j b k hb hk hget
    rw [List.getElem?_set] at hget
    split_ifs at hget with hj
    · cases hget
      exact ⟨b, hj ▸ hb, hk hq⟩
    · exact ⟨b', hget, hq⟩
  have hfill : ∀ (r : ActorRef) (b : Box) (x : Mail), Running c.nodes r →
      c.boxes[r.slot]? = some b →
      (c.boxes.set r.slot { b with queue := b.queue ++ [x] })[i]? = some b' →
      (∃ b, c.boxes[i]? = some b ∧ b.queue ≠ []) ∨ r.slot = i ∧ Running c.nodes r := by
    intro r b x hr hb hget
    rw [List.getElem?_set] at hget
    split_ifs at hget with hj
    · exact .inr ⟨hj, hr⟩
    · exact .inl ⟨b', hget, hq⟩
  cases hs
  case lose r lost b n kept late _ hb _ _ _ =>
    exact .inl ⟨hset r.slot b { b with staged := kept } hb id hb', nofun⟩
  case cancel r mail reason b n before after _ hb hqueue _ =>
    refine .inl ⟨hset r.slot b { b with queue := before ++ after } hb ?_ hb', nofun⟩
    simp [hqueue]
  case allocate q parent done hf _ _ =>
    have hle : q.slot ≤ c.boxes.length := by
      rw [hc.boxes]
      exact hf.le ho
    have hget : (put c.boxes q.slot (⟨[], [], false⟩ : Box))[i]? = some b' := hb'
    rw [put_get hle] at hget
    split_ifs at hget with hi
    · cases hget
      exact absurd rfl hq
    · refine .inl ⟨⟨b', hget, hq⟩, fun p hp => ?_⟩
      cases hp
      exact fun h => hi h.symm
  case enqueue r x b hr hb _ =>
    rcases hfill r b x hr hb hb' with h | ⟨hi, hrun⟩
    · exact .inl ⟨h, nofun⟩
    · exact .inr ⟨r, rfl, hi, hrun⟩
  case start r x b rest l _ hb hqueue _ _ _ _ =>
    refine .inl ⟨hset r.slot b { b with queue := rest, inFlight := true } hb ?_ hb', nofun⟩
    simp [hqueue]
  case finish l success b _ hb =>
    exact .inl ⟨hset l.target.slot b { b with inFlight := false } hb id hb', nofun⟩
  case abandon l b _ hb =>
    exact .inl ⟨hset l.target.slot b { b with inFlight := false } hb id hb', nofun⟩
  case accept p n b s _ _ _ _ _ _ _ _ _ hb _ =>
    refine .inl ⟨?_, nofun⟩
    dsimp only at hb'
    split_ifs at hb'
    · exact hset p.source.slot b { b with staged := b.staged ++ [s] } hb id hb'
    · exact ⟨b', hb', hq⟩
  case flush r id n b s rest _ hb _ _ =>
    exact .inl ⟨hset r.slot b { b with staged := rest } hb (fun h => h) hb', nofun⟩
  case deliver id route target x p routes b sub _ _ _ _ _ hr hb _ _ =>
    rcases hfill target b x hr hb hb' with h | ⟨hi, hrun⟩
    · exact .inl ⟨h, nofun⟩
    · exact .inr ⟨target, rfl, hi, hrun⟩
  all_goals exact .inl ⟨⟨b', hb', hq⟩, nofun⟩

/-- Only the start of a delivery claims it. -/
theorem Step.claimed_back (hs : Step world c m c') {e : ℕ} {r : ActorRef}
    (h : Event.claimed e r ∈ c'.mail) :
    Event.claimed e r ∈ c.mail ∨
      ∃ n b, Seated c.nodes r n ∧ c.boxes[r.slot]? = some b ∧ b.queue ≠ [] := by
  cases hs
  case start q x b rest l hr hb hqueue _ _ _ _ =>
    rcases List.mem_append.mp h with h | h
    · exact .inl h
    · obtain ⟨-, rfl⟩ : e = x.eventId ∧ r = q := by simpa using h
      obtain ⟨n, hn, -⟩ := hr
      exact .inr ⟨n, b, hn, hb, by simp [hqueue]⟩
  all_goals
    left
    simpa [Core.enqueue, Core.release, Core.setNode, Core.setHold] using h

/-! ## The invariant -/

theorem Core.Gated.step (h : c.Gated) (ho : c.Owned world) (hc : c.Columns)
    (hs : Step world c m c') (hd : ∀ q, m.delivers = some q → c.Opened q) : c'.Gated := by
  constructor
  · intro r n' hn' hst
    rcases hs.active_back ho hn' hst with ⟨n, hn, hact⟩ | hopen
    · exact (h.active r n hn hact).step hs
    · exact hopen
  · intro r n' b' hn' hb' hq
    rcases hs.queue_back ho hc hb' hq with ⟨⟨b, hb, hne⟩, hall⟩ | ⟨q, hdel, hslot, k, hk, -⟩
    · obtain ⟨n, hn⟩ := hs.seated_back ho hall hn'
      exact (h.mail r n b hn hb hne).step hs
    · have hall : ∀ p, m = .allocate p → p.slot ≠ r.slot := by
        rintro p rfl
        cases hdel
      obtain ⟨n, hn⟩ := hs.seated_back ho hall hn'
      -- the actor that is delivered to sits in the same slot
      have hqr : q = r := by
        have hkn : k = n := Option.some.inj (hk.1.symm.trans (hslot ▸ hn.1))
        rw [← hk.2, hkn, hn.2]
      exact hqr ▸ (hd q hdel).step hs
  · intro e r he
    rcases hs.claimed_back he with hold | ⟨n, b, hn, hb, hne⟩
    · exact (h.claimed e r hold).step hs
    · exact (h.mail r n b hn hb hne).step hs

theorem Steps.gated (hs : Steps world P c c') (hv : c.Valid world) (h : c.Gated)
    (hd : ∀ m, P m → ∀ q, m.delivers = some q → c.Opened q) : c'.Gated := by
  induction hs with
  | refl => exact h
  | tail hsteps hp hst ih =>
    have hv := hsteps.valid hv
    exact ih.step hv.owned hv.columns hst fun q hq => (hd _ hp q hq).steps hsteps

/-! ## One turn -/

/-- A turn changes no actor, claims nothing and opens nobody. -/
theorem Step.still {batch : ℕ} {c₀ : Core} (hs : Step world c m c') (hm : m.byTurn batch c₀) :
    c'.nodes = c.nodes ∧ c'.life = c.life ∧
      ∀ e r, Event.claimed e r ∈ c'.mail ↔ Event.claimed e r ∈ c.mail := by
  cases hs
  case conclude => exact ⟨rfl, rfl, fun _ _ => .rfl⟩
  case capture => exact ⟨rfl, rfl, fun _ _ => .rfl⟩
  case requeue => exact ⟨rfl, rfl, fun _ _ => .rfl⟩
  case attempt => exact ⟨rfl, rfl, fun _ _ => .rfl⟩
  case deliver => exact ⟨rfl, rfl, fun _ _ => by simp [Core.enqueue]⟩
  case burn => exact ⟨rfl, rfl, fun _ _ => .rfl⟩
  all_goals exact hm.elim

theorem Steps.still {batch : ℕ} {c₀ : Core} (hs : Steps world (Move.byTurn batch c₀) c c') :
    c'.nodes = c.nodes ∧ c'.life = c.life ∧
      ∀ e r, Event.claimed e r ∈ c'.mail ↔ Event.claimed e r ∈ c.mail := by
  induction hs with
  | refl => exact ⟨rfl, rfl, fun _ _ => .rfl⟩
  | tail _ hp hst ih =>
    obtain ⟨nodes, life, mail⟩ := hst.still hp
    exact ⟨nodes.trans ih.1, life.trans ih.2.1, fun e r => (mail e r).trans (ih.2.2 e r)⟩

namespace World

variable {w : World} {st : State}

/-- The generation was activated, or is the scope of a service lease. -/
def Opened (st : State) (r : ActorRef) : Prop :=
  Event.activated r ∈ st.log ∨ Event.leased r ∈ st.log

/-- Every attempt of the next turn that passes its checks is at an actor that was opened. -/
def TurnOpened (w : World) (st : State) : Prop :=
  ∀ x ∈ w.nextAttempts st, x.checks w = .ok () → Opened st x.target

theorem opened_core {r : ActorRef} : st.core.Opened r ↔ Opened st r :=
  or_congr (mem_life rfl) (mem_life rfl)

/-- Outside of the turns, what a call delivers goes to actors that were opened. -/
theorem Rests.delivers (hg : st.core.Gated) {action : Action} (hturn : action ≠ .routeBatch)
    {m : Move} (hm : w.moves action st m) {q : ActorRef} (hq : m.delivers = some q) :
    st.core.Opened q := by
  cases m with
  | enqueue r x =>
    cases hq
    obtain ⟨n, hn, hs⟩ := enqueue_active hm
    exact hg.active q n hn hs
  | attempt id route target delivery =>
    have hmake : action = .routeBatch := makes_of_moves hm not_false
    exact absurd hmake hturn
  | _ => cases hq

/-- The actor of an attempt that passes its checks. -/
theorem Rests.attempted (h : w.Rests st) {x : Attempt} (mem : x ∈ w.nextAttempts st)
    (passed : x.checks w = .ok ()) : ∃ n, Seated st.core.nodes x.target n := by
  obtain ⟨owned, nodes⟩ := nextAttempts_state h.valid mem
  unfold Attempt.checks at passed
  obtain ⟨u, fence, -⟩ := bind_ok.mp passed
  obtain ⟨-, n, -, seated, -⟩ := routeFence_ok owned fence
  exact ⟨n, nodes ▸ seated⟩

theorem Rests.routeBatch_still (h : w.Rests st) :
    (w.step .routeBatch st).2.core.nodes = st.core.nodes ∧
      (w.step .routeBatch st).2.core.life = st.core.life ∧
      ∀ e r, Event.claimed e r ∈ (w.step .routeBatch st).2.core.mail ↔
        Event.claimed e r ∈ st.core.mail :=
  (routeBatch_evolves h.valid).steps.still

theorem Rests.gated_turn (h : w.Rests st) (hg : st.core.Gated) (hturn : w.TurnOpened st) :
    (w.step .routeBatch st).2.core.Gated := by
  obtain ⟨nodes, life, mail⟩ := h.routeBatch_still
  have opened : ∀ r, st.core.Opened r → (w.step .routeBatch st).2.core.Opened r := by
    intro r hr
    unfold Core.Opened
    rw [life]
    exact hr
  constructor
  · intro r n hn hst
    rw [nodes] at hn
    exact opened r (hg.active r n hn hst)
  · intro r n b hn hb hq
    rw [nodes] at hn
    apply opened
    rcases (routeBatch_filled h.valid r.slot).mp ⟨b, hb, hq⟩ with
      ⟨b', hb', hq'⟩ | ⟨x, mem, passed, slot⟩
    · exact hg.mail r n b' hn hb' hq'
    · -- the actor that is delivered to sits in the same slot
      obtain ⟨k, hk⟩ := h.attempted mem passed
      have same : x.target = r := by
        have hkn : k = n := Option.some.inj (hk.1.symm.trans (slot ▸ hn.1))
        rw [← hk.2, hkn, hn.2]
      exact same ▸ opened_core.mpr (hturn x mem passed)
  · intro e r he
    exact opened r (hg.claimed e r ((mail e r).mp he))

theorem gated_init : w.init.core.Gated := by
  constructor <;> simp [World.init, State.core, Seated]

theorem gated (actions : List Action) (h : ∀ before after,
    actions = before ++ .routeBatch :: after → w.TurnOpened (w.exec w.init before)) :
    (w.exec w.init actions).core.Gated := by
  induction actions using List.reverseRecOn with
  | nil => exact gated_init
  | append_singleton actions action ih =>
    have hrest : w.Rests (w.exec w.init actions) := rests actions
    have hg := ih fun before after he => h before (after ++ [action]) (by simp [he])
    rw [exec_append]
    by_cases turn : action = .routeBatch
    · subst turn
      exact hrest.gated_turn hg (h actions [] rfl)
    · exact (step_evolves hrest.valid action).steps.gated hrest.valid hg
        fun m hm q hq => Rests.delivers hg turn hm hq

/-- An actor that was never opened holds no delivery, and no claim returned one for it. -/
def StartupFence (w : World) (actions : List Action) : Prop :=
  ∀ r, ¬Opened (w.exec w.init actions) r →
    (∀ a, w.checkRef r (w.exec w.init actions) = .ok a → a.queue = []) ∧
      ∀ e, (e, r) ∉ (w.outcomes w.init actions).filterMap Outcome.claim?

theorem Rests.vacant (h : w.Rests st) (hg : st.core.Gated) {r : ActorRef} (hr : ¬Opened st r)
    {a : Actor} (ha : w.checkRef r st = .ok a) : a.queue = [] := by
  by_contra hq
  apply hr
  rw [← opened_core]
  apply hg.mail r a.node a.box (h.check_iff_seated.mpr ⟨a, ha, rfl⟩)
    (State.core_boxes_get (h.check.mp ha).1)
  simpa [Actor.box] using hq

/-- A turn that breaks the fence leaves a delivery with an actor that was never opened. -/
theorem Rests.turnOpened (h : w.Rests st) (h' : w.Rests (w.step .routeBatch st).2)
    (fence : ∀ r, ¬Opened (w.step .routeBatch st).2 r →
      ∀ a, w.checkRef r (w.step .routeBatch st).2 = .ok a → a.queue = []) : w.TurnOpened st := by
  intro x mem passed
  obtain ⟨nodes, life, -⟩ := h.routeBatch_still
  by_contra closed
  obtain ⟨n, seated⟩ := h.attempted mem passed
  rw [← nodes] at seated
  obtain ⟨a, ha, -⟩ := h'.check_iff_seated.mp seated
  have empty : a.queue = [] := by
    refine fence x.target (fun opened => closed ?_) a ha
    rw [← opened_core] at opened ⊢
    unfold Core.Opened at opened ⊢
    rwa [life] at opened
  obtain ⟨b, hb, hq⟩ := (routeBatch_filled h.valid x.target.slot).mpr (.inr ⟨x, mem, passed, rfl⟩)
  have box := State.core_boxes_get (h'.check.mp ha).1
  apply hq
  rw [Option.some.inj (hb.symm.trans box)]
  show a.queue.map Delivery.mail = []
  rw [empty]
  rfl

/-- The fence holds in every state of a run exactly if no turn of the run makes an attempt that
passes its checks at an actor that was never opened. -/
theorem startup_fence (w : World) (actions : List Action) :
    (∀ before after, actions = before ++ after → w.StartupFence before) ↔
      ∀ before after, actions = before ++ .routeBatch :: after →
        w.TurnOpened (w.exec w.init before) := by
  constructor
  · rintro h before after rfl
    have fence := h (before ++ [.routeBatch]) after (by simp)
    have hrest : w.Rests (w.exec w.init (before ++ [.routeBatch])) := rests _
    unfold StartupFence at fence
    rw [exec_append] at fence hrest
    exact (rests before).turnOpened hrest fun r hr => (fence r hr).1
  · rintro h before after rfl r hr
    have hg := gated before fun pre post he => h pre (post ++ after) (by simp [he])
    refine ⟨fun a ha => (rests before).vacant hg hr ha, fun e he => ?_⟩
    rw [← claims_exec] at he
    obtain ⟨x, hx, hclaim⟩ := List.mem_filterMap.mp he
    cases x <;> simp [Event.claim?] at hclaim
    obtain ⟨rfl, rfl⟩ := hclaim
    exact hr (opened_core.mp (hg.claimed _ _ hx))

instance (st : State) (r : ActorRef) : Decidable (Opened st r) :=
  inferInstanceAs (Decidable (_ ∨ _))

instance (w : World) (st : State) : Decidable (w.TurnOpened st) :=
  inferInstanceAs (Decidable (∀ x ∈ w.nextAttempts st, x.checks w = .ok () → Opened st x.target))

/-- The turns of a run from the state, checked one by one. -/
def turnsOpened (w : World) (st : State) : List Action → Bool
  | [] => true
  | action :: actions =>
    (!action.isTurn || decide (w.TurnOpened st)) && turnsOpened w (w.step action st).2 actions

theorem turnOpened_of_turns {actions before after : List Action}
    (h : w.turnsOpened st actions = true) (split : actions = before ++ .routeBatch :: after) :
    w.TurnOpened (w.exec st before) := by
  induction before generalizing st actions with
  | nil =>
    subst split
    unfold turnsOpened at h
    obtain ⟨turn, -⟩ := (Bool.and_eq_true _ _).mp h
    show w.TurnOpened st
    simpa [Action.isTurn] using turn
  | cons action before ih =>
    subst split
    unfold turnsOpened at h
    obtain ⟨-, later⟩ := (Bool.and_eq_true _ _).mp h
    exact ih later rfl

/-- A drained root with an active child, and a starting child of the publisher: the turn delivers
to the one and is refused at the other. -/
theorem startup_fence_drained : ∀ before after, [.allocate .native none,
      .allocate .native (some ⟨1, 0, 1⟩), .allocate .native none,
      .allocate .native (some ⟨1, 2, 1⟩), .activate ⟨1, 0, 1⟩, .activate ⟨1, 1, 1⟩,
      .activate ⟨1, 2, 1⟩, .subscribe ⟨1, 2, 1⟩ ⟨1, 1, 1⟩, .subscribe ⟨1, 2, 1⟩ ⟨1, 3, 1⟩,
      .publish ⟨1, 2, 1⟩ (.pulse 1) {}, .send ⟨1, 0, 1⟩ (.pulse 2) {},
      .requestDrain ⟨1, 0, 1⟩ 100, .routeBatch, .claim ⟨1, 1, 1⟩] = before ++ after →
    World.StartupFence ⟨1, {}, by decide, fun _ => 0, fun _ => 0⟩ before := by
  apply (startup_fence _ _).mpr
  intro before after split
  exact turnOpened_of_turns (by decide +kernel) split

/-- A drain makes a starting child quiescing; the next turn delivers to it, and it claims. -/
theorem startup_delivers : ¬∀ (w : World) (actions : List Action), w.StartupFence actions := by
  intro h
  have hclaim := (h ⟨1, {}, by decide, fun _ => 0, fun _ => 0⟩
    [.allocate .native none, .allocate .native (some ⟨1, 0, 1⟩), .allocate .native none,
      .activate ⟨1, 0, 1⟩, .activate ⟨1, 2, 1⟩, .subscribe ⟨1, 2, 1⟩ ⟨1, 1, 1⟩,
      .publish ⟨1, 2, 1⟩ (.pulse 1) {}, .send ⟨1, 0, 1⟩ (.pulse 2) {},
      .requestDrain ⟨1, 0, 1⟩ 100, .routeBatch, .claim ⟨1, 1, 1⟩] ⟨1, 1, 1⟩
    (by unfold Opened; decide)).2
  exact hclaim 2 (by decide)

end World

end Actorplane
