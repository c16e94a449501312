import Actorplane.Core.Invariant

/-!
# What fencing leaves behind

Fencing moves only take work away, so the emptiness that one part of a fence
establishes lasts until the actor stops. A set of actors closed under children and
under the scopes of services bounds what a fence reaches.
-/

namespace Actorplane

variable {world : ℕ} {c c' c'' : Core} {m : Move} {P : Move → Prop} {r : ActorRef} {n : Node}

/-! ## Reduction -/

/-- The same actor, no earlier and with no more children. -/
structure Node.Reduces (n n' : Node) : Prop where
  reference : n'.reference = n.reference
  parent : n'.parent = n.parent
  children : n'.children.Sublist n.children
  state : n'.state = n.state ∨ n'.state = .stopping ∨ n'.state = .stopped
  rank : n.state.rank ≤ n'.state.rank
  drain : n'.drainRoot = n.drainRoot ∧ n'.cutoff = n.cutoff ∧ n'.drainDeadline = n.drainDeadline

structure Box.Reduces (b b' : Box) : Prop where
  queue : b'.queue.Sublist b.queue
  staged : b'.staged.Sublist b.staged
  inFlight : b'.inFlight = b.inFlight

structure Hold.Reduces (h h' : Hold) : Prop where
  control : h'.control = h.control
  tasks : h'.tasks = h.tasks
  pythonDone : h'.pythonDone = h.pythonDone
  notified : h'.notified = true → h.notified = true

/-- Every slot of a column is taken over by one related to it. -/
def Slotwise {α : Type} (R : α → α → Prop) (l l' : List α) : Prop :=
  ∀ i : ℕ, Option.Rel R l[i]? l'[i]?

structure Core.Reduces (c c' : Core) : Prop where
  nodes : Slotwise Node.Reduces c.nodes c'.nodes
  boxes : Slotwise Box.Reduces c.boxes c'.boxes
  holds : Slotwise Hold.Reduces c.holds c'.holds
  queues : ∀ s, (c'.publications.queueOf s).Sublist (c.publications.queueOf s)
  pending : ∀ id p, c'.operations.locate id = .ok (.pending p) →
    c.operations.locate id = .ok (.pending p)
  routes : ∀ id s, c'.subs.get id = some s → c.subs.get id = some s
  services : c.services.Shrinks c'.services
  roots : ∀ s d, c'.drainRoots.lookup s = some d → c.drainRoots.lookup s = some d
  entries : ∀ id p, c'.publications.entries.lookup id = some p →
    c.publications.entries.lookup id = some p
  leases : c'.leases = c.leases
  failures : c'.failures = c.failures
  callbacks : c'.callbacks = c.callbacks
  tasks : c'.tasks = c.tasks
  nextEvent : c'.nextEvent = c.nextEvent
  nextSub : c'.nextSub = c.nextSub

theorem Node.Reduces.refl (n : Node) : n.Reduces n := ⟨rfl, rfl, .refl _, .inl rfl, le_rfl, rfl, rfl, rfl⟩

theorem Node.Reduces.trans {n n' n'' : Node} (h : n.Reduces n') (h' : n'.Reduces n'') :
    n.Reduces n'' where
  reference := h'.reference.trans h.reference
  parent := h'.parent.trans h.parent
  children := h'.children.trans h.children
  state := by
    rcases h'.state with hs | hs
    · rw [hs]
      exact h.state
    · exact .inr hs
  rank := h.rank.trans h'.rank
  drain := ⟨h'.drain.1.trans h.drain.1, h'.drain.2.1.trans h.drain.2.1,
    h'.drain.2.2.trans h.drain.2.2⟩

theorem Box.Reduces.refl (b : Box) : b.Reduces b := ⟨.refl _, .refl _, rfl⟩

theorem Box.Reduces.trans {b b' b'' : Box} (h : b.Reduces b') (h' : b'.Reduces b'') :
    b.Reduces b'' :=
  ⟨h'.queue.trans h.queue, h'.staged.trans h.staged, h'.inFlight.trans h.inFlight⟩

theorem Hold.Reduces.refl (h : Hold) : h.Reduces h := ⟨rfl, rfl, rfl, id⟩

theorem Hold.Reduces.trans {x x' x'' : Hold} (h : x.Reduces x') (h' : x'.Reduces x'') :
    x.Reduces x'' :=
  ⟨h'.control.trans h.control, h'.tasks.trans h.tasks, h'.pythonDone.trans h.pythonDone,
    fun hn => h.notified (h'.notified hn)⟩

namespace Slotwise

variable {α : Type} {R : α → α → Prop} {l l' l'' : List α} {i : ℕ} {a a' : α}

theorem refl (hR : ∀ a, R a a) (l : List α) : Slotwise R l l := by
  intro i
  rcases l[i]? with - | a
  · exact .none
  · exact .some (hR a)

theorem trans (hR : ∀ a b c, R a b → R b c → R a c) (h : Slotwise R l l')
    (h' : Slotwise R l' l'') : Slotwise R l l'' := by
  intro i
  have h1 := h i
  have h2 := h' i
  generalize l[i]? = x at h1 ⊢
  generalize l'[i]? = y at h1 h2
  generalize l''[i]? = z at h2 ⊢
  cases h1 with
  | none => exact h2
  | some h1 =>
    cases h2 with
    | some h2 => exact .some (hR _ _ _ h1 h2)

theorem get (h : Slotwise R l l') (ha : l[i]? = some a) : ∃ a', l'[i]? = some a' ∧ R a a' := by
  have h1 := h i
  rw [ha] at h1
  generalize l'[i]? = y at h1 ⊢
  cases h1 with
  | some h1 => exact ⟨_, rfl, h1⟩

theorem back (h : Slotwise R l l') (ha : l'[i]? = some a') : ∃ a, l[i]? = some a ∧ R a a' := by
  have h1 := h i
  rw [ha] at h1
  generalize l[i]? = y at h1 ⊢
  cases h1 with
  | some h1 => exact ⟨_, rfl, h1⟩

theorem set (hR : ∀ a, R a a) (ha : l[i]? = some a) (h : R a a') : Slotwise R l (l.set i a') := by
  intro j
  rw [List.getElem?_set]
  split_ifs with hj hlt
  · subst hj
    rw [ha]
    exact .some h
  · exact absurd (List.getElem?_eq_some_iff.mp ha).1 (hj ▸ hlt)
  · exact refl hR l j

end Slotwise

theorem Registry.Shrinks.refl (s : Registry) : s.Shrinks s :=
  ⟨fun _ _ h => h, fun _ _ h => h, fun _ r h => ⟨r, h, rfl, fun _ hx => hx⟩⟩

theorem Registry.Shrinks.trans {s s' s'' : Registry} (h : s.Shrinks s') (h' : s'.Shrinks s'') :
    s.Shrinks s'' := by
  refine ⟨fun x name hx => h.targets x name (h'.targets x name hx),
    fun x l hx => h.leases x l (h'.leases x l hx), fun name record hr => ?_⟩
  obtain ⟨r', hr', hs', hx'⟩ := h'.records name record hr
  obtain ⟨r, hr, hs, hx⟩ := h.records name r' hr'
  exact ⟨r, hr, hs'.trans hs, fun x hm => hx x (hx' x hm)⟩

namespace Core.Reduces

theorem refl (c : Core) : c.Reduces c where
  nodes := .refl Node.Reduces.refl _
  boxes := .refl Box.Reduces.refl _
  holds := .refl Hold.Reduces.refl _
  queues _ := .refl _
  pending _ _ h := h
  routes _ _ h := h
  services := .refl _
  roots _ _ h := h
  entries _ _ h := h
  leases := rfl
  failures := rfl
  callbacks := rfl
  tasks := rfl
  nextEvent := rfl
  nextSub := rfl

theorem trans (h : c.Reduces c') (h' : c'.Reduces c'') : c.Reduces c'' where
  nodes := h.nodes.trans (fun _ _ _ => Node.Reduces.trans) h'.nodes
  boxes := h.boxes.trans (fun _ _ _ => Box.Reduces.trans) h'.boxes
  holds := h.holds.trans (fun _ _ _ => Hold.Reduces.trans) h'.holds
  queues s := (h'.queues s).trans (h.queues s)
  pending id p hp := h.pending id p (h'.pending id p hp)
  routes id s hs := h.routes id s (h'.routes id s hs)
  services := h.services.trans h'.services
  roots s d hd := h.roots s d (h'.roots s d hd)
  entries id p hp := h.entries id p (h'.entries id p hp)
  leases := h'.leases.trans h.leases
  failures := h'.failures.trans h.failures
  callbacks := h'.callbacks.trans h.callbacks
  tasks := h'.tasks.trans h.tasks
  nextEvent := h'.nextEvent.trans h.nextEvent
  nextSub := h'.nextSub.trans h.nextSub

theorem seated (h : c.Reduces c') (hn : Seated c.nodes r n) :
    ∃ n', Seated c'.nodes r n' ∧ n.Reduces n' := by
  obtain ⟨n', hn', hr⟩ := h.nodes.get hn.1
  exact ⟨n', ⟨hn', hr.reference.trans hn.2⟩, hr⟩

theorem seated_back (h : c.Reduces c') {n' : Node} (hn : Seated c'.nodes r n') :
    ∃ n, Seated c.nodes r n ∧ n.Reduces n' := by
  obtain ⟨n, hn', hr⟩ := h.nodes.back hn.1
  exact ⟨n, ⟨hn', hr.reference.symm.trans hn.2⟩, hr⟩

end Core.Reduces

theorem Core.Valid.reduces (h : c.Valid world) (hs : Step world c m c') (hm : m.fencing) :
    c.Reduces c' := by
  have hrefl := Core.Reduces.refl c
  cases hs
  case conclude id outcome p hp _ =>
    obtain ⟨-, he, hq, -⟩ := h.publishing.sound.conclude hp outcome
    refine { hrefl with queues := fun s => ?_, entries := fun i q hi => ?_ }
    · simp only [hq]
      exact List.filter_sublist
    · simp only [he, Assoc.lookup_erase_ite] at hi
      split_ifs at hi
      exact hi
  case lose r lost b n kept late _ hb hsub _ _ =>
    exact { hrefl with boxes := .set Box.Reduces.refl hb ⟨.refl _, hsub, rfl⟩ }
  case cancel r mail reason b n before after _ hb hsplit _ =>
    refine { hrefl with boxes := .set Box.Reduces.refl hb ⟨?_, .refl _, rfl⟩ }
    rw [hsplit]
    exact List.Sublist.append_left (List.sublist_cons_self _ _) _
  case silence r x hx =>
    exact { hrefl with holds := .set Hold.Reduces.refl hx ⟨rfl, rfl, rfl, by simp⟩ }
  case endOperation id outcome hp hf =>
    refine { hrefl with pending := fun i p hi => ?_ }
    simp only [OperationTable.complete_locate_iff id hf] at hi
    split_ifs at hi
    exact hi
  case expireOperations now =>
    obtain ⟨-, -, -, -, h5, -⟩ := OperationTable.expireIds_spec h.operating.indexed now
    refine { hrefl with pending := fun i p hi => ?_ }
    have := (h5 i _).mp hi
    split_ifs at this
    exact this
  case unroute id route hget =>
    refine { hrefl with routes := fun i s hi => ?_ }
    simp only [RouteTable.get_erase] at hi
    split_ifs at hi
    exact hi
  case unserve services hsh => exact { hrefl with services := hsh }
  case undrain slot =>
    refine { hrefl with roots := fun s d hd => ?_ }
    simp only [Assoc.lookup_erase_ite] at hd
    split_ifs at hd
    exact hd
  case timeout root => exact { hrefl with }
  case stop r n b hn halive _ _ _ _ _ _ _ _ _ _ =>
    exact { hrefl with
      nodes := .set Node.Reduces.refl hn.1 ⟨rfl, rfl, .refl _, .inr (.inl rfl),
        Lifecycle.rank_le_stopping halive, rfl, rfl, rfl⟩ }
  case finalize r n b hd hn hst hb hfl hh hhd hch =>
    have hnd : (sortIds (c.operations.ownerIndex.members r)).Nodup :=
      (OperationTable.nodup_sortIds _).mpr (h.operating.indexed.indexes.ownerIndex.nodup r)
    obtain ⟨-, -, -, h4, -⟩ := OperationTable.retireIds_spec h.operating.indexed hnd
    refine { hrefl with
      nodes := fun i => ?_
      pending := fun i p hi => ((h4 i _).mp hi).2 }
    obtain ⟨hget, rfl⟩ := hn
    have hlt := (List.getElem?_eq_some_iff.mp hget).1
    simp only [retireNodes_get hlt]
    split_ifs with hi
    · rw [hi, hget]
      exact .some ⟨rfl, rfl, .refl _, .inr (.inr rfl), by simp [hst, Lifecycle.rank], rfl, rfl, rfl⟩
    · rcases c.nodes[i]? with - | k
      · exact .none
      · refine .some ?_
        unfold atParent
        split_ifs
        · exact ⟨rfl, rfl, List.filter_sublist, .inl rfl, le_rfl, rfl, rfl, rfl⟩
        · exact .refl k
  all_goals exact absurd hm not_false

theorem Steps.reduces (hs : Steps world P c c') (hP : ∀ m, P m → m.fencing) (h : c.Valid world) :
    c.Reduces c' := by
  refine hs.relates (I := fun c => c.Valid world) Core.Reduces.refl
    (fun _ _ _ => Core.Reduces.trans) (fun c m c' hv hm hst => ?_) h
  exact ⟨hv.step hst, hv.reduces hst (hP m hm)⟩

/-! ## Fences -/

/-- The actor is stopping or stopped. -/
def Ended (nodes : List Node) (r : ActorRef) : Prop :=
  ∃ n, Seated nodes r n ∧ (n.state = .stopping ∨ n.state = .stopped)

theorem Core.Reduces.ended (h : c.Reduces c') (hr : Ended c.nodes r) : Ended c'.nodes r := by
  obtain ⟨n, hn, hst⟩ := hr
  obtain ⟨n', hn', hred⟩ := h.seated hn
  refine ⟨n', hn', ?_⟩
  rcases hred.state with hs | hs
  · rwa [hs]
  · exact hs

/-- The moves of a fence that reaches only the actors of a set. -/
def Move.byFence (D : ActorRef → Prop) : Move → Prop
  | .conclude _ source outcome => outcome = .cancelled ∧ D source
  | .lose r _ | .stop r => D r
  | .cancel r _ reason => reason = .fenced ∧ D r
  | .unroute _ s => D s.owner ∨ D s.source ∨ D s.target
  | .endOperation _ outcome => outcome.isCompleted = false
  | .silence _ | .unserve | .undrain _ | .finalize _ => True
  | _ => False

theorem Move.byFence.fencing {D : ActorRef → Prop} (h : m.byFence D) : m.fencing := by
  cases m <;> simp_all [Move.byFence, Move.fencing]

theorem Move.byFence.mono {D D' : ActorRef → Prop} (hD : ∀ x, D x → D' x) (h : m.byFence D) :
    m.byFence D' := by
  cases m <;> simp only [Move.byFence] at h ⊢
  case conclude => exact ⟨h.1, hD _ h.2⟩
  case lose => exact hD _ h
  case cancel => exact ⟨h.1, hD _ h.2⟩
  case unroute => exact h.imp (hD _) (Or.imp (hD _) (hD _))
  case stop => exact hD _ h
  case endOperation => exact h

/-- The set contains the children of its actors and the scopes of its services. -/
structure Core.Closed (D : ActorRef → Prop) (c : Core) : Prop where
  child : ∀ x n q, D x → Seated c.nodes x n → q ∈ n.children → D q
  scope : ∀ x name record q, D x → c.services.byTarget.lookup x = some name →
    c.services.records.lookup name = some record → q ∈ record.scopes → D q

theorem Core.Reduces.closed {D : ActorRef → Prop} (h : c.Reduces c') (hD : c.Closed D) :
    c'.Closed D := by
  refine ⟨fun x n' q hx hn' hq => ?_, fun x name record q hx hname hrec hq => ?_⟩
  · obtain ⟨n, hn, hred⟩ := h.seated_back hn'
    exact hD.child x n q hx hn (hred.children.subset hq)
  · obtain ⟨old, hold, -, hsub⟩ := h.services.records name record hrec
    exact hD.scope x name old q hx (h.services.targets x name hname) hold (hsub q hq)

/-- What fencing an actor reaches: its subtree, and that of every scope of its services. -/
inductive Core.Doomed (c : Core) (r : ActorRef) : ActorRef → Prop
  | self : c.Doomed r r
  | child {x q : ActorRef} (n : Node) : c.Doomed r x → Seated c.nodes x n → q ∈ n.children →
      c.Doomed r q
  | scope {x q : ActorRef} (name : String) (record : ServiceRecord) : c.Doomed r x →
      c.services.byTarget.lookup x = some name → c.services.records.lookup name = some record →
      q ∈ record.scopes → c.Doomed r q

theorem Core.closed_doomed (c : Core) (r : ActorRef) : c.Closed (c.Doomed r) :=
  ⟨fun _ n _ hx hn hq => .child n hx hn hq,
    fun _ name record _ hx hn hr hq => .scope name record hx hn hr hq⟩

/-- A fence within `D`. What it cancels has ended by then, or is still about to end. -/
abbrev Fenced (world : ℕ) (D X : ActorRef → Prop) (c c' : Core) : Prop :=
  Evolves world (Move.byFence fun x => D x ∧ (X x ∨ Ended c'.nodes x)) c c'

namespace Fenced

variable {D X : ActorRef → Prop}

theorem reduces (h : Fenced world D X c c') (hv : c.Valid world) : c.Reduces c' :=
  h.steps.reduces (fun _ hm => hm.fencing) hv

theorem refl (c : Core) : Fenced world D X c c := Evolves.refl c

theorem trans (h : Fenced world D X c c') (h' : Fenced world D X c' c'') (hv : c.Valid world) :
    Fenced world D X c c'' := by
  refine (h.mono fun m hm => hm.mono fun x hx => ⟨hx.1, hx.2.imp_right ?_⟩).trans h'
  exact (h'.reduces (Evolves.valid h hv)).ended

theorem widen {X' : ActorRef → Prop} (h : Fenced world D X c c') (hX : ∀ x, X x → X' x) :
    Fenced world D X' c c' :=
  h.mono fun _ hm => hm.mono fun x hx => ⟨hx.1, hx.2.imp_left (hX x)⟩

end Fenced

end Actorplane
