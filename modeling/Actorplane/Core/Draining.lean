import Actorplane.Core.Ownership

/-!
# Draining trees

A quiescing actor drains under a root on its ownership path. The root is quiescing
on its own account, is listed as a drain root, and carries the deadline of the whole
tree. Deadlines only move earlier.
-/

namespace Actorplane

variable {world : ℕ} {c c' : Core} {m : Move} {r : ActorRef}

/-- The root an actor drains under, with the deadline of its tree. -/
structure DrainsUnder (nodes : List Node) (x : ActorRef) (n : Node) (d : ActorRef)
    (deadline : Instant) : Prop where
  root : n.drainRoot = some d
  path : ∃ l, Lineage nodes x l ∧ d ∈ l
  self : ∃ k, Seated nodes d k ∧ k.state = .quiescing ∧ k.drainRoot = some d ∧
    k.drainDeadline = some deadline

structure Core.Drains (c : Core) : Prop where
  under : ∀ x n, Seated c.nodes x n → n.state = .quiescing →
    n.cutoff ≠ none ∧ ∃ d deadline, DrainsUnder c.nodes x n d deadline
  roots : ∀ s d, c.drainRoots.lookup s = some d →
    d.slot = s ∧ ∃ n, Seated c.nodes d n ∧ n.state = .quiescing ∧ n.drainRoot = some d

/-- Records of quiescing actors are taken over with the fields of their drain. -/
structure Carries (nodes nodes' : List Node) : Prop where
  forth : ∀ q k, Seated nodes q k → k.state = .quiescing → ∃ k', Seated nodes' q k' ∧
    k'.state = .quiescing ∧ k'.drainRoot = k.drainRoot ∧ k'.cutoff = k.cutoff ∧
      ∀ t, k.drainDeadline = some t → ∃ t', k'.drainDeadline = some t' ∧ t' ≤ t
  back : ∀ q k', Seated nodes' q k' → k'.state = .quiescing → ∃ k, Seated nodes q k ∧
    k.state = .quiescing ∧ k'.drainRoot = k.drainRoot ∧ k'.cutoff = k.cutoff
  lineage : ∀ q k l, Seated nodes q k → k.state = .quiescing → Lineage nodes q l →
    Lineage nodes' q l

theorem Carries.under (h : Carries c.nodes c'.nodes) (hd : c.Drains) {x : ActorRef} {n' : Node}
    (hn' : Seated c'.nodes x n') (hq : n'.state = .quiescing) :
    n'.cutoff ≠ none ∧ ∃ d deadline, DrainsUnder c'.nodes x n' d deadline := by
  obtain ⟨n, hn, hnq, h1, h2⟩ := h.back x n' hn' hq
  obtain ⟨hcut, d, t, hroot, ⟨l, hl, hmem⟩, k, hk, hkq, hkr, hkt⟩ := hd.under x n hn hnq
  obtain ⟨k', hk', hkq', hkr', -, hdead⟩ := h.forth d k hk hkq
  obtain ⟨t', ht', -⟩ := hdead t hkt
  exact ⟨h2 ▸ hcut, d, t', h1.trans hroot, ⟨l, h.lineage x n l hn hnq hl, hmem⟩, k', hk', hkq',
    hkr'.trans hkr, ht'⟩

theorem Carries.drains (h : Carries c.nodes c'.nodes) (hd : c.Drains)
    (hroots : ∀ s d, c'.drainRoots.lookup s = some d → c.drainRoots.lookup s = some d) :
    c'.Drains := by
  refine ⟨fun x n' hn' hq => h.under hd hn' hq, fun s d hs => ?_⟩
  obtain ⟨h1, n, hn, hq, hr⟩ := hd.roots s d (hroots s d hs)
  obtain ⟨n', hn', hq', hr', -⟩ := h.forth d n hn hq
  exact ⟨h1, n', hn', hq', hr'.trans hr⟩

/-- Setting one record of an actor that does not begin to quiesce. -/
theorem carries_set {nodes : List Node} {n n' : Node} (hn : Seated nodes r n)
    (href : n'.reference = n.reference) (hpar : n'.parent = n.parent)
    (hst : n'.state = .quiescing ↔ n.state = .quiescing)
    (hroot : n'.drainRoot = n.drainRoot) (hcut : n'.cutoff = n.cutoff)
    (hdead : ∀ t, n.drainDeadline = some t → ∃ t', n'.drainDeadline = some t' ∧ t' ≤ t) :
    Carries nodes (nodes.set r.slot n') := by
  have hforth : ∀ q k, Seated nodes q k → ∃ k', Seated (nodes.set r.slot n') q k' ∧
      k'.parent = k.parent ∧ (k = n ∧ k' = n' ∨ k' = k) := by
    intro q k hk
    by_cases hq : q.slot = r.slot
    · have hkn : k = n := Option.some.inj (hk.1.symm.trans (hq ▸ hn.1))
      exact ⟨n', (seated_set n' hn.1 href).mpr (.inl ⟨hq, rfl, hkn ▸ hk⟩), hkn ▸ hpar, .inl ⟨hkn, rfl⟩⟩
    · exact ⟨k, (seated_set n' hn.1 href).mpr (.inr ⟨hq, hk⟩), rfl, .inr rfl⟩
  refine ⟨fun q k hk hq => ?_, fun q k' hk' hq => ?_, fun q k l _ _ hl => ?_⟩
  · obtain ⟨k', hk', -, ⟨rfl, rfl⟩ | rfl⟩ := hforth q k hk
    · exact ⟨k', hk', hst.mpr hq, hroot, hcut, hdead⟩
    · exact ⟨k', hk', hq, rfl, rfl, fun t ht => ⟨t, ht, le_rfl⟩⟩
  · rcases (seated_set n' hn.1 href).mp hk' with ⟨-, rfl, hk⟩ | ⟨-, hk⟩
    · exact ⟨n, hk, hst.mp hq, hroot, hcut⟩
    · exact ⟨k', hk, hq, rfl, rfl⟩
  · refine hl.mono fun p _ k hk => ?_
    obtain ⟨k', hk', hp, -⟩ := hforth p k hk
    exact ⟨k', hk', hp⟩

theorem atParent_drain (parent : Option ActorRef) (f : Node → Node)
    (hf : ∀ k, (f k).drainRoot = k.drainRoot ∧ (f k).cutoff = k.cutoff ∧
      (f k).drainDeadline = k.drainDeadline) (k : Node) :
    (atParent parent f k).drainRoot = k.drainRoot ∧ (atParent parent f k).cutoff = k.cutoff ∧
      (atParent parent f k).drainDeadline = k.drainDeadline := by
  unfold atParent
  split_ifs
  · exact hf k
  · exact ⟨rfl, rfl, rfl⟩

theorem carries_retire {nodes : List Node} {n : Node} (hn : Seated nodes r n)
    (hst : n.state = .stopping) : Carries nodes (retireNodes nodes n) := by
  have hd := fun k => atParent_drain n.parent (.disown r) (fun _ => ⟨rfl, rfl, rfl⟩) k
  have hf := fun k => atParent_frame n.parent (.disown r) (fun _ => ⟨rfl, rfl, rfl⟩) k
  refine ⟨fun q k hk hq => ?_, fun q k' hk' hq => ?_, fun q k l _ _ hl => ?_⟩
  · have hne : q ≠ r := by
      rintro rfl
      simp [hk.unique hn, hst] at hq
    refine ⟨_, (seated_retire hn).mpr (.inr ⟨hne, k, hk, rfl⟩), (hf k).2.1.trans hq, (hd k).1,
      (hd k).2.1, fun t ht => ⟨t, (hd k).2.2.trans ht, le_rfl⟩⟩
  · rcases (seated_retire hn).mp hk' with ⟨-, rfl⟩ | ⟨-, k, hk, rfl⟩
    · simp at hq
    · exact ⟨k, hk, (hf k).2.1.symm.trans hq, (hd k).1, (hd k).2.1⟩
  · refine hl.mono fun p _ k hk => ?_
    by_cases hp : p = r
    · subst hp
      exact ⟨_, (seated_retire hn).mpr (.inl ⟨rfl, rfl⟩), by rw [hk.unique hn]⟩
    · exact ⟨_, (seated_retire hn).mpr (.inr ⟨hp, k, hk, rfl⟩), (hf k).2.2⟩

theorem carries_alloc {parent : Option ActorRef} (ho : c.Owned world)
    (hf : FreshSlot c.nodes c.free r) : Carries c.nodes (allocNodes c.nodes r parent) := by
  have hd := fun k => atParent_drain parent (.adopt r) (fun _ => ⟨rfl, rfl, rfl⟩) k
  have hp := fun k => atParent_frame parent (.adopt r) (fun _ => ⟨rfl, rfl, rfl⟩) k
  have hkeep : ∀ q k, Seated c.nodes q k → k.state ≠ .stopped →
      Seated (allocNodes c.nodes r parent) q (atParent parent (.adopt r) k) := by
    intro q k hk hs
    refine (seated_alloc (hf.le ho)).mpr (.inr ⟨fun hq => ?_, k, hk, rfl⟩)
    exact hs (hf.old_stopped ho (hq ▸ hk.1)).1
  refine ⟨fun q k hk hq => ?_, fun q k' hk' hq => ?_, fun q k l hk hq hl => ?_⟩
  · exact ⟨_, hkeep q k hk (by simp [hq]), (hp k).2.1.trans hq, (hd k).1, (hd k).2.1,
      fun t ht => ⟨t, (hd k).2.2.trans ht, le_rfl⟩⟩
  · rcases (seated_alloc (hf.le ho)).mp hk' with ⟨-, rfl⟩ | ⟨-, k, hk, rfl⟩
    · simp [Node.fresh] at hq
    · exact ⟨k, hk, (hp k).2.1.symm.trans hq, (hd k).1, (hd k).2.1⟩
  · refine hl.mono fun p hmem k' hk' => ?_
    obtain ⟨k₀, hk₀, hs⟩ := ho.lineage_alive hl hk (by simp [hq]) hmem
    rw [hk'.unique hk₀]
    exact ⟨_, hkeep p k₀ hk₀ hs, (hp k₀).2.2⟩

/-- Nothing that is still quiescing drains under an actor that stops. -/
theorem Core.Owned.not_under (ho : c.Owned world) (hs : Step world c (.stop r) c') {x : ActorRef}
    {n : Node} {l : List ActorRef} (hn : Seated c.nodes x n) (hq : n.state = .quiescing)
    (hl : Lineage c.nodes x l) (hx : x ≠ r) : r ∉ l := by
  intro hmem
  have ho' := ho.step hs
  cases hs with
  | stop k b hk =>
    have hset := fun (q : ActorRef) (y : Node) =>
      (seated_set { k with state := .stopping } hk.1 (by rfl) :
        Seated (c.nodes.set r.slot { k with state := .stopping }) q y ↔ _)
    have hkeep : ∀ q y, Seated c.nodes q y → q ≠ r →
        Seated (c.nodes.set r.slot { k with state := .stopping }) q y := by
      intro q y hy hqr
      refine (hset q y).mpr (.inr ⟨fun hslot => hqr ?_, hy⟩)
      have hyk : y = k := Option.some.inj (hy.1.symm.trans (hslot ▸ hk.1))
      exact hy.2.symm.trans (hyk ▸ hk.2)
    have hl' : Lineage (c.nodes.set r.slot { k with state := .stopping }) x l := by
      refine hl.mono fun p _ y hy => ?_
      by_cases hp : p = r
      · subst hp
        exact ⟨_, (hset p _).mpr (.inl ⟨rfl, rfl, hk⟩), by rw [hy.unique hk]⟩
      · exact ⟨y, hkeep p y hy hp, rfl⟩
    have := (ho'.lineage_bounds hl' (hkeep x n hn hx) (by simp [hq]) hmem
      ((hset r _).mpr (.inl ⟨rfl, rfl, hk⟩))).1 rfl
    simp [hq] at this

/-- An actor that is no drain root stops. -/
theorem Core.Drains.stopping (h : c.Drains) (ho : c.Owned world) (hs : Step world c (.stop r) c')
    {n : Node} (hn : Seated c.nodes r n) (hroot : c.drainRoots.lookup r.slot = none)
    (hnodes : c'.nodes = c.nodes.set r.slot { n with state := .stopping })
    (hroots : c'.drainRoots = c.drainRoots) : c'.Drains := by
  have hset := fun (q : ActorRef) (y : Node) =>
    (seated_set { n with state := .stopping } hn.1 (by rfl) :
      Seated (c.nodes.set r.slot { n with state := .stopping }) q y ↔ _)
  simp only [← hnodes] at hset
  have hkeep : ∀ q y, Seated c.nodes q y → q ≠ r → Seated c'.nodes q y := by
    intro q y hy hqr
    refine (hset q y).mpr (.inr ⟨fun hslot => hqr ?_, hy⟩)
    have hyk : y = n := Option.some.inj (hy.1.symm.trans (hslot ▸ hn.1))
    exact hy.2.symm.trans (hyk ▸ hn.2)
  refine ⟨fun x k hk hq => ?_, fun s d hd => ?_⟩
  · rcases (hset x k).mp hk with ⟨-, rfl, -⟩ | ⟨hslot, hk₀⟩
    · simp at hq
    · have hxr : x ≠ r := fun he => hslot (he ▸ rfl)
      obtain ⟨hcut, d, t, hr, ⟨l, hl, hmem⟩, y, hy, hyq, hyr, hyt⟩ := h.under x k hk₀ hq
      have hnot := ho.not_under hs hk₀ hq hl hxr
      have hdr : d ≠ r := fun he => hnot (he ▸ hmem)
      refine ⟨hcut, d, t, hr, ⟨l, hl.mono fun p hp y hy => ?_, hmem⟩, y, hkeep d y hy hdr, hyq,
        hyr, hyt⟩
      exact ⟨y, hkeep p y hy fun he => hnot (he ▸ hp), rfl⟩
  · rw [hroots] at hd
    obtain ⟨h1, k, hk, hq, hr⟩ := h.roots s d hd
    refine ⟨h1, k, hkeep d k hk fun he => ?_, hq, hr⟩
    rw [← h1, he] at hd
    exact Option.some_ne_none _ (hd.symm.trans hroot)

/-- An active actor becomes the drain root of all that is below it. -/
theorem Core.Drains.quiescing (h : c.Drains) (ho : c.Owned world) {root : ActorRef} {n : Node}
    {deadline : Instant} (hroot : Seated c.nodes root n) (hact : n.state = .active)
    (hq : Quiesced c.publications.lastIssued root deadline c.nodes c'.nodes)
    (h1 : c'.drainRoots.lookup root.slot = some root)
    (h2 : ∀ i m, c.nodes[i]? = some m → i ≠ root.slot → Covered c.nodes root m →
      c'.drainRoots.lookup i = none)
    (h3 : ∀ i m, c.nodes[i]? = some m → i ≠ root.slot → ¬Covered c.nodes root m →
      c'.drainRoots.lookup i = c.drainRoots.lookup i)
    (h4 : ∀ i, c.nodes[i]? = none → c'.drainRoots.lookup i = c.drainRoots.lookup i) :
    c'.Drains := by
  have hlin : ∀ x l, Lineage c.nodes x l → Lineage c'.nodes x l := by
    refine fun x l hl => hl.mono fun p _ k hk => ?_
    obtain ⟨k', hk', hp, -⟩ := hq.restated.seated hk
    exact ⟨k', hk', hp⟩
  have hcovers : Covered c.nodes root n := by
    obtain ⟨l, hl, -⟩ := ho.lineage root n hroot (by simp [hact])
    exact ⟨by simp [hact], by simp [hact], l, hroot.2.symm ▸ hl, by cases hl <;> simp⟩
  have hself : ∃ k, Seated c'.nodes root k ∧ k.state = .quiescing ∧ k.drainRoot = some root ∧
      k.drainDeadline = some deadline := by
    obtain ⟨n', hn', ⟨rfl, hout⟩ | ⟨-, rfl, -⟩⟩ := hq.get hroot.1
    · exact absurd hcovers hout
    · exact ⟨_, ⟨hn', hroot.2⟩, rfl, rfl, by simp [Node.quiesce, hroot.2]⟩
  refine ⟨fun x k' hk' hkq => ?_, fun s d hd => ?_⟩
  · obtain ⟨k, hk, -⟩ := hq.restated.symm.seated hk'
    rcases hq.node _ k k' hk.1 hk'.1 with ⟨rfl, hout⟩ | ⟨⟨hs1, hs2, l, hl, hmem⟩, rfl, -⟩
    · -- neither the actor nor the root it drains under is covered
      obtain ⟨hcut, d, t, hr, ⟨l, hl, hmem⟩, y, hy, hyq, hyr, hyt⟩ := h.under x k' hk hkq
      obtain ⟨y', hy', ⟨rfl, -⟩ | ⟨⟨-, -, l', hl', hmem'⟩, -⟩⟩ := hq.get hy.1
      · exact ⟨hcut, d, t, hr, ⟨l, hlin x l hl, hmem⟩, y', ⟨hy', hy.2⟩, hyq, hyr, hyt⟩
      · rw [hy.2] at hl'
        obtain ⟨l₂, hl₂, hsub⟩ := hl.suffix hmem
        rw [hl'.unique hl₂] at hmem'
        exact absurd ⟨by simp [hkq], by simp [hkq], l, hk.2.symm ▸ hl, hsub.subset hmem'⟩ hout
    · rw [hk.2] at hl
      exact ⟨by simp [Node.quiesce], root, deadline, rfl, ⟨l, hlin x l hl, hmem⟩, hself⟩
  · by_cases hs : s = root.slot
    · subst hs
      have hdr : d = root := Option.some.inj (hd.symm.trans h1)
      subst hdr
      obtain ⟨k, hk, hkq, hkr, -⟩ := hself
      exact ⟨rfl, k, hk, hkq, hkr⟩
    · rcases hm : c.nodes[s]? with - | y
      · obtain ⟨k1, k, hk, -⟩ := h.roots s d ((h4 s hm).symm.trans hd)
        rw [Seated, k1, hm] at hk
        simp at hk
      · by_cases hy : Covered c.nodes root y
        · exact absurd (hd.symm.trans (h2 s y hm hs hy)) (by simp)
        · obtain ⟨k1, k, hk, hkq, hkr⟩ := h.roots s d ((h3 s y hm hs hy).symm.trans hd)
          have hyk : y = k := Option.some.inj (hm.symm.trans (k1 ▸ hk.1))
          obtain ⟨k', hk', ⟨rfl, -⟩ | ⟨hin, -⟩⟩ := hq.get hk.1
          · exact ⟨k1, k', ⟨hk', hk.2⟩, hkq, hkr⟩
          · exact absurd (hyk ▸ hin) hy

theorem Core.Drains.step (h : c.Drains) (ho : c.Owned world) (hs : Step world c m c') :
    c'.Drains := by
  have hs' := hs
  cases hs
  case undrain slot =>
    refine ⟨h.under, fun s d hd => h.roots s d ?_⟩
    simp only [Assoc.lookup_erase_ite] at hd
    split_ifs at hd
    exact hd
  case stop r n b hn halive _ _ _ _ _ _ _ _ _ hroot => exact h.stopping ho hs' hn hroot rfl rfl
  case finalize r n b hd hn hst _ _ _ _ _ =>
    exact (carries_retire hn hst : Carries c.nodes (retireNodes c.nodes n)).drains h
      fun _ _ hs => hs
  case allocate r parent done hf hw hp =>
    exact (carries_alloc ho hf : Carries c.nodes (allocNodes c.nodes r parent)).drains h
      fun _ _ hs => hs
  case activate r n hn hst _ =>
    exact (carries_set hn rfl rfl (by simp [hst]) rfl rfl fun t ht => ⟨t, ht, le_rfl⟩ :
      Carries c.nodes (c.nodes.set r.slot { n with state := .active })).drains h fun _ _ hs => hs
  case lease r n services lease hn hst _ _ _ _ _ =>
    exact (carries_set hn rfl rfl (by simp [hst]) rfl rfl fun t ht => ⟨t, ht, le_rfl⟩ :
      Carries c.nodes (c.nodes.set r.slot { n with state := .active })).drains h fun _ _ hs => hs
  case setDeadline r n t hn ht =>
    exact (carries_set hn rfl rfl Iff.rfl rfl rfl fun old hold => ⟨t, rfl, ht old hold⟩ :
      Carries c.nodes (c.nodes.set r.slot { n with drainDeadline := some t })).drains h
        fun _ _ hs => hs
  case quiesce root n deadline nodes' roots hroot hact hq h1 h2 h3 h4 =>
    exact h.quiescing ho hroot hact hq h1 h2 h3 h4
  all_goals exact ⟨h.under, h.roots⟩

/-! ## Drain roots are listed -/

/-- Actors draining on their own account are drain roots, with exceptions. -/
def Core.Draining (except : ActorRef → Prop) (c : Core) : Prop :=
  ∀ x n, Seated c.nodes x n → n.state = .quiescing → n.drainRoot = some x →
    c.drainRoots.lookup x.slot = some x ∨ except x

variable {except : ActorRef → Prop}

theorem Core.Draining.mono {except' : ActorRef → Prop} (h : c.Draining except)
    (hsub : ∀ x, except x → except' x) : c.Draining except' :=
  fun x n hn hs hd => (h x n hn hs hd).imp_right (hsub x)

theorem Core.Draining.keep (h : c.Draining except) (hc : Carries c.nodes c'.nodes)
    (hroots : c'.drainRoots = c.drainRoots) : c'.Draining except := by
  intro x n' hn' hq hd
  obtain ⟨n, hn, hq', h1, -⟩ := hc.back x n' hn' hq
  rw [hroots]
  exact h x n hn hq' (h1 ▸ hd)

theorem Core.Draining.step (h : c.Draining except) (ho : c.Owned world) (hs : Step world c m c')
    (hex : ∀ slot, m = .undrain slot → ∀ x : ActorRef, x.slot = slot → except x) :
    c'.Draining except := by
  cases hs
  case undrain slot =>
    intro x n hn hq hd
    rcases h x n hn hq hd with hl | he
    · by_cases hx : x.slot = slot
      · exact .inr (hex slot rfl x hx)
      · exact .inl (by simp [hx, hl])
    · exact .inr he
  case stop r n b hn _ _ _ _ _ _ _ _ _ _ _ =>
    intro x k hk hq hd
    rcases (seated_set { n with state := .stopping } hn.1 (by rfl)).mp hk with ⟨-, rfl, -⟩ | ⟨-, hk₀⟩
    · simp at hq
    · exact h x k hk₀ hq hd
  case finalize r n b hd hn hst _ _ _ _ _ =>
    exact h.keep (carries_retire hn hst : Carries c.nodes (retireNodes c.nodes n)) rfl
  case allocate r parent done hf hw hp =>
    exact h.keep (carries_alloc ho hf : Carries c.nodes (allocNodes c.nodes r parent)) rfl
  case activate r n hn hst _ =>
    exact h.keep (carries_set hn rfl rfl (by simp [hst]) rfl rfl fun t ht => ⟨t, ht, le_rfl⟩ :
      Carries c.nodes (c.nodes.set r.slot { n with state := .active })) rfl
  case lease r n services lease hn hst _ _ _ _ _ =>
    exact h.keep (carries_set hn rfl rfl (by simp [hst]) rfl rfl fun t ht => ⟨t, ht, le_rfl⟩ :
      Carries c.nodes (c.nodes.set r.slot { n with state := .active })) rfl
  case setDeadline r n t hn ht =>
    exact h.keep (carries_set hn rfl rfl Iff.rfl rfl rfl fun old hold => ⟨t, rfl, ht old hold⟩ :
      Carries c.nodes (c.nodes.set r.slot { n with drainDeadline := some t })) rfl
  case quiesce root n deadline nodes' roots hroot hact hq h1 h2 h3 h4 =>
    intro x k' hk' hkq hd
    obtain ⟨k, hk, -⟩ := hq.restated.symm.seated hk'
    rcases hq.node _ k k' hk.1 hk'.1 with ⟨rfl, hout⟩ | ⟨-, rfl, -⟩
    · by_cases hx : x.slot = root.slot
      · have hkn : k' = n := Option.some.inj (hk.1.symm.trans (hx ▸ hroot.1))
        simp [hkn, hact] at hkq
      · show roots.lookup x.slot = some x ∨ except x
        rw [h3 x.slot k' hk.1 hx hout]
        exact h x k' hk hkq hd
    · cases hd
      exact .inl h1
  all_goals exact fun x n => h x n

/-- Stopping a root ends its exception. -/
theorem Core.Draining.stop (h : c.Draining fun x => except x ∨ x = r) (ho : c.Owned world)
    (hs : Step world c (.stop r) c') : c'.Draining except := by
  intro x n' hn' hq hd
  rcases h.step ho hs (by simp) x n' hn' hq hd with hl | he | rfl
  · exact .inl hl
  · exact .inr he
  · cases hs with
    | stop k b hk =>
      rcases (seated_set { k with state := .stopping } hk.1 (by rfl)).mp hn' with
        ⟨-, rfl, -⟩ | ⟨hne, -⟩
      · simp at hq
      · exact absurd rfl hne

end Actorplane
