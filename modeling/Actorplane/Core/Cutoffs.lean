import Actorplane.Core.Invariant

/-!
# Cutoffs and drain deadlines along the moves

A cutoff stays for the life of its actor. The deadline of the tree that an actor
drains in only moves earlier, also when the actor is taken over by another root.
-/

namespace Actorplane

variable {world : ℕ} {c c' c'' : Core} {m : Move} {r : ActorRef} {nodes nodes' : List Node}

/-- The actor is quiescing under a root, and the deadline of its tree. -/
def DrainsBy (nodes : List Node) (x d : ActorRef) (t : Instant) : Prop :=
  ∃ n, Seated nodes x n ∧ n.state = .quiescing ∧ DrainsUnder nodes x n d t

/-- Actors of one tree share its deadline. -/
theorem DrainsBy.shared {x y d : ActorRef} {t t' : Instant} (h : DrainsBy nodes x d t)
    (h' : DrainsBy nodes y d t') : t' = t := by
  obtain ⟨n, -, -, hu⟩ := h
  obtain ⟨n', -, -, hu'⟩ := h'
  obtain ⟨k, hk, -, -, ht⟩ := hu.self
  obtain ⟨k', hk', -, -, ht'⟩ := hu'.self
  rw [hk'.unique hk, ht] at ht'
  exact (Option.some.inj ht').symm

theorem Core.Drains.by (h : c.Drains) {x : ActorRef} {n : Node} (hn : Seated c.nodes x n)
    (hq : n.state = .quiescing) : ∃ d t, DrainsBy c.nodes x d t := by
  obtain ⟨-, d, t, hu⟩ := h.under x n hn hq
  exact ⟨d, t, n, hn, hq, hu⟩

/-! ## What one move does -/

/-- Deadlines of actors that go on quiescing do not move later. -/
def Hastens (nodes nodes' : List Node) : Prop :=
  ∀ x n' d t, DrainsBy nodes x d t → Seated nodes' x n' → n'.state = .quiescing →
    ∃ d' t', DrainsBy nodes' x d' t' ∧ t' ≤ t

/-- Cutoffs that are set stay. -/
def Cuts (nodes nodes' : List Node) : Prop :=
  ∀ x n n' k, Seated nodes x n → Seated nodes' x n' → n.cutoff = some k → n'.cutoff = some k

theorem Hastens.refl (nodes : List Node) : Hastens nodes nodes :=
  fun _ _ d t h _ _ => ⟨d, t, h, le_rfl⟩

theorem Cuts.refl (nodes : List Node) : Cuts nodes nodes := by
  intro x n n' k hn hn' hk
  rw [hn'.unique hn]
  exact hk

theorem Carries.hastens (h : Carries nodes nodes') : Hastens nodes nodes' := by
  intro x n' d t hx _ _
  obtain ⟨n, hn, hq, hroot, ⟨l, hl, hmem⟩, k, hk, hkq, hkr, hkt⟩ := hx
  obtain ⟨n₁, hn₁, hq₁, hroot₁, -⟩ := h.forth x n hn hq
  obtain ⟨k₁, hk₁, hkq₁, hkr₁, -, hdead⟩ := h.forth d k hk hkq
  obtain ⟨t', ht', hle⟩ := hdead t hkt
  exact ⟨d, t', ⟨n₁, hn₁, hq₁, hroot₁.trans hroot, ⟨l, h.lineage x n l hn hq hl, hmem⟩, k₁, hk₁,
    hkq₁, hkr₁.trans hkr, ht'⟩, hle⟩

/-- A record that keeps its generation and its cutoff. -/
theorem cuts_set {n n' : Node} (hn : Seated nodes r n) (href : n'.reference = n.reference)
    (hcut : ∀ k, n.cutoff = some k → n'.cutoff = some k) : Cuts nodes (nodes.set r.slot n') := by
  intro x y y' k hy hy' hk
  rcases (seated_set n' hn.1 href).mp hy' with ⟨hslot, rfl, hx⟩ | ⟨-, hx⟩
  · rw [hy.unique hx] at hk
    exact hcut k hk
  · rw [hx.unique hy]
    exact hk

theorem cuts_retire {n : Node} (hn : Seated nodes r n) : Cuts nodes (retireNodes nodes n) := by
  intro x y y' k hy hy' hk
  rcases (seated_retire hn).mp hy' with ⟨rfl, rfl⟩ | ⟨-, z, hz, rfl⟩
  · rw [hy.unique hn] at hk
    exact hk
  · rw [hy.unique hz] at hk
    exact (atParent_drain n.parent (.disown r) (fun _ => ⟨rfl, rfl, rfl⟩) z).2.1.trans hk

theorem cuts_alloc {parent : Option ActorRef} (ho : c.Owned world)
    (hf : FreshSlot c.nodes c.free r) : Cuts c.nodes (allocNodes c.nodes r parent) := by
  intro x y y' k hy hy' hk
  rcases (seated_alloc (hf.le ho)).mp hy' with ⟨rfl, rfl⟩ | ⟨-, z, hz, rfl⟩
  · -- the slot held an earlier generation
    have hlt := hf.generation y hy.1
    rw [hy.2] at hlt
    exact absurd hlt (lt_irrefl _)
  · rw [hy.unique hz] at hk
    exact (atParent_drain parent (.adopt r) (fun _ => ⟨rfl, rfl, rfl⟩) z).2.1.trans hk

theorem Quiesced.cuts {lastIssued : ℕ} {root : ActorRef} {deadline : Instant}
    (h : Quiesced lastIssued root deadline nodes nodes') : Cuts nodes nodes' := by
  intro x n n' k hn hn' hk
  rcases h.cases hn.1 hn'.1 with rfl | ⟨-, -, -, -, hcut⟩
  · exact hk
  · rw [hcut, hk]
    rfl

theorem Step.cuts (ho : c.Owned world) (hs : Step world c m c') : Cuts c.nodes c'.nodes := by
  cases hs
  case stop n b hn _ _ _ _ _ _ _ _ _ _ _ => exact cuts_set hn rfl fun k hk => hk
  case finalize r n b hd hn _ _ _ _ _ _ => exact cuts_retire hn
  case allocate r parent done hf _ _ => exact cuts_alloc ho hf
  case activate n hn _ _ => exact cuts_set hn rfl fun k hk => hk
  case lease n services lease hn _ _ _ _ _ _ => exact cuts_set hn rfl fun k hk => hk
  case quiesce nodes' _ _ _ hq _ _ _ _ => exact hq.cuts
  case setDeadline n deadline hn _ => exact cuts_set hn rfl fun k hk => hk
  all_goals exact .refl _

/-- Of two actors on one ownership path, one lies above the other. -/
theorem Lineage.comparable {x p q : ActorRef} {l lp lq : List ActorRef} (hl : Lineage nodes x l)
    (hp : p ∈ l) (hq : q ∈ l) (hlp : Lineage nodes p lp) (hlq : Lineage nodes q lq) :
    p ∈ lq ∨ q ∈ lp := by
  have hself : ∀ {y : ActorRef} {ly : List ActorRef}, Lineage nodes y ly → y ∈ ly := by
    intro y ly hy
    cases hy <;> simp
  obtain ⟨lp', hlp', hsp⟩ := hl.suffix hp
  obtain ⟨lq', hlq', hsq⟩ := hl.suffix hq
  rw [hlp.unique hlp', hlq.unique hlq']
  rcases List.suffix_or_suffix_of_suffix hsp hsq with h | h
  · exact .inl (h.subset (hself hlp'))
  · exact .inr (h.subset (hself hlq'))

/-- The new root takes over the earliest deadline of the trees it covers. -/
theorem Quiesced.hastens {root : ActorRef} {deadline : Instant} {n : Node} {lastIssued : ℕ}
    (h : Quiesced lastIssued root deadline c.nodes nodes') (ho : c.Owned world)
    (hn : Seated c.nodes root n) (hact : n.state = .active)
    (hd' : ∀ x k, Seated nodes' x k → k.state = .quiescing → ∃ d t, DrainsBy nodes' x d t) :
    Hastens c.nodes nodes' := by
  intro x k' d t hx hk' hq'
  obtain ⟨k, hk, hkq, hroot, ⟨l, hl, hmem⟩, y, hy, hyq, hyr, hyt⟩ := hx
  obtain ⟨d', t', hby⟩ := hd' x k' hk' hq'
  refine ⟨d', t', hby, ?_⟩
  obtain ⟨ly, hly, -⟩ := ho.lineage d y hy (by simp [hyq])
  obtain ⟨z, hz, hroot', hz'⟩ := hby
  obtain ⟨u, hu, -, -, hut⟩ := hz'.self
  rcases h.node _ k k' hk.1 hk'.1 with ⟨rfl, hout⟩ | ⟨hcov, rfl, -⟩
  · -- an uncovered actor keeps its root, which is not covered either
    have hdd : d' = d := by
      have := hz'.root
      rw [hz.unique hk', hroot] at this
      exact (Option.some.inj this).symm
    subst hdd
    obtain ⟨y', hy', ⟨rfl, -⟩ | ⟨⟨-, -, l', hl', hmem'⟩, -⟩⟩ := h.get hy.1
    · rw [hu.unique ⟨hy', hy.2⟩, hyt] at hut
      exact (Option.some.inj hut).ge
    · rw [hy.2] at hl'
      obtain ⟨l₂, hl₂, hsub⟩ := hl.suffix hmem
      rw [hl'.unique hl₂] at hmem'
      exact absurd ⟨by simp [hkq], by simp [hkq], l, hk.2.symm ▸ hl, hsub.subset hmem'⟩ hout
  · -- a covered actor drains under the new root, which also covers the old one
    have hdd : d' = root := by
      have := hz'.root
      rw [hz.unique hk'] at this
      exact (Option.some.inj this).symm
    subst hdd
    obtain ⟨n', hn', hcase⟩ := h.get hn.1
    obtain ⟨lr, hlr, -⟩ := ho.lineage d' n hn (by simp [hact])
    have hself : d' ∈ lr := by cases hlr <;> simp
    have hcovn : Covered c.nodes d' n := by
      refine ⟨by simp [hact], by simp [hact], lr, ?_, hself⟩
      rw [hn.2]
      exact hlr
    have hut' : t' = deadline := by
      rcases hcase with ⟨rfl, hout⟩ | ⟨-, rfl, -⟩
      · exact absurd hcovn hout
      · rw [hu.unique ⟨hn', hn.2⟩] at hut
        simpa [Node.quiesce, hn.2, eq_comm] using hut
    obtain ⟨-, -, l₁, hl₁, hmem₁⟩ := hcov
    rw [hk.2] at hl₁
    rw [hl₁.unique hl] at hmem₁
    have hcovd : Covered c.nodes d' y := by
      refine ⟨by simp [hyq], by simp [hyq], ly, ?_, ?_⟩
      · rw [hy.2]
        exact hly
      · rcases hl.comparable hmem hmem₁ hly hlr with hin | hin
        · -- an active root does not lie below a quiescing actor
          have hb := ho.lineage_bounds hlr hn (by simp [hact]) hin hy
          rcases hb.2 hyq with hs | hs <;> simp [hact] at hs
        · exact hin
    obtain ⟨y', hy', ⟨-, hout⟩ | ⟨-, -, hle⟩⟩ := h.get hy.1
    · exact absurd hcovd hout
    · rw [hut']
      exact hle t hyt

/-- A stop takes nothing along that is still quiescing. -/
theorem Core.Owned.stop_hastens (ho : c.Owned world) (hs : Step world c (.stop r) c') :
    Hastens c.nodes c'.nodes := by
  intro x n' d t hx hn' hq'
  obtain ⟨n, hn, hq, hroot, ⟨l, hl, hmem⟩, y, hy, hyq, hyr, hyt⟩ := hx
  have hnot := ho.not_under hs hn hq hl
  cases hs with
  | stop k b hk =>
    have hset := fun (q : ActorRef) (y : Node) =>
      (seated_set { k with state := .stopping } hk.1 (by rfl) :
        Seated (c.nodes.set r.slot { k with state := .stopping }) q y ↔ _)
    have hkeep : ∀ q y, Seated c.nodes q y → q ≠ r →
        Seated (c.nodes.set r.slot { k with state := .stopping }) q y := by
      intro q y hy hqr
      refine (hset q y).mpr (.inr ⟨fun hslot => hqr ?_, hy⟩)
      have hyk : y = k := Option.some.inj (hy.1.symm.trans (hslot ▸ hk.1))
      exact hy.2.symm.trans (hyk ▸ hk.2)
    have hxr : x ≠ r := by
      rintro rfl
      rcases (hset _ _).mp hn' with ⟨-, rfl, -⟩ | ⟨hslot, -⟩
      · simp at hq'
      · exact hslot rfl
    have hout := hnot hxr
    have hdr : d ≠ r := fun he => hout (he ▸ hmem)
    refine ⟨d, t, ⟨n, hkeep x n hn hxr, hq, hroot, ⟨l, hl.mono fun p hp z hz => ?_, hmem⟩, y,
      hkeep d y hy hdr, hyq, hyr, hyt⟩, le_rfl⟩
    exact ⟨z, hkeep p z hz fun he => hout (he ▸ hp), rfl⟩

theorem Step.hastens (ho : c.Owned world) (hd : c.Drains) (hs : Step world c m c') :
    Hastens c.nodes c'.nodes := by
  have hd' := hd.step ho hs
  have hs' := hs
  cases hs
  case stop => exact ho.stop_hastens hs'
  case finalize r n b hd hn hst _ _ _ _ _ => exact (carries_retire hn hst).hastens
  case allocate r parent done hf _ _ => exact (carries_alloc ho hf).hastens
  case activate r n hn hst _ =>
    exact (carries_set hn rfl rfl (by simp [hst]) rfl rfl fun t ht => ⟨t, ht, le_rfl⟩ :
      Carries c.nodes (c.nodes.set r.slot { n with state := .active })).hastens
  case lease r n services lease hn hst _ _ _ _ _ =>
    exact (carries_set hn rfl rfl (by simp [hst]) rfl rfl fun t ht => ⟨t, ht, le_rfl⟩ :
      Carries c.nodes (c.nodes.set r.slot { n with state := .active })).hastens
  case setDeadline r n t hn ht =>
    exact (carries_set hn rfl rfl Iff.rfl rfl rfl fun old hold => ⟨t, rfl, ht old hold⟩ :
      Carries c.nodes (c.nodes.set r.slot { n with drainDeadline := some t })).hastens
  case quiesce root n deadline nodes' roots hroot hact hq _ _ _ _ =>
    exact hq.hastens ho hroot hact fun x k hk hkq => hd'.by hk hkq
  all_goals exact .refl _

/-! ## What a sequence of moves does -/

/-- Cutoffs stay and deadlines move earlier, while generations follow each other. -/
structure Tightens (nodes nodes' : List Node) : Prop where
  forward : Forward nodes nodes'
  cuts : Cuts nodes nodes'
  hastens : Hastens nodes nodes'

/-- A generation that is seated before and after is seated in between. -/
theorem Forward.between {nodes'' : List Node} {n n'' : Node} (h : Forward nodes nodes')
    (h' : Forward nodes' nodes'') (hn : Seated nodes r n) (hn'' : Seated nodes'' r n'') :
    ∃ n', Seated nodes' r n' ∧ n.state.rank ≤ n'.state.rank ∧ n'.state.rank ≤ n''.state.rank := by
  obtain ⟨n', hn', hf⟩ := h _ n hn.1
  obtain ⟨k, hk, hf'⟩ := h' _ n' hn'
  have := hn''.1.symm.trans hk
  cases this
  rcases hf with ⟨hr, -, hrank⟩ | hg
  · have hseat : Seated nodes' r n' := ⟨hn', hr.trans hn.2⟩
    exact ⟨n', hseat, hrank, (h'.rank_le hseat hn'').1⟩
  · rcases hf' with ⟨hr, -⟩ | hg'
    · rw [← hr, hn''.2, hn.2] at hg
      exact absurd hg (lt_irrefl _)
    · have := hg.trans hg'
      rw [hn''.2, hn.2] at this
      exact absurd this (lt_irrefl _)

theorem Tightens.refl (nodes : List Node) : Tightens nodes nodes := ⟨.refl _, .refl _, .refl _⟩

theorem Tightens.trans {nodes'' : List Node} (h : Tightens nodes nodes')
    (h' : Tightens nodes' nodes'') : Tightens nodes nodes'' := by
  constructor
  · exact h.forward.trans h'.forward
  · intro x n n'' k hn hn'' hk
    obtain ⟨n', hn', -⟩ := h.forward.between h'.forward hn hn''
    exact h'.cuts x n' n'' k hn' hn'' (h.cuts x n n' k hn hn' hk)
  · intro x n'' d t hx hn'' hq''
    obtain ⟨n, hn, hq, -⟩ := id hx
    obtain ⟨n', hn', h1, h2⟩ := h.forward.between h'.forward hn hn''
    have hq' : n'.state = .quiescing := by
      rw [hq] at h1
      rw [hq''] at h2
      revert h1 h2
      cases n'.state <;> simp [Lifecycle.rank]
    obtain ⟨d', t', hx', hle⟩ := h.hastens x n' d t hx hn' hq'
    obtain ⟨d'', t'', hx'', hle'⟩ := h'.hastens x n'' d' t' hx' hn'' hq''
    exact ⟨d'', t'', hx'', hle'.trans hle⟩

theorem Steps.tightens {P : Move → Prop} (hs : Steps world P c c') (h : c.Valid world) :
    Tightens c.nodes c'.nodes :=
  @Steps.relates world P c c' (Core.Valid world) (fun c c' => Tightens c.nodes c'.nodes)
    (fun c => .refl c.nodes) (fun _ _ _ => .trans)
    (fun _ _ _ hv _ hst => ⟨hv.step hst, hv.owned.forward hst, hst.cuts hv.owned,
      hst.hastens hv.owned hv.drains⟩) hs h

/-! ## One root for a draining tree -/

/-- Children drain under the root of their parent. -/
def Kin (nodes : List Node) : Prop :=
  ∀ x n p m, Seated nodes x n → Seated nodes p m → n.parent = some p → n.state = .quiescing →
    m.state = .quiescing → n.drainRoot = m.drainRoot

/-- Records of quiescing actors are taken over with their drain roots. -/
theorem Kin.back (h : Kin nodes)
    (hback : ∀ q k', Seated nodes' q k' → k'.state = .quiescing → ∃ k, Seated nodes q k ∧
      k.state = .quiescing ∧ k'.drainRoot = k.drainRoot ∧ k'.parent = k.parent) : Kin nodes' := by
  intro x n p m hn hm hp hnq hmq
  obtain ⟨n₀, hn₀, hq₀, hr₀, hp₀⟩ := hback x n hn hnq
  obtain ⟨m₀, hm₀, hq₁, hr₁, -⟩ := hback p m hm hmq
  rw [hr₀, hr₁]
  exact h x n₀ p m₀ hn₀ hm₀ (hp₀ ▸ hp) hq₀ hq₁

theorem kin_set {n n' : Node} (h : Kin nodes) (hn : Seated nodes r n)
    (href : n'.reference = n.reference) (hpar : n'.parent = n.parent)
    (hst : n'.state = .quiescing → n.state = .quiescing) (hroot : n'.drainRoot = n.drainRoot) :
    Kin (nodes.set r.slot n') := by
  apply h.back
  intro q k' hk' hq
  rcases (seated_set n' hn.1 href).mp hk' with ⟨-, rfl, hk⟩ | ⟨-, hk⟩
  · exact ⟨n, hk, hst hq, hroot, hpar⟩
  · exact ⟨k', hk, hq, rfl, rfl⟩

theorem Quiesced.kin {root : ActorRef} {deadline : Instant} {n : Node} {lastIssued : ℕ}
    (h : Quiesced lastIssued root deadline c.nodes nodes') (ho : c.Owned world)
    (hn : Seated c.nodes root n) (hact : n.state = .active) (hk : Kin c.nodes) : Kin nodes' := by
  intro x k' p m' hk' hm' hp hkq hmq
  obtain ⟨k, hkx, hkr⟩ := h.restated.symm.seated hk'
  obtain ⟨m, hmx, -⟩ := h.restated.symm.seated hm'
  rcases h.node _ k k' hkx.1 hk'.1 with ⟨rfl, hout⟩ | ⟨hcov, rfl, -⟩
  · rcases h.node _ m m' hmx.1 hm'.1 with ⟨rfl, -⟩ | ⟨⟨-, -, l, hl, hmem⟩, rfl, -⟩
    · exact hk x k' p m' hkx hmx hp hkq hmq
    · -- the child of a covered actor is covered
      rw [hmx.2] at hl
      refine absurd ⟨by simp [hkq], by simp [hkq], x :: l, ?_, List.mem_cons_of_mem _ hmem⟩ hout
      rw [hkx.2]
      exact .child hkx hp hl
  · have hp : k.parent = some p := hp
    rcases h.node _ m m' hmx.1 hm'.1 with ⟨rfl, hout⟩ | ⟨-, rfl, -⟩
    · obtain ⟨h1, h2, l, hl, hmem⟩ := hcov
      rw [hkx.2] at hl
      have hb := ho.parent x k p hkx h2 hp
      obtain ⟨y, hy, hys, hbounds⟩ := hb
      rw [hy.unique hmx] at hbounds hys
      cases hl with
      | root hr hnone =>
        rw [hr.unique hkx, hp] at hnone
        cases hnone
      | @child _ z q l' hz hzp hl' =>
        rw [hz.unique hkx, hp] at hzp
        cases hzp
        rcases List.mem_cons.mp hmem with rfl | hmem
        · -- the root itself was active, so its parent is not quiescing
          rw [hkx.unique hn, hact] at hbounds
          rcases hbounds.2 hmq with hs | hs <;> cases hs
        · refine absurd ⟨by simp [hmq], by simp [hmq], l', ?_, hmem⟩ hout
          rw [hmx.2]
          exact hl'
    · rfl

theorem Step.kin (ho : c.Owned world) (hs : Step world c m c') (h : Kin c.nodes) :
    Kin c'.nodes := by
  cases hs
  case stop n b hn _ _ _ _ _ _ _ _ _ _ _ => exact kin_set h hn rfl rfl (by simp) rfl
  case finalize r n b hd hn hst _ _ _ _ _ =>
    apply h.back
    intro q k' hk' hq
    rcases (seated_retire hn).mp hk' with ⟨-, rfl⟩ | ⟨-, k, hk, rfl⟩
    · simp at hq
    · obtain ⟨-, h2, h3⟩ := atParent_frame n.parent (.disown r) (fun _ => ⟨rfl, rfl, rfl⟩) k
      exact ⟨k, hk, h2.symm.trans hq,
        (atParent_drain n.parent (.disown r) (fun _ => ⟨rfl, rfl, rfl⟩) k).1, h3⟩
  case allocate r parent done hf _ _ =>
    apply h.back
    intro q k' hk' hq
    rcases (seated_alloc (hf.le ho)).mp hk' with ⟨-, rfl⟩ | ⟨-, k, hk, rfl⟩
    · simp [Node.fresh] at hq
    · obtain ⟨-, h2, h3⟩ := atParent_frame parent (.adopt r) (fun _ => ⟨rfl, rfl, rfl⟩) k
      exact ⟨k, hk, h2.symm.trans hq,
        (atParent_drain parent (.adopt r) (fun _ => ⟨rfl, rfl, rfl⟩) k).1, h3⟩
  case activate n hn hst _ => exact kin_set h hn rfl rfl (by simp) rfl
  case lease n services lease hn hst _ _ _ _ _ => exact kin_set h hn rfl rfl (by simp) rfl
  case setDeadline n t hn ht => exact kin_set h hn rfl rfl (fun hq => hq) rfl
  case quiesce n deadline nodes' roots hroot hact hq _ _ _ _ => exact hq.kin ho hroot hact h
  all_goals exact h

theorem Steps.kin {P : Move → Prop} (hs : Steps world P c c') (hv : c.Valid world)
    (h : Kin c.nodes) : Kin c'.nodes := by
  have key : c'.Valid world ∧ Kin c'.nodes := by
    apply hs.invariant _ (show c.Valid world ∧ Kin c.nodes from ⟨hv, h⟩)
    rintro a m b ⟨hva, hka⟩ - hst
    exact ⟨hva.step hst, hst.kin hva.owned hka⟩
  exact key.2

/-- What quiesces above a quiescing actor shares its root. -/
theorem Kin.root (h : Kin c.nodes) (ho : c.Owned world) {x : ActorRef} {n k : Node}
    {l : List ActorRef} (hl : Lineage c.nodes x l) (hn : Seated c.nodes x n)
    (hnq : n.state = .quiescing) (hr : r ∈ l) (hk : Seated c.nodes r k)
    (hkq : k.state = .quiescing) : n.drainRoot = k.drainRoot := by
  induction hl generalizing n with
  | root hn' _ =>
    rw [List.mem_singleton.mp hr] at hk
    rw [hn.unique hk]
  | child hn' hp hl ih =>
    rcases List.mem_cons.mp hr with rfl | hr
    · rw [hn.unique hk]
    · rw [hn'.unique hn] at hp
      obtain ⟨m, hm, hms, hb⟩ := ho.parent _ n _ hn (by simp [hnq]) hp
      have hmq : m.state = .quiescing := by
        rcases (ho.lineage_bounds hl hm hms hr hk).2 hkq with hs | hs
        · exact hs
        · have := hb.1 hs
          simp [hnq] at this
      exact (h _ n _ m hn hm hp hnq hmq).trans (ih hm hmq hr)

/-- The ownership path of an actor does not change while it is there. -/
theorem Lineage.forward {x : ActorRef} {l : List ActorRef} {n' : Node} (hl : Lineage nodes x l)
    (hf : Forward nodes c'.nodes) (ho : c'.Owned world) (hn' : Seated c'.nodes x n')
    (hs : n'.state ≠ .stopped) : Lineage c'.nodes x l := by
  induction hl generalizing n' with
  | root hn hp => exact .root hn' ((hf.rank_le hn hn').2.trans hp)
  | child hn hp _ ih =>
    have hp' := (hf.rank_le hn hn').2.trans hp
    obtain ⟨m, hm, hms, -⟩ := ho.parent _ n' _ hn' hs hp'
    exact .child hn' hp' (ih hm hms)

end Actorplane
