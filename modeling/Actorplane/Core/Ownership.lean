import Actorplane.Core.Moves

/-!
# Moves keep the ownership tree

Every move keeps the tree invariant, and takes each record either to the same
actor, with the same parent and no earlier state, or to a later generation.
-/

namespace Actorplane

variable {world live : ℕ} {nodes nodes' : List Node} {free : List ℕ} {r : ActorRef} {n n' : Node}
  {c c' : Core} {m : Move}

def Core.Owned (world : ℕ) (c : Core) : Prop := Ownership world c.nodes c.live c.free

/-! ## Setting one node -/

theorem seated_set (n' : Node) (hn : nodes[r.slot]? = some n)
    (href : n'.reference = n.reference) {q : ActorRef} {k : Node} :
    Seated (nodes.set r.slot n') q k ↔
      (q.slot = r.slot ∧ k = n' ∧ Seated nodes q n) ∨ (q.slot ≠ r.slot ∧ Seated nodes q k) := by
  have hlt := (List.getElem?_eq_some_iff.mp hn).1
  unfold Seated
  rw [List.getElem?_set]
  by_cases hq : r.slot = q.slot
  · simp only [hq, if_true, true_and, ne_eq, not_true_eq_false, false_and, or_false]
    rw [← hq]
    simp only [hlt, Option.some.injEq, hn, if_true, true_and]
    constructor
    · rintro ⟨rfl, hr⟩
      exact ⟨rfl, href.symm.trans hr⟩
    · rintro ⟨rfl, hr⟩
      exact ⟨rfl, href.trans hr⟩
  · simp [hq, Ne.symm hq]

/-- One actor moves to a state its neighbours in the tree allow. -/
theorem Ownership.setState (h : Ownership world nodes live free) (hn : Seated nodes r n)
    (href : n'.reference = n.reference) (hpar : n'.parent = n.parent)
    (hch : n'.children = n.children) (halive : n.state ≠ .stopped) (halive' : n'.state ≠ .stopped)
    (hup : ∀ p m, n.parent = some p → Seated nodes p m → m.state.Bounds n'.state)
    (hdown : ∀ q k, q ∈ n.children → Seated nodes q k → n'.state.Bounds k.state) :
    Ownership world (nodes.set r.slot n') live free := by
  refine h.restate (restated_set hn.1 href hpar hch (by simp [halive, halive'])) ?_
  intro q k p m hk hs hp hm
  rcases (seated_set n' hn.1 href).mp hk with ⟨-, rfl, hq⟩ | ⟨-, hk₀⟩
  · have hqr : q = r := hq.2.symm.trans hn.2
    subst hqr
    rw [hpar] at hp
    rcases (seated_set _ hn.1 href).mp hm with ⟨hpq, rfl, hp'⟩ | ⟨-, hm⟩
    · exact .refl _
    · exact hup p m hp hm
  · rcases (seated_set n' hn.1 href).mp hm with ⟨-, rfl, hp'⟩ | ⟨-, hm⟩
    · have hpr : p = r := hp'.2.symm.trans hn.2
      subst hpr
      exact hdown q k ((h.child p n q hn).mpr ⟨k, hk₀, hs, hp⟩) hk₀
    · obtain ⟨m', hm', -, hb⟩ := h.parent q k p hk₀ hs hp
      rwa [hm.unique hm']

theorem Lifecycle.bounds_of_early {parent child : Lifecycle}
    (h : parent = .starting ∨ parent = .active) : parent.Bounds child := by
  rcases h with rfl | rfl <;> simp [Lifecycle.Bounds]

/-- The children of an actor that has not begun to drain are unconstrained. -/
theorem Ownership.activate (h : Ownership world nodes live free) (hn : Seated nodes r n)
    (hs : n.state = .starting)
    (hp : ∀ p m, n.parent = some p → Seated nodes p m → m.state = .starting ∨ m.state = .active) :
    Ownership world (nodes.set r.slot { n with state := .active }) live free :=
  h.setState hn rfl rfl rfl (by simp [hs]) (by simp)
    (fun _ _ hpar hm => Lifecycle.bounds_of_early (hp _ _ hpar hm))
    fun _ _ _ _ => Lifecycle.bounds_of_early (.inr rfl)

/-! ## Quiescing a subtree -/

section Quiesced

variable {lastIssued : ℕ} {root : ActorRef} {deadline : Instant}

theorem Quiesced.get (h : Quiesced lastIssued root deadline nodes nodes') {i : ℕ}
    (hn : nodes[i]? = some n) : ∃ n', nodes'[i]? = some n' ∧ (n' = n ∧ ¬Covered nodes root n ∨
      Covered nodes root n ∧ n' = n.quiesce lastIssued root deadline ∧
        ∀ t, n.drainDeadline = some t → deadline ≤ t) := by
  have hlt : i < nodes'.length := by
    rw [h.length_eq]
    exact (List.getElem?_eq_some_iff.mp hn).1
  exact ⟨_, List.getElem?_eq_getElem hlt, h.node i n _ hn (List.getElem?_eq_getElem hlt)⟩

theorem Quiesced.restated (h : Quiesced lastIssued root deadline nodes nodes') :
    Restated nodes nodes' := by
  refine ⟨h.length_eq, fun i n hn => ?_⟩
  obtain ⟨n', hn', ⟨rfl, -⟩ | ⟨⟨-, hs, -⟩, rfl, -⟩⟩ := h.get hn
  · exact ⟨n', hn', rfl, rfl, rfl, Iff.rfl⟩
  · exact ⟨_, hn', rfl, rfl, rfl, by simp [Node.quiesce, hs]⟩

/-- What a record can become. -/
theorem Quiesced.cases (h : Quiesced lastIssued root deadline nodes nodes') {i : ℕ}
    (hn : nodes[i]? = some n) (hn' : nodes'[i]? = some n') :
    n' = n ∨ n.state ≠ .stopping ∧ n.state ≠ .stopped ∧ n'.state = .quiescing ∧
      n'.drainRoot = some root ∧ n'.cutoff = some (n.cutoff.getD lastIssued) := by
  rcases h.node i n n' hn hn' with ⟨rfl, -⟩ | ⟨⟨h1, h2, -⟩, rfl, -⟩
  · exact .inl rfl
  · exact .inr ⟨h1, h2, rfl, rfl, rfl⟩

/-- What lies below a covered actor is covered, unless it is stopping. -/
theorem Covered.below {m : Node}
    (hp : Covered nodes root m) (hn : Seated nodes r n) (hs : n.state ≠ .stopping)
    (hs' : n.state ≠ .stopped) (hpar : n.parent = some m.reference) : Covered nodes root n := by
  obtain ⟨-, -, l, hl, hr⟩ := hp
  refine ⟨hs, hs', n.reference :: l, ?_, by simp [hr]⟩
  rw [hn.2]
  exact .child hn hpar hl

theorem Quiesced.bounds (h : Quiesced lastIssued root deadline nodes nodes')
    (ho : Ownership world nodes live free) {p : ActorRef} {m' : Node} (hn' : Seated nodes' r n')
    (hs' : n'.state ≠ .stopped) (hp : n'.parent = some p) (hm' : Seated nodes' p m') :
    m'.state.Bounds n'.state := by
  obtain ⟨n, hn, hpar, -, hst⟩ := h.restated.symm.seated hn'
  obtain ⟨m, hm, -, hb⟩ := ho.parent r n p hn (mt hst.mp hs') (hpar.trans hp)
  have hne : n.state ≠ .stopped := mt hst.mp hs'
  rcases h.node _ n n' hn.1 hn'.1 with ⟨rfl, hout⟩ | ⟨⟨h1, -⟩, rfl, -⟩ <;>
    rcases h.node _ m m' hm.1 hm'.1 with ⟨rfl, -⟩ | ⟨hin, rfl, -⟩
  · exact hb
  · -- the parent is covered, so a child outside can only be stopping
    have hstop : n'.state = .stopping := by
      by_contra hs
      exact hout (hin.below hn hs hne (hm.2 ▸ hp))
    exact ⟨fun _ => hstop, fun _ => .inr hstop⟩
  · refine ⟨fun hst => absurd (hb.1 hst) h1, fun _ => .inl rfl⟩
  · exact ⟨fun hst => by simp [Node.quiesce] at hst, fun _ => .inl rfl⟩

end Quiesced

theorem Core.Owned.step (h : c.Owned world) (hs : Step world c m c') : c'.Owned world := by
  unfold Core.Owned at h ⊢
  cases hs
  case stop n b hn halive _ _ _ hc _ _ _ _ _ _ =>
    refine h.setState hn rfl rfl rfl halive (by simp) (fun p m hp hm => ?_) fun q k hq hk => ?_
    · refine ⟨fun _ => rfl, fun _ => .inr rfl⟩
    · refine ⟨fun _ => ?_, by simp⟩
      obtain ⟨k', hk', hks, -⟩ := (h.child _ n q hn).mp hq
      rcases hc q hq k hk with hst | hst
      · exact hst
      · exact absurd (hk.unique hk' ▸ hst) hks
  case finalize n b hd hn hst _ _ _ _ hc =>
    refine h.retire hn hst (List.eq_nil_iff_forall_not_mem.mpr fun q hq => ?_)
    obtain ⟨k, hk, hks, -⟩ := (h.child _ n q hn).mp hq
    exact hks (hc q hq k hk)
  case allocate parent _ hf hw hp => exact h.alloc hf hw hp
  case activate n hn hst hp => exact h.activate hn hst hp
  case lease n services lease hn hst hpar hp _ _ _ =>
    refine h.activate hn hst fun p m hp' hm => ?_
    rw [hpar] at hp'
    cases hp'
    exact hp m hm
  case quiesce nodes' _ _ _ hq _ _ _ _ =>
    exact h.restate hq.restated fun _ _ _ _ => hq.bounds h
  case setDeadline root n deadline hn _ =>
    by_cases halive : n.state = .stopped
    · refine h.restate (restated_set hn.1 rfl rfl rfl Iff.rfl) fun q k p m hk hs hp hm => ?_
      rcases (seated_set { n with drainDeadline := some deadline } hn.1 rfl).mp hk with
        ⟨-, rfl, -⟩ | ⟨-, hk₀⟩
      · exact absurd halive hs
      · obtain ⟨m', hm', hms, hb⟩ := h.parent q k p hk₀ hs hp
        rcases (seated_set { n with drainDeadline := some deadline } hn.1 rfl).mp hm with
          ⟨-, rfl, hp'⟩ | ⟨-, hm₀⟩
        · exact absurd (hm'.unique hp' ▸ halive) hms
        · rwa [hm₀.unique hm']
    · refine h.setState hn rfl rfl rfl halive halive (fun p m hp hm => ?_) fun q k hq hk => ?_
      · obtain ⟨m', hm', -, hb⟩ := h.parent _ n p hn halive hp
        rwa [hm.unique hm']
      · obtain ⟨k', hk', hks, hp⟩ := (h.child _ n q hn).mp hq
        obtain ⟨m', hm', -, hb⟩ := h.parent q k' _ hk' hks hp
        rwa [hk.unique hk', hn.unique hm']
  all_goals exact h

/-! ## Records move forward -/

/-- A record is followed by the same actor in no earlier state, or by a later generation. -/
def Follows (n n' : Node) : Prop :=
  (n'.reference = n.reference ∧ n'.parent = n.parent ∧ n.state.rank ≤ n'.state.rank) ∨
    n.reference.generation < n'.reference.generation

theorem Follows.refl (n : Node) : Follows n n := .inl ⟨rfl, rfl, le_rfl⟩

theorem Follows.trans {n₁ n₂ n₃ : Node} (h : Follows n₁ n₂) (h' : Follows n₂ n₃) :
    Follows n₁ n₃ := by
  rcases h with ⟨hr, hp, hs⟩ | hg
  · rcases h' with ⟨hr', hp', hs'⟩ | hg'
    · exact .inl ⟨hr'.trans hr, hp'.trans hp, hs.trans hs'⟩
    · exact .inr (hr ▸ hg')
  · rcases h' with ⟨hr', -, -⟩ | hg'
    · exact .inr (hr' ▸ hg)
    · exact .inr (hg.trans hg')

def Forward (nodes nodes' : List Node) : Prop :=
  ∀ (i : ℕ) (n : Node), nodes[i]? = some n → ∃ n', nodes'[i]? = some n' ∧ Follows n n'

theorem Forward.refl (nodes : List Node) : Forward nodes nodes := fun _ n hn => ⟨n, hn, .refl n⟩

theorem Forward.trans {nodes₁ nodes₂ nodes₃ : List Node} (h : Forward nodes₁ nodes₂)
    (h' : Forward nodes₂ nodes₃) : Forward nodes₁ nodes₃ := by
  intro i n hn
  obtain ⟨n', hn', hf⟩ := h i n hn
  obtain ⟨n'', hn'', hf'⟩ := h' i n' hn'
  exact ⟨n'', hn'', hf.trans hf'⟩

/-- As long as a generation is seated its state only moves forward. -/
theorem Forward.rank_le (h : Forward nodes nodes') (hn : Seated nodes r n)
    (hn' : Seated nodes' r n') : n.state.rank ≤ n'.state.rank ∧ n'.parent = n.parent := by
  obtain ⟨k, hk, hf⟩ := h _ n hn.1
  have := hn'.1.symm.trans hk
  cases this
  rcases hf with ⟨-, hp, hs⟩ | hg
  · exact ⟨hs, hp⟩
  · rw [hn.2, hn'.2] at hg
    omega

theorem forward_set {i : ℕ} (hn : nodes[i]? = some n) (hf : Follows n n') :
    Forward nodes (nodes.set i n') := by
  intro j k hk
  by_cases hj : i = j
  · subst hj
    rw [hn] at hk
    cases hk
    exact ⟨n', by simp [(List.getElem?_eq_some_iff.mp hn).1], hf⟩
  · exact ⟨k, by rw [List.getElem?_set_ne hj, hk], .refl k⟩

theorem Lifecycle.rank_le_stopping {s : Lifecycle} (h : s ≠ .stopped) :
    s.rank ≤ Lifecycle.rank .stopping := by
  cases s <;> simp_all [Lifecycle.rank]

theorem Core.Owned.forward (h : c.Owned world) (hs : Step world c m c') : Forward c.nodes c'.nodes := by
  cases hs
  case stop n b hn halive _ _ _ _ _ _ _ _ _ _ =>
    exact forward_set hn.1 (.inl ⟨rfl, rfl, Lifecycle.rank_le_stopping halive⟩)
  case finalize n b hd hn hst _ _ _ _ _ =>
    have hlt : n.reference.slot < c.nodes.length := by
      rw [hn.2]
      exact (List.getElem?_eq_some_iff.mp hn.1).1
    intro i k hk
    simp only [retireNodes_get hlt]
    split_ifs with hi
    · rw [hi, hn.2, hn.1] at hk
      cases hk
      exact ⟨_, rfl, .inl ⟨rfl, rfl, by simp [hst, Lifecycle.rank]⟩⟩
    · obtain ⟨h1, h2, h3⟩ := atParent_frame n.parent (.disown n.reference)
        (fun _ => ⟨rfl, rfl, rfl⟩) k
      exact ⟨_, by rw [hk]; rfl, .inl ⟨h1, h3, h2 ▸ le_rfl⟩⟩
  case allocate r parent _ hf hw hp =>
    intro i k hk
    simp only [allocNodes_get (hf.le h)]
    split_ifs with hi
    · exact ⟨_, rfl, .inr (hf.generation k (hi ▸ hk))⟩
    · obtain ⟨h1, h2, h3⟩ := atParent_frame parent (.adopt r)
        (fun _ => ⟨rfl, rfl, rfl⟩) k
      exact ⟨_, by rw [hk]; rfl, .inl ⟨h1, h3, h2 ▸ le_rfl⟩⟩
  case activate n hn hst hp =>
    exact forward_set hn.1 (.inl ⟨rfl, rfl, by simp [hst, Lifecycle.rank]⟩)
  case lease n services lease hn hst hpar hp _ _ _ =>
    exact forward_set hn.1 (.inl ⟨rfl, rfl, by simp [hst, Lifecycle.rank]⟩)
  case quiesce nodes' _ _ _ hq _ _ _ _ =>
    intro i n hn
    obtain ⟨n', hn', hr, hp, -⟩ := hq.restated.node i n hn
    refine ⟨n', hn', .inl ⟨hr, hp, ?_⟩⟩
    rcases hq.cases hn hn' with rfl | ⟨h1, h2, h3, -⟩
    · exact le_rfl
    · rw [h3]
      revert h1 h2
      cases n.state <;> simp [Lifecycle.rank]
  case setDeadline root n deadline hn _ => exact forward_set hn.1 (.inl ⟨rfl, rfl, le_rfl⟩)
  all_goals exact .refl _

theorem Steps.forward {P : Move → Prop} (hs : Steps world P c c') (h : c.Owned world) :
    Forward c.nodes c'.nodes :=
  @Steps.relates world P c c' (Core.Owned world) (fun c c' => Forward c.nodes c'.nodes)
    (fun c => .refl c.nodes) (fun _ _ _ => .trans)
    (fun _ _ _ ho _ hst => ⟨ho.step hst, ho.forward hst⟩) hs h

/-- The move that stops the actor. -/
def Move.stops (r : ActorRef) : Move → Prop
  | .stop q => q = r
  | _ => False

/-- Only its own stop takes an actor that is neither stopping nor stopped out of that range. -/
theorem Core.Owned.stays (h : c.Owned world) (hs : Step world c m c') (hm : ¬m.stops r)
    (hn : Seated c.nodes r n) (h1 : n.state ≠ .stopping) (h2 : n.state ≠ .stopped) :
    ∃ n', Seated c'.nodes r n' ∧ n'.parent = n.parent ∧ n.state.rank ≤ n'.state.rank ∧
      n'.state ≠ .stopping ∧ n'.state ≠ .stopped := by
  have hset : ∀ (q : ActorRef) (k k' : Node), Seated c.nodes q k → k'.reference = k.reference →
      k'.parent = k.parent → k.state.rank ≤ k'.state.rank →
      (q = r → k'.state ≠ .stopping ∧ k'.state ≠ .stopped) →
      ∃ n', Seated (c.nodes.set q.slot k') r n' ∧ n'.parent = n.parent ∧
        n.state.rank ≤ n'.state.rank ∧ n'.state ≠ .stopping ∧ n'.state ≠ .stopped := by
    intro q k k' hk href hpar hrank hst
    by_cases hq : r.slot = q.slot
    · have hkn : k = n := Option.some.inj (hk.1.symm.trans (hq ▸ hn.1))
      subst hkn
      have hqr : q = r := hk.2.symm.trans hn.2
      exact ⟨k', (seated_set k' hk.1 href).mpr (.inl ⟨hq, rfl, hn⟩), hpar, hrank, hst hqr⟩
    · exact ⟨n, (seated_set k' hk.1 href).mpr (.inr ⟨hq, hn⟩), rfl, le_rfl, h1, h2⟩
  have hstay : ∃ n', Seated c.nodes r n' ∧ n'.parent = n.parent ∧
      n.state.rank ≤ n'.state.rank ∧ n'.state ≠ .stopping ∧ n'.state ≠ .stopped :=
    ⟨n, hn, rfl, le_rfl, h1, h2⟩
  cases hs
  case stop q k b hk halive _ _ _ _ _ _ _ _ _ _ =>
    exact hset q k _ hk rfl rfl (Lifecycle.rank_le_stopping halive) fun hq => absurd hq hm
  case finalize q k b hd hk hst _ _ _ _ _ =>
    have hq : r ≠ q := by
      rintro rfl
      exact h1 (hn.unique hk ▸ hst)
    obtain ⟨-, hs', hp'⟩ := atParent_frame k.parent (.disown q)
      (fun _ => ⟨rfl, rfl, rfl⟩) n
    exact ⟨_, (seated_retire hk).mpr (.inr ⟨hq, n, hn, rfl⟩), hp', hs' ▸ le_rfl, hs' ▸ h1,
      hs' ▸ h2⟩
  case allocate q parent _ hf hw hp =>
    have hq : r.slot ≠ q.slot := by
      intro hq
      exact h2 (hf.old_stopped h (hq ▸ hn.1)).1
    obtain ⟨-, hs', hp'⟩ := atParent_frame parent (.adopt q)
      (fun _ => ⟨rfl, rfl, rfl⟩) n
    exact ⟨_, (seated_alloc (hf.le h)).mpr (.inr ⟨hq, n, hn, rfl⟩), hp', hs' ▸ le_rfl, hs' ▸ h1,
      hs' ▸ h2⟩
  case activate q k hk hst hp =>
    exact hset q k _ hk rfl rfl (by simp [hst, Lifecycle.rank]) fun _ => by simp
  case lease q k services lease hk hst hpar hp _ _ _ =>
    exact hset q k _ hk rfl rfl (by simp [hst, Lifecycle.rank]) fun _ => by simp
  case quiesce nodes' _ _ _ hq _ _ _ _ =>
    obtain ⟨n', hn', hp', -, hst⟩ := hq.restated.seated hn
    refine ⟨n', hn', hp', ?_⟩
    rcases hq.cases hn.1 hn'.1 with rfl | ⟨-, -, h3, -⟩
    · exact ⟨le_rfl, h1, h2⟩
    · rw [h3]
      refine ⟨?_, by simp, by simp⟩
      revert h1 h2
      cases n.state <;> simp [Lifecycle.rank]
  case setDeadline q k deadline hk _ =>
    refine hset q k _ hk rfl rfl le_rfl fun hq => ?_
    subst hq
    rw [← hn.unique hk]
    exact ⟨h1, h2⟩
  all_goals exact hstay

theorem Core.Owned.running (h : c.Owned world) (hs : Step world c m c') (hm : ¬m.stops r)
    (hr : Running c.nodes r) : Running c'.nodes r := by
  obtain ⟨n, hn, hst⟩ := hr
  obtain ⟨n', hn', -, hrank, h1, h2⟩ := h.stays hs hm hn
    (by rcases hst with hst | hst <;> simp [hst]) (by rcases hst with hst | hst <;> simp [hst])
  refine ⟨n', hn', ?_⟩
  revert h1 h2 hrank
  rcases hst with hst | hst <;> rw [hst] <;> cases n'.state <;> simp [Lifecycle.rank]

theorem Core.Owned.present (h : c.Owned world) (hs : Step world c m c') (hm : ¬m.stops r)
    (hr : Present c.nodes r) : Present c'.nodes r := by
  obtain ⟨n, hn, h1, h2⟩ := hr
  obtain ⟨n', hn', -, -, h3⟩ := h.stays hs hm hn h1 h2
  exact ⟨n', hn', h3⟩

/-! ## The three columns -/

theorem reference_set (n' : Node) {i : ℕ} (hn : nodes[i]? = some n) (href : n'.reference = n.reference) (j : ℕ) :
    (nodes.set i n')[j]?.map Node.reference = nodes[j]?.map Node.reference := by
  rw [List.getElem?_set]
  split_ifs with hj hlt
  · subst hj
    simp [hn, href]
  · exact absurd (List.getElem?_eq_some_iff.mp hn).1 (hj ▸ hlt)
  · rfl

/-- Only an allocation changes which actor a slot refers to. -/
theorem Step.references (hs : Step world c m c')
    (hm : ∀ r, m ≠ .allocate r) (i : ℕ) :
    c'.nodes[i]?.map Node.reference = c.nodes[i]?.map Node.reference := by
  cases hs
  case stop n b hn _ _ _ _ _ _ _ _ _ _ _ =>
    exact reference_set { n with state := .stopping } hn.1 rfl i
  case finalize n b hd hn _ _ _ _ _ _ =>
    obtain ⟨hget, rfl⟩ := hn
    have hlt := (List.getElem?_eq_some_iff.mp hget).1
    simp only [retireNodes_get hlt]
    split_ifs with hi
    · simp [hi, hget]
    · rcases hk : c.nodes[i]? with - | k
      · rfl
      · simp [(atParent_frame n.parent (.disown n.reference) (fun _ => ⟨rfl, rfl, rfl⟩) k).1]
  case allocate r _ _ _ _ _ => exact absurd rfl (hm r)
  case activate n hn _ _ => exact reference_set { n with state := .active } hn.1 rfl i
  case lease n _ _ hn _ _ _ _ _ _ => exact reference_set { n with state := .active } hn.1 rfl i
  case quiesce _ _ _ _ hq _ _ _ _ =>
    rcases hk : c.nodes[i]? with - | k
    · have := hq.length_eq
      simp_all
    · obtain ⟨k', hk', hr, -⟩ := hq.restated.node i k hk
      simp [hk', hr]
  case setDeadline n t hn _ =>
    exact reference_set { n with drainDeadline := some t } hn.1 rfl i
  all_goals rfl

/-- The seats of an actor before and after a move that allocates nothing. -/
theorem Step.seated_iff (hs : Step world c m c') (hm : ∀ r, m ≠ .allocate r) (r : ActorRef) :
    (∃ n, Seated c'.nodes r n) ↔ ∃ n, Seated c.nodes r n := by
  have key : ∀ nodes : List Node, (∃ n, Seated nodes r n) ↔
      nodes[r.slot]?.map Node.reference = some r := by
    intro nodes
    simp [Seated, Option.map_eq_some_iff]
  rw [key, key, hs.references hm]

theorem Steps.references {P : Move → Prop} (hs : Steps world P c c')
    (hP : ∀ q, ¬P (.allocate q)) (i : ℕ) :
    c'.nodes[i]?.map Node.reference = c.nodes[i]?.map Node.reference := by
  induction hs with
  | refl => rfl
  | tail _ hp hs ih => exact (hs.references (fun q hq => hP q (hq ▸ hp)) i).trans ih

structure Core.Columns (c : Core) : Prop where
  boxes : c.boxes.length = c.nodes.length
  holds : c.holds.length = c.nodes.length

theorem put_length {α : Type} {l : List α} {i : ℕ} (hi : i ≤ l.length) (a : α) :
    (put l i a).length = max l.length (i + 1) := by
  unfold put
  split_ifs <;> simp <;> omega

theorem Core.Columns.step (hc : c.Columns) (h : c.Owned world) (hs : Step world c m c') :
    c'.Columns := by
  obtain ⟨hb, hh⟩ := hc
  cases hs
  case allocate r parent done hf hw hp =>
    have hle := hf.le h
    constructor
    · simp [allocNodes, put_length (hb ▸ hle), hb,
        put_length (show r.slot ≤ (c.nodes.map (atParent parent (.adopt r))).length by simpa)]
    · simp [allocNodes, put_length (hh ▸ hle), hh,
        put_length (show r.slot ≤ (c.nodes.map (atParent parent (.adopt r))).length by simpa)]
  case finalize n b hd hn _ _ _ _ _ _ => exact ⟨by simp [retireNodes, hb], by simp [retireNodes, hh]⟩
  case quiesce _ _ _ _ hq _ _ _ _ => exact ⟨hb.trans hq.length_eq.symm, hh.trans hq.length_eq.symm⟩
  case accept p n b s _ _ _ _ _ _ _ _ _ _ _ =>
    refine ⟨?_, hh⟩
    dsimp only
    split_ifs <;> simp [hb]
  all_goals exact ⟨by simpa [Core.enqueue, Core.release, Core.setNode, Core.setBox, Core.setHold] using hb,
    by simpa [Core.enqueue, Core.release, Core.setNode, Core.setBox, Core.setHold] using hh⟩

end Actorplane
