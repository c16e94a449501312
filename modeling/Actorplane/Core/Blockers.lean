import Actorplane.Core.Ownership

/-!
# What keeps a stopping actor

A stopping actor waits for its leases, notifications, tasks, Python cleanup and
children. When the last of these goes, the actor is finalized in the same call.
-/

namespace Actorplane

variable {world : ℕ} {c c' : Core} {m : Move} {r : ActorRef} {n : Node}

/-- Something keeps the actor from being finalized. -/
def Core.Held (c : Core) (r : ActorRef) (n : Node) : Prop :=
  (∃ b, c.boxes[r.slot]? = some b ∧ b.inFlight = true) ∨
    (∃ h, c.holds[r.slot]? = some h ∧ h ≠ ⟨false, false, 0, true⟩) ∨ n.children ≠ []

/-- Every stopping actor is held, with exceptions. -/
def Core.Blocked (except : ActorRef → Prop) (c : Core) : Prop :=
  ∀ r n, Seated c.nodes r n → n.state = .stopping → c.Held r n ∨ except r

/-- The actors that may lose their last blocker. -/
def Move.loosens (c : Core) (x : ActorRef) : Move → Prop
  | .stop r | .silence r | .hold r => x.slot = r.slot
  | .finish l _ | .abandon l => x.slot = l.target.slot
  | .finalize r => ∃ n, Seated c.nodes r n ∧ n.parent = some x
  | _ => False

variable {except : ActorRef → Prop}

theorem Core.Blocked.mono {except' : ActorRef → Prop} (h : c.Blocked except)
    (hsub : ∀ x, except x → except' x) : c.Blocked except' :=
  fun r n hn hs => (h r n hn hs).imp_right (hsub r)

/-- An exception ends once the actor is held or no longer stopping. -/
theorem Core.Blocked.settle (h : c.Blocked fun x => except x ∨ x = r)
    (hr : ∀ n, Seated c.nodes r n → n.state = .stopping → c.Held r n) : c.Blocked except := by
  intro x n hn hs
  rcases h x n hn hs with hh | he | rfl
  · exact .inl hh
  · exact .inr he
  · exact .inl (hr n hn hs)

/-- The blockers of one actor are taken over. -/
theorem Core.Held.keep (h : c.Held r n) {n' : Node}
    (hb : ∀ b, c.boxes[r.slot]? = some b → b.inFlight = true →
      ∃ b', c'.boxes[r.slot]? = some b' ∧ b'.inFlight = true)
    (hh : ∀ x, c.holds[r.slot]? = some x → x ≠ ⟨false, false, 0, true⟩ →
      ∃ x', c'.holds[r.slot]? = some x' ∧ x' ≠ ⟨false, false, 0, true⟩)
    (hc : n.children ≠ [] → n'.children ≠ []) : c'.Held r n' := by
  rcases h with ⟨b, h1, h2⟩ | ⟨x, h1, h2⟩ | h1
  · exact .inl (hb b h1 h2)
  · exact .inr (.inl (hh x h1 h2))
  · exact .inr (.inr (hc h1))

theorem flight_set {boxes : List Box} {b : Box} (b' : Box) {i j : ℕ} (hb : boxes[i]? = some b)
    (hfl : b.inFlight = true → b'.inFlight = true) (y : Box) (hy : boxes[j]? = some y)
    (ht : y.inFlight = true) : ∃ y', (boxes.set i b')[j]? = some y' ∧ y'.inFlight = true := by
  by_cases hij : i = j
  · subst hij
    have := hb.symm.trans hy
    cases this
    exact ⟨b', by simp [(List.getElem?_eq_some_iff.mp hb).1], hfl ht⟩
  · exact ⟨y, by rw [List.getElem?_set_ne hij, hy], ht⟩

/-- Moves that leave the nodes alone. -/
theorem Core.Blocked.keep (h : c.Blocked except) {loose : ActorRef → Prop}
    (hn : c'.nodes = c.nodes)
    (hb : ∀ x : ActorRef, ¬loose x → ∀ b, c.boxes[x.slot]? = some b → b.inFlight = true →
      ∃ b', c'.boxes[x.slot]? = some b' ∧ b'.inFlight = true)
    (hh : ∀ x : ActorRef, ¬loose x → c'.holds[x.slot]? = c.holds[x.slot]?) :
    c'.Blocked fun x => except x ∨ loose x := by
  intro x k hk hst
  rw [hn] at hk
  by_cases hx : loose x
  · exact .inr (.inr hx)
  · refine (h x k hk hst).imp (fun hheld => hheld.keep (hb x hx) (fun y hy hne => ?_) id) .inl
    exact ⟨y, (hh x hx).trans hy, hne⟩

/-- Moves that set one box, which stays in flight. -/
theorem Core.Blocked.set_box (h : c.Blocked except) {loose : ActorRef → Prop} {i : ℕ} {b : Box}
    (b' : Box) (hi : c.boxes[i]? = some b) (hfl : b.inFlight = true → b'.inFlight = true)
    (hn : c'.nodes = c.nodes) (hb : c'.boxes = c.boxes.set i b') (hh : c'.holds = c.holds) :
    c'.Blocked fun x => except x ∨ loose x := by
  refine h.keep hn (fun x _ y hy ht => ?_) fun x _ => by rw [hh]
  rw [hb]
  exact flight_set b' hi hfl y hy ht

/-- Moves that set the box of an actor that may lose its last blocker. -/
theorem Core.Blocked.land (h : c.Blocked except) {loose : ActorRef → Prop} {i : ℕ} (b' : Box)
    (hl : ∀ x : ActorRef, x.slot = i → loose x) (hn : c'.nodes = c.nodes)
    (hb : c'.boxes = c.boxes.set i b') (hh : c'.holds = c.holds) :
    c'.Blocked fun x => except x ∨ loose x := by
  refine h.keep hn (fun x hx y hy ht => ⟨y, ?_, ht⟩) fun x _ => by rw [hh]
  rw [hb, List.getElem?_set_ne fun hi => hx (hl x hi.symm), hy]

/-- Moves that set the hold of an actor that may lose its last blocker. -/
theorem Core.Blocked.set_hold (h : c.Blocked except) {loose : ActorRef → Prop} {i : ℕ} (y : Hold)
    (hl : ∀ x : ActorRef, x.slot = i → loose x) (hn : c'.nodes = c.nodes)
    (hb : c'.boxes = c.boxes) (hh : c'.holds = c.holds.set i y) :
    c'.Blocked fun x => except x ∨ loose x := by
  refine h.keep hn (fun x _ b hb' ht => ⟨b, by rw [hb, hb'], ht⟩) fun x hx => ?_
  rw [hh, List.getElem?_set_ne fun hi => hx (hl x hi.symm)]

/-- Moves that only set one node, to the same children. -/
theorem Core.Blocked.set_node (h : c.Blocked except) {loose : ActorRef → Prop} {k : Node}
    (k' : Node) (hr : Seated c.nodes r k) (href : k'.reference = k.reference)
    (hch : k'.children = k.children)
    (hst : k'.state = .stopping → k.state = .stopping ∨ ∀ x : ActorRef, x.slot = r.slot → loose x)
    (hn : c'.nodes = c.nodes.set r.slot k') (hb : c'.boxes = c.boxes) (hh : c'.holds = c.holds) :
    c'.Blocked fun x => except x ∨ loose x := by
  intro x y hy hys
  rw [hn] at hy
  have hboxes : ∀ b, c.boxes[x.slot]? = some b → b.inFlight = true →
      ∃ b', c'.boxes[x.slot]? = some b' ∧ b'.inFlight = true :=
    fun b hb' ht => ⟨b, by rw [hb, hb'], ht⟩
  have hholds : ∀ z, c.holds[x.slot]? = some z → z ≠ ⟨false, false, 0, true⟩ →
      ∃ z', c'.holds[x.slot]? = some z' ∧ z' ≠ ⟨false, false, 0, true⟩ :=
    fun z hz hne => ⟨z, by rw [hh, hz], hne⟩
  rcases (seated_set k' hr.1 href).mp hy with ⟨hslot, rfl, hx⟩ | ⟨-, hy₀⟩
  · rcases hst hys with hs | hl
    · exact (h x k hx hs).imp (fun hheld => hheld.keep hboxes hholds (by simp [hch])) .inl
    · exact .inr (.inr (hl x hslot))
  · exact (h x y hy₀ hys).imp (fun hheld => hheld.keep hboxes hholds id) .inl

/-- A new actor is not stopping, and its parent has one more child. -/
theorem Core.Blocked.allocate (h : c.Blocked except) (hc : c.Columns)
    {parent : Option ActorRef} {b : Box} {y : Hold} (hle : r.slot ≤ c.nodes.length)
    (hn : c'.nodes = allocNodes c.nodes r parent) (hb : c'.boxes = put c.boxes r.slot b)
    (hh : c'.holds = put c.holds r.slot y) : c'.Blocked except := by
  intro x k hk hks
  rw [hn] at hk
  rcases (seated_alloc hle).mp hk with ⟨-, rfl⟩ | ⟨hslot, k₀, hk₀, rfl⟩
  · simp [Node.fresh] at hks
  · rw [(adopt_frame r parent k₀).2.1] at hks
    refine (h x k₀ hk₀ hks).imp_left fun hheld => hheld.keep ?_ ?_ fun hne => ?_
    · intro b' hb' ht
      exact ⟨b', by rw [hb, put_get (hc.boxes ▸ hle), if_neg hslot, hb'], ht⟩
    · intro y' hy' hne
      exact ⟨y', by rw [hh, put_get (hc.holds ▸ hle), if_neg hslot, hy'], hne⟩
    · unfold atParent
      split_ifs
      · simp [Node.adopt]
      · exact hne

theorem Core.Blocked.step (h : c.Blocked except) (ho : c.Owned world) (hc : c.Columns)
    (hs : Step world c m c') : c'.Blocked fun x => except x ∨ m.loosens c x := by
  cases hs
  case lose r lost b n kept late hn hb _ _ _ =>
    exact h.set_box { b with staged := kept } hb id rfl rfl rfl
  case cancel r m reason b n before after hn hb _ _ =>
    exact h.set_box { b with queue := before ++ after } hb id rfl rfl rfl
  case silence r y hy => exact h.set_hold { y with notified := false } (fun _ => id) rfl rfl rfl
  case hold r _ y y' _ _ _ _ _ hy _ => exact h.set_hold y' (fun _ => id) rfl rfl rfl
  case enqueue r mail b _ hb _ =>
    exact h.set_box { b with queue := b.queue ++ [mail] } hb id rfl rfl rfl
  case start r mail b rest l _ hb _ _ _ _ _ =>
    exact h.set_box { b with queue := rest, inFlight := true } hb (fun _ => rfl) rfl rfl rfl
  case finish l success b _ hb =>
    exact h.land { b with inFlight := false } (fun _ => id) rfl rfl rfl
  case abandon l b _ hb => exact h.land { b with inFlight := false } (fun _ => id) rfl rfl rfl
  case accept p n b s _ _ _ _ _ _ _ _ _ hb _ =>
    by_cases hp : p.staged
    · exact h.set_box { b with staged := b.staged ++ [s] } hb id rfl (if_pos hp) rfl
    · refine h.keep rfl (fun x _ y hy ht => ⟨y, ?_, ht⟩) fun _ _ => rfl
      dsimp only
      rw [if_neg hp, hy]
  case flush r ticket n b s rest _ hb _ _ =>
    exact h.set_box { b with staged := rest } hb id rfl rfl rfl
  case deliver ticket route target mail p routes b sub _ _ _ _ _ _ hb _ _ =>
    exact h.set_box { b with queue := b.queue ++ [mail] } hb id rfl rfl rfl
  case stop r n b hn _ _ _ _ _ _ _ _ _ _ _ =>
    exact h.set_node { n with state := .stopping } hn rfl rfl (fun _ => .inr fun _ => id) rfl rfl rfl
  case activate r n hn _ _ =>
    exact h.set_node { n with state := .active } hn rfl rfl (by simp) rfl rfl rfl
  case lease r n _ _ hn _ _ _ _ _ _ =>
    exact h.set_node { n with state := .active } hn rfl rfl (by simp) rfl rfl rfl
  case setDeadline r n t hn _ =>
    exact h.set_node { n with drainDeadline := some t } hn rfl rfl .inl rfl rfl rfl
  case finalize r n b hd hn hst _ _ _ _ hch =>
    intro x k hk hks
    rcases (seated_retire hn).mp hk with ⟨-, rfl⟩ | ⟨-, k₀, hk₀, rfl⟩
    · simp at hks
    · by_cases hp : n.parent = some x
      · exact .inr (.inr ⟨n, hn, hp⟩)
      · have hne : n.parent ≠ some k₀.reference := hk₀.2.symm ▸ hp
        rw [atParent, if_neg hne] at hks ⊢
        exact (h x k₀ hk₀ hks).imp (fun hheld => hheld) .inl
  case allocate r parent done hf hw hp =>
    exact (h.allocate hc (hf.le ho) rfl rfl rfl).mono fun _ => .inl
  case quiesce root n deadline nodes' roots _ _ hq _ _ _ _ =>
    intro x k' hk' hks
    obtain ⟨k, hk, -⟩ := hq.restated.symm.seated hk'
    rcases hq.node _ k k' hk.1 hk'.1 with ⟨rfl, -⟩ | ⟨-, rfl, -⟩
    · exact (h x k' hk hks).imp (fun hheld => hheld) .inl
    · simp [Node.quiesce] at hks
  all_goals exact h.keep rfl (fun _ _ b hb ht => ⟨b, hb, ht⟩) fun _ _ => rfl

/-- A finalized actor passes its exception on to its parent. -/
theorem Core.Blocked.finalize (h : c.Blocked fun x => except x ∨ x = r) (ho : c.Owned world)
    (hc : c.Columns) (hs : Step world c (.finalize r) c') :
    c'.Blocked fun x => except x ∨ ∃ n, Seated c.nodes r n ∧ n.parent = some x := by
  intro x k hk hks
  rcases h.step ho hc hs x k hk hks with hh | (he | rfl) | hp
  · exact .inl hh
  · exact .inr (.inl he)
  · cases hs with
    | finalize n b hd hn =>
      rcases (seated_retire hn).mp hk with ⟨-, rfl⟩ | ⟨hne, -⟩
      · simp at hks
      · exact absurd rfl hne
  · exact .inr (.inr hp)

end Actorplane
