import Actorplane.Core.Mail

/-!
# Control leases and tasks

An actor is under control exactly while one failure or callback lease names it,
never together with a delivery, and its task count is the number of registrations
outstanding. A stopped actor has none of these.
-/

namespace Actorplane

variable {world : ℕ} {c c' : Core} {m : Move} {r : ActorRef} {n : Node}

/-- The hold of an actor that nothing keeps. -/
def Hold.released : Hold := ⟨false, false, 0, true⟩

/-- The actors named by the outstanding failure and callback leases. -/
def Core.controls (c : Core) : List ActorRef := c.failures.map (·.supervisor) ++ c.callbacks

/-- The flags of an actor agree with the leases on it. -/
structure Core.Gripped (c : Core) (r : ActorRef) (h : Hold) : Prop where
  control : c.controls.count r = if h.control then 1 else 0
  tasks : c.tasks.count r = h.tasks

structure Core.Controlled (c : Core) : Prop where
  seated : ∀ r, r ∈ c.controls ∨ r ∈ c.tasks → ∃ n, Seated c.nodes r n
  gripped : ∀ r n h, Seated c.nodes r n → c.holds[r.slot]? = some h → c.Gripped r h
  released : ∀ r n h, Seated c.nodes r n → n.state = .stopped → c.holds[r.slot]? = some h →
    h = .released
  exclusive : ∀ (i : ℕ) (b : Box) (h : Hold), c.boxes[i]? = some b → c.holds[i]? = some h →
    b.inFlight = true → h.control = false

/-- A lease or a registration keeps its actor from being stopped. -/
theorem Core.Controlled.not_stopped (h : c.Controlled) (hc : c.Columns)
    (hr : r ∈ c.controls ∨ r ∈ c.tasks) : ∃ n, Seated c.nodes r n ∧ n.state ≠ .stopped := by
  obtain ⟨n, hn⟩ := h.seated r hr
  refine ⟨n, hn, fun hst => ?_⟩
  have hlt : r.slot < c.holds.length := hc.holds ▸ (List.getElem?_eq_some_iff.mp hn.1).1
  have hx := List.getElem?_eq_getElem hlt
  obtain ⟨h1, h2⟩ := h.gripped r n _ hn hx
  rw [h.released r n _ hn hst hx] at h1 h2
  have h1 : c.controls.count r = 0 := h1
  have h2 : c.tasks.count r = 0 := h2
  rw [List.count_eq_zero] at h1 h2
  exact hr.elim h1 h2

/-- Moves that neither allocate nor touch the leases. -/
theorem Core.Controlled.keep (h : c.Controlled) (hs : Step world c m c')
    (hm : ∀ r, m ≠ .allocate r) (hcontrols : c'.controls = c.controls) (htasks : c'.tasks = c.tasks)
    (hholds : ∀ (i : ℕ) (x' : Hold), c'.holds[i]? = some x' → ∃ x, c.holds[i]? = some x ∧
      (x' = x ∨ x' = { x with notified := false }))
    (hstop : ∀ r n', Seated c'.nodes r n' → n'.state = .stopped →
      (∃ n, Seated c.nodes r n ∧ n.state = .stopped) ∨
        ∀ x, c'.holds[r.slot]? = some x → x = .released)
    (hflight : SameFlights c.boxes c'.boxes) : c'.Controlled where
  seated r hr := by
    rw [hcontrols, htasks] at hr
    exact (hs.seated_iff hm r).mpr (h.seated r hr)
  gripped r n' x' hn' hx' := by
    obtain ⟨n, hn⟩ := (hs.seated_iff hm r).mp ⟨n', hn'⟩
    obtain ⟨x, hx, he⟩ := hholds _ x' hx'
    obtain ⟨h1, h2⟩ := h.gripped r n x hn hx
    have hsame : x'.control = x.control ∧ x'.tasks = x.tasks := by
      rcases he with rfl | rfl <;> exact ⟨rfl, rfl⟩
    exact ⟨by rw [hcontrols, hsame.1, h1], by rw [htasks, hsame.2, h2]⟩
  released r n' x' hn' hst hx' := by
    rcases hstop r n' hn' hst with ⟨n, hn, hs⟩ | hr
    · obtain ⟨x, hx, he⟩ := hholds _ x' hx'
      have := h.released r n x hn hs hx
      rcases he with rfl | rfl
      · exact this
      · rw [this]
        rfl
    · exact hr x' hx'
  exclusive i b' x' hb' hx' hf := by
    obtain ⟨b, hb, he⟩ := hflight.get hb'
    obtain ⟨x, hx, hxe⟩ := hholds i x' hx'
    have := h.exclusive i b x hb hx (he ▸ hf)
    rcases hxe with rfl | rfl <;> exact this

/-- Moves outside nodes, holds and leases. -/
theorem Core.Controlled.frame (h : c.Controlled) (hn : c'.nodes = c.nodes)
    (hh : c'.holds = c.holds) (hcontrols : c'.controls = c.controls) (htasks : c'.tasks = c.tasks)
    (hflight : ∀ (i : ℕ) (b' : Box) (x : Hold), c'.boxes[i]? = some b' → c.holds[i]? = some x →
      b'.inFlight = true → (∃ b, c.boxes[i]? = some b ∧ b.inFlight = true) ∨ x.control = false) :
    c'.Controlled where
  seated r hr := by
    rw [hcontrols, htasks] at hr
    rw [hn]
    exact h.seated r hr
  gripped r n x hnr hx := by
    rw [hn] at hnr
    rw [hh] at hx
    obtain ⟨h1, h2⟩ := h.gripped r n x hnr hx
    exact ⟨hcontrols ▸ h1, htasks ▸ h2⟩
  released r n x hnr hst hx := by
    rw [hn] at hnr
    rw [hh] at hx
    exact h.released r n x hnr hst hx
  exclusive i b' x hb' hx hf := by
    rw [hh] at hx
    rcases hflight i b' x hb' hx hf with ⟨b, hb, ht⟩ | hx'
    · exact h.exclusive i b x hb hx ht
    · exact hx'

/-- Moves that change no actor and no flight. -/
theorem Core.Controlled.mail (h : c.Controlled) (hn : c'.nodes = c.nodes)
    (hh : c'.holds = c.holds) (hcontrols : c'.controls = c.controls) (htasks : c'.tasks = c.tasks)
    (hflight : SameFlights c.boxes c'.boxes) : c'.Controlled := by
  refine h.frame hn hh hcontrols htasks fun i b' x hb' _ hf => ?_
  obtain ⟨b, hb, he⟩ := hflight.get hb'
  exact .inl ⟨b, hb, he ▸ hf⟩

theorem count_erase_add {l : List ActorRef} (hr : r ∈ l) (q : ActorRef) :
    (l.erase r).count q + (if q = r then 1 else 0) = l.count q := by
  rw [(List.perm_cons_erase hr).count_eq q, List.count_cons]
  by_cases hq : q = r
  · simp [hq]
  · simp [hq, Ne.symm hq]

theorem count_supervisors_erase {failures : List FailureLease} {l : FailureLease}
    (hl : l ∈ failures) (q : ActorRef) :
    ((failures.erase l).map (·.supervisor)).count q + (if q = l.supervisor then 1 else 0) =
      (failures.map (·.supervisor)).count q := by
  have hp := ((List.perm_cons_erase hl).map (·.supervisor)).count_eq q
  rw [hp, List.map_cons, List.count_cons]
  by_cases hq : q = l.supervisor
  · simp [hq]
  · simp [hq, Ne.symm hq]

namespace Core.Grips

variable {x x' : Hold} {failures : List FailureLease} {callbacks tasks : List ActorRef}

/-- What a change of the leases does to the counts of its actor and of the others. -/
theorem counts (hg : c.Grips r x x' failures callbacks tasks) (h : c.Gripped r x) :
    (failures.map (·.supervisor) ++ callbacks).count r = (if x'.control then 1 else 0) ∧
      tasks.count r = x'.tasks ∧
      ∀ q, q ≠ r → (failures.map (·.supervisor) ++ callbacks).count q = c.controls.count q ∧
        tasks.count q = c.tasks.count q := by
  obtain ⟨hctl, htsk⟩ := h
  simp only [Core.controls, List.count_append] at hctl ⊢
  cases hg with
  | failure l hl hfree hfl =>
    simp only [hfree, Bool.false_eq_true, if_false] at hctl
    refine ⟨?_, htsk, fun q hq => ⟨?_, rfl⟩⟩
    · simp only [List.map_cons, hl, List.count_cons_self, if_true]
      omega
    · simp [hl, List.count_cons_of_ne (Ne.symm hq)]
  | callback hfree hfl =>
    simp only [hfree, Bool.false_eq_true, if_false] at hctl
    refine ⟨?_, htsk, fun q hq => ⟨?_, rfl⟩⟩
    · simp only [List.count_cons_self, if_true]
      omega
    · simp [List.count_cons_of_ne (Ne.symm hq)]
  | endFailure l hl hlr =>
    refine ⟨?_, htsk, fun q hq => ⟨?_, rfl⟩⟩
    · have := count_supervisors_erase hl r
      simp only [hlr, if_true] at this
      simp only [Bool.false_eq_true, if_false]
      split_ifs at hctl <;> omega
    · have := count_supervisors_erase hl q
      simp only [hlr, hq, if_false] at this
      omega
  | endCallback hr =>
    refine ⟨?_, htsk, fun q hq => ⟨?_, rfl⟩⟩
    · have := count_erase_add hr r
      simp only [if_true] at this
      simp only [Bool.false_eq_true, if_false]
      split_ifs at hctl <;> omega
    · have := count_erase_add hr q
      simp only [hq, if_false] at this
      omega
  | task =>
    refine ⟨hctl, by simp [htsk], fun q hq => ⟨rfl, ?_⟩⟩
    simp [List.count_cons_of_ne (Ne.symm hq)]
  | endTask hr =>
    refine ⟨hctl, ?_, fun q hq => ⟨rfl, ?_⟩⟩
    · have := count_erase_add hr r
      simp only [if_true] at this
      simp only
      omega
    · have := count_erase_add hr q
      simpa only [hq, if_false, Nat.add_zero] using this
  | notify => exact ⟨hctl, htsk, fun _ _ => ⟨rfl, rfl⟩⟩
  | cleanup => exact ⟨hctl, htsk, fun _ _ => ⟨rfl, rfl⟩⟩

/-- A control lease is given only to an actor that is not in flight. -/
theorem unflown (hg : c.Grips r x x' failures callbacks tasks) (hx : x'.control = true) :
    x.control = true ∨ ∀ b, c.boxes[r.slot]? = some b → b.inFlight = false := by
  cases hg with
  | failure l hl hfree hfl => exact .inr hfl
  | callback hfree hfl => exact .inr hfl
  | endFailure l hl hlr => simp at hx
  | endCallback hr => simp at hx
  | task => exact .inl hx
  | endTask hr => exact .inl hx
  | notify => exact .inl hx
  | cleanup => exact .inl hx

end Core.Grips

/-- The leases on one actor change together with its flags. -/
theorem Core.Controlled.grip (h : c.Controlled) {x x' : Hold} {failures : List FailureLease}
    {callbacks tasks : List ActorRef} (hn : Seated c.nodes r n) (hst : n.state ≠ .stopped)
    (hx : c.holds[r.slot]? = some x) (hg : c.Grips r x x' failures callbacks tasks) :
    ({ c.setHold r.slot x' with
        failures := failures, callbacks := callbacks, tasks := tasks } : Core).Controlled := by
  set c' : Core := { c.setHold r.slot x' with
    failures := failures, callbacks := callbacks, tasks := tasks } with hc'
  obtain ⟨hctl, htsk, hothers⟩ := hg.counts (h.gripped r n x hn hx)
  have hgrip : c'.Gripped r x' := ⟨hctl, htsk⟩
  have hothers : ∀ q, q ≠ r → c'.controls.count q = c.controls.count q ∧
      c'.tasks.count q = c.tasks.count q := hothers
  have hget : ∀ (i : ℕ) (y : Hold), c'.holds[i]? = some y →
      r.slot = i ∧ y = x' ∨ r.slot ≠ i ∧ c.holds[i]? = some y := by
    intro i y hy
    have hy' : (c.holds.set r.slot x')[i]? = some y := hy
    rw [List.getElem?_set] at hy'
    split_ifs at hy' with hi
    · cases hy'
      exact .inl ⟨hi, rfl⟩
    · exact .inr ⟨hi, hy'⟩
  refine ⟨fun q hq => ?_, fun q k y hk hy => ?_, fun q k y hk hks hy => ?_,
    fun i b y hb hy hf => ?_⟩
  · by_cases hqr : q = r
    · exact ⟨n, hqr ▸ hn⟩
    · obtain ⟨h1, h2⟩ := hothers q hqr
      simp only [← List.count_pos_iff] at hq
      rw [h1, h2] at hq
      simp only [List.count_pos_iff] at hq
      exact h.seated q hq
  · rcases hget _ y hy with ⟨hslot, rfl⟩ | ⟨hslot, hy'⟩
    · have hqr : q = r := by
        rw [← hk.2, ← hn.2]
        exact congrArg Node.reference (Option.some.inj ((hslot ▸ hk.1).symm.trans hn.1))
      exact hqr ▸ hgrip
    · have hqr : q ≠ r := fun he => hslot (by rw [he])
      obtain ⟨h1, h2⟩ := h.gripped q k y hk hy'
      obtain ⟨h3, h4⟩ := hothers q hqr
      exact ⟨h3.trans h1, h4.trans h2⟩
  · rcases hget _ y hy with ⟨hslot, rfl⟩ | ⟨-, hy'⟩
    · have : k = n := Option.some.inj ((hslot ▸ hk.1).symm.trans hn.1)
      exact absurd hks (this ▸ hst)
    · exact h.released q k y hk hks hy'
  · rcases hget i y hy with ⟨rfl, rfl⟩ | ⟨-, hy'⟩
    · by_contra hc
      rcases hg.unflown (by simpa using hc) with hxc | hxf
      · simp [h.exclusive _ b x hb hx hf] at hxc
      · have hb' : c.boxes[r.slot]? = some b := hb
        simp [hxf b hb'] at hf
    · exact h.exclusive i b y hb hy' hf

/-- Moves that set one node without stopping it. -/
theorem Core.Controlled.node (h : c.Controlled) (hs : Step world c m c') {k : Node}
    (hm : ∀ r, m ≠ .allocate r) (hn : Seated c.nodes r n) (href : k.reference = n.reference)
    (hst : k.state = .stopped → n.state = .stopped) (hnodes : c'.nodes = c.nodes.set r.slot k)
    (hholds : c'.holds = c.holds) (hboxes : c'.boxes = c.boxes)
    (hcontrols : c'.controls = c.controls) (htasks : c'.tasks = c.tasks) : c'.Controlled := by
  refine h.keep hs hm hcontrols htasks (fun i x hx => ⟨x, hholds ▸ hx, .inl rfl⟩)
    (fun q n' hn' hx => ?_) fun i => by rw [hboxes]
  rw [hnodes] at hn'
  rcases (seated_set k hn.1 href).mp hn' with ⟨-, rfl, hq⟩ | ⟨-, hn₀⟩
  · exact .inl ⟨n, hq, hst hx⟩
  · exact .inl ⟨n', hn₀, hx⟩

/-- One actor changes its flight: it lands, or nothing controls it. -/
theorem Core.Controlled.fly (h : c.Controlled) {i : ℕ} {b : Box} (hnodes : c'.nodes = c.nodes)
    (hholds : c'.holds = c.holds) (hcontrols : c'.controls = c.controls)
    (htasks : c'.tasks = c.tasks) (hboxes : c'.boxes = c.boxes.set i b)
    (hb : b.inFlight = true → ∀ x, c.holds[i]? = some x → x.control = false) : c'.Controlled := by
  refine h.frame hnodes hholds hcontrols htasks fun j y x hy hx hf => ?_
  rw [hboxes, List.getElem?_set] at hy
  split_ifs at hy with hj
  · cases hy
    exact .inr (hb hf x (hj ▸ hx))
  · exact .inl ⟨y, hy, hf⟩

/-- No lease names the occupant of a fresh slot, and its new occupant starts without any. -/
theorem Core.Controlled.allocate (h : c.Controlled) (ho : c.Owned world) (hc : c.Columns)
    {parent : Option ActorRef} {done : Bool} (hf : FreshSlot c.nodes c.free r)
    (hnodes : c'.nodes = allocNodes c.nodes r parent)
    (hholds : c'.holds = put c.holds r.slot ⟨false, false, 0, done⟩)
    (hboxes : c'.boxes = put c.boxes r.slot ⟨[], [], false⟩)
    (hcontrols : c'.controls = c.controls) (htasks : c'.tasks = c.tasks) : c'.Controlled := by
  have hle := hf.le ho
  have hhold : ∀ i : ℕ, c'.holds[i]? =
      if i = r.slot then some ⟨false, false, 0, done⟩ else c.holds[i]? := by
    rw [hholds]
    exact put_get (hc.holds ▸ hle) _
  have hfree : ∀ q, q.slot = r.slot → ¬(q ∈ c.controls ∨ q ∈ c.tasks) := by
    intro q hq hm
    obtain ⟨k, hk, hks⟩ := h.not_stopped hc hm
    exact hks (hf.old_stopped ho (hq ▸ hk.1)).1
  refine ⟨fun q hq => ?_, fun q k y hk hy => ?_, fun q k y hk hks hy => ?_,
    fun i b y hb hy hfl => ?_⟩
  · rw [hcontrols, htasks] at hq
    obtain ⟨k, hk⟩ := h.seated q hq
    have hslot : q.slot ≠ r.slot := fun he => hfree q he hq
    rw [hnodes]
    exact ⟨_, (seated_alloc hle).mpr (.inr ⟨hslot, k, hk, rfl⟩)⟩
  · rw [hnodes] at hk
    rw [hhold] at hy
    rcases (seated_alloc hle).mp hk with ⟨rfl, -⟩ | ⟨hslot, k₀, hk₀, -⟩
    · simp only [if_true, Option.some.injEq] at hy
      subst hy
      obtain ⟨h1, h2⟩ := not_or.mp (hfree q rfl)
      exact ⟨by rw [hcontrols, List.count_eq_zero.mpr h1]; rfl,
        by rw [htasks, List.count_eq_zero.mpr h2]⟩
    · rw [if_neg hslot] at hy
      obtain ⟨h1, h2⟩ := h.gripped q k₀ y hk₀ hy
      exact ⟨by rw [hcontrols, h1], by rw [htasks, h2]⟩
  · rw [hnodes] at hk
    rw [hhold] at hy
    rcases (seated_alloc hle).mp hk with ⟨-, rfl⟩ | ⟨hslot, k₀, hk₀, rfl⟩
    · simp [Node.fresh] at hks
    · rw [if_neg hslot] at hy
      refine h.released q k₀ y hk₀ ?_ hy
      rwa [← (adopt_frame r parent k₀).2.1]
  · rw [hboxes, put_get (hc.boxes ▸ hle)] at hb
    rw [hhold] at hy
    by_cases hi : i = r.slot
    · rw [if_pos hi] at hb
      cases hb
      cases hfl
    · rw [if_neg hi] at hb hy
      exact h.exclusive i b y hb hy hfl

theorem Core.Controlled.step (h : c.Controlled) (ho : c.Owned world) (hc : c.Columns)
    (hs : Step world c m c') : c'.Controlled := by
  have hs' := hs
  cases hs
  case lose r lost b n kept late _ hb _ _ _ =>
    exact h.mail rfl rfl rfl rfl (sameFlights_set { b with staged := kept } hb rfl)
  case cancel r mail reason b n before after _ hb _ _ =>
    exact h.mail rfl rfl rfl rfl (sameFlights_set { b with queue := before ++ after } hb rfl)
  case silence r x hx =>
    refine h.keep hs' (by simp) rfl rfl (fun i y hy => ?_) (fun q k hk hks => .inl ⟨k, hk, hks⟩)
      fun _ => rfl
    have hy' : (c.holds.set r.slot { x with notified := false })[i]? = some y := hy
    rw [List.getElem?_set] at hy'
    split_ifs at hy' with hi
    · cases hy'
      exact ⟨x, hi ▸ hx, .inr rfl⟩
    · exact ⟨y, hy', .inl rfl⟩
  case stop r n b hn _ _ _ _ _ _ _ _ _ _ _ =>
    exact h.node hs' (by simp) hn (k := { n with state := .stopping }) rfl (by simp) rfl rfl rfl rfl rfl
  case activate r n hn _ _ =>
    exact h.node hs' (by simp) hn (k := { n with state := .active }) rfl (by simp) rfl rfl rfl rfl rfl
  case lease r n _ _ hn _ _ _ _ _ _ =>
    exact h.node hs' (by simp) hn (k := { n with state := .active }) rfl (by simp) rfl rfl rfl rfl rfl
  case setDeadline r n t hn _ =>
    exact h.node hs' (by simp) hn (k := { n with drainDeadline := some t }) rfl id rfl rfl rfl rfl rfl
  case finalize r n b hd hn hst hb hfl hh hhd hch =>
    refine h.keep hs' (by simp) rfl rfl (fun i x hx => ⟨x, hx, .inl rfl⟩)
      (fun x k hk hks => ?_) fun _ => rfl
    rcases (seated_retire hn).mp hk with ⟨rfl, -⟩ | ⟨-, k₀, hk₀, rfl⟩
    · refine .inr fun y hy => ?_
      exact (Option.some.inj (hy.symm.trans hh)).trans hhd
    · refine .inl ⟨k₀, hk₀, ?_⟩
      rwa [← (atParent_frame n.parent (.disown r) (fun _ => ⟨rfl, rfl, rfl⟩) k₀).2.1]
  case allocate r parent done hf hw hp =>
    exact h.allocate ho hc hf rfl rfl rfl rfl rfl
  case quiesce root n deadline nodes' roots _ _ hq _ _ _ _ =>
    refine h.keep hs' (by simp) rfl rfl (fun i x hx => ⟨x, hx, .inl rfl⟩)
      (fun x k' hk' hks => ?_) fun _ => rfl
    obtain ⟨k, hk, -⟩ := hq.restated.symm.seated hk'
    rcases hq.node _ k k' hk.1 hk'.1 with ⟨rfl, -⟩ | ⟨-, rfl, -⟩
    · exact .inl ⟨k', hk, hks⟩
    · simp [Node.quiesce] at hks
  case hold r n x x' _ _ _ hn hst hx hg => exact h.grip hn hst hx hg
  case enqueue r mail b _ hb _ =>
    exact h.mail rfl rfl rfl rfl (sameFlights_set { b with queue := b.queue ++ [mail] } hb rfl)
  case start r mail b rest l _ hb _ _ hctl _ _ =>
    exact h.fly (b := { b with queue := rest, inFlight := true }) rfl rfl rfl rfl rfl fun _ => hctl
  case finish l success b _ hb =>
    exact h.fly (b := { b with inFlight := false }) rfl rfl rfl rfl rfl (by simp)
  case abandon l b _ hb =>
    exact h.fly (b := { b with inFlight := false }) rfl rfl rfl rfl rfl (by simp)
  case accept p n b s _ _ _ _ _ _ _ _ _ hb _ =>
    refine h.mail rfl rfl rfl rfl ?_
    dsimp only
    split_ifs
    · exact sameFlights_set { b with staged := b.staged ++ [s] } hb rfl
    · exact fun _ => rfl
  case flush r id n b s rest _ hb _ _ =>
    exact h.mail rfl rfl rfl rfl (sameFlights_set { b with staged := rest } hb rfl)
  case deliver id route target mail p routes b sub _ _ _ _ _ _ hb _ _ =>
    exact h.mail rfl rfl rfl rfl (sameFlights_set { b with queue := b.queue ++ [mail] } hb rfl)
  all_goals exact h.mail rfl rfl rfl rfl fun _ => rfl

end Actorplane
