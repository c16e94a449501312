import Actorplane.Core.Ownership
import Actorplane.Lib.Slots

/-!
# Conservation of deliveries

Every delivery is in one mailbox, leased, or ended, and the counters are those of
the delivery history. A mailbox is in the order of admission.
-/

namespace Actorplane

variable {world : ℕ} {c c' : Core} {m : Move} {log : List Event} {e : ℕ}

/-! ## Reading the history -/

namespace Event

def admits (e : ℕ) : Event → Bool
  | .admitted p _ => p = e
  | _ => false

def claims (e : ℕ) : Event → Bool
  | .claimed p _ => p = e
  | _ => false

def finishes (e : ℕ) : Event → Bool
  | .finished p _ => p = e
  | _ => false

def cancels (e : ℕ) : Event → Bool
  | .cancelled p _ _ => p = e
  | _ => false

def abandons (e : ℕ) : Event → Bool
  | .cancelled p _ reason => p = e && reason = .abandoned
  | _ => false

def isAdmission : Event → Bool
  | .admitted _ _ => true
  | _ => false

def isClaim : Event → Bool
  | .claimed _ _ => true
  | _ => false

def isFinish (success : Bool) : Event → Bool
  | .finished _ s => s = success
  | _ => false

def isCancellation : Event → Bool
  | .cancelled _ _ _ => true
  | _ => false

def isAbandonment : Event → Bool
  | .cancelled _ _ reason => reason = .abandoned
  | _ => false

def isStagedLoss : Event → Bool
  | .stagedLost _ => true
  | _ => false

end Event

/-- The deliveries an actor generation has claimed, in order. -/
def claimedBy (log : List Event) (r : ActorRef) : List ℕ :=
  log.filterMap fun
    | .claimed p t => if t = r then some p else none
    | _ => none

/-! ## Counting mailboxes -/

def Box.count (e : ℕ) (b : Box) : ℕ := (b.queue.map Mail.eventId).count e

/-- In how many places of mailboxes the event waits. -/
def queuedCount (boxes : List Box) (e : ℕ) : ℕ := (boxes.map (Box.count e)).sum

def leasedCount (leases : List DeliveryLease) (e : ℕ) : ℕ :=
  (leases.map (·.delivery.eventId)).count e

def mailTotal (boxes : List Box) : ℕ := (boxes.map fun b => b.queue.length).sum

theorem queuedCount_set {boxes : List Box} {i : ℕ} {b : Box} (hb : boxes[i]? = some b) (b' : Box)
    (e : ℕ) : queuedCount (boxes.set i b') e + b.count e = queuedCount boxes e + b'.count e :=
  sum_map_set _ _ hb

theorem mailTotal_set {boxes : List Box} {i : ℕ} {b : Box} (hb : boxes[i]? = some b) (b' : Box) :
    mailTotal (boxes.set i b') + b.queue.length = mailTotal boxes + b'.queue.length :=
  sum_map_set (fun b : Box => b.queue.length) _ hb

theorem sum_map_put {α : Type} (g : α → ℕ) {l : List α} {i : ℕ} (a : α) (ha : g a = 0)
    (hold : ∀ b, l[i]? = some b → g b = 0) (hi : i ≤ l.length) :
    ((put l i a).map g).sum = (l.map g).sum := by
  unfold put
  split_ifs with hl
  · simp [ha]
  · have hlt : i < l.length := by omega
    have := sum_map_set g a (List.getElem?_eq_getElem hlt)
    rw [ha, hold _ (List.getElem?_eq_getElem hlt)] at this
    omega

/-! ## Mailboxes of actors past their stop -/

/-- A stopping or stopped actor has an empty mailbox and no staged output. -/
def Core.Quiet (c : Core) : Prop :=
  ∀ (i : ℕ) (n : Node) (b : Box), c.nodes[i]? = some n → c.boxes[i]? = some b →
    n.state = .stopping ∨ n.state = .stopped → b.queue = [] ∧ b.staged = []

theorem Running.not_quiet {nodes : List Node} {r : ActorRef} (h : Running nodes r) {n : Node}
    (hn : nodes[r.slot]? = some n) : ¬(n.state = .stopping ∨ n.state = .stopped) := by
  obtain ⟨k, hk, hs⟩ := h
  have := hk.1.symm.trans hn
  cases this
  rcases hs with hs | hs <;> simp [hs]

/-- One box changes. -/
theorem Core.Quiet.set_box (h : c.Quiet) {i : ℕ} (b' : Box)
    (hq : ∀ n, c.nodes[i]? = some n → n.state = .stopping ∨ n.state = .stopped →
      b'.queue = [] ∧ b'.staged = [])
    (hn : c'.nodes = c.nodes) (hb : c'.boxes = c.boxes.set i b') : c'.Quiet := by
  intro j n y hk hy hst
  rw [hn] at hk
  rw [hb, List.getElem?_set] at hy
  split_ifs at hy with hij
  · cases hy
    subst hij
    exact hq n hk hst
  · exact h j n y hk hy hst

/-- One node changes, to a state that is no further. -/
theorem Core.Quiet.set_node (h : c.Quiet) {i : ℕ} {n : Node} (n' : Node)
    (hi : c.nodes[i]? = some n)
    (hst : n'.state = .stopping ∨ n'.state = .stopped → n.state = .stopping ∨ n.state = .stopped)
    (hn : c'.nodes = c.nodes.set i n') (hb : c'.boxes = c.boxes) : c'.Quiet := by
  intro j k y hk hy hks
  rw [hb] at hy
  rw [hn, List.getElem?_set] at hk
  split_ifs at hk with hij
  · cases hk
    subst hij
    exact h i n y hi hy (hst hks)
  · exact h j k y hk hy hks

theorem Core.Quiet.allocate (h : c.Quiet) (hc : c.Columns) {r : ActorRef}
    {parent : Option ActorRef} (hle : r.slot ≤ c.nodes.length)
    (hn : c'.nodes = allocNodes c.nodes r parent)
    (hb : c'.boxes = put c.boxes r.slot ⟨[], [], false⟩) : c'.Quiet := by
  intro j k y hk hy hks
  rw [hn, allocNodes_get hle] at hk
  split_ifs at hk with hj
  · cases hk
    simp [Node.fresh] at hks
  · obtain ⟨k₀, hk₀, rfl⟩ := Option.map_eq_some_iff.mp hk
    rw [hb, put_get (hc.boxes ▸ hle), if_neg hj] at hy
    rw [(adopt_frame r parent k₀).2.1] at hks
    exact h j k₀ y hk₀ hy hks

theorem Core.Quiet.retire (h : c.Quiet) {r : ActorRef} {n : Node} (hr : Seated c.nodes r n)
    (hst : n.state = .stopping) (hn : c'.nodes = retireNodes c.nodes n)
    (hb : c'.boxes = c.boxes) : c'.Quiet := by
  obtain ⟨hget, rfl⟩ := hr
  have hlt := (List.getElem?_eq_some_iff.mp hget).1
  intro j k y hk hy hks
  rw [hb] at hy
  rw [hn, retireNodes_get hlt] at hk
  split_ifs at hk with hj
  · cases hk
    exact h j n y (hj ▸ hget) hy (.inl hst)
  · obtain ⟨k₀, hk₀, rfl⟩ := Option.map_eq_some_iff.mp hk
    have hf := atParent_frame n.parent (.disown n.reference) (fun _ => ⟨rfl, rfl, rfl⟩) k₀
    rw [hf.2.1] at hks
    exact h j k₀ y hk₀ hy hks

theorem Core.Quiet.step (h : c.Quiet) (ho : c.Owned world) (hc : c.Columns)
    (hs : Step world c m c') : c'.Quiet := by
  cases hs
  case lose r lost b n kept late hn hb hsub _ _ =>
    refine h.set_box { b with staged := kept } (fun k hk hst => ?_) rfl rfl
    obtain ⟨h1, h2⟩ := h _ k b hk hb hst
    exact ⟨h1, List.sublist_nil.mp (h2 ▸ hsub)⟩
  case cancel r mail reason b n before after hn hb hq _ =>
    refine h.set_box { b with queue := before ++ after } (fun k hk hst => ?_) rfl rfl
    simp [(h _ k b hk hb hst).1] at hq
  case stop r n b hn _ hb hq hst _ _ _ _ _ _ _ =>
    intro j k y hk hy hks
    by_cases hj : r.slot = j
    · subst hj
      have := hb.symm.trans hy
      cases this
      exact ⟨hq, hst⟩
    · have hk' : (c.nodes.set r.slot { n with state := .stopping })[j]? = some k := hk
      rw [List.getElem?_set_ne hj] at hk'
      exact h j k y hk' hy hks
  case finalize r n b hd hn hst _ _ _ _ _ => exact h.retire hn hst rfl rfl
  case allocate r parent done hf hw hp => exact h.allocate hc (hf.le ho) rfl rfl
  case activate r n hn _ _ => exact h.set_node { n with state := .active } hn.1 (by simp) rfl rfl
  case lease r n _ _ hn _ _ _ _ _ _ =>
    exact h.set_node { n with state := .active } hn.1 (by simp) rfl rfl
  case setDeadline r n t hn _ => exact h.set_node { n with drainDeadline := some t } hn.1 id rfl rfl
  case quiesce root n deadline nodes' roots _ _ hq _ _ _ _ =>
    intro j k' y hk' hy hks
    obtain ⟨k, hk, -⟩ := hq.restated.symm.node j k' hk'
    rcases hq.node j k k' hk hk' with ⟨rfl, -⟩ | ⟨-, rfl, -⟩
    · exact h j k' y hk hy hks
    · simp [Node.quiesce] at hks
  case enqueue r mail b hr hb _ =>
    exact h.set_box { b with queue := b.queue ++ [mail] }
      (fun k hk hst => absurd hst (hr.not_quiet hk)) rfl rfl
  case start r mail b rest l hr hb _ _ _ _ _ =>
    exact h.set_box { b with queue := rest, inFlight := true }
      (fun k hk hst => absurd hst (hr.not_quiet hk)) rfl rfl
  case finish l success b _ hb =>
    exact h.set_box { b with inFlight := false } (fun k hk hst => h _ k b hk hb hst) rfl rfl
  case abandon l b _ hb =>
    exact h.set_box { b with inFlight := false } (fun k hk hst => h _ k b hk hb hst) rfl rfl
  case accept p n b s _ _ _ _ _ _ hn h1 h2 hb _ =>
    by_cases hp : p.staged
    · refine h.set_box (i := p.source.slot) { b with staged := b.staged ++ [s] }
        (fun x hx hst => ?_) rfl (if_pos hp)
      have := hn.1.symm.trans hx
      cases this
      exact absurd hst (by simp [h1, h2])
    · intro j k y hk hy hks
      dsimp only at hy
      rw [if_neg hp] at hy
      exact h j k y hk hy hks
  case flush r id n b s rest _ hb hst _ =>
    refine h.set_box { b with staged := rest } (fun k hk hks => ?_) rfl rfl
    simp [(h _ k b hk hb hks).2] at hst
  case deliver id route target mail p routes b sub _ _ _ _ _ hr hb _ _ =>
    exact h.set_box { b with queue := b.queue ++ [mail] }
      (fun k hk hst => absurd hst (hr.not_quiet hk)) rfl rfl
  all_goals exact h

/-! ## Delivery leases -/

structure Core.Leased (c : Core) : Prop where
  target : ∀ l ∈ c.leases, ∃ n, Seated c.nodes l.target n ∧ n.state ≠ .stopped ∧
    ∃ b, c.boxes[l.target.slot]? = some b ∧ b.inFlight = true
  nodup : (c.leases.map (·.target.slot)).Nodup
  flown : ∀ (i : ℕ) (b : Box), c.boxes[i]? = some b → b.inFlight = true →
    ∃ l ∈ c.leases, l.target.slot = i
  count : c.boxes.countP (·.inFlight) = c.leases.length

/-- Two outstanding leases for one slot are one. -/
theorem Core.Leased.unique (h : c.Leased) {l l' : DeliveryLease} (hl : l ∈ c.leases)
    (hl' : l' ∈ c.leases) (hs : l.target.slot = l'.target.slot) : l = l' :=
  List.inj_on_of_nodup_map h.nodup hl hl' hs

theorem countP_flight_set {boxes : List Box} {i : ℕ} {b : Box} (hb : boxes[i]? = some b) (b' : Box) :
    (boxes.set i b').countP (·.inFlight) + (if b.inFlight then 1 else 0) =
      boxes.countP (·.inFlight) + (if b'.inFlight then 1 else 0) :=
  countP_set_add (fun b : Box => b.inFlight) b' hb

theorem countP_put {α : Type} (g : α → Bool) {l : List α} {i : ℕ} (a : α) (ha : g a = false)
    (hold : ∀ b, l[i]? = some b → g b = false) (hi : i ≤ l.length) :
    (put l i a).countP g = l.countP g := by
  rw [countP_eq_sum, countP_eq_sum]
  exact sum_map_put (fun x => if g x then 1 else 0) a (by simp [ha]) (fun b hb => by simp [hold b hb]) hi

/-- The slots of the boxes in flight do not change. -/
def SameFlights (boxes boxes' : List Box) : Prop :=
  ∀ i : ℕ, boxes'[i]?.map Box.inFlight = boxes[i]?.map Box.inFlight

theorem sameFlights_set {boxes : List Box} {i : ℕ} {b : Box} (b' : Box) (hb : boxes[i]? = some b)
    (hf : b'.inFlight = b.inFlight) : SameFlights boxes (boxes.set i b') := by
  intro j
  rw [List.getElem?_set]
  split_ifs with hj hlt
  · subst hj
    simp [hb, hf]
  · exact absurd (List.getElem?_eq_some_iff.mp hb).1 (hj ▸ hlt)
  · rfl

theorem SameFlights.get {boxes boxes' : List Box} (h : SameFlights boxes boxes') {i : ℕ} {b' : Box}
    (hb' : boxes'[i]? = some b') : ∃ b, boxes[i]? = some b ∧ b'.inFlight = b.inFlight := by
  have := h i
  rw [hb'] at this
  obtain ⟨b, hb, he⟩ := Option.map_eq_some_iff.mp this.symm
  exact ⟨b, hb, he.symm⟩

theorem SameFlights.symm {boxes boxes' : List Box} (h : SameFlights boxes boxes') :
    SameFlights boxes' boxes := fun i => (h i).symm

theorem SameFlights.countP {boxes boxes' : List Box} (h : SameFlights boxes boxes') :
    boxes'.countP (·.inFlight) = boxes.countP (·.inFlight) := by
  have hmap : boxes'.map Box.inFlight = boxes.map Box.inFlight :=
    List.ext_getElem? fun i => by simpa using h i
  have := congrArg (List.countP id) hmap
  simpa [List.countP_map, Function.comp_def] using this

/-- Moves that leave leases and flags alone. -/
theorem Core.Leased.keep (h : c.Leased) (hleases : c'.leases = c.leases)
    (hbox : SameFlights c.boxes c'.boxes)
    (hnode : ∀ l ∈ c.leases, ∀ n, Seated c.nodes l.target n → n.state ≠ .stopped →
      ∃ n', Seated c'.nodes l.target n' ∧ n'.state ≠ .stopped) : c'.Leased := by
  refine ⟨fun l hl => ?_, hleases ▸ h.nodup, fun i b' hb' ht => ?_, ?_⟩
  · rw [hleases] at hl
    obtain ⟨n, hn, hs, b, hb, ht⟩ := h.target l hl
    obtain ⟨n', hn', hs'⟩ := hnode l hl n hn hs
    obtain ⟨b', hb', he⟩ := hbox.symm.get hb
    exact ⟨n', hn', hs', b', hb', he ▸ ht⟩
  · obtain ⟨b, hb, he⟩ := hbox.get hb'
    rw [hleases]
    exact h.flown i b hb (he ▸ ht)
  · rw [hleases, hbox.countP, h.count]

/-- An outstanding lease is given back. -/
theorem Core.Leased.release (h : c.Leased) {l : DeliveryLease} (hl : l ∈ c.leases) {b : Box}
    (hb : c.boxes[l.target.slot]? = some b) (hnodes : c'.nodes = c.nodes)
    (hboxes : c'.boxes = c.boxes.set l.target.slot { b with inFlight := false })
    (hleases : c'.leases = c.leases.erase l) : c'.Leased := by
  have hnd : c.leases.Nodup := h.nodup.of_map _
  obtain ⟨-, -, -, b₀, hb₀, hfl⟩ := h.target l hl
  have := hb.symm.trans hb₀
  cases this
  refine ⟨fun l' hl' => ?_, ?_, fun i y hy ht => ?_, ?_⟩
  · rw [hleases, hnd.mem_erase_iff] at hl'
    obtain ⟨n, hn, hs, y, hy, ht⟩ := h.target l' hl'.2
    refine ⟨n, hnodes ▸ hn, hs, y, ?_, ht⟩
    rw [hboxes, List.getElem?_set_ne, hy]
    exact fun hslot => hl'.1 (h.unique hl'.2 hl hslot.symm)
  · rw [hleases]
    exact h.nodup.sublist ((List.erase_sublist).map _)
  · rw [hboxes, List.getElem?_set] at hy
    split_ifs at hy with hi
    · cases hy
      simp at ht
    · obtain ⟨l', hl', hs⟩ := h.flown i y hy ht
      refine ⟨l', ?_, hs⟩
      rw [hleases, hnd.mem_erase_iff]
      refine ⟨?_, hl'⟩
      rintro rfl
      exact hi hs
  · have := countP_flight_set hb { b with inFlight := false }
    rw [hboxes, hleases, List.length_erase_of_mem hl, ← h.count]
    simp only [hfl, if_true, Bool.false_eq_true, if_false] at this
    omega

/-- A record that keeps its reference and does not stop leaves every seat standing. -/
theorem standing_set {nodes : List Node} {q r : ActorRef} {k k' n : Node} (hk : Seated nodes q k)
    (href : k'.reference = k.reference) (hst : k.state ≠ .stopped → k'.state ≠ .stopped)
    (hn : Seated nodes r n) (hns : n.state ≠ .stopped) :
    ∃ n', Seated (nodes.set q.slot k') r n' ∧ n'.state ≠ .stopped := by
  by_cases hslot : r.slot = q.slot
  · have hkn : k = n := Option.some.inj (hk.1.symm.trans (hslot ▸ hn.1))
    exact ⟨k', (seated_set k' hk.1 href).mpr (.inl ⟨hslot, rfl, hkn ▸ hn⟩), hst (hkn ▸ hns)⟩
  · exact ⟨n, (seated_set k' hk.1 href).mpr (.inr ⟨hslot, hn⟩), hns⟩

/-- One node changes, and stands if it stood. -/
theorem Core.Leased.set_node (h : c.Leased) {r : ActorRef} {n : Node} (n' : Node)
    (hr : Seated c.nodes r n) (href : n'.reference = n.reference)
    (hst : n.state ≠ .stopped → n'.state ≠ .stopped) (hn : c'.nodes = c.nodes.set r.slot n')
    (hb : c'.boxes = c.boxes) (hl : c'.leases = c.leases) : c'.Leased := by
  refine h.keep hl (fun i => by rw [hb]) fun l _ k hk hks => ?_
  rw [hn]
  exact standing_set hr href hst hk hks

/-- One box changes, and is in flight if it was. -/
theorem Core.Leased.set_box (h : c.Leased) {i : ℕ} {b : Box} (b' : Box)
    (hi : c.boxes[i]? = some b) (hfl : b'.inFlight = b.inFlight) (hn : c'.nodes = c.nodes)
    (hb : c'.boxes = c.boxes.set i b') (hl : c'.leases = c.leases) : c'.Leased := by
  refine h.keep hl (hb ▸ sameFlights_set b' hi hfl) fun l _ k hk hks => ?_
  rw [hn]
  exact ⟨k, hk, hks⟩

/-- The slot of a new actor has no lease. -/
theorem Core.Leased.allocate (h : c.Leased) (ho : c.Owned world) (hc : c.Columns) {r : ActorRef}
    {parent : Option ActorRef} (hf : FreshSlot c.nodes c.free r)
    (hn : c'.nodes = allocNodes c.nodes r parent)
    (hb : c'.boxes = put c.boxes r.slot ⟨[], [], false⟩) (hl : c'.leases = c.leases) :
    c'.Leased := by
  have hle := hf.le ho
  have hslot : ∀ l ∈ c.leases, l.target.slot ≠ r.slot := by
    intro l hl he
    obtain ⟨n, hn, hns, -⟩ := h.target l hl
    exact hns (hf.old_stopped ho (he ▸ hn.1)).1
  have hbox : ∀ i : ℕ, (put c.boxes r.slot (⟨[], [], false⟩ : Box))[i]? =
      if i = r.slot then some ⟨[], [], false⟩ else c.boxes[i]? := put_get (hc.boxes ▸ hle) _
  have hidle : ∀ b, c.boxes[r.slot]? = some b → b.inFlight = false := by
    intro b hb
    by_contra ht
    obtain ⟨l, hl, hls⟩ := h.flown _ b hb (by simpa using ht)
    exact hslot l hl hls
  refine ⟨fun l hl' => ?_, hl ▸ h.nodup, fun i b hb' ht => ?_, ?_⟩
  · rw [hl] at hl'
    obtain ⟨n, hn', hns, b, hb', ht⟩ := h.target l hl'
    have hframe := adopt_frame r parent n
    rw [hn, hb, hbox, if_neg (hslot l hl')]
    exact ⟨_, (seated_alloc hle).mpr (.inr ⟨hslot l hl', n, hn', rfl⟩), hframe.2.1 ▸ hns, b, hb', ht⟩
  · rw [hb, hbox] at hb'
    rw [hl]
    split_ifs at hb'
    · cases hb'
      simp at ht
    · exact h.flown i b hb' ht
  · rw [hb, hl, countP_put (fun b : Box => b.inFlight) _ rfl hidle (hc.boxes ▸ hle), h.count]

/-- A lease begins at an actor that had none. -/
theorem Core.Leased.start (h : c.Leased) {l : DeliveryLease} {b : Box} (b' : Box)
    (hr : Running c.nodes l.target) (hi : c.boxes[l.target.slot]? = some b)
    (hfl : b.inFlight = false) (hfl' : b'.inFlight = true) (hn : c'.nodes = c.nodes)
    (hb : c'.boxes = c.boxes.set l.target.slot b') (hl : c'.leases = l :: c.leases) :
    c'.Leased := by
  have hlt := (List.getElem?_eq_some_iff.mp hi).1
  obtain ⟨n, hseat, hst⟩ := hr
  have hfree : ∀ l' ∈ c.leases, l'.target.slot ≠ l.target.slot := by
    intro l' hl' he
    obtain ⟨-, -, -, y, hy, ht⟩ := h.target l' hl'
    rw [he, hi] at hy
    cases hy
    simp [hfl] at ht
  refine ⟨fun l' hl' => ?_, ?_, fun i y hy ht => ?_, ?_⟩
  · rw [hl] at hl'
    rw [hn, hb]
    rcases List.mem_cons.mp hl' with rfl | hl'
    · refine ⟨n, hseat, by rcases hst with hst | hst <;> simp [hst], b', ?_, hfl'⟩
      simp [hlt]
    · obtain ⟨k, hk, hks, y, hy, ht⟩ := h.target l' hl'
      exact ⟨k, hk, hks, y, by rw [List.getElem?_set_ne (hfree l' hl').symm, hy], ht⟩
  · rw [hl]
    refine List.nodup_cons.mpr ⟨fun hmem => ?_, h.nodup⟩
    obtain ⟨l', hl', he⟩ := List.mem_map.mp hmem
    exact hfree l' hl' he
  · rw [hb, List.getElem?_set] at hy
    rw [hl]
    split_ifs at hy with hi'
    · exact ⟨l, List.mem_cons_self, hi'⟩
    · obtain ⟨l', hl', he⟩ := h.flown i y hy ht
      exact ⟨l', List.mem_cons_of_mem _ hl', he⟩
  · have := countP_flight_set hi b'
    simp only [hfl, hfl', Bool.false_eq_true, if_false, if_true] at this
    rw [hb, hl, List.length_cons, ← h.count]
    omega

theorem Core.Leased.step (h : c.Leased) (ho : c.Owned world) (hc : c.Columns)
    (hs : Step world c m c') : c'.Leased := by
  have hsame : SameFlights c.boxes c.boxes := fun _ => rfl
  cases hs
  case lose r lost b n kept late _ hb _ _ _ =>
    exact h.set_box { b with staged := kept } hb rfl rfl rfl rfl
  case cancel r mail reason b n before after _ hb _ _ =>
    exact h.set_box { b with queue := before ++ after } hb rfl rfl rfl rfl
  case stop r n b hn _ _ _ _ _ _ _ _ _ _ _ =>
    exact h.set_node { n with state := .stopping } hn rfl (by simp) rfl rfl rfl
  case finalize r n b hd hn hst hb hfl _ _ _ =>
    refine h.keep rfl hsame fun l hl k hk hks => ?_
    have hne : l.target ≠ r := by
      rintro rfl
      obtain ⟨-, -, -, y, hy, ht⟩ := h.target l hl
      rw [hb] at hy
      cases hy
      simp [hfl] at ht
    have hf := atParent_frame n.parent (.disown r) (fun _ => ⟨rfl, rfl, rfl⟩) k
    exact ⟨_, (seated_retire hn).mpr (.inr ⟨hne, k, hk, rfl⟩), hf.2.1 ▸ hks⟩
  case allocate r parent done hf hw hp => exact h.allocate ho hc hf rfl rfl rfl
  case activate r n hn _ _ =>
    exact h.set_node { n with state := .active } hn rfl (by simp) rfl rfl rfl
  case lease r n _ _ hn _ _ _ _ _ _ =>
    exact h.set_node { n with state := .active } hn rfl (by simp) rfl rfl rfl
  case setDeadline r n t hn _ =>
    exact h.set_node { n with drainDeadline := some t } hn rfl id rfl rfl rfl
  case quiesce root n deadline nodes' roots _ _ hq _ _ _ _ =>
    refine h.keep rfl hsame fun l _ k hk hks => ?_
    obtain ⟨k', hk', -, -, hst⟩ := hq.restated.seated hk
    exact ⟨k', hk', mt hst.mp hks⟩
  case enqueue r mail b _ hb _ =>
    exact h.set_box { b with queue := b.queue ++ [mail] } hb rfl rfl rfl rfl
  case start r mail b rest l hr hb _ hfl _ hl hm =>
    subst hl
    exact h.start { b with queue := rest, inFlight := true } hr hb hfl rfl rfl rfl rfl
  case finish l success b hl hb => exact h.release hl hb rfl rfl rfl
  case abandon l b hl hb => exact h.release hl hb rfl rfl rfl
  case accept p n b s _ _ _ _ _ _ _ _ _ hb _ =>
    by_cases hp : p.staged
    · exact h.set_box { b with staged := b.staged ++ [s] } hb rfl rfl (if_pos hp) rfl
    · refine h.keep rfl ?_ fun _ _ k hk hks => ⟨k, hk, hks⟩
      dsimp only
      rw [if_neg hp]
      exact hsame
  case flush r id n b s rest _ hb _ _ =>
    exact h.set_box { b with staged := rest } hb rfl rfl rfl rfl
  case deliver id route target mail p routes b sub _ _ _ _ _ _ hb _ _ =>
    exact h.set_box { b with queue := b.queue ++ [mail] } hb rfl rfl rfl rfl
  all_goals exact h.keep rfl hsame fun _ _ k hk hks => ⟨k, hk, hks⟩

end Actorplane
