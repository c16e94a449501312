import Actorplane.Core.Mail

/-!
# The delivery ledger

The counters agree with the delivery history, and every event identity is queued,
leased or ended as often as it was admitted.
-/

namespace Actorplane

variable {world : ℕ} {c c' : Core} {m : Move}

/-- Staged outputs lost to a stop or to expiry. -/
def Core.stagedLosses (c : Core) : ℕ := c.mail.countP Event.isStagedLoss

/-- The counters are those of the history. -/
structure Core.Tallied (c : Core) : Prop where
  admitted : c.ledger.admitted = c.mail.countP Event.isAdmission
  started : c.ledger.started = c.mail.countP Event.isClaim
  completed : c.ledger.completed = c.mail.countP (Event.isFinish true)
  failed : c.ledger.failed = c.mail.countP (Event.isFinish false)
  cancelled : c.ledger.cancelled = c.mail.countP Event.isCancellation + c.stagedLosses
  discarded : c.ledger.discarded ≤ c.ledger.cancelled
  expired : c.ledger.expired ≤ c.ledger.discarded
  total : c.ledger.admitted + c.stagedLosses = mailTotal c.boxes + c.leases.length +
    c.ledger.completed + c.ledger.failed + c.ledger.cancelled
  claims : c.ledger.started = c.leases.length + c.ledger.completed + c.ledger.failed +
    c.mail.countP Event.isAbandonment

/-- Where each event identity is. -/
structure Core.Conserved (c : Core) : Prop where
  once : ∀ e, c.mail.countP (Event.admits e) ≤ 1
  place : ∀ e, c.mail.countP (Event.admits e) = queuedCount c.boxes e + leasedCount c.leases e +
    c.mail.countP (Event.finishes e) + c.mail.countP (Event.cancels e)
  claimed : ∀ e, c.mail.countP (Event.claims e) = leasedCount c.leases e +
    c.mail.countP (Event.finishes e) + c.mail.countP (Event.abandons e)
  fresh : ∀ e, c.nextEvent ≤ e → c.mail.countP (Event.admits e) = 0

theorem Event.abandons_le (log : List Event) (e : ℕ) :
    log.countP (Event.abandons e) ≤ log.countP (Event.cancels e) := by
  refine List.countP_mono_left fun x _ hx => ?_
  cases x <;> simp_all [Event.abandons, Event.cancels]

/-- Claimed at most once, since it was admitted at most once. -/
theorem Core.Conserved.claims_le (h : c.Conserved) (e : ℕ) :
    c.mail.countP (Event.claims e) ≤ 1 := by
  have h1 := h.once e
  have h2 := h.place e
  have h3 := h.claimed e
  have h4 := Event.abandons_le c.mail e
  omega

theorem leasedCount_erase {leases : List DeliveryLease} {l : DeliveryLease} (hl : l ∈ leases)
    (e : ℕ) : leasedCount (leases.erase l) e + (if l.delivery.eventId = e then 1 else 0) =
      leasedCount leases e := by
  have hp := (List.perm_cons_erase hl).map (·.delivery.eventId)
  rw [leasedCount, leasedCount, hp.count_eq, List.map_cons, List.count_cons]
  simp

/-- The counters and the census do not see the move. -/
theorem Core.Tallied.keep (h : c.Tallied) (hmail : c'.mail = c.mail)
    (hled : c'.ledger.admitted = c.ledger.admitted ∧ c'.ledger.started = c.ledger.started ∧
      c'.ledger.completed = c.ledger.completed ∧ c'.ledger.failed = c.ledger.failed ∧
      c'.ledger.cancelled = c.ledger.cancelled ∧ c'.ledger.discarded = c.ledger.discarded ∧
      c'.ledger.expired = c.ledger.expired)
    (hleases : c'.leases = c.leases) (htotal : mailTotal c'.boxes = mailTotal c.boxes) :
    c'.Tallied := by
  obtain ⟨l1, l2, l3, l4, l5, l6, l7⟩ := hled
  constructor
  · rw [l1, hmail, h.admitted]
  · rw [l2, hmail, h.started]
  · rw [l3, hmail, h.completed]
  · rw [l4, hmail, h.failed]
  · rw [l5, h.cancelled, stagedLosses, stagedLosses, hmail]
  · rw [l6, l5]
    exact h.discarded
  · rw [l7, l6]
    exact h.expired
  · rw [l1, l3, l4, l5, htotal, hleases, stagedLosses, hmail]
    exact h.total
  · rw [l2, l3, l4, hleases, hmail]
    exact h.claims

theorem Core.Conserved.keep (h : c.Conserved) (hmail : c'.mail = c.mail)
    (hleases : c'.leases = c.leases)
    (hcount : ∀ e, queuedCount c'.boxes e = queuedCount c.boxes e)
    (hnext : c.nextEvent ≤ c'.nextEvent) : c'.Conserved := by
  constructor
  · rw [hmail]
    exact h.once
  · intro e
    rw [hmail, hleases, hcount]
    exact h.place e
  · intro e
    rw [hmail, hleases]
    exact h.claimed e
  · intro e he
    rw [hmail]
    exact h.fresh e (hnext.trans he)

theorem mailTotal_congr {boxes : List Box} {i : ℕ} {b : Box} (b' : Box) (hb : boxes[i]? = some b)
    (hq : b'.queue = b.queue) : mailTotal (boxes.set i b') = mailTotal boxes := by
  have := mailTotal_set hb b'
  rw [hq] at this
  omega

theorem queuedCount_congr {boxes : List Box} {i : ℕ} {b : Box} (b' : Box) (hb : boxes[i]? = some b)
    (hq : b'.queue = b.queue) (e : ℕ) :
    queuedCount (boxes.set i b') e = queuedCount boxes e := by
  have := queuedCount_set hb b' e
  simp only [Box.count, hq] at this
  omega

/-- A stopped actor's slot holds no mail when it is taken over. -/
theorem Core.Quiet.old_empty (hq : c.Quiet) (ho : c.Owned world) {r : ActorRef}
    (hf : FreshSlot c.nodes c.free r) (hc : c.Columns) {b : Box} (hb : c.boxes[r.slot]? = some b) :
    b.queue = [] := by
  have hlt : r.slot < c.nodes.length := hc.boxes ▸ (List.getElem?_eq_some_iff.mp hb).1
  have hn := List.getElem?_eq_getElem hlt
  exact (hq _ _ b hn hb (.inr (hf.old_stopped ho hn).1)).1

theorem Core.Tallied.step (h : c.Tallied) (ho : c.Owned world) (hc : c.Columns) (hq : c.Quiet)
    (hs : Step world c m c') : c'.Tallied := by
  obtain ⟨h1, h2, h3, h4, h5, h6, h7, h8, h9⟩ := h
  have h : c.Tallied := ⟨h1, h2, h3, h4, h5, h6, h7, h8, h9⟩
  cases hs
  case conclude id outcome p _ _ => cases outcome <;> exact h.keep rfl ⟨rfl, rfl, rfl, rfl, rfl, rfl, rfl⟩ rfl rfl
  case endOperation id outcome _ _ =>
    cases outcome <;> exact h.keep rfl ⟨rfl, rfl, rfl, rfl, rfl, rfl, rfl⟩ rfl rfl
  case lose r lost b n kept late _ hb _ _ _ =>
    have hloss : (lost.map Event.stagedLost).countP Event.isStagedLoss = lost.length := by
      rw [List.countP_map, List.countP_eq_length.mpr (by simp [Event.isStagedLoss])]
    have hzero : ∀ p : Event → Bool, (∀ x, p (.stagedLost x) = false) →
        (lost.map Event.stagedLost).countP p = 0 := by
      intro p hp
      rw [List.countP_map, List.countP_eq_zero]
      simp [hp]
    have ht := mailTotal_congr { b with staged := kept } hb rfl
    constructor <;> simp only [Ledger.lose, Core.stagedLosses, List.countP_append, hloss, ht] at * <;>
      (try rw [hzero _ fun _ => rfl]) <;> (try split_ifs) <;> omega
  case cancel r mail reason b n before after _ hb hsplit hre =>
    have ht := mailTotal_set hb { b with queue := before ++ after }
    simp only [hsplit, List.length_append, List.length_cons] at ht
    have hab : Event.isAbandonment (.cancelled mail.eventId r reason) = false := by
      simp [Event.isAbandonment, hre]
    constructor <;> simp only [Ledger.cancel, Core.stagedLosses, List.countP_append,
      List.countP_singleton, hab, Event.isAdmission, Event.isClaim, Event.isFinish,
      Event.isCancellation, Event.isStagedLoss] at * <;> (try cases reason) <;> (try simp at *) <;> omega
  case allocate r parent done hf hw hp =>
    refine h.keep rfl ⟨rfl, rfl, rfl, rfl, rfl, rfl, rfl⟩ rfl ?_
    exact sum_map_put (fun b : Box => b.queue.length) _ rfl
      (fun b hb => by simp [hq.old_empty ho hf hc hb]) (hc.boxes ▸ hf.le ho)
  case enqueue r mail b _ hb _ =>
    have ht := mailTotal_set hb { b with queue := b.queue ++ [mail] }
    simp only [List.length_append, List.length_singleton] at ht
    constructor <;> simp only [Core.enqueue, Core.stagedLosses, List.countP_append,
      List.countP_singleton, Event.isAdmission, Event.isClaim, Event.isFinish, Event.isAbandonment,
      Event.isCancellation, Event.isStagedLoss] at * <;> (try simp at *) <;> omega
  case start r mail b rest l _ hb hqueue _ _ hl hm =>
    have ht := mailTotal_set hb { b with queue := rest, inFlight := true }
    simp only [hqueue, List.length_cons] at ht
    constructor <;> simp only [Core.stagedLosses, List.countP_append, List.length_cons,
      List.countP_singleton, Event.isAdmission, Event.isClaim, Event.isFinish, Event.isAbandonment,
      Event.isCancellation, Event.isStagedLoss] at * <;> (try simp at *) <;> omega
  case finish l success b hl hb =>
    have ht := mailTotal_congr { b with inFlight := false } hb rfl
    have hlen := List.length_erase_of_mem hl
    have hpos := List.length_pos_of_mem hl
    constructor <;> simp only [Core.release, Core.stagedLosses, List.countP_append, ht, hlen,
      List.countP_singleton, Event.isAdmission, Event.isClaim, Event.isFinish, Event.isAbandonment,
      Event.isCancellation, Event.isStagedLoss] at * <;> cases success <;> (try simp at *) <;> omega
  case abandon l b hl hb =>
    have ht := mailTotal_congr { b with inFlight := false } hb rfl
    have hlen := List.length_erase_of_mem hl
    have hpos := List.length_pos_of_mem hl
    constructor <;> simp only [Core.release, Core.stagedLosses, List.countP_append, ht, hlen,
      List.countP_singleton, Ledger.cancel, Event.isAdmission, Event.isClaim, Event.isFinish,
      Event.isAbandonment, Event.isCancellation, Event.isStagedLoss] at * <;> (try simp at *) <;> omega
  case accept p n b s _ _ _ _ _ _ _ _ _ hb _ =>
    refine h.keep rfl ⟨rfl, rfl, rfl, rfl, rfl, rfl, rfl⟩ rfl ?_
    dsimp only
    split_ifs
    · exact mailTotal_congr { b with staged := b.staged ++ [s] } hb rfl
    · rfl
  case flush r id n b s rest _ hb _ _ =>
    exact h.keep rfl ⟨rfl, rfl, rfl, rfl, rfl, rfl, rfl⟩ rfl
      (mailTotal_congr { b with staged := rest } hb rfl)
  case deliver id route target mail p routes b sub _ _ _ _ _ _ hb _ _ =>
    have ht := mailTotal_set hb { b with queue := b.queue ++ [mail] }
    simp only [List.length_append, List.length_singleton] at ht
    constructor <;> simp only [Core.enqueue, Core.stagedLosses, List.countP_append,
      List.countP_singleton, Event.isAdmission, Event.isClaim, Event.isFinish, Event.isAbandonment,
      Event.isCancellation, Event.isStagedLoss] at * <;> (try simp at *) <;> omega
  all_goals exact h.keep rfl ⟨rfl, rfl, rfl, rfl, rfl, rfl, rfl⟩ rfl rfl

/-- The census of a history with one more event. -/
theorem Core.Conserved.record (h : c.Conserved) (x : Event) (hmail : c'.mail = c.mail ++ [x])
    (hnext : c.nextEvent ≤ c'.nextEvent)
    (hfresh : ∀ e, x.admits e = true → e = c.nextEvent ∧ c.nextEvent < c'.nextEvent)
    (hplace : ∀ e, queuedCount c'.boxes e + leasedCount c'.leases e +
      (if x.finishes e then 1 else 0) + (if x.cancels e then 1 else 0) =
        queuedCount c.boxes e + leasedCount c.leases e + if x.admits e then 1 else 0)
    (hclaimed : ∀ e, leasedCount c'.leases e + (if x.finishes e then 1 else 0) +
      (if x.abandons e then 1 else 0) =
        leasedCount c.leases e + if x.claims e then 1 else 0) : c'.Conserved := by
  constructor
  · intro e
    rw [hmail, List.countP_append, List.countP_singleton]
    split_ifs with hx
    · have := h.fresh e (hfresh e hx).1.ge
      omega
    · exact h.once e
  · intro e
    have h1 := h.place e
    have h2 := hplace e
    simp only [hmail, List.countP_append, List.countP_singleton]
    omega
  · intro e
    have h1 := h.claimed e
    have h2 := hclaimed e
    simp only [hmail, List.countP_append, List.countP_singleton]
    omega
  · intro e he
    rw [hmail, List.countP_append, h.fresh e (hnext.trans he), List.countP_singleton]
    split_ifs with hx
    · have := hfresh e hx
      omega
    · rfl

theorem Core.Conserved.admitting (h : c.Conserved) {r : ActorRef} {mail : Mail} {b : Box}
    (hb : c.boxes[r.slot]? = some b) (hm : mail.eventId = c.nextEvent) :
    (c.enqueue r b mail).Conserved := by
  refine h.record (.admitted mail.eventId r) rfl (by simp [Core.enqueue, hm]) (fun e he => ?_)
    (fun e => ?_) fun e => by simp [Core.enqueue, Event.finishes, Event.abandons, Event.claims]
  · have he : mail.eventId = e := by simpa [Event.admits] using he
    exact ⟨he.symm.trans hm, by simp [Core.enqueue, hm]⟩
  · have := queuedCount_set hb { b with queue := b.queue ++ [mail] } e
    simp only [Box.count, List.map_append, List.count_append, List.map_cons, List.map_nil,
      List.count_singleton, beq_iff_eq] at this
    simp only [Core.enqueue, Event.finishes, Event.cancels, Event.admits, Bool.false_eq_true,
      if_false, decide_eq_true_eq]
    omega

theorem Core.Conserved.step (h : c.Conserved) (ho : c.Owned world) (hc : c.Columns) (hq : c.Quiet)
    (hs : Step world c m c') : c'.Conserved := by
  cases hs
  case lose r lost b n kept late _ hb _ _ _ =>
    have hzero : ∀ p : Event → Bool, (∀ x, p (.stagedLost x) = false) →
        (c.mail ++ lost.map Event.stagedLost).countP p = c.mail.countP p := by
      intro p hp
      rw [List.countP_append, List.countP_map, Nat.add_eq_left, List.countP_eq_zero]
      simp [hp]
    have hcount := queuedCount_congr { b with staged := kept } hb rfl
    constructor
    · intro e
      rw [hzero (Event.admits e) fun _ => rfl]
      exact h.once e
    · intro e
      rw [hzero (Event.admits e) fun _ => rfl, hzero (Event.finishes e) fun _ => rfl,
        hzero (Event.cancels e) fun _ => rfl, hcount]
      exact h.place e
    · intro e
      rw [hzero (Event.claims e) fun _ => rfl, hzero (Event.finishes e) fun _ => rfl,
        hzero (Event.abandons e) fun _ => rfl]
      exact h.claimed e
    · intro e he
      rw [hzero (Event.admits e) fun _ => rfl]
      exact h.fresh e he
  case cancel r mail reason b n before after _ hb hsplit hre =>
    refine h.record (.cancelled mail.eventId r reason) rfl le_rfl (by simp [Event.admits])
      (fun e => ?_) fun e => by simp [Event.finishes, Event.abandons, Event.claims, hre]
    have := queuedCount_set hb { b with queue := before ++ after } e
    simp only [Box.count, hsplit, List.map_append, List.count_append, List.map_cons,
      List.count_cons, beq_iff_eq] at this
    simp only [Event.finishes, Event.cancels, Event.admits, Bool.false_eq_true, if_false,
      decide_eq_true_eq]
    omega
  case allocate r parent done hf hw hp =>
    refine h.keep rfl rfl (fun e => ?_) le_rfl
    exact sum_map_put (Box.count e) _ rfl
      (fun b hb => by simp [Box.count, hq.old_empty ho hf hc hb]) (hc.boxes ▸ hf.le ho)
  case burn => exact h.keep rfl rfl (fun _ => rfl) (Nat.le_succ _)
  case enqueue r mail b _ hb hm => exact h.admitting hb hm
  case start r mail b rest l _ hb hqueue _ _ hl hm =>
    have hid : l.delivery.eventId = mail.eventId := hm ▸ rfl
    refine h.record (.claimed mail.eventId r) rfl le_rfl (by simp [Event.admits]) (fun e => ?_)
      fun e => by
        simp [leasedCount, List.count_cons, hid, Event.finishes, Event.abandons, Event.claims]
    have := queuedCount_set hb { b with queue := rest, inFlight := true } e
    simp only [Box.count, hqueue, List.map_cons, List.count_cons, beq_iff_eq] at this
    simp only [leasedCount, List.map_cons, List.count_cons, hid, beq_iff_eq, Event.finishes,
      Event.cancels, Event.admits, Bool.false_eq_true, if_false]
    omega
  case finish l success b hl hb =>
    have hcount := queuedCount_congr { b with inFlight := false } hb rfl
    refine h.record (.finished l.delivery.eventId success) rfl le_rfl (by simp [Event.admits])
      (fun e => ?_) fun e => ?_
    all_goals
      have := leasedCount_erase hl e
      simp only [Core.release, hcount, Event.finishes, Event.cancels, Event.admits, Event.abandons,
        Event.claims, Bool.false_eq_true, if_false, decide_eq_true_eq]
      omega
  case abandon l b hl hb =>
    have hcount := queuedCount_congr { b with inFlight := false } hb rfl
    refine h.record (.cancelled l.delivery.eventId l.target .abandoned) rfl le_rfl
      (by simp [Event.admits]) (fun e => ?_) fun e => ?_
    all_goals
      have := leasedCount_erase hl e
      simp only [Core.release, hcount, Event.finishes, Event.cancels, Event.admits, Event.abandons,
        Event.claims, Bool.false_eq_true, if_false, decide_eq_true_eq, decide_true, Bool.and_true]
      omega
  case accept p n b s _ _ _ _ _ _ _ _ _ hb _ =>
    refine h.keep rfl rfl (fun e => ?_) le_rfl
    dsimp only
    split_ifs
    · exact queuedCount_congr { b with staged := b.staged ++ [s] } hb rfl e
    · rfl
  case flush r id n b s rest _ hb _ _ =>
    exact h.keep rfl rfl (queuedCount_congr { b with staged := rest } hb rfl) le_rfl
  case deliver id route target mail p routes b sub _ _ _ _ _ _ hb hm _ =>
    have := h.admitting hb hm
    exact this.keep rfl rfl (fun _ => rfl) le_rfl
  all_goals exact h.keep rfl rfl (fun _ => rfl) le_rfl

/-! ## Mailboxes are queues -/

/-- A mailbox is in the order of admission, and claims follow it. -/
structure Core.Queued (c : Core) : Prop where
  order : ∀ (i : ℕ) (b : Box), c.boxes[i]? = some b → (b.queue.map Mail.eventId).Pairwise (· < ·)
  known : ∀ (i : ℕ) (b : Box) (x : Mail), c.boxes[i]? = some b → x ∈ b.queue →
    x.eventId < c.nextEvent
  claims : ∀ r, (claimedBy c.mail r).Pairwise (· < ·)
  claims_lt : ∀ r, ∀ e ∈ claimedBy c.mail r, e < c.nextEvent
  behind : ∀ (r : ActorRef) (n : Node) (b : Box), Seated c.nodes r n →
    c.boxes[r.slot]? = some b → ∀ e ∈ claimedBy c.mail r, ∀ x ∈ b.queue, e < x.eventId

/-- Moves that claim nothing and at most shrink mailboxes. -/
theorem Core.Queued.keep (h : c.Queued)
    (hclaims : ∀ r, claimedBy c'.mail r = claimedBy c.mail r) (hnext : c.nextEvent ≤ c'.nextEvent)
    (hbox : ∀ (i : ℕ) (b' : Box), c'.boxes[i]? = some b' → b'.queue = [] ∨
      ∃ b, c.boxes[i]? = some b ∧ b'.queue.Sublist b.queue ∧
        ∀ (r : ActorRef) (n' : Node), r.slot = i → Seated c'.nodes r n' → ∃ n, Seated c.nodes r n) :
    c'.Queued := by
  refine ⟨fun i b' hb' => ?_, fun i b' x hb' hx => ?_, fun r => hclaims r ▸ h.claims r,
    fun r e he => (h.claims_lt r e (hclaims r ▸ he)).trans_le hnext, fun r n' b' hn' hb' e he x hx => ?_⟩
  · rcases hbox i b' hb' with he | ⟨b, hb, hsub, -⟩
    · simp [he]
    · exact (h.order i b hb).sublist (hsub.map _)
  · rcases hbox i b' hb' with he | ⟨b, hb, hsub, -⟩
    · simp [he] at hx
    · exact (h.known i b x hb (hsub.subset hx)).trans_le hnext
  · rcases hbox r.slot b' hb' with hnil | ⟨b, hb, hsub, hseat⟩
    · simp [hnil] at hx
    · obtain ⟨n, hn⟩ := hseat r n' rfl hn'
      exact h.behind r n b hn hb e (hclaims r ▸ he) x (hsub.subset hx)

theorem Core.Queued.admitting (h : c.Queued) {r : ActorRef} {mail : Mail} {b : Box}
    (hb : c.boxes[r.slot]? = some b) (hm : mail.eventId = c.nextEvent) :
    (c.enqueue r b mail).Queued := by
  have hclaims : ∀ q, claimedBy (c.enqueue r b mail).mail q = claimedBy c.mail q := by
    intro q
    simp [Core.enqueue, claimedBy]
  have hnext : (c.enqueue r b mail).nextEvent = c.nextEvent + 1 := by simp [Core.enqueue, hm]
  have hbox : ∀ (i : ℕ) (y : Box), (c.enqueue r b mail).boxes[i]? = some y →
      c.boxes[i]? = some y ∨ i = r.slot ∧ y.queue = b.queue ++ [mail] := by
    intro i y hy
    simp only [Core.enqueue, List.getElem?_set] at hy
    split_ifs at hy with hi
    · cases hy
      exact .inr ⟨hi.symm, rfl⟩
    · exact .inl hy
  refine ⟨fun i y hy => ?_, fun i y x hy hx => ?_, fun q => hclaims q ▸ h.claims q,
    fun q e he => ?_, fun q k y hk hy e he x hx => ?_⟩
  · rcases hbox i y hy with hy | ⟨rfl, hyq⟩
    · exact h.order i y hy
    · rw [hyq, List.map_append, List.pairwise_append]
      refine ⟨h.order _ b hb, List.pairwise_singleton _ _, fun a ha z hz => ?_⟩
      obtain ⟨x, hx, rfl⟩ := List.mem_map.mp ha
      simp only [List.map_cons, List.map_nil, List.mem_singleton] at hz
      rw [hz, hm]
      exact h.known _ b x hb hx
  · rw [hnext]
    rcases hbox i y hy with hy | ⟨rfl, hyq⟩
    · exact (h.known i y x hy hx).trans (Nat.lt_succ_self _)
    · rw [hyq] at hx
      rcases List.mem_append.mp hx with hx | hx
      · exact (h.known _ b x hb hx).trans (Nat.lt_succ_self _)
      · rw [List.mem_singleton.mp hx, hm]
        exact Nat.lt_succ_self _
  · rw [hclaims] at he
    rw [hnext]
    exact (h.claims_lt q e he).trans (Nat.lt_succ_self _)
  · rw [hclaims] at he
    rcases hbox _ y hy with hy | ⟨hslot, hy⟩
    · exact h.behind q k y hk hy e he x hx
    · rw [hy] at hx
      rcases List.mem_append.mp hx with hx | hx
      · exact h.behind q k b hk (hslot ▸ hb) e he x hx
      · rw [List.mem_singleton.mp hx, hm]
        exact h.claims_lt q e he

/-- Moves that claim nothing and leave the mailboxes. -/
theorem Core.Queued.same_boxes (h : c.Queued) (hs : Step world c m c') (hm : ∀ r, m ≠ .allocate r)
    (hclaims : ∀ r, claimedBy c'.mail r = claimedBy c.mail r) (hnext : c.nextEvent ≤ c'.nextEvent)
    (hb : c'.boxes = c.boxes) : c'.Queued :=
  h.keep hclaims hnext fun _ b' hb' =>
    .inr ⟨b', hb ▸ hb', .refl _, fun r n' _ hn' => (hs.seated_iff hm r).mp ⟨n', hn'⟩⟩

/-- Moves that claim nothing and at most shrink one mailbox. -/
theorem Core.Queued.set_box (h : c.Queued) (hs : Step world c m c') (hm : ∀ r, m ≠ .allocate r)
    {i : ℕ} {b : Box} (b₁ : Box) (hi : c.boxes[i]? = some b) (hsub : b₁.queue.Sublist b.queue)
    (hclaims : ∀ r, claimedBy c'.mail r = claimedBy c.mail r) (hnext : c.nextEvent ≤ c'.nextEvent)
    (hb : c'.boxes = c.boxes.set i b₁) : c'.Queued := by
  refine h.keep hclaims hnext fun j b' hb' => ?_
  have hseat : ∀ (r : ActorRef) (n' : Node), r.slot = j → Seated c'.nodes r n' →
      ∃ n, Seated c.nodes r n := fun r n' _ hn' => (hs.seated_iff hm r).mp ⟨n', hn'⟩
  rw [hb, List.getElem?_set] at hb'
  split_ifs at hb' with hij
  · cases hb'
    exact .inr ⟨b, hij ▸ hi, hsub, hseat⟩
  · exact .inr ⟨b', hb', .refl _, hseat⟩

/-- The oldest event of a mailbox is claimed, after all that were claimed before. -/
theorem Core.Queued.start (h : c.Queued) {r : ActorRef} {n : Node} {mail : Mail} {b : Box}
    (b' : Box) (hr : Seated c.nodes r n) (hi : c.boxes[r.slot]? = some b)
    (hqueue : b.queue = mail :: b'.queue) (hn : c'.nodes = c.nodes)
    (hb : c'.boxes = c.boxes.set r.slot b') (hm : c'.mail = c.mail ++ [.claimed mail.eventId r])
    (hnext : c'.nextEvent = c.nextEvent) : c'.Queued := by
  have hclaims : ∀ q, claimedBy c'.mail q =
      claimedBy c.mail q ++ if r = q then [mail.eventId] else [] := by
    intro q
    rw [hm]
    by_cases hq : r = q <;> simp [claimedBy, hq]
  have hbox : ∀ (j : ℕ) (y : Box), c'.boxes[j]? = some y →
      ∃ b₀, c.boxes[j]? = some b₀ ∧ y.queue.Sublist b₀.queue := by
    intro j y hy
    rw [hb, List.getElem?_set] at hy
    split_ifs at hy with hj
    · cases hy
      exact ⟨b, hj ▸ hi, hqueue ▸ List.sublist_cons_self _ _⟩
    · exact ⟨y, hy, .refl _⟩
  have horder := h.order _ b hi
  rw [hqueue, List.map_cons, List.pairwise_cons] at horder
  refine ⟨fun i y hy => ?_, fun i y x hy hx => ?_, fun q => ?_, fun q e he => ?_,
    fun q k y hk hy e he x hx => ?_⟩
  · obtain ⟨b₀, hb₀, hsub⟩ := hbox i y hy
    exact (h.order i b₀ hb₀).sublist (hsub.map _)
  · obtain ⟨b₀, hb₀, hsub⟩ := hbox i y hy
    exact hnext ▸ h.known i b₀ x hb₀ (hsub.subset hx)
  · rw [hclaims]
    split_ifs with hq
    · subst hq
      refine List.pairwise_append.mpr ⟨h.claims r, List.pairwise_singleton _ _, fun a ha z hz => ?_⟩
      rw [List.mem_singleton.mp hz]
      exact h.behind r n b hr hi a ha mail (by simp [hqueue])
    · simpa using h.claims q
  · rw [hnext]
    rw [hclaims] at he
    rcases List.mem_append.mp he with he | hlast
    · exact h.claims_lt q e he
    · split_ifs at hlast
      · rw [List.mem_singleton.mp hlast]
        exact h.known _ b mail hi (by simp [hqueue])
      · simp at hlast
  · rw [hclaims] at he
    rw [hn] at hk
    rcases List.mem_append.mp he with he | hlast
    · obtain ⟨b₀, hb₀, hsub⟩ := hbox _ y hy
      exact h.behind q k b₀ hk hb₀ e he x (hsub.subset hx)
    · split_ifs at hlast with hq
      · subst hq
        rw [List.mem_singleton.mp hlast]
        rw [hb, List.getElem?_set_self (List.getElem?_eq_some_iff.mp hi).1] at hy
        cases hy
        exact horder.1 _ (List.mem_map_of_mem hx)
      · simp at hlast

theorem Core.Queued.step (h : c.Queued) (ho : c.Owned world) (hc : c.Columns)
    (hs : Step world c m c') : c'.Queued := by
  have hs' := hs
  cases hs
  case lose r lost b n kept late _ hb _ _ _ =>
    exact h.set_box hs' (by simp) { b with staged := kept } hb (.refl _)
      (fun q => by simp [claimedBy, List.filterMap_map]) le_rfl rfl
  case cancel r mail reason b n before after _ hb hsplit _ =>
    refine h.set_box hs' (by simp) { b with queue := before ++ after } hb ?_
      (fun q => by simp [claimedBy]) le_rfl rfl
    rw [hsplit]
    exact List.Sublist.append_left (List.sublist_cons_self _ _) _
  case allocate r parent done hf hw hp =>
    have hle := hf.le ho
    refine h.keep (fun _ => rfl) le_rfl fun i y hy => ?_
    have hy' : (put c.boxes r.slot (⟨[], [], false⟩ : Box))[i]? = some y := hy
    rw [put_get (hc.boxes ▸ hle)] at hy'
    split_ifs at hy' with hi
    · cases hy'
      exact .inl rfl
    · refine .inr ⟨y, hy', .refl _, fun q k hq hk => ?_⟩
      rcases (seated_alloc hle).mp hk with ⟨rfl, -⟩ | ⟨-, k₀, hk₀, -⟩
      · exact absurd hq.symm hi
      · exact ⟨k₀, hk₀⟩
  case burn => exact h.same_boxes hs' (by simp) (fun _ => rfl) (Nat.le_succ _) rfl
  case enqueue r mail b _ hb hm => exact h.admitting hb hm
  case start r mail b rest l hr hb hqueue _ _ hl hm =>
    obtain ⟨n, hn, -⟩ := hr
    exact h.start { b with queue := rest, inFlight := true } hn hb hqueue rfl rfl rfl rfl
  case finish l success b _ hb =>
    exact h.set_box hs' (by simp) { b with inFlight := false } hb (.refl _)
      (fun q => by simp [claimedBy]) le_rfl rfl
  case abandon l b _ hb =>
    exact h.set_box hs' (by simp) { b with inFlight := false } hb (.refl _)
      (fun q => by simp [claimedBy]) le_rfl rfl
  case accept p n b s _ _ _ _ _ _ _ _ _ hb _ =>
    by_cases hst : p.staged
    · exact h.set_box hs' (by simp) { b with staged := b.staged ++ [s] } hb (.refl _)
        (fun _ => rfl) le_rfl (if_pos hst)
    · exact h.same_boxes hs' (by simp) (fun _ => rfl) le_rfl (if_neg hst)
  case flush r id n b s rest _ hb _ _ =>
    exact h.set_box hs' (by simp) { b with staged := rest } hb (.refl _) (fun _ => rfl) le_rfl rfl
  case deliver id route target mail p routes b sub _ _ _ _ _ _ hb hm _ =>
    have := h.admitting hb hm
    exact ⟨this.order, this.known, this.claims, this.claims_lt, this.behind⟩
  all_goals exact h.same_boxes hs' (by simp) (fun _ => rfl) le_rfl rfl

/-! ## Attempts that delivered -/

/-- The deliveries of attempts are admissions. -/
def Core.Delivers (c : Core) : Prop :=
  ∀ p source route target e, .attempted p source route target (some e) ∈ c.published →
    .admitted e target ∈ c.mail

theorem Core.Delivers.step (h : c.Delivers) (hs : Step world c m c') : c'.Delivers := by
  have hmono : ∀ (x : Event), x ∈ c.mail → x ∈ c'.mail := by
    intro x hx
    cases hs <;> simp [Core.enqueue, Core.setNode, Core.setHold, hx]
  intro p source route target e he
  have hold : Event.attempted p source route target (some e) ∈ c.published →
      Event.admitted e target ∈ c'.mail := fun he => hmono _ (h p source route target e he)
  cases hs
  case deliver id route' target' mail q routes b sub _ _ _ _ _ _ _ _ _ =>
    rcases List.mem_append.mp he with he | he
    · exact hold he
    · simp only [List.mem_singleton, Event.attempted.injEq, Option.some.injEq] at he
      obtain ⟨-, -, -, rfl, rfl⟩ := he
      simp [Core.enqueue]
  all_goals first
    | exact hold he
    | exact hold (by simpa using he)

end Actorplane
