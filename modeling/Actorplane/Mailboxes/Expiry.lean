import Actorplane.Mailboxes.Posting

/-!
# Expiry of mailboxes

Expiry takes the due entries of the index, and each of their actors loses exactly what is
due in its tray. After it nothing is due in any mailbox.
-/

namespace Actorplane

variable {st st' : State} {m : Mailroom} {r : ActorRef} {t t' : Tray} {a : Actor}
  {cfg : Config} {X : List ActorRef} {now : Instant}

/-! ## Due items -/

def Item.due (now : Instant) (i : Item) : Bool := World.isDue now i.deadline

def times (items : List Item) : List Instant := items.filterMap (·.deadline)

theorem times_cons (i : Item) (items : List Item) :
    times (i :: items) = i.deadline.toList ++ times items := by
  unfold times
  cases found : i.deadline with
  | none => simp [found]
  | some x => simp [found]

theorem times_append (items items' : List Item) :
    times (items ++ items') = times items ++ times items' := List.filterMap_append

theorem times_split (items : List Item) (p : Item → Bool) :
    (times items).Perm (times (items.filter p) ++ times (items.filter fun i => !p i)) := by
  rw [← times_append]
  exact ((List.filter_append_perm p items).symm).filterMap _

theorem bytes_split (items : List Item) (p : Item → Bool) :
    (items.map (·.bytes)).sum = ((items.filter p).map (·.bytes)).sum +
      ((items.filter fun i => !p i).map (·.bytes)).sum := by
  have split := ((List.filter_append_perm p items).symm.map Item.bytes).sum_eq
  rw [List.map_append, List.sum_append] at split
  exact split

theorem mem_times {items : List Item} {x : Instant} :
    x ∈ times items ↔ ∃ i ∈ items, i.deadline = some x := List.mem_filterMap

theorem Item.due_iff {i : Item} : i.due now = true ↔ ∃ x, i.deadline = some x ∧ x ≤ now := by
  unfold Item.due World.isDue
  cases i.deadline with
  | none => simp
  | some x => simp

/-- The deadlines of a tray are those of its queue and of its staging list. -/
theorem Tray.times_eq (t : Tray) :
    t.times = Actorplane.times t.queue ++ Actorplane.times t.staged :=
  times_append _ _

/-- The tray without what is due. -/
def Tray.kept (now : Instant) (t : Tray) (d : ActorDeadlines) : Tray where
  reference := t.reference
  ended := t.ended
  queue := t.queue.filter fun i => !i.due now
  queueBytes := t.queueBytes - ((t.queue.filter (·.due now)).map (·.bytes)).sum
  staged := t.staged.filter fun i => !i.due now
  stagedBytes := t.stagedBytes - ((t.staged.filter (·.due now)).map (·.bytes)).sum
  deadlines := d

theorem Tray.Balanced.kept (h : t.Balanced cfg) {d : ActorDeadlines}
    (hd : d.Counts (t.kept now d).times) : (t.kept now d).Balanced cfg := by
  have queue := bytes_split t.queue (·.due now)
  have staged := bytes_split t.staged (·.due now)
  have queueBytes := h.queueBytes
  have stagedBytes := h.stagedBytes
  constructor
  · show t.queueBytes - _ = _
    rw [queueBytes, queue, Nat.add_sub_cancel_left]
    rfl
  · show t.stagedBytes - _ = _
    rw [stagedBytes, staged, Nat.add_sub_cancel_left]
    rfl
  · exact hd
  · exact (List.length_filter_le _ _).trans h.queueRoom
  · exact (Nat.sub_le _ _).trans h.queueLimit
  · exact (List.length_filter_le _ _).trans h.stagedRoom
  · exact (Nat.sub_le _ _).trans h.stagedLimit
  · intro ended
    obtain ⟨queue, staged⟩ := h.quiet ended
    constructor
    · exact congrArg (List.filter fun i => !i.due now) queue
    · exact congrArg (List.filter fun i => !i.due now) staged

/-- Nothing is due in what is kept. -/
theorem Tray.kept_not_due {d : ActorDeadlines} (hd : d.Counts (t.kept now d).times) {x : Instant}
    (hx : d.first = some x) : ¬x ≤ now := by
  intro due
  obtain ⟨i, mem, deadline⟩ := mem_times.mp ((hd.first.mp hx).1)
  have late : i.due now = true := Item.due_iff.mpr ⟨x, deadline, due⟩
  rcases List.mem_append.mp mem with mem | mem
  · have early := (List.mem_filter.mp mem).2
    simp [late] at early
  · have early := (List.mem_filter.mp mem).2
    simp [late] at early

/-- The counted deadlines of a tray, those that are due first. -/
theorem counts_due (now : Instant) (h : t.deadlines.Counts t.times) :
    t.deadlines.Counts (times (t.queue.filter (·.due now)) ++
      (times (t.staged.filter (·.due now)) ++
        (times (t.queue.filter fun i => !i.due now) ++
          times (t.staged.filter fun i => !i.due now)))) := by
  apply h.perm
  have queue := times_split t.queue (·.due now)
  have staged := times_split t.staged (·.due now)
  rw [t.times_eq]
  refine (queue.append staged).trans ?_
  rw [List.append_assoc]
  apply List.Perm.append_left
  rw [← List.append_assoc, ← List.append_assoc]
  apply List.Perm.append_right
  exact List.perm_append_comm

theorem Item.delivery_due (queue : List Delivery) :
    (queue.filter fun d => World.isDue now d.envelope.deadline).map Item.delivery =
      (queue.map Item.delivery).filter (·.due now) := by
  rw [List.filter_map]
  rfl

theorem Item.delivery_kept (queue : List Delivery) :
    (queue.filter fun d => ¬World.isDue now d.envelope.deadline).map Item.delivery =
      (queue.map Item.delivery).filter fun i => !i.due now := by
  rw [List.filter_map]
  congr 1
  apply List.filter_congr
  intro d _
  simp [Item.due]

theorem Item.output_due (staged : List StagedOutput) :
    (staged.filter fun s => World.isDue now s.stored.options.deadline).map Item.output =
      (staged.map Item.output).filter (·.due now) := by
  rw [List.filter_map]
  rfl

theorem Item.output_kept (staged : List StagedOutput) :
    (staged.filter fun s => ¬World.isDue now s.stored.options.deadline).map Item.output =
      (staged.map Item.output).filter fun i => !i.due now := by
  rw [List.filter_map]
  congr 1
  apply List.filter_congr
  intro s _
  simp [Item.due]

namespace Shows

variable {w : World}

/-! ## One owner -/

theorem expireQueued (h : Shows m r t st) (queue : List Delivery) {rest : List Instant}
    (hc : t.deadlines.Counts
      (times ((queue.map Item.delivery).filter (·.due now)) ++ rest)) :
    ∃ d, d.Counts rest ∧
      Shows m r { t with deadlines := d } (w.expireQueued r now queue st) := by
  induction queue generalizing st t with
  | nil => exact ⟨t.deadlines, hc, h⟩
  | cons delivery queue ih =>
    unfold World.expireQueued
    rw [List.map_cons, List.filter_cons] at hc
    by_cases due : World.isDue now delivery.envelope.deadline = true
    · have late : (Item.delivery delivery).due now = true := due
      rw [if_pos late] at hc
      rw [if_pos due]
      have split : (times (.delivery delivery :: (queue.map Item.delivery).filter (·.due now)) ++
          rest).Perm (delivery.envelope.deadline.toList ++
            (times ((queue.map Item.delivery).filter (·.due now)) ++ rest)) := by
        rw [times_cons, List.append_assoc]
        exact .refl _
      obtain ⟨d, counts, shows⟩ := h.remove hc split
      have expired := (shows.aside (World.desk_expireDeliveryLocked (w := w) delivery now)).aside
        (State.desk_note (e := .cancelled delivery.eventId r .expired) rfl)
      exact @ih _ { t with deadlines := d } expired counts
    · have early : ¬(Item.delivery delivery).due now = true := due
      rw [if_neg early] at hc
      rw [if_neg due]
      exact ih h hc

theorem expireStagedDeadlines (h : Shows m r t st) (staged : List StagedOutput)
    {rest : List Instant}
    (hc : t.deadlines.Counts (times (staged.map Item.output) ++ rest)) :
    ∃ d, d.Counts rest ∧
      Shows m r { t with deadlines := d } (World.expireStagedDeadlines r staged st) := by
  induction staged generalizing st t with
  | nil => exact ⟨t.deadlines, hc, h⟩
  | cons s staged ih =>
    have split : (times ((s :: staged).map Item.output) ++ rest).Perm
        (s.stored.options.deadline.toList ++ (times (staged.map Item.output) ++ rest)) := by
      rw [List.map_cons, times_cons, List.append_assoc]
      exact .refl _
    obtain ⟨d, counts, shows⟩ := h.remove hc split
    exact @ih _ { t with deadlines := d } shows counts

/-- What is not due goes back into the queue. -/
theorem refillQueue (h : Shows m r t st) (queue : List Delivery) :
    Shows m r { t with
        queue := (queue.map Item.delivery).filter fun i => !i.due now
        queueBytes :=
          t.queueBytes - (((queue.map Item.delivery).filter (·.due now)).map (·.bytes)).sum }
      (st.modifyActor r fun a => { a with
        queue := queue.filter fun d => ¬World.isDue now d.envelope.deadline
        queueBytes := a.queueBytes -
          ((queue.filter fun d => World.isDue now d.envelope.deadline).map fun d =>
            d.payload.bytes).sum }) := by
  apply h.modify
  intro b same
  rw [← Item.delivery_kept, ← Item.delivery_due, ← same, List.map_map]
  rfl

/-- What is due is dropped from the staging list. -/
theorem thinStaged (h : Shows m r t st) {lost : List StagedOutput}
    (hl : lost.map Item.output = t.staged.filter (·.due now)) :
    Shows m r { t with
        staged := t.staged.filter fun i => !i.due now
        stagedBytes := t.stagedBytes - ((t.staged.filter (·.due now)).map (·.bytes)).sum }
      (st.modifyActor r fun a => { a with
        staged := a.staged.filter fun s => ¬World.isDue now s.stored.options.deadline
        stagedBytes := a.stagedBytes - (lost.map fun s => s.stored.bytes).sum }) := by
  apply h.modify
  intro b same
  have kept : (b.staged.filter fun s => ¬World.isDue now s.stored.options.deadline).map
      Item.output = t.staged.filter fun i => !i.due now := by
    rw [Item.output_kept, ← same]
    rfl
  rw [← kept, ← hl, ← same, List.map_map]
  rfl

end Shows

namespace World

variable {w : World}

/-- The end of an expiry is none of the mailboxes' business. -/
theorem mailroom_loseStaged (lost : List StagedOutput) :
    (lost.foldl (fun st _ => st.diagnostic (.rejected .deadlineExpired) (some r) none)
      (lost.foldl (fun st s => st.note (.stagedLost s.publication))
        ((w.refreshPythonReadyLocked r (w.markActivityDependentsLocked r
          (lost.foldl (fun st s => w.cancelPublicationLocked s.publication .expired st)
            st))).addMetrics fun m =>
          { m with
            expired := m.expired + lost.length
            cancelled := m.cancelled + lost.length
            discarded := m.discarded + lost.length }))).mailroom = st.mailroom := by
  have aside := fun st => State.mailroom_of_desk (@desk_foldl _ (fun st (s : StagedOutput) =>
    w.cancelPublicationLocked s.publication .expired st)
    (fun _ s => desk_cancelPublicationLocked s.publication .expired) lost st)
  have noted := fun st => State.mailroom_of_desk (@desk_stagedLost st lost)
  have diagnosed := fun st => State.mailroom_of_desk (@desk_foldl _ (fun st (_ : StagedOutput) =>
    st.diagnostic (.rejected .deadlineExpired) (some r) none) (fun _ _ => rfl) lost st)
  exact (diagnosed _).trans ((noted _).trans (aside st))

/-- What an owner that is expired leaves in the mailroom. -/
theorem mailroom_expireOwner (hw : r.world = w.id) (h : st.mailroom.Holds r t)
    (hc : t.deadlines.Counts t.times) : ∃ d, d.Counts (t.kept now d).times ∧
      (w.expireOwner now r st).mailroom =
        ⟨st.mailroom.trays.set r.slot (t.kept now d), st.mailroom.earliest.set r d.first,
          if t.staged.all (·.due now) then st.mailroom.stagedActors.erase r.slot
          else st.mailroom.stagedActors, st.mailroom.poisoned⟩ := by
  obtain ⟨a, check, -, rfl⟩ := check_of_holds hw h
  unfold expireOwner
  rw [check]
  dsimp only
  -- the queue is taken out, and what is due of it is removed from the counts
  have emptied : Shows st.mailroom r { a.tray with queue := [] }
      (st.modifyActor r fun a => { a with queue := [] }) := by
    apply (Shows.refl h).modify
    intro b same
    rw [← same]
    rfl
  obtain ⟨d₁, counts₁, shows₁⟩ :=
    @Shows.expireQueued _ _ _ _ now w emptied a.queue _ (counts_due now hc)
  generalize w.expireQueued r now a.queue _ = st₁ at shows₁ ⊢
  have refilled := @Shows.refillQueue _ _ _ _ now shows₁ a.queue
  generalize st₁.modifyActor r _ = st₂ at refilled ⊢
  -- the due staged outputs follow
  have missing : (a.staged.filter fun s => isDue now s.stored.options.deadline).map
      Item.output = a.tray.staged.filter (·.due now) := Item.output_due _
  generalize (a.staged.filter fun s => isDue now s.stored.options.deadline) = lost at missing ⊢
  rw [← missing] at counts₁
  obtain ⟨d₂, counts₂, shows₂⟩ := refilled.expireStagedDeadlines lost counts₁
  generalize expireStagedDeadlines r lost st₂ = st₃ at shows₂ ⊢
  refine ⟨d₂, ?_, ?_⟩
  · rw [Tray.times_eq]
    exact counts₂
  have thinned : Shows st.mailroom r (a.tray.kept now d₂) _ := shows₂.thinStaged missing
  have refreshed := thinned.refresh
  generalize refreshEarliest r _ = st₄ at refreshed ⊢
  have all : (a.staged.all fun s => isDue now s.stored.options.deadline) =
      a.tray.staged.all (·.due now) := by
    show _ = (a.staged.map Item.output).all _
    rw [List.all_map]
    rfl
  rw [all, mailroom_loseStaged]
  split_ifs
  · exact refreshed.restage (AList.erase r.slot)
  · exact refreshed.mailroom

/-- An owner that is expired has nothing due, and its entries are what its tray says. -/
theorem expireOwner_exact (h : st.mailroom.Exact w (r :: X) []) (hr : st.mailroom.Holds r t)
    (hX : r ∉ X) :
    ∃ d, d.Counts (t.kept now d).times ∧
      (w.expireOwner now r st).mailroom.trays = st.mailroom.trays.set r.slot (t.kept now d) ∧
      (w.expireOwner now r st).mailroom.earliest = st.mailroom.earliest.set r d.first ∧
      (w.expireOwner now r st).mailroom.Exact w X [] := by
  have balanced := h.balanced _ t hr.1
  have home := (h.slotted _ t hr.1).1
  rw [hr.2] at home
  obtain ⟨d, counts, expired⟩ := @mailroom_expireOwner _ _ _ now _ home hr balanced.counts
  refine ⟨d, counts, congrArg Mailroom.trays expired, congrArg Mailroom.earliest expired, ?_⟩
  rw [expired]
  have gone : (t.kept now d).staged = [] ↔ t.staged.all (·.due now) = true := by
    show t.staged.filter _ = [] ↔ _
    simp
  apply h.put hr
  · exact hr.2
  · exact balanced.kept counts
  · exact h.index.set _
  · intro q
    rw [DeadlineIndex.lookup_set, if_neg hX]
    rfl
  · intro q other
    simp [other]
  · intro i
    simp only [gone, List.not_mem_nil, false_or]
    by_cases here : i = r.slot
    · subst here
      rw [if_pos rfl]
      split_ifs with all
      · exact (Assoc.lookup_erase_ite _ _ _).trans (if_pos rfl)
      · have waiting : t.staged ≠ [] := by
          rintro none
          rw [none] at all
          exact all rfl
        rw [h.staged r t hr]
        simp [waiting]
    · rw [if_neg here]
      split_ifs
      · exact (Assoc.lookup_erase_ite _ _ _).trans (if_neg here)
      · rfl

end World

/-! ## All owners -/

namespace Mailroom

variable {w : World}

/-- Taking the due entries leaves the actors that had them without an entry. -/
theorem Settled.takeDue (h : m.Settled w) :
    Exact w (m.earliest.takeDue now).1 []
      { m with earliest := (m.earliest.takeDue now).2 } := by
  have index : m.earliest.Sound := h.index
  refine { h with index := index.takeDue, earliest := ?_, strangers := ?_ }
  · intro q t holds
    have entry := h.earliest q t holds
    rw [if_neg List.not_mem_nil] at entry
    rw [DeadlineIndex.lookup_takeDue, entry]
  · intro q stranger
    rw [DeadlineIndex.lookup_takeDue]
    split_ifs
    · rfl
    · exact h.strangers q stranger

/-- The trays of the owners are without what was due in them. -/
def Expires (now : Instant) (owners : List ActorRef) (t t' : Tray) : Prop :=
  t' = if t.reference ∈ owners then t.kept now t'.deadlines else t

theorem Expires.reference {owners : List ActorRef} (h : Expires now owners t t') :
    t'.reference = t.reference := by
  unfold Expires at h
  rw [h]
  split_ifs <;> rfl

/-- One more owner, then the others. -/
theorem Expires.cons {owners : List ActorRef} {t'' : Tray} (h : Expires now [r] t t')
    (h' : Expires now owners t' t'') (hr : r ∉ owners) : Expires now (r :: owners) t t'' := by
  unfold Expires at h h' ⊢
  simp only [List.mem_singleton] at h
  by_cases first : t.reference = r
  · rw [if_pos first] at h
    have outside : t'.reference ∉ owners := by
      rw [h]
      show t.reference ∉ owners
      rwa [first]
    rw [if_neg outside] at h'
    rw [if_pos (first ▸ List.mem_cons_self), h', ← h]
  · rw [if_neg first] at h
    subst h
    simpa only [List.mem_cons, first, false_or] using h'

/-- No entry of the index is due. -/
def Ahead (now : Instant) (m : Mailroom) : Prop :=
  ∀ q x, m.earliest.actors.lookup q = some x → ¬x ≤ now

end Mailroom

namespace World

variable {w : World}

/-- The owners are expired one after the other. -/
theorem expireOwners_exact (owners : List ActorRef)
    (h : st.mailroom.Exact w owners []) (hn : owners.Nodup)
    (hh : ∀ x ∈ owners, ∃ t, st.mailroom.Holds x t) (ha : st.mailroom.Ahead now) :
    let st' := owners.foldl (fun st owner => w.expireOwner now owner st) st
    st'.mailroom.Settled w ∧ st'.mailroom.Ahead now ∧
      Slotwise (Mailroom.Expires now owners) st.mailroom.trays st'.mailroom.trays := by
  induction owners generalizing st with
  | nil =>
    refine ⟨h, ha, ?_⟩
    exact Slotwise.refl (fun t => (if_neg List.not_mem_nil).symm) _
  | cons r owners ih =>
    obtain ⟨fresh, nodup⟩ := List.nodup_cons.mp hn
    obtain ⟨t, holds⟩ := hh r List.mem_cons_self
    obtain ⟨d, counts, trays, earliest, exact⟩ := @expireOwner_exact _ _ _ _ now _ h holds fresh
    have first : Slotwise (Mailroom.Expires now [r]) st.mailroom.trays
        (w.expireOwner now r st).mailroom.trays := by
      rw [trays]
      apply Slotwise.set_other holds.1
      · unfold Mailroom.Expires
        rw [holds.2, if_pos List.mem_cons_self]
        rfl
      · intro i t₀ other found
        have distinct : t₀.reference ∉ [r] := by
          rw [List.mem_singleton]
          rintro same
          have slot := (h.slotted i t₀ found).2
          rw [same] at slot
          exact other slot.symm
        unfold Mailroom.Expires
        rw [if_neg distinct]
    have ahead : (w.expireOwner now r st).mailroom.Ahead now := by
      intro q x found
      rw [earliest, DeadlineIndex.lookup_set] at found
      split_ifs at found
      · exact Tray.kept_not_due counts found
      · exact ha q x found
    have rest : ∀ x ∈ owners, ∃ t, (w.expireOwner now r st).mailroom.Holds x t := by
      intro x mem
      obtain ⟨t', found, current⟩ := hh x (List.mem_cons_of_mem r mem)
      obtain ⟨t'', found', related⟩ := first.get found
      exact ⟨t'', found', related.reference.trans current⟩
    obtain ⟨settled, ahead', expired⟩ := ih exact nodup rest ahead
    exact ⟨settled, ahead', first.comp expired fun _ _ _ h h' => h.cons h' fresh⟩

/-- Event expiry leaves nothing due, and takes nothing else. -/
theorem expireEventsLocked_settled (h : st.mailroom.Settled w) :
    (w.expireEventsLocked now st).mailroom.Settled w ∧
      (w.expireEventsLocked now st).mailroom.Ahead now ∧
      Slotwise (Mailroom.Expires now (st.eventDeadlines.takeDue now).1) st.mailroom.trays
        (w.expireEventsLocked now st).mailroom.trays := by
  have index : st.eventDeadlines.Sound := h.index
  unfold expireEventsLocked
  apply expireOwners_exact
  · exact h.takeDue
  · exact index.nodup_takeDue
  · intro x mem
    by_contra stranger
    have known := h.strangers x fun t holds => stranger ⟨t, holds⟩
    obtain ⟨y, found, -⟩ := index.mem_takeDue.mp mem
    exact absurd (known.symm.trans found) (by simp)
  · intro q x found due
    have found : (st.eventDeadlines.takeDue now).2.actors.lookup q = some x := found
    rw [DeadlineIndex.lookup_takeDue] at found
    split_ifs at found with taken
    exact taken (index.mem_takeDue.mpr ⟨x, found, due⟩)

theorem expireEventsLocked_posts : Posts w st (w.expireEventsLocked now st) :=
  fun h => (expireEventsLocked_settled h).1

end World

end Actorplane
