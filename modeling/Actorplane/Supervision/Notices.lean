import Actorplane.Lib.Slots
import Actorplane.Supervision.Leases

/-!
# Failure notifications of a run

An actor counts its notified children exactly, and a notified child has a supervisor
that can still hear of the failure. A notification is raised once; it is delivered once,
discarded, or still waiting.
-/

namespace Actorplane

variable {t : Roster} {r x : ActorRef} {m : Member} {parent : Option ActorRef}

namespace Roster

/-- How many children wait for the actor. -/
def waiting (t : Roster) (r : ActorRef) : ℕ :=
  t.members.countP fun k => decide (k.parent = some r) && k.notification.isSome

/-- How many actors wait for their supervisors. -/
def notified (t : Roster) : ℕ := t.members.countP (·.notification.isSome)

/-- The notification is about the actor itself, and its supervisor can hear of it. -/
def Tells (t : Roster) (q : ActorRef) (k : Member) (n : Notification) : Prop :=
  n.failure.actor = q ∧ n.failure.sequence < t.nextFailure ∧ k.state ≠ .stopped ∧
    ∃ p, k.parent = some p ∧ t.Present p ∧ p ≠ q

structure Notes (t : Roster) : Prop where
  slotted : ∀ (i : ℕ) (m : Member), t.members[i]? = some m → m.reference.slot = i
  waits : ∀ r m, t.Seats r m → m.pendingFailures = t.waiting r
  told : ∀ q k n, t.Seats q k → k.notification = some n → t.Tells q k n

/-! ## Updates of one member -/

/-- What an update of one member leaves to count. -/
theorem countP_modify {f : Member → Member} {p : Member → Bool}
    (hf : ∀ m, t.members[x.slot]? = some m → p (f m) = p m) :
    (t.modify x f).members.countP p = t.members.countP p := by
  show (t.members.modify x.slot f).countP p = _
  cases found : t.members[x.slot]? with
  | none =>
    have outside := List.getElem?_eq_none_iff.mp found
    rw [List.modify_eq_self outside]
  | some m =>
    have counted := countP_modify_add p f found
    rw [hf m found] at counted
    omega

theorem slotted_modify {f : Member → Member}
    (h : ∀ (i : ℕ) (m : Member), t.members[i]? = some m → m.reference.slot = i)
    (hf : ∀ m, (f m).reference = m.reference) (i : ℕ) (m : Member)
    (hm : (t.modify x f).members[i]? = some m) : m.reference.slot = i := by
  have hm : (t.members.modify x.slot f)[i]? = some m := hm
  rw [List.getElem?_modify] at hm
  cases found : t.members[i]? with
  | none => simp [found] at hm
  | some k =>
    rw [found] at hm
    split_ifs at hm
    · obtain rfl := Option.some.inj hm
      rw [hf]
      exact h i k found
    · obtain rfl := Option.some.inj hm
      exact h i k found

theorem Present.modify {f : Member → Member} (h : t.Present r)
    (hf : ∀ m, (f m).reference = m.reference)
    (hs : ∀ m, t.Seats r m → r.slot = x.slot → m.state ≠ .stopping → m.state ≠ .stopped →
      (f m).state ≠ .stopping ∧ (f m).state ≠ .stopped) : (t.modify x f).Present r := by
  obtain ⟨m, seat, live, running⟩ := h
  refine ⟨_, (seats_modify hf).mpr ⟨m, seat, rfl⟩, ?_⟩
  split_ifs with here
  · exact hs m seat here live running
  · exact ⟨live, running⟩

/-- Only the members and the next sequence number matter. -/
theorem Notes.congr {t' : Roster} (h : t.Notes) (hm : t'.members = t.members)
    (hn : t.nextFailure ≤ t'.nextFailure) : t'.Notes := by
  have seats : ∀ {q k}, t'.Seats q k ↔ t.Seats q k := by
    intro q k
    unfold Seats
    rw [hm]
  have waiting : ∀ r, t'.waiting r = t.waiting r := by
    intro r
    unfold Roster.waiting
    rw [hm]
  refine ⟨fun i m found => h.slotted i m (hm ▸ found), ?_, ?_⟩
  · intro r m seat
    rw [waiting]
    exact h.waits r m (seats.mp seat)
  · intro q k n seat told
    obtain ⟨about, before, alive, p, below, ⟨m, seat', live⟩, other⟩ :=
      h.told q k n (seats.mp seat) told
    exact ⟨about, lt_of_lt_of_le before hn, alive, p, below, ⟨m, seats.mpr seat', live⟩, other⟩

/-- The update of a member leaves its notification where it is. -/
structure Loyal (m m' : Member) : Prop where
  parent : m'.parent = m.parent
  notification : m'.notification.map (·.failure) = m.notification.map (·.failure)

/-- It leaves the notifications of its children where they are, too. -/
structure Discreet (m m' : Member) : Prop extends Loyal m m' where
  pending : m'.pendingFailures = m.pendingFailures

theorem Loyal.isSome {m m' : Member} (h : Loyal m m') :
    m'.notification.isSome = m.notification.isSome := by
  have same := congrArg Option.isSome h.notification
  rwa [Option.isSome_map, Option.isSome_map] at same

theorem Loyal.some {m m' : Member} (h : Loyal m m') {n : Notification}
    (hn : m'.notification = some n) : ∃ n', m.notification = some n' ∧ n'.failure = n.failure := by
  have same := h.notification
  rw [hn, Option.map_some] at same
  obtain ⟨n', found, about⟩ := Option.map_eq_some_iff.mp same.symm
  exact ⟨n', found, about⟩

/-- The member that an update of a slot reaches, if it was seated there. -/
theorem Seats.reached (h : t.Seats r m) (here : r.slot = x.slot) :
    t.members[x.slot]? = some m := by
  rw [← here]
  exact h.1

theorem Notes.modify {f : Member → Member} (h : t.Notes)
    (hr : ∀ m, (f m).reference = m.reference)
    (hf : ∀ m, t.members[x.slot]? = some m → Discreet m (f m))
    (ha : ∀ q k, t.Seats q k → q.slot = x.slot → k.notification.isSome →
      (f k).state ≠ .stopped)
    (hs : ∀ p m, t.Seats p m → p.slot = x.slot → m.state ≠ .stopping → m.state ≠ .stopped →
      (∃ q k n, t.Seats q k ∧ k.parent = some p ∧ k.notification = some n) →
      (f m).state ≠ .stopping ∧ (f m).state ≠ .stopped) : (t.modify x f).Notes := by
  refine ⟨slotted_modify h.slotted hr, ?_, ?_⟩
  · intro r m' seated
    obtain ⟨m, seat, rfl⟩ := (seats_modify hr).mp seated
    have waiting : (t.modify x f).waiting r = t.waiting r := by
      apply countP_modify
      intro k found
      rw [(hf k found).parent, (hf k found).toLoyal.isSome]
    rw [waiting]
    split_ifs with here
    · rw [(hf m (seat.reached here)).pending]
      exact h.waits r m seat
    · exact h.waits r m seat
  · intro q k' n seated told
    obtain ⟨k, seat, rfl⟩ := (seats_modify hr).mp seated
    obtain ⟨n', told', about⟩ : ∃ n', k.notification = some n' ∧ n'.failure = n.failure := by
      split_ifs at told with here
      · exact (hf k (seat.reached here)).toLoyal.some told
      · exact ⟨n, told, rfl⟩
    obtain ⟨source, before, alive, p, below, present, other⟩ := h.told q k n' seat told'
    rw [about] at source before
    refine ⟨source, before, ?_, p, ?_, ?_, other⟩
    · split_ifs with here
      · exact ha q k seat here (by simp [told'])
      · exact alive
    · split_ifs with here
      · rw [(hf k (seat.reached here)).parent, below]
      · exact below
    · apply present.modify hr
      intro m seat' here live running
      exact hs p m seat' here live running ⟨q, k, n', seat, below, told'⟩

/-- An update that leaves the states as well. -/
theorem Notes.modify_calm {f : Member → Member} (h : t.Notes)
    (hr : ∀ m, (f m).reference = m.reference)
    (hf : ∀ m, t.members[x.slot]? = some m → Discreet m (f m))
    (hs : ∀ m, (f m).state = m.state) : (t.modify x f).Notes := by
  apply h.modify hr hf
  · intro q k seat _ notified
    obtain ⟨n, told⟩ := Option.isSome_iff_exists.mp notified
    rw [hs]
    exact (h.told q k n seat told).2.2.1
  · intro p m _ _ live running _
    rw [hs]
    exact ⟨live, running⟩

theorem Notes.enter {cfg : Config} {state : Lifecycle} (h : t.Notes)
    (hm : t.May cfg (.enter r state)) : (t.modify r (Member.enter · state)).Notes := by
  obtain ⟨m, seat, alive, -, running, stops, fenced⟩ := hm
  apply h.modify (f := (Member.enter · state)) (fun _ => rfl) fun _ _ => ⟨⟨rfl, rfl⟩, rfl⟩
  · exact fun _ _ _ _ _ => running
  · rintro p k seat' here live - ⟨q, k', n, child, below, told⟩
    refine ⟨?_, running⟩
    rintro rfl
    obtain rfl : p = r := seat'.slot_eq seat here
    have silent := (fenced rfl).2.2.1 q k' child below
    rw [told] at silent
    cases silent

theorem Notes.retire {cfg : Config} (h : t.Notes) (hm : t.May cfg (.retire r)) :
    (t.retire r).Notes := by
  obtain ⟨m, seat, stopping, silent, -⟩ := hm
  have stopped : (t.modify r (Member.enter · .stopped)).Notes := by
    apply h.modify (f := (Member.enter · .stopped)) (fun _ => rfl) fun _ _ => ⟨⟨rfl, rfl⟩, rfl⟩
    · intro q k seat' here notified
      obtain rfl : q = r := seat'.slot_eq seat here
      obtain rfl := seat'.unique seat
      rw [silent] at notified
      cases notified
    · intro p k seat' here live
      obtain rfl : p = r := seat'.slot_eq seat here
      obtain rfl := seat'.unique seat
      exact absurd stopping live
  unfold Roster.retire
  rw [seat.1]
  dsimp only
  cases m.parent with
  | none => exact stopped
  | some p =>
    exact stopped.modify_calm (fun _ => rfl) (fun _ _ => ⟨⟨rfl, rfl⟩, rfl⟩) fun _ => rfl

/-- The actor takes up the slot of the new generation. -/
def newcomer (t : Roster) (r : ActorRef) (parent : Option ActorRef) : Member :=
  ⟨r, t.nextOrder, .starting, parent, [], none, 0, false, 0, none⟩

/-- The roster before the parent adopts the newcomer. -/
def seated (t : Roster) (r : ActorRef) (parent : Option ActorRef) : Roster :=
  { t with
    members :=
      if r.slot = t.members.length then t.members ++ [t.newcomer r parent]
      else t.members.set r.slot (t.newcomer r parent)
    nextOrder := t.nextOrder + 1 }

theorem Vacant.le (h : t.Vacant r) : r.slot ≤ t.members.length := by
  obtain last | ⟨old, found, -⟩ := h
  · exact last.le
  · exact (List.getElem?_eq_some_iff.mp found).1.le

theorem get_seated (h : t.Vacant r) (i : ℕ) : (t.seated r parent).members[i]? =
    if i = r.slot then some (t.newcomer r parent) else t.members[i]? := by
  have le := h.le
  unfold Roster.seated
  dsimp only
  by_cases last : r.slot = t.members.length
  · rw [if_pos last]
    split_ifs with here
    · rw [here, last]
      simp
    · rcases lt_or_ge i t.members.length with inside | outside
      · rw [List.getElem?_append_left inside]
      · rw [List.getElem?_eq_none_iff.mpr (by simp; omega), List.getElem?_eq_none_iff.mpr outside]
  · rw [if_neg last, List.getElem?_set]
    have inside : r.slot < t.members.length := by omega
    by_cases here : r.slot = i
    · simp [← here, inside]
    · rw [if_neg here, if_neg fun same => here same.symm]

theorem Vacant.not_seats (h : t.Vacant r) : ¬t.Seats r m := by
  rintro ⟨found, same⟩
  obtain last | ⟨old, found', -, newer⟩ := h
  · have inside := (List.getElem?_eq_some_iff.mp found).1
    omega
  · obtain rfl : old = m := Option.some.inj (found'.symm.trans found)
    rw [same] at newer
    exact lt_irrefl _ newer

theorem seats_seated (h : t.Vacant r) :
    (t.seated r parent).Seats x m ↔
      x = r ∧ m = t.newcomer r parent ∨ x.slot ≠ r.slot ∧ t.Seats x m := by
  unfold Seats
  rw [get_seated h]
  by_cases here : x.slot = r.slot
  · rw [if_pos here]
    constructor
    · rintro ⟨found, same⟩
      obtain rfl := Option.some.inj found
      exact .inl ⟨same.symm, rfl⟩
    · rintro (⟨rfl, rfl⟩ | ⟨other, -⟩)
      · exact ⟨rfl, rfl⟩
      · exact absurd here other
  · rw [if_neg here]
    constructor
    · exact fun seat => .inr ⟨here, seat⟩
    · rintro (⟨rfl, -⟩ | ⟨-, seat⟩)
      · exact absurd rfl here
      · exact seat

/-- Whoever takes a slot over from a stopped actor leaves the counts alone. -/
theorem countP_seated (h : t.Notes) (hv : t.Vacant r) {p : Member → Bool}
    (hp : ∀ m, p m = true → m.notification.isSome) :
    (t.seated r parent).members.countP p = t.members.countP p := by
  have silent : p (t.newcomer r parent) = false := by
    by_contra told
    have notified := hp _ (by simpa using told)
    cases notified
  unfold Roster.seated
  dsimp only
  obtain last | ⟨old, found, stopped, -⟩ := hv
  · rw [if_pos last, List.countP_append]
    simp [silent]
  · have inside := (List.getElem?_eq_some_iff.mp found).1
    rw [if_neg (by omega)]
    have quiet : p old = false := by
      by_contra told
      obtain ⟨n, hn⟩ := Option.isSome_iff_exists.mp (hp _ (by simpa using told))
      have seat : t.Seats old.reference old := by
        refine ⟨?_, rfl⟩
        rw [h.slotted r.slot old found]
        exact found
      exact (h.told old.reference old n seat hn).2.2.1 stopped
    have counted := countP_set_add p (t.newcomer r parent) found
    simp only [silent, quiet] at counted
    omega

theorem Notes.seated {cfg : Config} (h : t.Notes) (hm : t.May cfg (.join r parent)) :
    (t.seated r parent).Notes := by
  have vacant := hm.1
  have waiting : ∀ q, (t.seated r parent).waiting q = t.waiting q := by
    intro q
    apply countP_seated h vacant
    intro k told
    simp only [Bool.and_eq_true] at told
    exact told.2
  have present : ∀ {p}, t.Present p → (t.seated r parent).Present p := by
    rintro p ⟨m, seat, live, running⟩
    refine ⟨m, (seats_seated vacant).mpr (.inr ⟨?_, seat⟩), live, running⟩
    intro same
    obtain last | ⟨old, found, stopped, -⟩ := vacant
    · have inside := (List.getElem?_eq_some_iff.mp seat.1).1
      omega
    · obtain rfl : old = m := Option.some.inj (found.symm.trans (same ▸ seat.1))
      exact running stopped
  refine ⟨?_, ?_, ?_⟩
  · intro i m found
    rw [get_seated vacant] at found
    split_ifs at found with here
    · obtain rfl := Option.some.inj found
      exact here.symm
    · exact h.slotted i m found
  · intro q k seat
    rw [waiting]
    obtain ⟨rfl, rfl⟩ | ⟨-, seat⟩ := (seats_seated vacant).mp seat
    · -- nobody can wait for an actor that is not there yet
      symm
      apply List.countP_eq_zero.mpr
      intro k mem told
      simp only [Bool.and_eq_true, decide_eq_true_eq] at told
      obtain ⟨i, found⟩ := List.getElem?_of_mem mem
      obtain ⟨n, hn⟩ := Option.isSome_iff_exists.mp told.2
      have seat : t.Seats k.reference k := by
        refine ⟨?_, rfl⟩
        rw [h.slotted i k found]
        exact found
      obtain ⟨-, -, -, p, below, ⟨m, seat', -⟩, -⟩ := h.told _ k n seat hn
      obtain rfl : p = q := Option.some.inj (below.symm.trans told.1)
      exact vacant.not_seats seat'
    · exact h.waits q k seat
  · intro q k n seat told
    obtain ⟨rfl, rfl⟩ | ⟨-, seat⟩ := (seats_seated vacant).mp seat
    · cases told
    · obtain ⟨about, before, alive, p, below, there, other⟩ := h.told q k n seat told
      exact ⟨about, before, alive, p, below, present there, other⟩

theorem join_eq : t.join r parent =
    match parent with
    | none => t.seated r none
    | some p => (t.seated r (some p)).modify p (Member.adopt · r) := by
  cases parent <;> rfl

theorem Notes.join {cfg : Config} (h : t.Notes) (hm : t.May cfg (.join r parent)) :
    (t.join r parent).Notes := by
  have seated := h.seated hm
  rw [join_eq]
  cases parent with
  | none => exact seated
  | some p =>
    exact seated.modify_calm (fun _ => rfl) (fun _ _ => ⟨⟨rfl, rfl⟩, rfl⟩) fun _ => rfl

/-! ## Raising and taking a notification -/

/-- A notification that is taken leaves its supervisor one fewer to wait for. -/
theorem waiting_silence {supervisor source : ActorRef} {n : Notification}
    (h : t.Pending supervisor source n) (r : ActorRef) :
    (t.modify source Member.silence).waiting r + (if r = supervisor then 1 else 0) =
      t.waiting r := by
  obtain ⟨m, q, seat, below, told, -⟩ := h
  have counted := countP_modify_add
    (fun k : Member => decide (k.parent = some r) && k.notification.isSome) Member.silence seat.1
  have before : (decide (m.parent = some r) && m.notification.isSome) =
      decide (r = supervisor) := by
    rw [below, told]
    simp [eq_comm]
  have after : (decide (m.silence.parent = some r) && m.silence.notification.isSome) = false := by
    simp [Member.silence]
  rw [before, after] at counted
  unfold waiting Roster.modify
  simpa using counted

theorem notified_silence {supervisor source : ActorRef} {n : Notification}
    (h : t.Pending supervisor source n) :
    (t.modify source Member.silence).notified + 1 = t.notified := by
  obtain ⟨m, q, seat, below, told, -⟩ := h
  have counted := countP_modify_add (fun k : Member => k.notification.isSome) Member.silence seat.1
  rw [told] at counted
  unfold notified Roster.modify
  simpa [Member.silence] using counted

theorem Notes.hush {supervisor source : ActorRef} {n : Notification} (h : t.Notes)
    (hp : t.Pending supervisor source n) : (t.hush supervisor source).Notes := by
  have waiting := waiting_silence hp
  obtain ⟨m, q, seat, below, told, seat', distinct⟩ := hp
  set t₁ := t.modify source Member.silence with ht₁
  have silenced : ∀ {y k}, t₁.Seats y k ↔
      ∃ m, t.Seats y m ∧ k = if y.slot = source.slot then m.silence else m :=
    seats_modify (f := Member.silence) fun _ => rfl
  have heard : ∀ {y k}, (t₁.modify supervisor Member.hear).Seats y k ↔
      ∃ m, t₁.Seats y m ∧ k = if y.slot = supervisor.slot then m.hear else m :=
    seats_modify (f := Member.hear) fun _ => rfl
  refine ⟨?_, ?_, ?_⟩
  · have slotted : ∀ (i : ℕ) (m : Member), t₁.members[i]? = some m → m.reference.slot = i :=
      slotted_modify (f := Member.silence) h.slotted fun _ => rfl
    exact slotted_modify (f := Member.hear) slotted fun _ => rfl
  · intro r k last
    obtain ⟨k₁, middle, rfl⟩ := heard.mp last
    obtain ⟨k₀, seated, rfl⟩ := silenced.mp middle
    have same : (t₁.modify supervisor Member.hear).waiting r = t₁.waiting r :=
      countP_modify fun _ _ => rfl
    have before := h.waits r k₀ seated
    have counted := waiting r
    have pending : ∀ m : Member,
        (if r.slot = source.slot then m.silence else m).pendingFailures = m.pendingFailures := by
      intro m
      split_ifs <;> rfl
    show _ = (t₁.modify supervisor Member.hear).waiting r
    rw [same]
    by_cases here : r.slot = supervisor.slot
    · obtain rfl : r = supervisor := seated.slot_eq seat' here
      rw [if_pos rfl] at counted ⊢
      show (if r.slot = source.slot then k₀.silence else k₀).pendingFailures - 1 = _
      rw [pending]
      omega
    · have other : r ≠ supervisor := fun same => here (by rw [same])
      rw [if_neg other] at counted
      rw [if_neg here, pending]
      omega
  · intro y k n' last told'
    obtain ⟨k₁, middle, rfl⟩ := heard.mp last
    obtain ⟨k₀, seated, rfl⟩ := silenced.mp middle
    have elsewhere : y.slot ≠ source.slot := by
      intro here
      rw [if_pos here] at told'
      split_ifs at told' <;> cases told'
    rw [if_neg elsewhere] at told' ⊢
    have told₀ : k₀.notification = some n' := by
      split_ifs at told' <;> exact told'
    obtain ⟨about, before, alive, p, below', present, other⟩ := h.told y k₀ n' seated told₀
    refine ⟨about, before, ?_, p, ?_, ?_, other⟩
    · split_ifs <;> exact alive
    · split_ifs <;> exact below'
    · have silent : t₁.Present p := present.modify (f := Member.silence) (fun _ => rfl)
        fun _ _ _ live running => ⟨live, running⟩
      exact silent.modify (f := Member.hear) (fun _ => rfl)
        fun _ _ _ live running => ⟨live, running⟩

theorem notified_modify {f : Member → Member}
    (hf : ∀ m, t.members[x.slot]? = some m → Discreet m (f m)) :
    (t.modify x f).notified = t.notified := countP_modify fun m found => (hf m found).toLoyal.isSome

/-- The failure raises a notification. -/
def raises (m : Member) (notify : Bool) : Bool := notify && m.notification.isNone

theorem discreet_fail {record : FailureRecord} {notify : Bool} (h : raises m notify = false) :
    Discreet m (m.fail record notify) := by
  refine ⟨⟨rfl, ?_⟩, rfl⟩
  unfold raises at h
  unfold Member.fail
  dsimp only
  cases notify with
  | false => rfl
  | true =>
    cases hn : m.notification with
    | none => simp [hn] at h
    | some n => rfl

theorem tell_quiet {record : FailureRecord} {notify : Bool}
    (hm : t.members[record.actor.slot]? = some m) (h : raises m notify = false) :
    t.tell record notify = { t.modify record.actor (Member.fail · record notify) with
      coalesced := t.coalesced + if notify then 1 else 0 } := by
  unfold raises at h
  unfold Roster.tell
  dsimp only
  rw [hm]
  dsimp only
  cases notify with
  | false => rfl
  | true =>
    cases hn : m.notification with
    | none => simp [hn] at h
    | some n => rfl

theorem tell_raises {record : FailureRecord} {p : ActorRef}
    (hm : t.members[record.actor.slot]? = some m) (hn : m.notification = none)
    (hp : m.parent = some p) : t.tell record true =
      (t.modify record.actor (Member.fail · record true)).modify p Member.await := by
  unfold Roster.tell
  dsimp only
  rw [hm]
  dsimp only
  rw [hn, hp]
  rfl

/-- The roster after a failure that raises a notification. -/
def raised (t : Roster) (record : FailureRecord) (p : ActorRef) : Roster :=
  (t.modify record.actor (Member.fail · record true)).modify p Member.await

theorem waiting_raised {record : FailureRecord} {p : ActorRef}
    (hm : t.members[record.actor.slot]? = some m) (hn : m.notification = none)
    (hp : m.parent = some p) (r : ActorRef) :
    (t.raised record p).waiting r = t.waiting r + if r = p then 1 else 0 := by
  have same : (t.raised record p).waiting r =
      (t.modify record.actor (Member.fail · record true)).waiting r := countP_modify fun _ _ => rfl
  have counted := countP_modify_add
    (fun k : Member => decide (k.parent = some r) && k.notification.isSome)
    (Member.fail · record true) hm
  have before : (decide (m.parent = some r) && m.notification.isSome) = false := by simp [hn]
  have after : (decide ((m.fail record true).parent = some r) &&
      (m.fail record true).notification.isSome) = decide (r = p) := by
    simp [Member.fail, hn, hp, eq_comm]
  rw [before, after] at counted
  rw [same]
  unfold waiting Roster.modify
  simpa using counted

theorem notified_raised (record : FailureRecord) (p : ActorRef)
    (hm : t.members[record.actor.slot]? = some m) (hn : m.notification = none) :
    (t.raised record p).notified = t.notified + 1 := by
  have same : (t.raised record p).notified =
      (t.modify record.actor (Member.fail · record true)).notified := countP_modify fun _ _ => rfl
  have counted := countP_modify_add (fun k : Member => k.notification.isSome)
    (Member.fail · record true) hm
  rw [hn] at counted
  have after : (m.fail record true).notification.isSome = true := by simp [Member.fail, hn]
  rw [same]
  unfold notified Roster.modify
  simpa [after] using counted

theorem Notes.raised {record : FailureRecord} {p : ActorRef} (h : t.Notes)
    (seat : t.Seats record.actor m) (hn : m.notification = none) (hp : m.parent = some p)
    (alive : m.state ≠ .stopped) (present : t.Present p) (other : p ≠ record.actor)
    (hs : record.sequence < t.nextFailure) : (t.raised record p).Notes := by
  have waiting := waiting_raised seat.1 hn hp
  set t₁ := t.modify record.actor (Member.fail · record true) with ht₁
  have failed : ∀ {y k}, t₁.Seats y k ↔ ∃ m, t.Seats y m ∧
      k = if y.slot = record.actor.slot then m.fail record true else m :=
    seats_modify (f := (Member.fail · record true)) fun _ => rfl
  have awaited : ∀ {y k}, (t.raised record p).Seats y k ↔
      ∃ m, t₁.Seats y m ∧ k = if y.slot = p.slot then m.await else m :=
    seats_modify (f := Member.await) fun _ => rfl
  have stays : ∀ {q}, t.Present q → (t.raised record p).Present q := by
    intro q there
    have first : t₁.Present q := there.modify (f := (Member.fail · record true)) (fun _ => rfl)
      fun _ _ _ live running => ⟨live, running⟩
    exact first.modify (f := Member.await) (fun _ => rfl)
      fun _ _ _ live running => ⟨live, running⟩
  refine ⟨?_, ?_, ?_⟩
  · have slotted : ∀ (i : ℕ) (m : Member), t₁.members[i]? = some m → m.reference.slot = i :=
      slotted_modify (f := (Member.fail · record true)) h.slotted fun _ => rfl
    exact slotted_modify (f := Member.await) slotted fun _ => rfl
  · intro r k last
    obtain ⟨k₁, middle, rfl⟩ := awaited.mp last
    obtain ⟨k₀, seated, rfl⟩ := failed.mp middle
    have before := h.waits r k₀ seated
    have pending : ∀ m : Member, (if r.slot = record.actor.slot then m.fail record true
        else m).pendingFailures = m.pendingFailures := by
      intro m
      split_ifs <;> rfl
    rw [waiting]
    obtain ⟨q, seat', -⟩ := present
    by_cases here : r.slot = p.slot
    · obtain rfl : r = p := seated.slot_eq seat' here
      rw [if_pos rfl, if_pos rfl]
      show (if r.slot = record.actor.slot then k₀.fail record true else k₀).pendingFailures + 1 = _
      rw [pending]
      omega
    · have distinct : r ≠ p := fun same => here (by rw [same])
      rw [if_neg here, if_neg distinct, pending]
      omega
  · intro y k n last told
    obtain ⟨k₁, middle, rfl⟩ := awaited.mp last
    obtain ⟨k₀, seated, rfl⟩ := failed.mp middle
    by_cases here : y.slot = record.actor.slot
    · obtain rfl : y = record.actor := seated.slot_eq seat here
      obtain rfl := seated.unique seat
      have told : (k₀.fail record true).notification = some n := by
        rw [if_pos rfl] at told
        split_ifs at told <;> exact told
      have about : n = ⟨record, 0⟩ := by
        simp only [Member.fail, hn] at told
        exact (Option.some.inj told).symm
      rw [about, if_pos rfl]
      refine ⟨rfl, hs, ?_, p, ?_, stays present, other⟩
      · split_ifs <;> exact alive
      · split_ifs <;> exact hp
    · rw [if_neg here] at told ⊢
      have told₀ : k₀.notification = some n := by
        split_ifs at told <;> exact told
      obtain ⟨about, before, alive', p', below', present', other'⟩ := h.told y k₀ n seated told₀
      refine ⟨about, before, ?_, p', ?_, stays present', other'⟩
      · split_ifs <;> exact alive'
      · split_ifs <;> exact below'

theorem Notes.fail {cfg : Config} {record : FailureRecord} {notify : Bool} (h : t.Notes)
    (hm : t.May cfg (.fail record notify)) : (t.fail record notify).Notes := by
  obtain ⟨sequence, m, seat, alive, supervised⟩ := hm
  set t₀ : Roster := { t with
    nextFailure := t.nextFailure + 1
    lastError := some record
    failures := t.failures + 1 } with ht₀
  have h₀ : t₀.Notes := h.congr rfl (Nat.le_succ _)
  have told : t.fail record notify = t₀.tell record notify := rfl
  rw [told]
  cases hr : raises m notify with
  | false =>
    rw [tell_quiet (t := t₀) seat.1 hr]
    have noted : (t₀.modify record.actor (Member.fail · record notify)).Notes := by
      apply h₀.modify_calm (f := (Member.fail · record notify)) (fun _ => rfl) _ fun _ => rfl
      intro k found
      obtain rfl : m = k := Option.some.inj (seat.1.symm.trans found)
      exact discreet_fail hr
    exact noted.congr rfl le_rfl
  | true =>
    unfold raises at hr
    simp only [Bool.and_eq_true, Option.isNone_iff_eq_none] at hr
    obtain ⟨rfl, silent⟩ := hr
    obtain ⟨p, below, present, other⟩ := supervised rfl
    rw [tell_raises (t := t₀) seat.1 silent below]
    apply h₀.raised (m := m) seat silent below alive present other
    show record.sequence < t.nextFailure + 1
    omega

theorem May.notes {cfg : Config} {c : Change} (hm : t.May cfg c) (h : t.Notes) :
    (t.after c).Notes := by
  cases c with
  | join r parent => exact h.join hm
  | enter r state => exact h.enter hm
  | late root =>
    have marked : (t.modify root Member.late).Notes :=
      h.modify_calm (fun _ => rfl) (fun _ _ => ⟨⟨rfl, rfl⟩, rfl⟩) fun _ => rfl
    exact marked.congr rfl le_rfl
  | fail record notify => exact h.fail hm
  | claim supervisor source =>
    obtain ⟨n, pending⟩ := hm
    exact (h.hush pending).congr rfl le_rfl
  | silence supervisor source =>
    obtain ⟨n, pending⟩ := hm
    exact (h.hush pending).congr rfl le_rfl
  | lapse => exact h.congr rfl le_rfl
  | retire r => exact h.retire hm
  | register => exact h.congr rfl le_rfl
  | lease => exact h.congr rfl le_rfl
  | release => exact h.congr rfl le_rfl
  | unregister => exact h.congr rfl le_rfl
  | revoke => exact h.congr rfl le_rfl

/-! ## The failures that wait -/

/-- The actor tells its parent about the failure. -/
def Waits (t : Roster) (p q : ActorRef) (e : FailureRecord) : Prop :=
  ∃ k n, t.Seats q k ∧ k.parent = some p ∧ k.notification = some n ∧ n.failure = e

theorem Waits.congr {t' : Roster} {p q : ActorRef} {e : FailureRecord} (h : t'.Waits p q e)
    (hm : t'.members = t.members) : t.Waits p q e := by
  obtain ⟨k, n, seat, rest⟩ := h
  refine ⟨k, n, ?_, rest⟩
  unfold Seats at seat ⊢
  rwa [hm] at seat

theorem Waits.modify {f : Member → Member} {p q : ActorRef} {e : FailureRecord}
    (h : (t.modify x f).Waits p q e) (hr : ∀ m, (f m).reference = m.reference)
    (hf : ∀ m, t.members[x.slot]? = some m → Loyal m (f m)) : t.Waits p q e := by
  obtain ⟨k', n, seated, below, told, about⟩ := h
  obtain ⟨k, seat, rfl⟩ := (seats_modify hr).mp seated
  split_ifs at below told with here
  · have same := hf k (seat.reached here)
    obtain ⟨n', told', unchanged⟩ := same.some told
    rw [same.parent] at below
    exact ⟨k, n', seat, below, told', unchanged.trans about⟩
  · exact ⟨k, n, seat, below, told, about⟩

theorem Waits.seated {p q : ActorRef} {e : FailureRecord} (h : (t.seated r parent).Waits p q e)
    (hv : t.Vacant r) : t.Waits p q e := by
  obtain ⟨k, n, seat, below, told, about⟩ := h
  obtain ⟨rfl, rfl⟩ | ⟨-, seat⟩ := (seats_seated hv).mp seat
  · cases told
  · exact ⟨k, n, seat, below, told, about⟩

theorem Waits.hush {supervisor source p q : ActorRef} {e : FailureRecord}
    (h : (t.hush supervisor source).Waits p q e) : t.Waits p q e ∧ q.slot ≠ source.slot := by
  have h : (t.modify source Member.silence).Waits p q e :=
    h.modify (f := Member.hear) (fun _ => rfl) fun _ _ => ⟨rfl, rfl⟩
  obtain ⟨k', n, seated, below, told, about⟩ := h
  obtain ⟨k, seat, rfl⟩ := (seats_modify (f := Member.silence) fun _ => rfl).mp seated
  split_ifs at below told with here
  · cases told
  · exact ⟨⟨k, n, seat, below, told, about⟩, here⟩

theorem Waits.raised {record : FailureRecord} {p' p q : ActorRef} {e : FailureRecord}
    (h : (t.raised record p').Waits p q e) (seat : t.Seats record.actor m)
    (hn : m.notification = none) :
    t.Waits p q e ∨ q = record.actor ∧ e = record := by
  have h : (t.modify record.actor (Member.fail · record true)).Waits p q e :=
    h.modify (f := Member.await) (fun _ => rfl) fun _ _ => ⟨rfl, rfl⟩
  obtain ⟨k', n, seated, below, told, about⟩ := h
  obtain ⟨k, seat', rfl⟩ :=
    (seats_modify (f := (Member.fail · record true)) fun _ => rfl).mp seated
  split_ifs at below told with here
  · obtain rfl : q = record.actor := seat'.slot_eq seat here
    obtain rfl := seat'.unique seat
    right
    simp only [Member.fail, hn] at told
    obtain rfl := Option.some.inj told
    exact ⟨rfl, about.symm⟩
  · exact .inl ⟨k, n, seat', below, told, about⟩

/-- A failure that waits after a change waited before, or was raised by the change. -/
theorem May.waits {cfg : Config} {c : Change} (hm : t.May cfg c) {p q : ActorRef}
    {e : FailureRecord} (h : (t.after c).Waits p q e) :
    t.Waits p q e ∨ ∃ notify, c = .fail e notify ∧ q = e.actor := by
  cases c with
  | join r parent =>
    left
    have h : (t.join r parent).Waits p q e := h
    rw [join_eq] at h
    cases parent with
    | none => exact h.seated hm.1
    | some p' =>
      have before : (t.seated r (some p')).Waits p q e :=
        h.modify (f := (Member.adopt · r)) (fun _ => rfl) fun _ _ => ⟨rfl, rfl⟩
      exact before.seated hm.1
  | enter r state => exact .inl (h.modify (fun _ => rfl) fun _ _ => ⟨rfl, rfl⟩)
  | late root =>
    have marked : (t.modify root Member.late).Waits p q e := h.congr rfl
    exact .inl (marked.modify (fun _ => rfl) fun _ _ => ⟨rfl, rfl⟩)
  | fail record notify =>
    obtain ⟨sequence, m, seat, alive, supervised⟩ := hm
    set t₀ : Roster := { t with
      nextFailure := t.nextFailure + 1
      lastError := some record
      failures := t.failures + 1 }
    have h : (t₀.tell record notify).Waits p q e := h
    have back : t₀.Waits p q e ∨ q = record.actor ∧ e = record := by
      cases hr : raises m notify with
      | false =>
        rw [tell_quiet (t := t₀) seat.1 hr] at h
        have noted : (t₀.modify record.actor (Member.fail · record notify)).Waits p q e :=
          h.congr rfl
        left
        apply noted.modify fun _ => rfl
        intro k found
        obtain rfl : m = k := Option.some.inj (seat.1.symm.trans found)
        exact (discreet_fail hr).toLoyal
      | true =>
        unfold raises at hr
        simp only [Bool.and_eq_true, Option.isNone_iff_eq_none] at hr
        obtain ⟨rfl, silent⟩ := hr
        obtain ⟨p', below, -⟩ := supervised rfl
        rw [tell_raises (t := t₀) seat.1 silent below] at h
        exact Waits.raised (m := m) h seat silent
    obtain before | ⟨source, rfl⟩ := back
    · exact .inl (before.congr rfl)
    · exact .inr ⟨notify, rfl, source⟩
  | claim supervisor source =>
    have hushed : (t.hush supervisor source).Waits p q e := h.congr rfl
    exact .inl hushed.hush.1
  | silence supervisor source =>
    have hushed : (t.hush supervisor source).Waits p q e := h.congr rfl
    exact .inl hushed.hush.1
  | lapse => exact .inl (h.congr rfl)
  | retire r =>
    left
    have h : (t.retire r).Waits p q e := h
    unfold Roster.retire at h
    cases found : t.members[r.slot]? with
    | none =>
      rw [found] at h
      exact h
    | some m =>
      rw [found] at h
      dsimp only at h
      have stopped : (t.modify r (Member.enter · .stopped)).Waits p q e := by
        cases parent : m.parent with
        | none =>
          rw [parent] at h
          exact h
        | some p' =>
          rw [parent] at h
          exact h.modify (f := (Member.inherit · m)) (fun _ => rfl) fun _ _ => ⟨rfl, rfl⟩
      exact stopped.modify (fun _ => rfl) fun _ _ => ⟨rfl, rfl⟩
  | register => exact .inl (h.congr rfl)
  | lease => exact .inl (h.congr rfl)
  | release => exact .inl (h.congr rfl)
  | unregister => exact .inl (h.congr rfl)
  | revoke => exact .inl (h.congr rfl)

/-- No two children wait with one failure, and no number is used that has yet to come. -/
structure Numbered (t : Roster) : Prop where
  distinct : ∀ p p' q q' e e', t.Waits p q e → t.Waits p' q' e' → e.sequence = e'.sequence →
    q = q'
  before : ∀ p q e, t.Waits p q e → e.sequence < t.nextFailure

theorem nextFailure_after {cfg : Config} {c : Change} (hm : t.May cfg c) :
    t.nextFailure ≤ (t.after c).nextFailure ∧ ∀ record notify, c = .fail record notify →
      record.sequence = t.nextFailure ∧ (t.after c).nextFailure = t.nextFailure + 1 := by
  have told : ∀ (t : Roster) (record : FailureRecord) (notify : Bool),
      (t.tell record notify).nextFailure = t.nextFailure := by
    intro t record notify
    unfold Roster.tell
    dsimp only
    cases t.members[record.actor.slot]? with
    | none => rfl
    | some m =>
      dsimp only
      split_ifs
      · rfl
      · rfl
      · cases m.parent <;> rfl
  cases c with
  | fail record notify =>
    have next : (t.after (.fail record notify)).nextFailure = t.nextFailure + 1 :=
      told _ record notify
    refine ⟨by omega, ?_⟩
    rintro record' notify' same
    cases same
    exact ⟨hm.1, next⟩
  | join r parent =>
    refine ⟨?_, nofun⟩
    show t.nextFailure ≤ (t.join r parent).nextFailure
    rw [join_eq]
    cases parent <;> exact le_rfl
  | retire r =>
    refine ⟨?_, nofun⟩
    show t.nextFailure ≤ (t.retire r).nextFailure
    unfold Roster.retire
    cases t.members[r.slot]? with
    | none => exact le_rfl
    | some m =>
      dsimp only
      cases m.parent <;> exact le_rfl
  | _ => exact ⟨le_rfl, nofun⟩

theorem May.numbered {cfg : Config} {c : Change} (hm : t.May cfg c) (h : t.Numbered) :
    (t.after c).Numbered := by
  obtain ⟨later, raised⟩ := nextFailure_after hm
  have first : ∀ {e notify p q e'}, c = .fail e notify → t.Waits p q e' →
      e'.sequence ≠ e.sequence := by
    intro e notify p q e' same waits
    have early := h.before p q e' waits
    have number := (raised e notify same).1
    omega
  constructor
  · intro p p' q q' e e' waits waits' number
    obtain old | ⟨notify, same, source⟩ := hm.waits waits
    · obtain old' | ⟨notify, same, source⟩ := hm.waits waits'
      · exact h.distinct p p' q q' e e' old old' number
      · exact absurd number (first same old)
    · obtain old' | ⟨notify', same', source'⟩ := hm.waits waits'
      · exact absurd number.symm (first same old')
      · rw [same] at same'
        cases same'
        exact source.trans source'.symm
  · intro p q e waits
    obtain old | ⟨notify, same, source⟩ := hm.waits waits
    · exact lt_of_lt_of_le (h.before p q e old) later
    · obtain ⟨number, next⟩ := raised e notify same
      omega

end Roster

end Actorplane
