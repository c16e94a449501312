import Actorplane.Reach.Runs
import Actorplane.Supervision.Notices

/-!
# Reports and claims of a run

Every failure that is told to a supervisor is accounted for: it joined a notification
that was waiting already, or its own notification still waits, was delivered, or was
discarded. A supervisor hears of the failures of its children in the order of the
reports, each at most once.
-/

namespace Actorplane

variable {t t' : Roster} {r x : ActorRef} {m : Member} {parent : Option ActorRef}

namespace Roster

theorem Notes.seats (h : t.Notes) (hm : m ∈ t.members) : t.Seats m.reference m := by
  obtain ⟨i, found⟩ := List.getElem?_of_mem hm
  refine ⟨?_, rfl⟩
  rw [h.slotted i m found]
  exact found

theorem Notes.nodup (h : t.Notes) : (t.members.map (·.reference)).Nodup := by
  have slots : (t.members.map (·.reference)).map (·.slot) = List.range t.members.length := by
    apply List.ext_getElem
    · simp
    · intro i inside _
      have inside : i < t.members.length := by simpa using inside
      simpa using h.slotted i t.members[i] (List.getElem?_eq_getElem inside)
  apply List.Nodup.of_map (·.slot)
  rw [slots]
  exact List.nodup_range

/-! ## Totals -/

/-- Notifications that wait, were delivered or were discarded. -/
def balance (t : Roster) : ℕ := t.notified + t.delivered + t.discarded

/-- The totals that only a report, a claim and a lapse may change. -/
structure Steady (t t' : Roster) : Prop where
  balance : t'.balance = t.balance
  coalesced : t'.coalesced = t.coalesced
  delivered : t'.delivered = t.delivered
  failures : t'.failures = t.failures
  nextFailure : t'.nextFailure = t.nextFailure

theorem Steady.refl (t : Roster) : Steady t t := ⟨rfl, rfl, rfl, rfl, rfl⟩

theorem Steady.trans {t'' : Roster} (h : Steady t t') (h' : Steady t' t'') : Steady t t'' :=
  ⟨h'.balance.trans h.balance, h'.coalesced.trans h.coalesced, h'.delivered.trans h.delivered,
    h'.failures.trans h.failures, h'.nextFailure.trans h.nextFailure⟩

theorem Steady.modify {f : Member → Member}
    (hf : ∀ m, t.members[x.slot]? = some m → Discreet m (f m)) : Steady t (t.modify x f) := by
  refine ⟨?_, rfl, rfl, rfl, rfl⟩
  show (t.modify x f).notified + t.delivered + t.discarded = _
  rw [notified_modify hf]
  rfl

theorem Steady.seated {cfg : Config} (h : t.Notes) (hm : t.May cfg (.join r parent)) :
    Steady t (t.seated r parent) := by
  refine ⟨?_, rfl, rfl, rfl, rfl⟩
  have same : (t.seated r parent).notified = t.notified := countP_seated h hm.1 fun _ told => told
  show (t.seated r parent).notified + t.delivered + t.discarded = _
  rw [same]
  rfl

theorem Steady.hush {supervisor source : ActorRef} {n : Notification}
    (h : t.Pending supervisor source n) : (t.hush supervisor source).notified + 1 = t.notified := by
  have heard : (t.hush supervisor source).notified = (t.modify source Member.silence).notified :=
    countP_modify fun _ _ => rfl
  rw [heard]
  exact notified_silence h

theorem May.steady {cfg : Config} {c : Change} (hm : t.May cfg c) (hc : c.mild) (h : t.Notes) :
    Steady t (t.after c) := by
  cases c with
  | join r parent =>
    have seated := Steady.seated h hm
    show Steady t (t.join r parent)
    rw [join_eq]
    cases parent with
    | none => exact seated
    | some p => exact seated.trans (.modify fun _ _ => ⟨⟨rfl, rfl⟩, rfl⟩)
  | enter r state => exact .modify fun _ _ => ⟨⟨rfl, rfl⟩, rfl⟩
  | late root =>
    have marked : Steady t (t.modify root Member.late) := .modify fun _ _ => ⟨⟨rfl, rfl⟩, rfl⟩
    exact marked.trans ⟨rfl, rfl, rfl, rfl, rfl⟩
  | fail record notify => exact hc.elim
  | claim supervisor source => exact hc.elim
  | silence supervisor source =>
    obtain ⟨n, pending⟩ := hm
    have fewer := Steady.hush pending
    refine ⟨?_, rfl, rfl, rfl, rfl⟩
    show (t.hush supervisor source).notified + t.delivered + (t.discarded + 1) =
      t.notified + t.delivered + t.discarded
    omega
  | lapse => exact hc.elim
  | retire r =>
    show Steady t (t.retire r)
    unfold Roster.retire
    cases t.members[r.slot]? with
    | none => exact .refl t
    | some m =>
      have stopped : Steady t (t.modify r (Member.enter · .stopped)) :=
        .modify fun _ _ => ⟨⟨rfl, rfl⟩, rfl⟩
      dsimp only
      cases m.parent with
      | none => exact stopped
      | some p => exact stopped.trans (.modify fun _ _ => ⟨⟨rfl, rfl⟩, rfl⟩)
  | register => exact ⟨rfl, rfl, rfl, rfl, rfl⟩
  | lease => exact ⟨rfl, rfl, rfl, rfl, rfl⟩
  | release => exact ⟨rfl, rfl, rfl, rfl, rfl⟩
  | unregister => exact ⟨rfl, rfl, rfl, rfl, rfl⟩
  | revoke => exact ⟨rfl, rfl, rfl, rfl, rfl⟩

/-- Mild changes leave the totals where they are. -/
theorem Notes.steady {cfg : Config} (h : t.Notes) (ha : Alters cfg Change.mild t t') :
    Steady t t' := by
  have kept := ha.invariant (I := fun t' => t'.Notes ∧ Steady t t') ⟨h, .refl t⟩
    fun _ _ both mild may => ⟨may.notes both.1, both.2.trans (may.steady mild both.1)⟩
  exact kept.2

/-- The totals after a failure, which raises a notification, joins one, or tells nobody. -/
theorem fail_totals {cfg : Config} {record : FailureRecord} {notify : Bool}
    (hm : t.May cfg (.fail record notify)) (seat : t.Seats record.actor m) :
    (t.fail record notify).balance =
        t.balance + (if notify = true ∧ m.notification = none then 1 else 0) ∧
      (t.fail record notify).coalesced =
        t.coalesced + (if notify = true ∧ m.notification ≠ none then 1 else 0) ∧
      (t.fail record notify).delivered = t.delivered ∧
      (t.fail record notify).failures = t.failures + 1 ∧
      (t.fail record notify).nextFailure = t.nextFailure + 1 := by
  obtain ⟨-, m', seat', -, supervised⟩ := hm
  obtain rfl := seat'.unique seat
  set t₀ : Roster := { t with
    nextFailure := t.nextFailure + 1
    lastError := some record
    failures := t.failures + 1 } with ht₀
  have told : t.fail record notify = t₀.tell record notify := rfl
  rw [told]
  cases raised : raises m' notify with
  | false =>
    rw [tell_quiet (t := t₀) seat.1 raised]
    have same : (t₀.modify record.actor (Member.fail · record notify)).notified = t₀.notified := by
      apply notified_modify (f := (Member.fail · record notify))
      intro k found
      obtain rfl : m' = k := Option.some.inj (seat.1.symm.trans found)
      exact discreet_fail raised
    refine ⟨?_, ?_, rfl, rfl, rfl⟩
    · show (t₀.modify record.actor (Member.fail · record notify)).notified + t.delivered +
        t.discarded = _
      rw [same, if_neg]
      · rfl
      · rintro ⟨rfl, silent⟩
        simp [raises, silent] at raised
    · show t.coalesced + (if notify then 1 else 0) = _
      congr 1
      cases notify with
      | false => rfl
      | true =>
        rw [if_pos rfl, if_pos]
        refine ⟨rfl, fun silent => ?_⟩
        simp [raises, silent] at raised
  | true =>
    unfold raises at raised
    simp only [Bool.and_eq_true, Option.isNone_iff_eq_none] at raised
    obtain ⟨rfl, silent⟩ := raised
    obtain ⟨p, below, -⟩ := supervised rfl
    rw [tell_raises (t := t₀) seat.1 silent below]
    have more := @notified_raised t₀ m' record p seat.1 silent
    refine ⟨?_, ?_, rfl, rfl, rfl⟩
    · show (t₀.raised record p).notified + t.delivered + t.discarded = _
      have same : t₀.notified = t.notified := rfl
      rw [more, same, if_pos ⟨rfl, silent⟩]
      unfold balance
      omega
    · rw [if_neg fun both => both.2 silent]
      rfl

end Roster

namespace World

variable {w : World} {st st' : State} {a : Actor}

/-! ## Who waits for whom -/

theorem Staffed.seats (h : w.Staffed st) :
    st.roster.Seats r m ↔ ∃ a, w.checkRef r st = .ok a ∧ a.member = m := by
  rw [State.seats_iff]
  constructor
  · rintro ⟨a, found, current, same⟩
    exact ⟨a, h.rests.check.mpr ⟨found, current⟩, same⟩
  · rintro ⟨a, check, same⟩
    obtain ⟨found, current⟩ := h.rests.check.mp check
    exact ⟨a, found, current, same⟩

/-- The waiting children of an actor, as its own list of children has them. -/
theorem Staffed.waiting (h : w.Staffed st) (hn : st.roster.Notes)
    (hc : w.checkRef r st = .ok a) :
    st.roster.waiting r = (a.children.filter (w.notifying st)).length := by
  have hv := h.rests.valid
  set p : Member → Bool := fun k => decide (k.parent = some r) && k.notification.isSome with hp
  have counted : st.roster.waiting r = ((st.roster.members.filter p).map (·.reference)).length := by
    rw [List.length_map, ← List.countP_eq_length_filter]
    rfl
  rw [counted]
  apply List.Perm.length_eq
  rw [List.perm_ext_iff_of_nodup]
  · intro q
    constructor
    · intro mem
      obtain ⟨k, kept, rfl⟩ := List.mem_map.mp mem
      obtain ⟨mem, told⟩ := List.mem_filter.mp kept
      simp only [hp, Bool.and_eq_true, decide_eq_true_eq] at told
      obtain ⟨below, notified⟩ := told
      obtain ⟨b, check, rfl⟩ := h.seats.mp (hn.seats mem)
      refine List.mem_filter.mpr ⟨?_, ?_⟩
      · obtain ⟨n, told⟩ := Option.isSome_iff_exists.mp notified
        have alive := (hn.told _ _ n (hn.seats mem) told).2.2.1
        exact (hv.owned.child r a.node _ (seated_of_check hv.owned hc)).mpr
          ⟨b.node, seated_of_check hv.owned check, alive, below⟩
      · unfold notifying
        rw [check]
        exact notified
    · intro mem
      obtain ⟨child, notifies⟩ := List.mem_filter.mp mem
      obtain ⟨n, k, p', seat, below, told, -⟩ := pending_of_notifying hv hc child notifies
      refine List.mem_map.mpr ⟨k, List.mem_filter.mpr ⟨?_, ?_⟩, seat.2⟩
      · exact List.mem_of_getElem? seat.1
      · simp [hp, below, told]
  · exact hn.nodup.sublist (List.filter_sublist.map _)
  · have nodup := hv.owned.children_nodup r.slot a.node (seated_of_check hv.owned hc).1
    exact nodup.filter _

/-- What the notifications of a World and its actors say about each other. -/
structure Supervised (w : World) (st : State) : Prop where
  waits : ∀ r a, w.checkRef r st = .ok a →
    a.pendingFailures = (a.children.filter (w.notifying st)).length
  told : ∀ q k n, w.checkRef q st = .ok k → k.notification = some n →
    n.failure.actor = q ∧ n.failure.sequence < st.nextFailure ∧ k.state ≠ .stopped ∧
      ∃ p a, k.parent = some p ∧ w.checkRef p st = .ok a ∧ q ∈ a.children ∧
        a.state ≠ .stopping ∧ a.state ≠ .stopped

theorem notes_init : w.init.roster.Notes where
  slotted := by
    intro i m found
    cases found
  waits := by
    intro r m seat
    cases seat.1
  told := by
    intro q k n seat
    cases seat.1

theorem numbered_init : w.init.roster.Numbered := by
  have none : ∀ {p q e}, ¬w.init.roster.Waits p q e := by
    rintro p q e ⟨k, n, seat, -⟩
    cases seat.1
  exact ⟨fun _ _ _ _ _ _ waits => absurd waits none, fun _ _ _ waits => absurd waits none⟩

theorem notes (actions : List Action) : (w.exec w.init actions).roster.Notes :=
  roster_invariant notes_init (fun _ _ _ notes may => may.notes notes) actions

/-- After every run each actor counts its notified children, and each of them is heard. -/
theorem notifications_exact (w : World) (actions : List Action) :
    w.Supervised (w.exec w.init actions) := by
  have staffed := w.staffed actions
  have notes := w.notes actions
  constructor
  · intro r a check
    rw [← staffed.waiting notes check]
    exact notes.waits r a.member (staffed.seats.mpr ⟨a, check, rfl⟩)
  · intro q k n check told
    have seat := staffed.seats.mpr ⟨k, check, rfl⟩
    obtain ⟨about, before, alive, p, below, ⟨m, there, live, running⟩, -⟩ :=
      notes.told q k.member n seat told
    obtain ⟨a, check', rfl⟩ := staffed.seats.mp there
    have ho := staffed.rests.valid.owned
    refine ⟨about, before, alive, p, a, below, check', ?_, live, running⟩
    exact (ho.child p a.node q (seated_of_check ho check')).mpr
      ⟨k.node, seated_of_check ho check, alive, below⟩

/-! ## What a run raises, delivers and discards -/

/-- How many calls of a run have the property where they are made. -/
def tally (w : World) (p : State → Action → Bool) (st : State) : List Action → ℕ
  | [] => 0
  | action :: actions =>
    (if p st action then 1 else 0) + tally w p (w.step action st).2 actions

/-- The notification that a report is for, if its supervisor is told: a new one or not. -/
def tells (w : World) (st : State) : Action → Option (Option Notification)
  | .reportFailure r _ _ operation phase _ =>
    match w.reporter r operation st with
    | none => none
    | some a => if w.failureNotifies a.parent phase st then some a.notification else none
  | _ => none

def raises (w : World) (st : State) (action : Action) : Bool :=
  w.tells st action = some none

def joins (w : World) (st : State) (action : Action) : Bool :=
  (w.tells st action).any Option.isSome

/-- A claim is abandoned by its supervisor. -/
def lapses (st : State) : Action → Bool
  | .dropFailure lease => lease ∈ st.failureLeases
  | _ => false

end World

/-- The failure that a call reported. -/
def Outcome.reported : Outcome → Option FailureRecord
  | .failureRecord (.ok record) => some record
  | _ => none

/-- The notification that a call handed to a supervisor. -/
def Outcome.claimed : Outcome → Option FailureLease
  | .failure (.ok lease) => lease
  | _ => none

namespace World

variable {w : World} {st st' : State} {a : Actor}

theorem quiet_outcome {action : Action} (h : action.supervises = false) :
    (w.step action st).1.reported = none ∧ (w.step action st).1.claimed = none := by
  have kept : ∀ {α : Type} [DecidableEq α] (leases : List α) (lease : α) (call : Outcome × State),
      call.1.reported = none ∧ call.1.claimed = none →
      (outstanding leases lease call st).1.reported = none ∧
        (outstanding leases lease call st).1.claimed = none := by
    intro α _ leases lease call quiet
    unfold outstanding
    split_ifs
    · exact quiet
    · exact ⟨rfl, rfl⟩
  cases action with
  | reportFailure => cases h
  | claimFailure => cases h
  | dropFailure => cases h
  | resumeRequest => exact kept _ _ _ ⟨rfl, rfl⟩
  | deliveryPublish => exact kept _ _ _ ⟨rfl, rfl⟩
  | taskPublish => exact kept _ _ _ ⟨rfl, rfl⟩
  | finishDelivery => exact kept _ _ _ ⟨rfl, rfl⟩
  | dropDelivery => exact kept _ _ _ ⟨rfl, rfl⟩
  | dropTask => exact kept _ _ _ ⟨rfl, rfl⟩
  | dropCallback => exact kept _ _ _ ⟨rfl, rfl⟩
  | finishFailure => exact kept _ _ _ ⟨rfl, rfl⟩
  | _ => exact ⟨rfl, rfl⟩

/-- What one call does to the totals. -/
structure Counts (w : World) (action : Action) (st st' : State) (outcome : Outcome) : Prop where
  balance : st'.roster.balance = st.roster.balance + (if w.raises st action then 1 else 0) +
    (if lapses st action then 1 else 0)
  coalesced : st'.roster.coalesced = st.roster.coalesced + (if w.joins st action then 1 else 0)
  delivered : st'.roster.delivered =
    st.roster.delivered + (if outcome.claimed.isSome then 1 else 0)
  failures : st'.roster.failures = st.roster.failures + (if outcome.reported.isSome then 1 else 0)
  nextFailure : st'.roster.nextFailure =
    st.roster.nextFailure + (if outcome.reported.isSome then 1 else 0)

theorem Counts.calm {action : Action} {outcome : Outcome}
    (hs : st.roster.Steady st'.roster) (ht : w.tells st action = none)
    (hl : lapses st action = false) (hr : outcome.reported = none) (hc : outcome.claimed = none) :
    Counts w action st st' outcome := by
  have quiet : w.raises st action = false := by simp [raises, ht]
  have single : w.joins st action = false := by simp [joins, ht]
  constructor
  · rw [quiet, hl]
    exact hs.balance
  · rw [single]
    exact hs.coalesced
  · rw [hc]
    exact hs.delivered
  · rw [hr]
    exact hs.failures
  · rw [hr]
    exact hs.nextFailure

theorem Staffed.counts_report (h : w.Staffed st) (hn : st.roster.Notes) (r : ActorRef)
    (event schema : Option ℕ) (op : Option OperationId) (phase : FailurePhase)
    (action : FailureAction) :
    Counts w (.reportFailure r event schema op phase action) st
      (w.step (.reportFailure r event schema op phase action) st).2
      (w.step (.reportFailure r event schema op phase action) st).1 := by
  have hv := h.rests.valid
  show Counts w _ st (w.reportFailure r event schema op phase action st).2
    (.failureRecord (w.reportFailure r event schema op phase action st).1)
  obtain ⟨nobody, ⟨e, refused⟩, same⟩ | ⟨a, accepted, check, returned, makes⟩ :=
    reportFailure_makes (r := r) hv h.tidy event schema op phase action
  · have steady : st.roster.Steady
        (w.reportFailure r event schema op phase action st).2.roster := by
      rw [same]
      exact .refl _
    rw [refused]
    exact .calm steady (by simp [tells, nobody]) rfl rfl rfl
  · rw [returned]
    set record : FailureRecord := ⟨st.nextFailure, r, event, schema, op, phase, action⟩
    have seat : st.roster.Seats record.actor a.member := h.seats.mpr ⟨a, check, rfl⟩
    obtain ⟨balance, coalesced, delivered, failures, next⟩ := Roster.fail_totals makes.may seat
    have steady := (makes.may.notes hn).steady makes.mild
    have told : w.tells st (.reportFailure r event schema op phase action) =
        if w.failureNotifies a.parent phase st then some a.notification else none := by
      simp [tells, accepted]
    have raised : w.raises st (.reportFailure r event schema op phase action) =
        decide (w.failureNotifies a.parent phase st = true ∧ a.member.notification = none) := by
      unfold raises
      rw [told]
      have silent : a.member.notification = a.notification := rfl
      cases w.failureNotifies a.parent phase st <;> simp [silent]
    have joined : w.joins st (.reportFailure r event schema op phase action) =
        decide (w.failureNotifies a.parent phase st = true ∧ a.member.notification ≠ none) := by
      unfold joins
      rw [told]
      have silent : a.member.notification = a.notification := rfl
      cases w.failureNotifies a.parent phase st <;>
        simp [silent, ← Option.isSome_iff_ne_none]
    have after : st.roster.after (.fail record (w.failureNotifies a.parent phase st)) =
      st.roster.fail record (w.failureNotifies a.parent phase st) := rfl
    constructor
    · rw [steady.balance, raised, after, balance]
      simp [lapses]
    · rw [steady.coalesced, joined, after, coalesced]
      simp
    · exact steady.delivered.trans delivered
    · exact steady.failures.trans failures
    · exact steady.nextFailure.trans next

theorem Staffed.counts_claim (h : w.Staffed st) (hn : st.roster.Notes) (r : ActorRef) :
    Counts w (.claimFailure r) st (w.step (.claimFailure r) st).2
      (w.step (.claimFailure r) st).1 := by
  have hv := h.rests.valid
  show Counts w _ st (w.claimFailure r st).2 (.failure (w.claimFailure r st).1)
  obtain ⟨nothing, same⟩ | ⟨source, n, handed, pending, -, makes⟩ :=
    claimFailure_makes (r := r) hv
  · have steady : st.roster.Steady (w.claimFailure r st).2.roster := by
      rw [same]
      exact .refl _
    have claimed : (Outcome.failure (w.claimFailure r st).1).claimed = none := by
      cases result : (w.claimFailure r st).1 with
      | error e => rfl
      | ok lease =>
        cases lease with
        | none => rfl
        | some l => exact absurd result (nothing l)
    exact .calm steady rfl rfl rfl claimed
  · rw [handed]
    have fewer := Roster.Steady.hush pending
    have steady := (makes.may.notes hn).steady makes.mild
    constructor
    · rw [steady.balance]
      show (st.roster.hush r source).notified + (st.roster.delivered + 1) + st.roster.discarded =
        st.roster.notified + st.roster.delivered + st.roster.discarded + 0 + 0
      omega
    · exact steady.coalesced
    · exact steady.delivered
    · exact steady.failures
    · exact steady.nextFailure

theorem Staffed.counts_drop (h : w.Staffed st) (hn : st.roster.Notes) (lease : FailureLease) :
    Counts w (.dropFailure lease) st (w.step (.dropFailure lease) st).2
      (w.step (.dropFailure lease) st).1 := by
  have hv := h.rests.valid
  show Counts w _ st (outstanding _ _ _ _).2 (outstanding _ _ _ _).1
  unfold outstanding
  split_ifs with held
  · have makes := dropFailure_makes hv.owned lease
    have steady := (makes.may.notes hn).steady makes.mild
    have lapsed : lapses st (.dropFailure lease) = true := by simpa [lapses] using held
    constructor
    · rw [steady.balance, lapsed]
      rfl
    · exact steady.coalesced
    · exact steady.delivered
    · exact steady.failures
    · exact steady.nextFailure
  · have kept : lapses st (.dropFailure lease) = false := by simpa [lapses] using held
    exact .calm (.refl _) rfl kept rfl rfl

theorem Staffed.counts (h : w.Staffed st) (hn : st.roster.Notes) (action : Action) :
    Counts w action st (w.step action st).2 (w.step action st).1 := by
  by_cases supervises : action.supervises = false
  · have steady := hn.steady (h.mild supervises).alters
    obtain ⟨reported, claimed⟩ := @quiet_outcome w st action supervises
    refine .calm steady ?_ ?_ reported claimed
    · cases action <;> first | rfl | cases supervises
    · cases action <;> first | rfl | cases supervises
  cases action with
  | reportFailure r event schema op phase action =>
    exact h.counts_report hn r event schema op phase action
  | claimFailure r => exact h.counts_claim hn r
  | dropFailure lease => exact h.counts_drop hn lease
  | _ => exact absurd rfl supervises

/-- A quantity that every call raises by what it counts, over a run. -/
theorem Staffed.total {g : State → ℕ} {p : State → Action → Bool}
    (hp : ∀ st action, w.Staffed st → st.roster.Notes →
      g (w.step action st).2 = g st + if p st action then 1 else 0)
    (h : w.Staffed st) (hn : st.roster.Notes) (actions : List Action) :
    g (w.exec st actions) = g st + w.tally p st actions := by
  induction actions generalizing st with
  | nil => rfl
  | cons action actions ih =>
    have kept := (h.alters action).invariant (I := Roster.Notes) hn
      fun _ _ notes _ may => may.notes notes
    have one := hp st action h hn
    have rest := ih (h.step action) kept
    show g (w.exec (w.step action st).2 actions) =
      g st + ((if p st action then 1 else 0) + w.tally p (w.step action st).2 actions)
    omega

theorem tally_outcomes (p : Outcome → Bool) (st : State) (actions : List Action) :
    w.tally (fun st action => p (w.step action st).1) st actions =
      (w.outcomes st actions).countP p := by
  induction actions generalizing st with
  | nil => rfl
  | cons action actions ih =>
    show (if p (w.step action st).1 then 1 else 0) + w.tally _ (w.step action st).2 actions =
      (_ :: _ : List Outcome).countP p
    rw [ih, List.countP_cons]
    omega

theorem tally_either (p q : State → Action → Bool)
    (hpq : ∀ st action, p st action = true → q st action = false) (st : State)
    (actions : List Action) :
    w.tally (fun st action => p st action || q st action) st actions =
      w.tally p st actions + w.tally q st actions := by
  induction actions generalizing st with
  | nil => rfl
  | cons action actions ih =>
    show (if p st action || q st action then 1 else 0) + w.tally _ (w.step action st).2 actions =
      ((if p st action then 1 else 0) + w.tally p (w.step action st).2 actions) +
        ((if q st action then 1 else 0) + w.tally q (w.step action st).2 actions)
    rw [ih]
    have distinct := hpq st action
    cases first : p st action with
    | false =>
      simp only [Bool.false_or, Bool.false_eq_true, if_false]
      omega
    | true =>
      rw [distinct first]
      simp only [Bool.true_or, if_true, Bool.false_eq_true, if_false]
      omega

/-- A report is not an abandoned claim. -/
theorem lapses_of_raises (st : State) (action : Action) (h : w.raises st action = true) :
    lapses st action = false := by
  cases action with
  | dropFailure => cases h
  | _ => rfl

/-- What the totals of a run say. -/
structure Accounted (w : World) (actions : List Action) (st : State) : Prop where
  /-- A notification that was raised still waits, was delivered, or was discarded. -/
  balance : st.actors.countP (·.notification.isSome) + st.metrics.notificationsDelivered +
      st.metrics.notificationsDiscarded =
    w.tally w.raises w.init actions + w.tally lapses w.init actions
  coalesced : st.metrics.notificationsCoalesced = w.tally w.joins w.init actions
  delivered : st.metrics.notificationsDelivered =
    (w.outcomes w.init actions).countP (·.claimed.isSome)
  failures : st.metrics.failures = (w.outcomes w.init actions).countP (·.reported.isSome)
  nextFailure : st.nextFailure = st.metrics.failures + 1

/-- Over every run the totals of failures and notifications are those of its calls. -/
theorem notifications_conserved (w : World) (actions : List Action) :
    w.Accounted actions (w.exec w.init actions) := by
  have total : ∀ {g : State → ℕ} {p : State → Action → Bool},
      (∀ st action, w.Staffed st → st.roster.Notes →
        g (w.step action st).2 = g st + if p st action then 1 else 0) →
      g (w.exec w.init actions) = g w.init + w.tally p w.init actions :=
    fun hp => staffed_init.total hp notes_init actions
  have failures : (w.exec w.init actions).roster.failures =
      w.init.roster.failures + w.tally (fun st action => (w.step action st).1.reported.isSome)
        w.init actions :=
    total (g := fun st => st.roster.failures) fun st action h hn => (h.counts hn action).failures
  have next : (w.exec w.init actions).roster.nextFailure =
      w.init.roster.nextFailure + w.tally (fun st action => (w.step action st).1.reported.isSome)
        w.init actions :=
    total (g := fun st => st.roster.nextFailure) fun st action h hn =>
      (h.counts hn action).nextFailure
  rw [tally_outcomes (·.reported.isSome)] at failures next
  have start : w.init.roster.nextFailure = 1 := rfl
  have none : w.init.roster.failures = 0 := rfl
  rw [start] at next
  rw [none, Nat.zero_add] at failures
  refine ⟨?_, ?_, ?_, failures, ?_⟩
  · have balance := total (g := fun st => st.roster.balance)
      (p := fun st action => w.raises st action || lapses st action) (by
        intro st action h hn
        have counted := (h.counts hn action).balance
        have distinct := @lapses_of_raises w st action
        cases raised : w.raises st action with
        | false => simpa [raised] using counted
        | true => simpa [raised, distinct raised] using counted)
    rw [tally_either _ _ lapses_of_raises] at balance
    have waiting : (w.exec w.init actions).roster.notified =
        (w.exec w.init actions).actors.countP (·.notification.isSome) := List.countP_map
    have nobody : w.init.roster.balance = 0 := rfl
    rw [← waiting, ← Nat.zero_add (w.tally w.raises w.init actions + _), ← nobody]
    exact balance
  · have coalesced := total (g := fun st => st.roster.coalesced) (p := w.joins)
      fun st action h hn => (h.counts hn action).coalesced
    have nobody : w.init.roster.coalesced = 0 := rfl
    rw [nobody, Nat.zero_add] at coalesced
    exact coalesced
  · have delivered := total (g := fun st => st.roster.delivered)
      (p := fun st action => (w.step action st).1.claimed.isSome)
      fun st action h hn => (h.counts hn action).delivered
    have nobody : w.init.roster.delivered = 0 := rfl
    rw [tally_outcomes (·.claimed.isSome), nobody, Nat.zero_add] at delivered
    exact delivered
  · show (w.exec w.init actions).roster.nextFailure = (w.exec w.init actions).roster.failures + 1
    omega

/-! ## The order of claims -/

/-- The failures that a supervisor was told about, in the order in which it claimed them. -/
def heard (p : ActorRef) (outcome : Outcome) : Option FailureRecord :=
  outcome.claimed.bind fun lease =>
    if lease.supervisor = p then some lease.notification.failure else none

/-- Failures of the same run, in the order of their reports. -/
def earlier (e e' : FailureRecord) : Prop := e.sequence < e'.sequence

instance : Std.Antisymm earlier :=
  ⟨fun _ _ before after => absurd (Nat.lt_trans before after) (Nat.lt_irrefl _)⟩

/-- What the claims of a supervisor rely on: nothing older than `s` waits for it, and all that
waits was reported. -/
structure Hearing (p : ActorRef) (s : ℕ) (known : List FailureRecord) (t : Roster) : Prop where
  notes : t.Notes
  numbered : t.Numbered
  waits : ∀ q e, t.Waits p q e → s ≤ e.sequence ∧ e ∈ known
  next : s ≤ t.nextFailure

theorem Hearing.mild {cfg : Config} {p : ActorRef} {s : ℕ} {known : List FailureRecord}
    (h : Hearing p s known t) (ha : Alters cfg Change.mild t t') : Hearing p s known t' := by
  apply ha.invariant (I := Hearing p s known) h
  intro t c h mild may
  refine ⟨may.notes h.notes, may.numbered h.numbered, ?_, ?_⟩
  · intro q e waits
    obtain old | ⟨notify, rfl, -⟩ := may.waits waits
    · exact h.waits q e old
    · exact mild.elim
  · exact h.next.trans (Roster.nextFailure_after may).1

theorem Hearing.fail {cfg : Config} {p : ActorRef} {s : ℕ} {known : List FailureRecord}
    (h : Hearing p s known t) {record : FailureRecord} {notify : Bool}
    (may : t.May cfg (.fail record notify)) :
    Hearing p s (known ++ [record]) (t.after (.fail record notify)) := by
  refine ⟨may.notes h.notes, may.numbered h.numbered, ?_, ?_⟩
  · intro q e waits
    obtain old | ⟨notify', same, -⟩ := may.waits waits
    · obtain ⟨above, mem⟩ := h.waits q e old
      exact ⟨above, List.mem_append_left _ mem⟩
    · cases same
      rw [may.1]
      exact ⟨h.next, List.mem_append_right _ (List.mem_singleton_self _)⟩
  · exact h.next.trans (Roster.nextFailure_after may).1

theorem Hearing.lapse (cfg : Config) {p : ActorRef} {s : ℕ} {known : List FailureRecord}
    (h : Hearing p s known t) : Hearing p s known (t.after .lapse) := by
  have may : t.May cfg .lapse := trivial
  refine ⟨may.notes h.notes, may.numbered h.numbered, ?_, h.next⟩
  intro q e waits
  exact h.waits q e (waits.congr rfl)

/-- After a claim the supervisor hears of later failures only. -/
theorem Hearing.claim (cfg : Config) {p source supervisor : ActorRef} {s : ℕ}
    {known : List FailureRecord} {n : Notification} (h : Hearing p s known t)
    (hp : t.Pending supervisor source n)
    (ho : ∀ q n', t.Pending supervisor q n' → n.failure.sequence ≤ n'.failure.sequence) :
    Hearing p (if supervisor = p then n.failure.sequence + 1 else s) known
      (t.after (.claim supervisor source)) := by
  have may : t.May cfg (.claim supervisor source) := ⟨n, hp⟩
  have here : t.Waits supervisor source n.failure := by
    obtain ⟨m, q, seat, below, told, -⟩ := hp
    exact ⟨m, n, seat, below, told, rfl⟩
  have pending : ∀ q e, t.Waits supervisor q e →
      ∃ n', t.Pending supervisor q n' ∧ n'.failure = e := by
    rintro q e ⟨k, n', seat, below, told, rfl⟩
    obtain ⟨-, -, -, p', below', ⟨m, there, -⟩, other⟩ := h.notes.told q k n' seat told
    obtain rfl : p' = supervisor := Option.some.inj (below'.symm.trans below)
    exact ⟨n', ⟨k, m, seat, below, told, there, other.symm⟩, rfl⟩
  refine ⟨may.notes h.notes, may.numbered h.numbered, ?_, ?_⟩
  · intro q e waits
    have hushed : (t.hush supervisor source).Waits p q e := waits.congr rfl
    obtain ⟨old, elsewhere⟩ := hushed.hush
    refine ⟨?_, (h.waits q e old).2⟩
    split_ifs with mine
    · rw [mine] at pending ho
      obtain ⟨n', pends, rfl⟩ := pending q e old
      have le := ho q n' pends
      have ne : n.failure.sequence ≠ n'.failure.sequence := by
        intro same
        rw [mine] at here
        have source_eq := h.numbered.distinct p p source q _ _ here old same
        exact elsewhere (by rw [source_eq])
      omega
    · exact (h.waits q e old).1
  · show (if supervisor = p then n.failure.sequence + 1 else s) ≤ t.nextFailure
    split_ifs with mine
    · exact h.numbered.before supervisor source n.failure here
    · exact h.next

/-- A call that reports adds to what is known, one that claims hands over what was known. -/
theorem Staffed.hearing (h : w.Staffed st) {p : ActorRef} {s : ℕ} {known : List FailureRecord}
    (hh : Hearing p s known st.roster) (action : Action) :
    ∃ s', Hearing p s' (known ++ (w.step action st).1.reported.toList) (w.step action st).2.roster ∧
      s ≤ s' ∧ ∀ e, heard p (w.step action st).1 = some e →
        s ≤ e.sequence ∧ e.sequence < s' ∧ e ∈ known := by
  have hv := h.rests.valid
  have calm : ∀ {outcome : Outcome} {st' : State}, outcome.reported = none →
      outcome.claimed = none → Hearing p s known st'.roster →
      ∃ s', Hearing p s' (known ++ outcome.reported.toList) st'.roster ∧ s ≤ s' ∧
        ∀ e, heard p outcome = some e → s ≤ e.sequence ∧ e.sequence < s' ∧ e ∈ known := by
    intro outcome st' reported claimed kept
    refine ⟨s, ?_, le_rfl, ?_⟩
    · simpa [reported] using kept
    · intro e told
      simp [heard, claimed] at told
  by_cases supervises : action.supervises = false
  · obtain ⟨reported, claimed⟩ := @quiet_outcome w st action supervises
    exact calm reported claimed (hh.mild (h.mild supervises).alters)
  cases action with
  | reportFailure r event schema op phase action =>
    show ∃ s', Hearing p s' (known ++ (Outcome.failureRecord
      (w.reportFailure r event schema op phase action st).1).reported.toList)
      (w.reportFailure r event schema op phase action st).2.roster ∧ s ≤ s' ∧ ∀ e,
        heard p (.failureRecord (w.reportFailure r event schema op phase action st).1) = some e → _
    obtain ⟨-, ⟨e, refused⟩, same⟩ | ⟨a, -, -, returned, makes⟩ :=
      reportFailure_makes (r := r) hv h.tidy event schema op phase action
    · rw [refused]
      exact calm rfl rfl (same ▸ hh)
    · rw [returned]
      exact ⟨s, (hh.fail makes.may).mild makes.mild, le_rfl, fun e told => by cases told⟩
  | claimFailure r =>
    show ∃ s', Hearing p s' (known ++ []) (w.claimFailure r st).2.roster ∧ s ≤ s' ∧ ∀ e,
      heard p (.failure (w.claimFailure r st).1) = some e → _
    rw [List.append_nil]
    obtain ⟨nothing, same⟩ | ⟨source, n, handed, pending, oldest, makes⟩ :=
      claimFailure_makes (r := r) hv
    · refine ⟨s, same ▸ hh, le_rfl, ?_⟩
      intro e told
      cases result : (w.claimFailure r st).1 with
      | error e => simp [result, heard, Outcome.claimed] at told
      | ok lease =>
        cases lease with
        | none => simp [result, heard, Outcome.claimed] at told
        | some l => exact absurd result (nothing l)
    · have waits : st.roster.Waits r source n.failure := by
        obtain ⟨m, q, seat, below, told, -⟩ := pending
        exact ⟨m, n, seat, below, told, rfl⟩
      refine ⟨_, (hh.claim w.cfg pending oldest).mild makes.mild, ?_, ?_⟩
      · split_ifs with mine
        · have above := (hh.waits source n.failure (mine ▸ waits)).1
          omega
        · exact le_rfl
      · intro e told
        rw [handed] at told
        have told : (if r = p then some n.failure else none) = some e := told
        split_ifs at told with mine
        obtain rfl := Option.some.inj told
        obtain ⟨above, mem⟩ := hh.waits source n.failure (mine ▸ waits)
        rw [if_pos mine]
        exact ⟨above, Nat.lt_succ_self _, mem⟩
  | dropFailure lease =>
    show ∃ s', Hearing p s' (known ++ (outstanding _ _ _ _).1.reported.toList)
      (outstanding _ _ _ _).2.roster ∧ s ≤ s' ∧ ∀ e, heard p (outstanding _ _ _ _).1 = some e → _
    unfold outstanding
    split_ifs
    · exact calm rfl rfl ((hh.lapse w.cfg).mild (dropFailure_makes hv.owned lease).mild)
    · exact calm rfl rfl hh
  | _ => exact absurd rfl supervises

/-- What a supervisor hears along a run, from a state where nothing older than `s` waits. -/
theorem Staffed.heard (h : w.Staffed st) {p : ActorRef} {s : ℕ} {known : List FailureRecord}
    (hh : Hearing p s known st.roster) (actions : List Action) :
    ((w.outcomes st actions).filterMap (heard p)).Pairwise earlier ∧
      ∀ e ∈ (w.outcomes st actions).filterMap (World.heard p), s ≤ e.sequence ∧
        e ∈ known ++ (w.outcomes st actions).filterMap Outcome.reported := by
  induction actions generalizing st s known with
  | nil => simp [outcomes]
  | cons action actions ih =>
    obtain ⟨s', after, le, told⟩ := h.hearing hh action
    obtain ⟨ordered, later⟩ := ih (h.step action) after
    have split : known ++ (w.outcomes st (action :: actions)).filterMap Outcome.reported =
        known ++ (w.step action st).1.reported.toList ++
          (w.outcomes (w.step action st).2 actions).filterMap Outcome.reported := by
      rw [List.append_assoc]
      show known ++ (_ :: _ : List Outcome).filterMap Outcome.reported = _
      rw [List.filterMap_cons]
      cases (w.step action st).1.reported <;> rfl
    rw [split]
    show ((_ :: _ : List Outcome).filterMap (World.heard p)).Pairwise earlier ∧
      ∀ e ∈ (_ :: _ : List Outcome).filterMap (World.heard p), _
    rw [List.filterMap_cons]
    cases first : World.heard p (w.step action st).1 with
    | none =>
      refine ⟨ordered, ?_⟩
      intro e mem
      obtain ⟨above, mem⟩ := later e mem
      exact ⟨le.trans above, mem⟩
    | some e =>
      obtain ⟨above, below, mem⟩ := told e first
      refine ⟨List.pairwise_cons.mpr ⟨?_, ordered⟩, ?_⟩
      · intro e' mem'
        exact lt_of_lt_of_le below (later e' mem').1
      · intro e' mem'
        rcases List.mem_cons.mp mem' with rfl | mem'
        · exact ⟨above, List.mem_append_left _ (List.mem_append_left _ mem)⟩
        · obtain ⟨above', mem'⟩ := later e' mem'
          exact ⟨le.trans above', mem'⟩

theorem Staffed.reported_sequence (h : w.Staffed st) {action : Action} {e : FailureRecord}
    (he : (w.step action st).1.reported = some e) : e.sequence = st.nextFailure := by
  by_cases supervises : action.supervises = false
  · rw [(@quiet_outcome w st action supervises).1] at he
    cases he
  cases action with
  | reportFailure r event schema op phase action =>
    have he : (Outcome.failureRecord
      (w.reportFailure r event schema op phase action st).1).reported = some e := he
    obtain ⟨-, ⟨e', refused⟩, -⟩ | ⟨a, -, -, returned, -⟩ :=
      reportFailure_makes (r := r) h.rests.valid h.tidy event schema op phase action
    · rw [refused] at he
      cases he
    · rw [returned] at he
      cases he
      rfl
  | claimFailure r => cases he
  | dropFailure lease =>
    have he : (outstanding _ _ _ _).1.reported = some e := he
    unfold outstanding at he
    split_ifs at he
    all_goals cases he
  | _ => exact absurd rfl supervises

/-- Reports are numbered in the order in which they are made. -/
theorem Staffed.reported (h : w.Staffed st) (hn : st.roster.Notes) (actions : List Action) :
    ((w.outcomes st actions).filterMap Outcome.reported).Pairwise earlier ∧
      ∀ e ∈ (w.outcomes st actions).filterMap Outcome.reported, st.nextFailure ≤ e.sequence := by
  induction actions generalizing st with
  | nil => simp [outcomes]
  | cons action actions ih =>
    have kept := (h.alters action).invariant (I := Roster.Notes) hn
      fun _ _ notes _ may => may.notes notes
    have next : (w.step action st).2.nextFailure = st.nextFailure +
      (if (w.step action st).1.reported.isSome then 1 else 0) := (h.counts hn action).nextFailure
    obtain ⟨ordered, later⟩ := ih (h.step action) kept
    show ((_ :: _ : List Outcome).filterMap Outcome.reported).Pairwise earlier ∧
      ∀ e ∈ (_ :: _ : List Outcome).filterMap Outcome.reported, _
    rw [List.filterMap_cons]
    cases first : (w.step action st).1.reported with
    | none =>
      refine ⟨ordered, ?_⟩
      intro e mem
      have above := later e mem
      omega
    | some e =>
      have number := h.reported_sequence first
      rw [first] at next
      simp only [Option.isSome_some, if_true] at next
      refine ⟨List.pairwise_cons.mpr ⟨?_, ordered⟩, ?_⟩
      · intro e' mem
        have above := later e' mem
        show e.sequence < e'.sequence
        omega
      · intro e' mem
        rcases List.mem_cons.mp mem with rfl | mem
        · exact number.ge
        · have above := later e' mem
          omega

/-- A supervisor hears of reported failures only, in their order, and of each at most once. -/
theorem claims_in_order (w : World) (p : ActorRef) (actions : List Action) :
    ((w.outcomes w.init actions).filterMap (heard p)).Sublist
      ((w.outcomes w.init actions).filterMap Outcome.reported) := by
  have start : Hearing p 0 [] w.init.roster := by
    refine ⟨notes_init, numbered_init, ?_, Nat.zero_le _⟩
    rintro q e ⟨k, n, seat, -⟩
    cases seat.1
  obtain ⟨ordered, known⟩ := staffed_init.heard start actions
  obtain ⟨reports, -⟩ := staffed_init.reported (w := w) notes_init actions
  have nodup : ((w.outcomes w.init actions).filterMap (heard p)).Nodup :=
    ordered.imp fun before same => absurd (same ▸ before) (Nat.lt_irrefl _)
  have among : (w.outcomes w.init actions).filterMap (heard p) ⊆
      (w.outcomes w.init actions).filterMap Outcome.reported := by
    intro e mem
    simpa using (known e mem).2
  exact List.sublist_of_subperm_of_pairwise (nodup.subperm among) ordered reports

end World

end Actorplane
