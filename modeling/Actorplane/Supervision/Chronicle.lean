import Actorplane.Supervision.Reports

/-!
# Totals along ownership paths

A failure, or a drain that ran out of time, is noted at one actor. When that actor
retires, its parent takes over what was noted. So among the actors on the path from it to
its root, the first one that is alive has it, and no other living one does.
-/

namespace Actorplane

/-- A failure, with the actors from the failed one to its root. -/
structure Mark where
  path : List ActorRef
  record : FailureRecord

/-- Changes that the totals do not notice. -/
def Change.plain : Change → Prop
  | .join _ _ | .late _ | .fail _ _ | .retire _ => False
  | _ => True

namespace Member

variable (m : Member)

def place : ActorRef × Option ActorRef := (m.reference, m.parent)

def life : ActorRef × Bool := (m.reference, decide (m.state ≠ .stopped))

def account : ActorRef × ℕ × Option FailureRecord × Bool :=
  (m.reference, m.errors, m.lastError, m.drainTimedOut)

end Member

namespace Roster

variable {t t' : Roster} {r x p q : ActorRef} {m m' : Member} {l : List ActorRef}

/-- The slot holds this generation, and it has not stopped. -/
def alive (t : Roster) (q : ActorRef) : Bool :=
  match t.members[q.slot]? with
  | none => false
  | some m => decide (m.reference = q) && decide (m.state ≠ .stopped)

/-- What was noted at the start of the path has come down to the actor. -/
def holds (t : Roster) (r : ActorRef) : List ActorRef → Bool
  | [] => false
  | q :: l => decide (q = r) || (!t.alive q && holds t r l)

/-- Actors of the path that are still seated have the next one as their parent. -/
def Joined (t : Roster) : List ActorRef → Prop
  | [] => True
  | q :: l => (∀ m, t.Seats q m → m.parent = l.head?) ∧ Joined t l

structure Path (t : Roster) (l : List ActorRef) : Prop where
  joined : t.Joined l
  /-- No generation of the path is still to come. -/
  past : ∀ q ∈ l, ∃ m, t.members[q.slot]? = some m ∧ q.generation ≤ m.reference.generation
  nodup : l.Nodup

/-! ## Columns of members -/

theorem map_modify {α : Type} {f : Member → Member} {g : Member → α}
    (hf : ∀ m, t.members[x.slot]? = some m → g (f m) = g m) :
    (t.modify x f).members.map g = t.members.map g := by
  apply List.ext_getElem?
  intro i
  show (((t.members.modify x.slot f)).map g)[i]? = _
  rw [List.getElem?_map, List.getElem?_map, List.getElem?_modify]
  cases found : t.members[i]? with
  | none => rfl
  | some m =>
    by_cases here : x.slot = i
    · simp [here, hf m (here ▸ found)]
    · simp [here]

theorem get_map {α : Type} {g : Member → α} (same : t'.members.map g = t.members.map g) (i : ℕ) :
    (t'.members[i]?).map g = (t.members[i]?).map g := by
  rw [← List.getElem?_map, same, List.getElem?_map]

theorem Seats.back {α : Type} {g : Member → α} (same : t'.members.map g = t.members.map g)
    (hg : ∀ m m', g m = g m' → m.reference = m'.reference) (h : t'.Seats x m') :
    ∃ m, t.Seats x m ∧ g m = g m' := by
  have found := get_map same x.slot
  rw [h.1] at found
  obtain ⟨m, before, alike⟩ := Option.map_eq_some_iff.mp found.symm
  exact ⟨m, ⟨before, (hg m m' alike).trans h.2⟩, alike⟩

theorem alive_iff : t.alive q = true ↔ ∃ m, t.Seats q m ∧ m.state ≠ .stopped := by
  unfold alive Seats
  cases t.members[q.slot]? with
  | none => simp
  | some m => simp

theorem alive_congr (same : t'.members.map Member.life = t.members.map Member.life)
    (q : ActorRef) : t'.alive q = t.alive q := by
  rw [Bool.eq_iff_iff, alive_iff, alive_iff]
  have unchanged : ∀ {t t' : Roster}, t'.members.map Member.life = t.members.map Member.life →
      (∃ m, t'.Seats q m ∧ m.state ≠ .stopped) → ∃ m, t.Seats q m ∧ m.state ≠ .stopped := by
    rintro t t' same ⟨m', seat, running⟩
    obtain ⟨m, before, alike⟩ := seat.back same fun _ _ alike => congrArg Prod.fst alike
    refine ⟨m, before, ?_⟩
    have state : decide (m.state ≠ .stopped) = decide (m'.state ≠ .stopped) :=
      congrArg Prod.snd alike
    rw [decide_eq_true running] at state
    exact of_decide_eq_true state
  exact ⟨unchanged same, unchanged same.symm⟩

theorem holds_congr (same : ∀ q ∈ l, t'.alive q = t.alive q) : t'.holds r l = t.holds r l := by
  induction l with
  | nil => rfl
  | cons q l ih =>
    unfold holds
    rw [same q List.mem_cons_self, ih fun q' mem => same q' (List.mem_cons_of_mem q mem)]

theorem mem_of_holds (h : t.holds r l = true) : r ∈ l := by
  induction l with
  | nil => cases h
  | cons q l ih =>
    unfold holds at h
    simp only [Bool.or_eq_true, decide_eq_true_eq, Bool.and_eq_true] at h
    obtain rfl | ⟨-, later⟩ := h
    · exact List.mem_cons_self
    · exact List.mem_cons_of_mem q (ih later)

/-- At most one living actor has what was noted. -/
theorem holds_unique (hr : t.alive r = true) (hx : t.alive x = true) (h : t.holds r l = true)
    (h' : t.holds x l = true) : r = x := by
  induction l with
  | nil => cases h
  | cons q l ih =>
    unfold holds at h h'
    simp only [Bool.or_eq_true, decide_eq_true_eq, Bool.and_eq_true, Bool.not_eq_true'] at h h'
    obtain rfl | ⟨dead, later⟩ := h
    · obtain same | ⟨dead, -⟩ := h'
      · exact same
      · rw [hr] at dead
        cases dead
    · obtain rfl | ⟨-, later'⟩ := h'
      · rw [hx] at dead
        cases dead
      · exact ih later later'

theorem Path.tail (h : t.Path (q :: l)) : t.Path l :=
  ⟨h.joined.2, fun q' mem => h.past q' (List.mem_cons_of_mem q mem), (List.nodup_cons.mp h.nodup).2⟩

theorem Path.congr (h : t.Path l)
    (same : t'.members.map Member.place = t.members.map Member.place) :
    t'.Path l := by
  have joined : ∀ {l : List ActorRef}, t.Joined l → t'.Joined l := by
    intro l joined
    induction l with
    | nil => trivial
    | cons q l ih =>
      refine ⟨?_, ih joined.2⟩
      intro m' seat
      obtain ⟨m, before, alike⟩ := seat.back same fun _ _ alike => congrArg Prod.fst alike
      have parent : m.parent = m'.parent := congrArg Prod.snd alike
      rw [← parent]
      exact joined.1 m before
  refine ⟨joined h.joined, ?_, h.nodup⟩
  intro q mem
  obtain ⟨m, found, before⟩ := h.past q mem
  have kept := get_map same q.slot
  rw [found] at kept
  obtain ⟨m', found', alike⟩ := Option.map_eq_some_iff.mp kept
  have reference : m'.reference = m.reference := congrArg Prod.fst alike
  exact ⟨m', found', reference ▸ before⟩

/-! ## Newcomers -/

theorem Path.fresh (h : t.Path l) (hr : t.Vacant r) : r ∉ l := by
  intro mem
  obtain ⟨m, found, before⟩ := h.past r mem
  obtain last | ⟨old, found', -, newer⟩ := hr
  · have inside := (List.getElem?_eq_some_iff.mp found).1
    omega
  · obtain rfl : old = m := Option.some.inj (found'.symm.trans found)
    omega

theorem place_join (parent : Option ActorRef) :
    (t.join r parent).members.map Member.place = (t.seated r parent).members.map Member.place := by
  rw [join_eq]
  cases parent with
  | none => rfl
  | some p => exact map_modify fun _ _ => rfl

theorem life_join (parent : Option ActorRef) :
    (t.join r parent).members.map Member.life = (t.seated r parent).members.map Member.life := by
  rw [join_eq]
  cases parent with
  | none => rfl
  | some p => exact map_modify fun _ _ => rfl

theorem account_join (parent : Option ActorRef) : (t.join r parent).members.map Member.account =
    (t.seated r parent).members.map Member.account := by
  rw [join_eq]
  cases parent with
  | none => rfl
  | some p => exact map_modify fun _ _ => rfl

theorem Path.join (h : t.Path l) (hr : t.Vacant r) (parent : Option ActorRef) :
    (t.join r parent).Path l := by
  have fresh := h.fresh hr
  apply Path.congr (t := t.seated r parent) _ (place_join parent)
  have joined : ∀ {l : List ActorRef}, r ∉ l → t.Joined l → (t.seated r parent).Joined l := by
    intro l out joined
    induction l with
    | nil => trivial
    | cons q l ih =>
      refine ⟨?_, ih (fun mem => out (List.mem_cons_of_mem q mem)) joined.2⟩
      intro m seat
      obtain ⟨rfl, -⟩ | ⟨-, before⟩ := (seats_seated hr).mp seat
      · exact absurd List.mem_cons_self out
      · exact joined.1 m before
  refine ⟨joined fresh h.joined, ?_, h.nodup⟩
  intro q mem
  obtain ⟨m, found, before⟩ := h.past q mem
  rw [get_seated hr]
  split_ifs with here
  · refine ⟨_, rfl, ?_⟩
    obtain last | ⟨old, found', -, newer⟩ := hr
    · have inside := (List.getElem?_eq_some_iff.mp found).1
      omega
    · rw [here] at found
      obtain rfl : old = m := Option.some.inj (found'.symm.trans found)
      show q.generation ≤ r.generation
      omega
  · exact ⟨m, found, before⟩

theorem alive_join (hr : t.Vacant r) (parent : Option ActorRef) (hq : q ≠ r) :
    (t.join r parent).alive q = t.alive q := by
  rw [alive_congr (life_join parent), Bool.eq_iff_iff, alive_iff, alive_iff]
  simp only [seats_seated hr]
  constructor
  · rintro ⟨m, ⟨rfl, -⟩ | ⟨-, before⟩, running⟩
    · exact absurd rfl hq
    · exact ⟨m, before, running⟩
  · rintro ⟨m, before, running⟩
    refine ⟨m, .inr ⟨?_, before⟩, running⟩
    intro here
    -- the last generation of the slot has stopped
    obtain last | ⟨old, found, stopped, -⟩ := hr
    · have inside := (List.getElem?_eq_some_iff.mp before.1).1
      omega
    · rw [← here, before.1] at found
      obtain rfl := Option.some.inj found
      exact running stopped

/-! ## Retirement -/

theorem place_retire : (t.retire r).members.map Member.place = t.members.map Member.place := by
  unfold Roster.retire
  cases t.members[r.slot]? with
  | none => rfl
  | some m =>
    dsimp only
    have stopped : (t.modify r (Member.enter · .stopped)).members.map Member.place =
        t.members.map Member.place := map_modify fun _ _ => rfl
    cases m.parent with
    | none => exact stopped
    | some p =>
      have inherits := @map_modify (t.modify r (Member.enter · .stopped)) p _ (Member.inherit · m)
        Member.place fun _ _ => rfl
      exact inherits.trans stopped

theorem life_retire : (t.retire r).members.map Member.life =
    (t.modify r (Member.enter · .stopped)).members.map Member.life := by
  unfold Roster.retire
  cases found : t.members[r.slot]? with
  | none =>
    symm
    apply map_modify
    intro m there
    rw [found] at there
    cases there
  | some m =>
    dsimp only
    cases m.parent with
    | none => rfl
    | some p => exact map_modify fun _ _ => rfl

theorem alive_retire (hr : t.Seats r m) (q : ActorRef) :
    (t.retire r).alive q = (t.alive q && decide (q ≠ r)) := by
  rw [alive_congr life_retire, Bool.eq_iff_iff, alive_iff, Bool.and_eq_true, alive_iff,
    decide_eq_true_eq]
  simp only [seats_modify (f := (Member.enter · .stopped)) fun _ => rfl]
  constructor
  · rintro ⟨m', ⟨k, seat, rfl⟩, running⟩
    split_ifs at running with here
    · exact absurd rfl running
    · exact ⟨⟨k, seat, running⟩, fun same => here (same ▸ rfl)⟩
  · rintro ⟨⟨k, seat, running⟩, other⟩
    refine ⟨k, ⟨k, seat, ?_⟩, running⟩
    rw [if_neg]
    intro here
    apply other
    have found := seat.1
    rw [here, hr.1] at found
    obtain rfl := Option.some.inj found
    exact seat.2.symm.trans hr.2

/-- A retired actor hands on to its parent, and nothing else moves. -/
theorem holds_retire {cfg : Config} (hm : t.May cfg (.retire r)) (seat : t.Seats r m)
    (hl : t.Path l) (x : ActorRef) : (t.retire r).holds x l =
      (t.holds x l || (decide (m.parent = some x) && t.holds r l)) := by
  obtain ⟨m', seat', stopping, -, -, supervised⟩ := hm
  obtain rfl := seat'.unique seat
  have before : t.alive r = true := alive_iff.mpr ⟨m', seat, by rw [stopping]; decide⟩
  induction l with
  | nil => simp [holds]
  | cons q l ih =>
    have rest := ih hl.tail
    unfold holds
    rw [rest, alive_retire seat]
    by_cases here : q = r
    · subst here
      have out : t.holds q l = false := by
        by_contra holds
        exact (List.nodup_cons.mp hl.nodup).1 (mem_of_holds (by simpa using holds))
      have next := hl.joined.1 m' seat
      have first : t.holds x l = decide (m'.parent = some x) := by
        rw [next]
        cases l with
        | nil => rfl
        | cons p l =>
          obtain ⟨k, above, running, -⟩ := supervised p next
          have alive : t.alive p = true := alive_iff.mpr ⟨k, above, running⟩
          unfold holds
          simp [alive]
      rw [out, before, first]
      simp
    · have there : decide (q = r) = false := decide_eq_false here
      rw [there]
      have other : decide (q ≠ r) = true := decide_eq_true here
      rw [other]
      cases decide (q = x) <;> cases t.alive q <;> cases t.holds x l <;>
        cases decide (m'.parent = some x) <;> cases t.holds r l <;> rfl

/-! ## The latest failure -/

/-- The last of the failures. -/
def newest (marks : List Mark) : Option FailureRecord := marks.getLast?.map (·.record)

/-- Failures in the order of their numbers. -/
def Ordered (marks : List Mark) : Prop :=
  marks.Pairwise fun e e' => e.record.sequence < e'.record.sequence

theorem newest_concat (marks : List Mark) (e : Mark) :
    newest (marks ++ [e]) = some e.record := by
  unfold newest
  rw [List.getLast?_concat]
  rfl

theorem newest_mem {marks : List Mark} {f : FailureRecord} (h : newest marks = some f) :
    ∃ e ∈ marks, e.record = f := by
  obtain ⟨e, last, rfl⟩ := Option.map_eq_some_iff.mp h
  exact ⟨e, List.mem_of_getLast? last, rfl⟩

theorem keepLatest_newest {marks : List Mark} (h : Ordered marks) (p q : Mark → Bool) :
    keepLatest (newest (marks.filter p)) (newest (marks.filter q)) =
      newest (marks.filter fun e => p e || q e) := by
  induction marks using List.reverseRecOn with
  | nil => rfl
  | append_singleton marks e ih =>
    obtain ⟨earlier, -, last⟩ := List.pairwise_append.mp h
    have rest := ih earlier
    have later : ∀ {g : Mark → Bool} {f}, newest (marks.filter g) = some f →
        f.sequence < e.record.sequence := by
      intro g f found
      obtain ⟨e', mem, rfl⟩ := newest_mem found
      exact last e' (List.mem_of_mem_filter mem) e (List.mem_singleton_self e)
    simp only [List.filter_append]
    cases here : p e <;> cases there : q e
    · simpa [here, there] using rest
    · simp only [List.filter_cons, here, there, List.filter_nil, List.append_nil, Bool.or_true,
        if_true, Bool.false_eq_true, if_false, newest_concat]
      cases old : newest (marks.filter p) with
      | none => rfl
      | some f =>
        have less := later old
        simp [keepLatest, less]
    · simp only [List.filter_cons, here, there, List.filter_nil, List.append_nil, Bool.true_or,
        if_true, Bool.false_eq_true, if_false, newest_concat]
      cases old : newest (marks.filter q) with
      | none => rfl
      | some f =>
        have less := later old
        simp [keepLatest, less.not_gt]
    · simp [here, there, newest_concat, keepLatest]

theorem countP_or {α : Type} {l : List α} {p q : α → Bool}
    (h : ∀ a ∈ l, p a = true → q a = false) :
    l.countP (fun a => p a || q a) = l.countP p + l.countP q := by
  induction l with
  | nil => rfl
  | cons a l ih =>
    have rest := ih fun b mem => h b (List.mem_cons_of_mem a mem)
    have here := h a List.mem_cons_self
    simp only [List.countP_cons, rest]
    cases first : p a with
    | true =>
      simp [here first]
      omega
    | false =>
      simp only [Bool.false_or, Bool.false_eq_true, if_false]
      omega

theorem capped_add (a b c : ℕ) : min (min a c + b) c = min (a + b) c := by omega

theorem capped_sum (a b c : ℕ) : min (min a c + min b c) c = min (a + b) c := by omega

/-! ## Totals -/

/-- The totals of a member are those of what it holds. -/
structure Totals (t : Roster) (marks : List Mark) (lates : List (List ActorRef)) (r : ActorRef)
    (m : Member) : Prop where
  errors : m.errors = min (marks.countP fun e => t.holds r e.path) u64Max
  lastError : m.lastError = newest (marks.filter fun e => t.holds r e.path)
  timedOut : m.drainTimedOut = lates.any (t.holds r)

structure Recorded (marks : List Mark) (lates : List (List ActorRef)) (t : Roster) : Prop where
  paths : ∀ e ∈ marks, t.Path e.path
  latePaths : ∀ l ∈ lates, t.Path l
  ordered : Ordered marks
  before : ∀ e ∈ marks, e.record.sequence < t.nextFailure
  totals : ∀ r m, t.Seats r m → t.Totals marks lates r m
  failures : t.failures = marks.length
  lastError : t.lastError = newest marks
  timeouts : t.timeouts = lates.length

section Changes

variable {cfg : Config} {marks : List Mark} {lates : List (List ActorRef)}

theorem Totals.congr (h : t.Totals marks lates r m)
    (hm : ∀ e ∈ marks, t'.holds r e.path = t.holds r e.path)
    (hl : ∀ l ∈ lates, t'.holds r l = t.holds r l) (ha : m.account = m'.account) :
    t'.Totals marks lates r m' := by
  have errors : m.errors = m'.errors := congrArg (·.2.1) ha
  have lastError : m.lastError = m'.lastError := congrArg (·.2.2.1) ha
  have timedOut : m.drainTimedOut = m'.drainTimedOut := congrArg (·.2.2.2) ha
  constructor
  · rw [← errors, h.errors]
    congr 1
    exact List.countP_congr fun e mem => by rw [hm e mem]
  · rw [← lastError, h.lastError]
    congr 1
    exact List.filter_congr fun e mem => (hm e mem).symm
  · rw [← timedOut, h.timedOut, Bool.eq_iff_iff, List.any_eq_true, List.any_eq_true]
    constructor
    · rintro ⟨l, mem, held⟩
      exact ⟨l, mem, (hl l mem).trans held⟩
    · rintro ⟨l, mem, held⟩
      exact ⟨l, mem, (hl l mem).symm.trans held⟩

/-- Nothing that the totals are about has changed. -/
structure Alike (t t' : Roster) : Prop where
  place : t'.members.map Member.place = t.members.map Member.place
  life : t'.members.map Member.life = t.members.map Member.life
  account : t'.members.map Member.account = t.members.map Member.account
  nextFailure : t'.nextFailure = t.nextFailure
  failures : t'.failures = t.failures
  lastError : t'.lastError = t.lastError
  timeouts : t'.timeouts = t.timeouts
  late : t'.late = t.late

theorem Alike.trans {t'' : Roster} (h : Alike t t') (h' : Alike t' t'') : Alike t t'' where
  place := h'.place.trans h.place
  life := h'.life.trans h.life
  account := h'.account.trans h.account
  nextFailure := h'.nextFailure.trans h.nextFailure
  failures := h'.failures.trans h.failures
  lastError := h'.lastError.trans h.lastError
  timeouts := h'.timeouts.trans h.timeouts
  late := h'.late.trans h.late

theorem Alike.modify {f : Member → Member} (hp : ∀ m, (f m).place = m.place)
    (hl : ∀ m, t.members[x.slot]? = some m → (f m).life = m.life)
    (ha : ∀ m, (f m).account = m.account) : Alike t (t.modify x f) :=
  ⟨map_modify fun m _ => hp m, map_modify hl, map_modify fun m _ => ha m, rfl, rfl, rfl, rfl, rfl⟩

theorem Recorded.alike (h : Recorded marks lates t) (same : Alike t t') :
    Recorded marks lates t' where
  paths e mem := (h.paths e mem).congr same.place
  latePaths l mem := (h.latePaths l mem).congr same.place
  ordered := h.ordered
  before e mem := same.nextFailure ▸ h.before e mem
  totals := by
    intro r m' seat
    obtain ⟨m, before, account⟩ := seat.back same.account fun _ _ alike => congrArg Prod.fst alike
    have held : ∀ l, t'.holds r l = t.holds r l :=
      fun l => holds_congr fun q _ => alive_congr same.life q
    exact (h.totals r m before).congr (fun e _ => held e.path) (fun l _ => held l) account
  failures := same.failures.trans h.failures
  lastError := same.lastError.trans h.lastError
  timeouts := same.timeouts.trans h.timeouts

theorem Recorded.join {parent : Option ActorRef} (h : Recorded marks lates t)
    (hm : t.May cfg (.join r parent)) : Recorded marks lates (t.join r parent) := by
  have vacant := hm.1
  have totals : (t.join r parent).nextFailure = t.nextFailure ∧
      (t.join r parent).failures = t.failures ∧ (t.join r parent).lastError = t.lastError ∧
      (t.join r parent).timeouts = t.timeouts := by
    rw [join_eq]
    cases parent <;> exact ⟨rfl, rfl, rfl, rfl⟩
  have held : ∀ {x l}, t.Path l → (t.join r parent).holds x l = t.holds x l := by
    intro x l path
    apply holds_congr
    intro q mem
    apply alive_join vacant
    rintro rfl
    exact path.fresh vacant mem
  constructor
  · exact fun e mem => (h.paths e mem).join vacant parent
  · exact fun l mem => (h.latePaths l mem).join vacant parent
  · exact h.ordered
  · exact fun e mem => totals.1.symm ▸ h.before e mem
  · intro x m' seat
    obtain ⟨m, before, account⟩ := seat.back (account_join parent)
      fun _ _ alike => congrArg Prod.fst alike
    obtain ⟨rfl, rfl⟩ | ⟨-, before⟩ := (seats_seated vacant).mp before
    · have nothing : ∀ {l}, t.Path l → t.holds x l = false := by
        intro l path
        by_contra holds
        exact path.fresh vacant (mem_of_holds (by simpa using holds))
      have none : t.Totals marks lates x (t.newcomer x parent) := by
        constructor
        · rw [List.countP_eq_zero.mpr fun e mem => by rw [nothing (h.paths e mem)]; decide]
          rfl
        · rw [List.filter_eq_nil_iff.mpr fun e mem => by rw [nothing (h.paths e mem)]; decide]
          rfl
        · symm
          apply List.any_eq_false.mpr
          intro l mem
          rw [nothing (h.latePaths l mem)]
          decide
      exact none.congr (fun e mem => held (h.paths e mem))
        (fun l mem => held (h.latePaths l mem)) account
    · exact (h.totals x m before).congr (fun e mem => held (h.paths e mem))
        (fun l mem => held (h.latePaths l mem)) account
  · exact totals.2.1.trans h.failures
  · exact totals.2.2.1.trans h.lastError
  · exact totals.2.2.2.trans h.timeouts

/-- Only the actor at the start of a path has what is noted while it is alive. -/
theorem holds_start (hr : t.alive r = true) (head : l.head? = some r) (x : ActorRef) :
    t.holds x l = decide (r = x) := by
  cases l with
  | nil => cases head
  | cons q l =>
    obtain rfl := Option.some.inj head
    unfold holds
    rw [hr]
    simp

/-- Seated references of one slot are the same. -/
theorem Seats.same (h : t.Seats x m) (h' : t.Seats r m') (here : x.slot = r.slot) : x = r := by
  have found := h.1
  rw [here, h'.1] at found
  obtain rfl := Option.some.inj found
  exact h.2.symm.trans h'.2

theorem place_late :
    (t.after (.late r)).members.map Member.place = t.members.map Member.place :=
  map_modify (f := Member.late) fun _ _ => rfl

theorem life_late : (t.after (.late r)).members.map Member.life = t.members.map Member.life :=
  map_modify (f := Member.late) fun _ _ => rfl

theorem Recorded.late (h : Recorded marks lates t) (hm : t.May cfg (.late r)) (hp : t.Path l)
    (head : l.head? = some r) : Recorded marks (lates ++ [l]) (t.after (.late r)) := by
  obtain ⟨k, seat, running⟩ := hm
  have alive : t.alive r = true := alive_iff.mpr ⟨k, seat, running⟩
  have held : ∀ x l, (t.after (.late r)).holds x l = t.holds x l :=
    fun x l => holds_congr fun q _ => alive_congr life_late q
  constructor
  · exact fun e mem => (h.paths e mem).congr place_late
  · intro l' mem
    apply Path.congr _ place_late
    obtain old | new := List.mem_append.mp mem
    · exact h.latePaths l' old
    · rw [List.mem_singleton.mp new]
      exact hp
  · exact h.ordered
  · exact h.before
  · intro x m' there
    obtain ⟨m, before, rfl⟩ := (seats_modify (f := Member.late) fun _ => rfl).mp there
    have totals := h.totals x m before
    have any : (lates ++ [l]).any ((t.after (.late r)).holds x) =
        (lates.any (t.holds x) || decide (r = x)) := by
      rw [List.any_append, List.any_cons, List.any_nil, Bool.or_false, held, holds_start alive head]
      congr 2
      funext l
      exact held x l
    split_ifs with here
    · refine ⟨?_, ?_, ?_⟩
      · simp only [held]
        exact totals.errors
      · simp only [held]
        exact totals.lastError
      · rw [any, before.same seat here]
        simp [Member.late]
    · refine ⟨?_, ?_, ?_⟩
      · simp only [held]
        exact totals.errors
      · simp only [held]
        exact totals.lastError
      · have other : decide (r = x) = false := decide_eq_false fun same => here (same ▸ rfl)
        rw [any, other, Bool.or_false]
        exact totals.timedOut
  · exact h.failures
  · exact h.lastError
  · show t.timeouts + 1 = _
    rw [h.timeouts, List.length_append]
    rfl

theorem columns_tell {α : Type} {g : Member → α} {record : FailureRecord} {notify : Bool}
    (hg : ∀ m, g m.await = g m) : (t.tell record notify).members.map g =
      (t.modify record.actor (Member.fail · record notify)).members.map g := by
  unfold Roster.tell
  dsimp only
  cases t.members[record.actor.slot]? with
  | none => rfl
  | some m =>
    dsimp only
    split_ifs
    · rfl
    · rfl
    · cases m.parent with
      | none => rfl
      | some p => exact map_modify fun m _ => hg m

theorem fields_tell {record : FailureRecord} {notify : Bool} :
    (t.tell record notify).nextFailure = t.nextFailure ∧
      (t.tell record notify).failures = t.failures ∧
      (t.tell record notify).lastError = t.lastError ∧
      (t.tell record notify).timeouts = t.timeouts ∧ (t.tell record notify).late = t.late := by
  unfold Roster.tell
  dsimp only
  cases t.members[record.actor.slot]? with
  | none => exact ⟨rfl, rfl, rfl, rfl, rfl⟩
  | some m =>
    dsimp only
    split_ifs
    · exact ⟨rfl, rfl, rfl, rfl, rfl⟩
    · exact ⟨rfl, rfl, rfl, rfl, rfl⟩
    · cases m.parent <;> exact ⟨rfl, rfl, rfl, rfl, rfl⟩

theorem place_fail {record : FailureRecord} {notify : Bool} :
    (t.fail record notify).members.map Member.place = t.members.map Member.place :=
  (columns_tell fun _ => rfl).trans (map_modify (t := t) fun _ _ => rfl)

theorem life_fail {record : FailureRecord} {notify : Bool} :
    (t.fail record notify).members.map Member.life = t.members.map Member.life :=
  (columns_tell fun _ => rfl).trans (map_modify (t := t) fun _ _ => rfl)

theorem Recorded.fail {record : FailureRecord} {notify : Bool} (h : Recorded marks lates t)
    (hm : t.May cfg (.fail record notify)) (hp : t.Path l) (head : l.head? = some record.actor) :
    Recorded (marks ++ [⟨l, record⟩]) lates (t.fail record notify) := by
  obtain ⟨number, k, seat, running, -⟩ := hm
  set t₀ : Roster := { t with
    nextFailure := t.nextFailure + 1
    lastError := some record
    failures := t.failures + 1 } with ht₀
  have told : t.fail record notify = t₀.tell record notify := rfl
  obtain ⟨nextFailure, failures, lastError, timeouts, -⟩ := @fields_tell t₀ record notify
  have alive : t.alive record.actor = true := alive_iff.mpr ⟨k, seat, running⟩
  have place : (t₀.tell record notify).members.map Member.place = t.members.map Member.place :=
    place_fail
  have life : (t₀.tell record notify).members.map Member.life = t.members.map Member.life :=
    life_fail
  have account : (t₀.tell record notify).members.map Member.account =
      (t.modify record.actor (Member.fail · record notify)).members.map Member.account :=
    columns_tell fun _ => rfl
  have held : ∀ x l, (t₀.tell record notify).holds x l = t.holds x l :=
    fun x l => holds_congr fun q _ => alive_congr life q
  rw [told]
  constructor
  · intro e mem
    apply Path.congr _ place
    obtain old | new := List.mem_append.mp mem
    · exact h.paths e old
    · rw [List.mem_singleton.mp new]
      exact hp
  · exact fun l' mem => (h.latePaths l' mem).congr place
  · refine List.pairwise_append.mpr ⟨h.ordered, List.pairwise_singleton _ _, ?_⟩
    intro e mem e' mem'
    rw [List.mem_singleton.mp mem']
    show e.record.sequence < record.sequence
    rw [number]
    exact h.before e mem
  · intro e mem
    rw [nextFailure]
    show e.record.sequence < t.nextFailure + 1
    obtain old | new := List.mem_append.mp mem
    · exact Nat.lt_succ_of_lt (h.before e old)
    · rw [List.mem_singleton.mp new]
      show record.sequence < t.nextFailure + 1
      omega
  · intro x m' there
    obtain ⟨m₁, there, same⟩ := there.back account fun _ _ alike => congrArg Prod.fst alike
    obtain ⟨m, before, rfl⟩ :=
      (seats_modify (f := (Member.fail · record notify)) fun _ => rfl).mp there
    have totals := h.totals x m before
    have start := holds_start alive head x
    apply Totals.congr (t := t) _ (fun e _ => held x e.path) (fun l _ => held x l) same
    split_ifs with here
    · obtain rfl := before.same seat here
      have first : t.holds record.actor l = true := by
        rw [start]
        exact decide_eq_true rfl
      constructor
      · rw [List.countP_append, List.countP_singleton, first, if_pos rfl]
        show min (m.errors + 1) u64Max = _
        rw [totals.errors]
        exact capped_add _ _ _
      · have single : [Mark.mk l record].filter (fun e => t.holds record.actor e.path) =
            [⟨l, record⟩] := by simp [first]
        rw [List.filter_append, single, newest_concat]
        rfl
      · exact totals.timedOut
    · have other : ¬t.holds x l = true := by
        rw [start, decide_eq_true_eq]
        rintro rfl
        exact here rfl
      constructor
      · rw [List.countP_append, List.countP_singleton, if_neg other]
        exact totals.errors
      · have nothing : [Mark.mk l record].filter (fun e => t.holds x e.path) = [] := by
          simp [other]
        rw [List.filter_append, nothing, List.append_nil]
        exact totals.lastError
      · exact totals.timedOut
  · rw [failures, List.length_append]
    show t.failures + 1 = _
    rw [h.failures]
    rfl
  · rw [lastError, newest_concat]
  · exact timeouts.trans h.timeouts

theorem fields_retire : (t.retire r).nextFailure = t.nextFailure ∧
    (t.retire r).failures = t.failures ∧ (t.retire r).lastError = t.lastError ∧
    (t.retire r).timeouts = t.timeouts ∧ (t.retire r).late = t.late := by
  unfold Roster.retire
  cases t.members[r.slot]? with
  | none => exact ⟨rfl, rfl, rfl, rfl, rfl⟩
  | some m =>
    dsimp only
    cases m.parent <;> exact ⟨rfl, rfl, rfl, rfl, rfl⟩

/-- A member that also holds what another one held, and nothing twice, has both totals. -/
theorem Totals.inherit {m₁ : Member} (mine : t.Totals marks lates x m)
    (theirs : t.Totals marks lates r m') (ordered : Ordered marks)
    (both : ∀ {l}, t.Path l → t'.holds x l = (t.holds x l || t.holds r l))
    (apart : ∀ {l}, t.holds x l = true → t.holds r l = false)
    (paths : ∀ e ∈ marks, t.Path e.path) (latePaths : ∀ l ∈ lates, t.Path l)
    (account : m.account = m₁.account) : t'.Totals marks lates x (m₁.inherit m') := by
  have errors : m.errors = m₁.errors := congrArg (·.2.1) account
  have last : m.lastError = m₁.lastError := congrArg (·.2.2.1) account
  have late : m.drainTimedOut = m₁.drainTimedOut := congrArg (·.2.2.2) account
  constructor
  · show min (m₁.errors + m'.errors) u64Max = _
    have shared : (marks.countP fun e => t'.holds x e.path) =
        marks.countP fun e => t.holds x e.path || t.holds r e.path :=
      List.countP_congr fun e mem => by rw [both (paths e mem)]
    rw [← errors, mine.errors, theirs.errors, shared, countP_or fun e _ => apart]
    exact capped_sum _ _ _
  · show keepLatest m₁.lastError m'.lastError = _
    rw [← last, mine.lastError, theirs.lastError, keepLatest_newest ordered]
    congr 1
    exact List.filter_congr fun e mem => (both (paths e mem)).symm
  · show (m₁.drainTimedOut || m'.drainTimedOut) = _
    rw [← late, mine.timedOut, theirs.timedOut, Bool.eq_iff_iff, Bool.or_eq_true,
      List.any_eq_true, List.any_eq_true, List.any_eq_true]
    constructor
    · rintro (⟨l, mem, first⟩ | ⟨l, mem, second⟩)
      · exact ⟨l, mem, by rw [both (latePaths l mem), first]; rfl⟩
      · exact ⟨l, mem, by rw [both (latePaths l mem), second, Bool.or_true]⟩
    · rintro ⟨l, mem, found⟩
      rw [both (latePaths l mem), Bool.or_eq_true] at found
      obtain first | second := found
      · exact .inl ⟨l, mem, first⟩
      · exact .inr ⟨l, mem, second⟩

/-- A retired actor keeps its totals, and its parent adds them to its own. -/
theorem Recorded.retire (h : Recorded marks lates t) (hm : t.May cfg (.retire r)) :
    Recorded marks lates (t.retire r) := by
  obtain ⟨nextFailure, failures, lastError, timeouts, -⟩ := @fields_retire t r
  have may := hm
  obtain ⟨m, seat, stopping, -, -, supervised⟩ := hm
  have alive : t.alive r = true := alive_iff.mpr ⟨m, seat, by rw [stopping]; decide⟩
  have held := fun {l} (path : t.Path l) x => holds_retire may seat path x
  have stop : (t.modify r (Member.enter · .stopped)).members.map Member.account =
      t.members.map Member.account := map_modify fun _ _ => rfl
  constructor
  · exact fun e mem => (h.paths e mem).congr place_retire
  · exact fun l mem => (h.latePaths l mem).congr place_retire
  · exact h.ordered
  · exact fun e mem => nextFailure.symm ▸ h.before e mem
  · intro x m' there
    cases parent : m.parent with
    | none =>
      have same : t.retire r = t.modify r (Member.enter · .stopped) := by
        unfold Roster.retire
        rw [seat.1]
        dsimp only
        rw [parent]
      have kept : ∀ {l}, t.Path l → (t.retire r).holds x l = t.holds x l := by
        intro l path
        rw [held path, parent]
        simp
      rw [same] at there
      obtain ⟨m₀, before, account⟩ := there.back stop fun _ _ alike => congrArg Prod.fst alike
      exact (h.totals x m₀ before).congr (fun e mem => kept (h.paths e mem))
        (fun l mem => kept (h.latePaths l mem)) account
    | some p =>
      obtain ⟨k, above, running, distinct⟩ := supervised p parent
      have alive' : t.alive p = true := alive_iff.mpr ⟨k, above, running⟩
      have same : t.retire r =
          (t.modify r (Member.enter · .stopped)).modify p (Member.inherit · m) := by
        unfold Roster.retire
        rw [seat.1]
        dsimp only
        rw [parent]
      rw [same] at there
      obtain ⟨m₁, stopped, rfl⟩ := (seats_modify (f := (Member.inherit · m)) fun _ => rfl).mp there
      obtain ⟨m₀, before, account⟩ := stopped.back stop fun _ _ alike => congrArg Prod.fst alike
      have mine := h.totals x m₀ before
      split_ifs with here
      · obtain rfl := before.same above here
        have theirs := h.totals r m seat
        have both : ∀ {l}, t.Path l → (t.retire r).holds x l = (t.holds x l || t.holds r l) := by
          intro l path
          rw [held path, parent]
          simp
        have apart : ∀ {l}, t.holds x l = true → t.holds r l = false := by
          intro l first
          by_contra second
          have equal := holds_unique alive' alive first (by simpa using second)
          exact distinct (congrArg ActorRef.slot equal)
        exact mine.inherit theirs h.ordered both apart h.paths h.latePaths account
      · have kept : ∀ {l}, t.Path l → (t.retire r).holds x l = t.holds x l := by
          intro l path
          have other : p ≠ x := fun equal => here (equal ▸ rfl)
          rw [held path, parent]
          simp [other]
        exact mine.congr (fun e mem => kept (h.paths e mem)) (fun l mem => kept (h.latePaths l mem))
          account
  · exact failures.trans h.failures
  · exact lastError.trans h.lastError
  · exact timeouts.trans h.timeouts

/-! ## Changes of one call -/

theorem May.alike {c : Change} (hm : t.May cfg c) (hc : c.plain) : Alike t (t.after c) := by
  have same : ∀ {t' : Roster}, t'.members = t.members → t'.nextFailure = t.nextFailure →
      t'.failures = t.failures → t'.lastError = t.lastError → t'.timeouts = t.timeouts →
      t'.late = t.late → Alike t t' := by
    intro t' members next failures last timeouts late
    exact ⟨by rw [members], by rw [members], by rw [members], next, failures, last, timeouts, late⟩
  have hushes : ∀ supervisor source, Alike t (t.hush supervisor source) := by
    intro supervisor source
    have silenced : Alike t (t.modify source Member.silence) :=
      .modify (fun _ => rfl) (fun _ _ => rfl) fun _ => rfl
    exact silenced.trans (.modify (fun _ => rfl) (fun _ _ => rfl) fun _ => rfl)
  cases c with
  | join | late | fail | retire => exact hc.elim
  | enter r state =>
    obtain ⟨m, seat, running, -, alive, -⟩ := hm
    apply Alike.modify (f := (Member.enter · state)) (fun _ => rfl) _ fun _ => rfl
    intro k found
    obtain rfl : m = k := Option.some.inj (seat.1.symm.trans found)
    show (m.reference, decide (state ≠ .stopped)) = (m.reference, decide (m.state ≠ .stopped))
    rw [decide_eq_true alive, decide_eq_true running]
  | claim supervisor source =>
    exact (hushes supervisor source).trans ⟨rfl, rfl, rfl, rfl, rfl, rfl, rfl, rfl⟩
  | silence supervisor source =>
    exact (hushes supervisor source).trans ⟨rfl, rfl, rfl, rfl, rfl, rfl, rfl, rfl⟩
  | _ => exact same rfl rfl rfl rfl rfl rfl

/-- The living actors have these paths. -/
def Charted (t : Roster) (paths : ActorRef → List ActorRef) : Prop :=
  ∀ q, t.alive q = true → t.Path (paths q) ∧ (paths q).head? = some q

variable {paths : ActorRef → List ActorRef}

theorem Charted.mono (h : t.Charted paths)
    (place : t'.members.map Member.place = t.members.map Member.place)
    (alive : ∀ q, t'.alive q = true → t.alive q = true) : t'.Charted paths := by
  intro q running
  obtain ⟨path, head⟩ := h q (alive q running)
  exact ⟨path.congr place, head⟩

theorem Charted.alike (h : t.Charted paths) (same : Alike t t') : t'.Charted paths :=
  h.mono same.place fun q alive => (alive_congr same.life q).symm.trans alive

/-- A calm call adds the drains that ran out of time in it. -/
theorem Recorded.calm (h : Recorded marks lates t) (hp : t.Charted paths)
    (ha : Alters cfg Change.calm t t') :
    ∃ new, t'.late = t.late ++ new ∧ Recorded marks (lates ++ new.map paths) t' := by
  have kept := ha.invariant (I := fun t' => ∃ new, t'.late = t.late ++ new ∧
      Recorded marks (lates ++ new.map paths) t' ∧ t'.Charted paths) ⟨[], by simpa using ⟨h, hp⟩⟩ ?_
  · obtain ⟨new, late, recorded, -⟩ := kept
    exact ⟨new, late, recorded⟩
  rintro t₁ c ⟨new, late, recorded, charted⟩ calm may
  have plain : c.plain → ∃ new, (t₁.after c).late = t.late ++ new ∧
      Recorded marks (lates ++ new.map paths) (t₁.after c) ∧ (t₁.after c).Charted paths := by
    intro plain
    have same := may.alike plain
    exact ⟨new, same.late.trans late, recorded.alike same, charted.alike same⟩
  cases c with
  | join | fail | claim | lapse => exact calm.elim
  | late r =>
    obtain ⟨m, seat, running⟩ := may
    obtain ⟨path, head⟩ := charted r (alive_iff.mpr ⟨m, seat, running⟩)
    refine ⟨new ++ [r], ?_, ?_, ?_⟩
    · show t₁.late ++ [r] = _
      rw [late, List.append_assoc]
    · rw [List.map_append, ← List.append_assoc]
      have may : t₁.May cfg (.late r) := ⟨m, seat, running⟩
      exact recorded.late may path head
    · apply charted.mono place_late
      exact fun q alive => (alive_congr life_late q).symm.trans alive
  | retire r =>
    obtain ⟨-, -, -, -, same⟩ := @fields_retire t₁ r
    refine ⟨new, same.trans late, recorded.retire may, charted.mono place_retire ?_⟩
    obtain ⟨m, seat, -⟩ := may
    intro q alive
    have alive : (t₁.retire r).alive q = true := alive
    rw [alive_retire seat, Bool.and_eq_true] at alive
    exact alive.1
  | _ => exact plain trivial

theorem Recorded.seating (h : Recorded marks lates t) (ha : Alters cfg Change.seating t t') :
    t'.late = t.late ∧ Recorded marks lates t' := by
  apply ha.invariant (I := fun t' => t'.late = t.late ∧ Recorded marks lates t') ⟨rfl, h⟩
  rintro t₁ c ⟨late, recorded⟩ seating may
  cases c with
  | join r parent =>
    refine ⟨?_, recorded.join may⟩
    rw [← late]
    show (t₁.join r parent).late = t₁.late
    rw [join_eq]
    cases parent <;> rfl
  | enter r state =>
    have same := may.alike trivial
    exact ⟨same.late.trans late, recorded.alike same⟩
  | lease name lease =>
    have same := may.alike trivial
    exact ⟨same.late.trans late, recorded.alike same⟩
  | _ => exact seating.elim

end Changes

end Roster

end Actorplane
