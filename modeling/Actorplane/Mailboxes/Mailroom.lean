import Actorplane.Mailboxes.Index
import Actorplane.Model.World

/-!
# Mailboxes and their deadlines

A tray is the part of an actor that its mailbox is about. The mailroom has the trays of
all actors with the two tables that are kept beside them: the earliest deadline of each
actor, and the actors with staged outputs. It is exact when the tables are what the trays
say.
-/

namespace Actorplane

/-- What waits in a mailbox or a staging list. -/
inductive Item where
  | delivery (d : Delivery)
  | output (s : StagedOutput)

namespace Item

def bytes : Item → ℕ
  | delivery d => d.payload.bytes
  | output s => s.stored.bytes

def deadline : Item → Option Instant
  | delivery d => d.envelope.deadline
  | output s => s.stored.options.deadline

@[simp] theorem bytes_delivery (d : Delivery) : (delivery d).bytes = d.payload.bytes := rfl

@[simp] theorem bytes_output (s : StagedOutput) : (output s).bytes = s.stored.bytes := rfl

@[simp] theorem deadline_delivery (d : Delivery) :
    (delivery d).deadline = d.envelope.deadline := rfl

@[simp] theorem deadline_output (s : StagedOutput) :
    (output s).deadline = s.stored.options.deadline := rfl

end Item

structure Tray where
  reference : ActorRef
  ended : Bool
  queue : List Item
  queueBytes : ℕ
  staged : List Item
  stagedBytes : ℕ
  deadlines : ActorDeadlines

def Actor.tray (a : Actor) : Tray where
  reference := a.reference
  ended := a.state = .stopping || a.state = .stopped
  queue := a.queue.map Item.delivery
  queueBytes := a.queueBytes
  staged := a.staged.map Item.output
  stagedBytes := a.stagedBytes
  deadlines := a.deadlines

namespace Tray

/-- The deadlines of what waits. -/
def times (t : Tray) : List Instant := (t.queue ++ t.staged).filterMap (·.deadline)

/-- The counts of the tray are those of what waits in it, within the limits. -/
structure Balanced (cfg : Config) (t : Tray) : Prop where
  queueBytes : t.queueBytes = (t.queue.map (·.bytes)).sum
  stagedBytes : t.stagedBytes = (t.staged.map (·.bytes)).sum
  counts : t.deadlines.Counts t.times
  queueRoom : t.queue.length ≤ cfg.mailboxCapacity
  queueLimit : t.queueBytes ≤ cfg.mailboxBytes
  stagedRoom : t.staged.length ≤ cfg.mailboxCapacity
  stagedLimit : t.stagedBytes ≤ cfg.mailboxBytes
  quiet : t.ended = true → t.queue = [] ∧ t.staged = []

/-- A tray in which nothing waits. -/
def cleared (r : ActorRef) (ended : Bool) : Tray := ⟨r, ended, [], 0, [], 0, .new⟩

theorem balanced_cleared (cfg : Config) (r : ActorRef) (ended : Bool) :
    (cleared r ended).Balanced cfg where
  queueBytes := rfl
  stagedBytes := rfl
  counts := ActorDeadlines.counts_new
  queueRoom := Nat.zero_le _
  queueLimit := Nat.zero_le _
  stagedRoom := Nat.zero_le _
  stagedLimit := Nat.zero_le _
  quiet := fun _ => ⟨rfl, rfl⟩

theorem first_cleared (r : ActorRef) (ended : Bool) :
    (cleared r ended).deadlines.first = none :=
  ActorDeadlines.counts_new.first_none.mpr rfl

theorem Balanced.first_none {cfg : Config} {t : Tray} (h : t.Balanced cfg) (hq : t.queue = [])
    (hs : t.staged = []) : t.deadlines.first = none := by
  apply h.counts.first_none.mpr
  unfold times
  rw [hq, hs]
  rfl

end Tray

structure Mailroom where
  trays : List Tray
  earliest : DeadlineIndex
  stagedActors : Assoc ℕ ActorRef
  poisoned : Bool

def State.mailroom (st : State) : Mailroom :=
  ⟨st.actors.map Actor.tray, st.eventDeadlines, st.stagedActors, st.poisoned⟩

namespace Mailroom

variable {m : Mailroom} {w : World} {r q : ActorRef} {t t' : Tray} {X X' Y : List ActorRef}

/-- The actor has the tray. -/
def Holds (m : Mailroom) (r : ActorRef) (t : Tray) : Prop :=
  m.trays[r.slot]? = some t ∧ t.reference = r

/-- The tables are what the trays say, except that they lack the earliest deadlines of the
actors in `X` and the staging of the actors in `Y`. -/
structure Exact (w : World) (X Y : List ActorRef) (m : Mailroom) : Prop where
  sound : m.poisoned = false
  slotted : ∀ (i : ℕ) (t : Tray), m.trays[i]? = some t →
    t.reference.world = w.id ∧ t.reference.slot = i
  balanced : ∀ (i : ℕ) (t : Tray), m.trays[i]? = some t → t.Balanced w.cfg
  index : m.earliest.Sound
  earliest : ∀ r t, m.Holds r t →
    m.earliest.actors.lookup r = if r ∈ X then none else t.deadlines.first
  strangers : ∀ r, (∀ t, ¬m.Holds r t) → m.earliest.actors.lookup r = none
  staged : ∀ r t, m.Holds r t →
    m.stagedActors.lookup r.slot = if r ∈ Y ∨ t.staged = [] then none else some r
  vacant : ∀ i : ℕ, m.trays[i]? = none → m.stagedActors.lookup i = none

/-- The tables lack nothing. -/
def Settled (w : World) (m : Mailroom) : Prop := m.Exact w [] []

theorem Holds.slot_eq (h : m.Holds r t) (h' : m.Holds q t') (same : q.slot = r.slot) : q = r := by
  have there : m.trays[r.slot]? = some t' := same ▸ h'.1
  rw [← h'.2, ← h.2, Option.some.inj (there.symm.trans h.1)]

theorem Holds.unique (h : m.Holds r t) (h' : m.Holds r t') : t' = t :=
  Option.some.inj (h'.1.symm.trans h.1)

namespace Exact

/-- An actor in whose tray nothing waits needs no entry. -/
theorem spare (h : m.Exact w (r :: X) (r :: Y))
    (hr : ∀ t, m.Holds r t → t.queue = [] ∧ t.staged = []) : m.Exact w X Y := by
  refine { h with earliest := ?_, staged := ?_ }
  · intro q t holds
    rw [h.earliest q t holds]
    by_cases same : q = r
    · subst same
      obtain ⟨queue, staged⟩ := hr t holds
      rw [(h.balanced _ t holds.1).first_none queue staged]
      simp
    · simp only [List.mem_cons, same, false_or]
  · intro q t holds
    rw [h.staged q t holds]
    by_cases same : q = r
    · subst same
      simp [(hr t holds).2]
    · simp only [List.mem_cons, same, false_or]

/-- The entries of one actor are taken out of the tables. -/
theorem strike (h : m.Exact w X Y) (hr : m.Holds r t) :
    Exact w (r :: X) (r :: Y)
      { m with
        earliest := m.earliest.remove r
        stagedActors := m.stagedActors.erase r.slot } := by
  constructor
  · exact h.sound
  · exact h.slotted
  · exact h.balanced
  · exact h.index.remove
  · intro q x holds
    rw [DeadlineIndex.lookup_remove, h.earliest q x holds]
    by_cases same : q = r
    · simp [same]
    · simp only [same, if_false, List.mem_cons, false_or]
  · intro q stranger
    rw [DeadlineIndex.lookup_remove]
    split_ifs
    · rfl
    · exact h.strangers q stranger
  · intro q x holds
    rw [Assoc.lookup_erase_ite, h.staged q x holds]
    by_cases same : q = r
    · simp [same]
    · have apart : q.slot ≠ r.slot := fun slot => same (hr.slot_eq holds slot)
      simp only [apart, same, if_false, List.mem_cons, false_or]
  · intro i empty
    rw [Assoc.lookup_erase_ite]
    split_ifs
    · rfl
    · exact h.vacant i empty

end Exact

/-! ## Updates of one tray -/

/-- What is held after one tray was replaced. -/
theorem holds_set {earliest : DeadlineIndex} {staged : Assoc ℕ ActorRef} {poisoned : Bool}
    (hr : m.Holds r t) (h' : t'.reference = r) {x : Tray} :
    Holds ⟨m.trays.set r.slot t', earliest, staged, poisoned⟩ q x ↔
      if q = r then x = t' else m.Holds q x := by
  have inside : r.slot < m.trays.length := (List.getElem?_eq_some_iff.mp hr.1).1
  unfold Holds
  dsimp only
  rw [List.getElem?_set]
  by_cases here : r.slot = q.slot
  · rw [if_pos here, if_pos inside]
    by_cases same : q = r
    · rw [if_pos same]
      constructor
      · rintro ⟨found, -⟩
        exact (Option.some.inj found).symm
      · rintro rfl
        exact ⟨rfl, h'.trans same.symm⟩
    · rw [if_neg same]
      constructor
      · rintro ⟨found, current⟩
        rw [← Option.some.inj found, h'] at current
        exact absurd current.symm same
      · rintro ⟨found, current⟩
        rw [← here] at found
        rw [Option.some.inj (found.symm.trans hr.1)] at current
        exact absurd (current.symm.trans hr.2) same
  · have same : q ≠ r := fun same => here (congrArg ActorRef.slot same.symm)
    rw [if_neg here, if_neg same]

/-- A tray is replaced, and the tables say so. -/
theorem Exact.put (h : m.Exact w X Y) (hr : m.Holds r t) (h' : t'.reference = r)
    (hb : t'.Balanced w.cfg) {earliest : DeadlineIndex} {staged : Assoc ℕ ActorRef}
    (hi : earliest.Sound)
    (he : ∀ q, earliest.actors.lookup q =
      if q = r then (if r ∈ X' then none else t'.deadlines.first)
      else m.earliest.actors.lookup q)
    (hX : ∀ q, q ≠ r → (q ∈ X' ↔ q ∈ X))
    (hs : ∀ i, staged.lookup i =
      if i = r.slot then (if r ∈ Y ∨ t'.staged = [] then none else some r)
      else m.stagedActors.lookup i) :
    Exact w X' Y ⟨m.trays.set r.slot t', earliest, staged, m.poisoned⟩ := by
  have inside : r.slot < m.trays.length := (List.getElem?_eq_some_iff.mp hr.1).1
  have trays : ∀ (i : ℕ) (x : Tray), (m.trays.set r.slot t')[i]? = some x →
      i = r.slot ∧ x = t' ∨ m.trays[i]? = some x := by
    intro i x found
    rw [List.getElem?_set] at found
    split_ifs at found with here
    · exact .inl ⟨here.symm, (Option.some.inj found).symm⟩
    · exact .inr found
  constructor
  · exact h.sound
  · intro i x found
    obtain ⟨rfl, rfl⟩ | before := trays i x found
    · have seated := h.slotted _ t hr.1
      rw [hr.2] at seated
      rw [h']
      exact seated
    · exact h.slotted i x before
  · intro i x found
    obtain ⟨rfl, rfl⟩ | before := trays i x found
    · exact hb
    · exact h.balanced i x before
  · exact hi
  · intro q x holds
    rw [he]
    rw [holds_set hr h'] at holds
    by_cases same : q = r
    · rw [if_pos same] at holds ⊢
      rw [holds, same]
    · rw [if_neg same] at holds ⊢
      rw [h.earliest q x holds]
      simp only [hX q same]
  · intro q stranger
    rw [he]
    have known : ∀ x, ¬(if q = r then x = t' else m.Holds q x) := by
      intro x
      rw [← @holds_set _ _ _ _ _ earliest staged m.poisoned hr h']
      exact stranger x
    by_cases same : q = r
    · simp [same] at known
    · rw [if_neg same]
      simp only [if_neg same] at known
      exact h.strangers q known
  · intro q x holds
    rw [holds_set hr h'] at holds
    rw [hs]
    by_cases same : q = r
    · rw [if_pos same] at holds
      rw [holds, same, if_pos rfl]
    · rw [if_neg same] at holds
      rw [if_neg fun slot => same (hr.slot_eq holds slot)]
      exact h.staged q x holds
  · intro i empty
    have outside : i ≠ r.slot := by
      rintro rfl
      rw [List.getElem?_set_self inside] at empty
      cases empty
    rw [hs i, if_neg outside]
    rw [List.getElem?_set_ne outside.symm] at empty
    exact h.vacant i empty

/-- A tray is replaced by one with the same staging, and the index says so. -/
theorem Settled.put (h : m.Settled w) (hr : m.Holds r t) (h' : t'.reference = r)
    (hb : t'.Balanced w.cfg) (hs : t'.staged = t.staged) :
    Settled w ⟨m.trays.set r.slot t', m.earliest.set r t'.deadlines.first, m.stagedActors,
      m.poisoned⟩ := by
  apply Exact.put h hr h' hb
  · exact h.index.set _
  · intro q
    rw [DeadlineIndex.lookup_set]
    simp
  · exact fun _ _ => Iff.rfl
  · intro i
    split_ifs with here staged
    · rw [here, h.staged r t hr, ← hs, if_pos staged]
    · rw [here, h.staged r t hr, ← hs, if_neg staged]
    · rfl

/-! ## A new actor -/

/-- The actor's slot is the next one, or somebody else sits there in whose tray nothing waits. -/
def Free (m : Mailroom) (r : ActorRef) : Prop :=
  r.slot = m.trays.length ∨ ∃ t, m.trays[r.slot]? = some t ∧ t.reference ≠ r ∧
    t.queue = [] ∧ t.staged = []

theorem Free.unstaged (hr : m.Free r) (h : m.Settled w) :
    m.stagedActors.lookup r.slot = none := by
  obtain last | ⟨t, found, -, -, staged⟩ := hr
  · exact h.vacant _ (List.getElem?_eq_none last.ge)
  · have slot := (h.slotted _ t found).2
    have entry := h.staged t.reference t ⟨slot.symm ▸ found, rfl⟩
    rw [slot, staged] at entry
    simpa using entry

theorem Free.stranger (hr : m.Free r) (t : Tray) : ¬m.Holds r t := by
  rintro ⟨found, current⟩
  obtain last | ⟨t', there, distinct, -⟩ := hr
  · rw [List.getElem?_eq_none last.ge] at found
    cases found
  · rw [Option.some.inj (found.symm.trans there)] at current
    exact distinct current

/-- Whoever sat in the slot has nothing in the index. -/
theorem Free.silent (hr : m.Free r) (h : m.Settled w) (holds : m.Holds q t)
    (here : q.slot = r.slot) : m.earliest.actors.lookup q = none := by
  obtain last | ⟨t', found, -, queue, staged⟩ := hr
  · have outside := List.getElem?_eq_none last.ge
    rw [← here, holds.1] at outside
    cases outside
  · rw [← here] at found
    obtain rfl := Option.some.inj (found.symm.trans holds.1)
    have none := (h.balanced _ t' found).first_none queue staged
    have entry := h.earliest q t' holds
    rw [none] at entry
    simpa using entry

/-- What is held after a new actor sat down. -/
theorem holds_seated {trays : List Tray}
    (hn : trays[r.slot]? = some (Tray.cleared r false))
    (ho : ∀ i, i ≠ r.slot → trays[i]? = m.trays[i]?) :
    Holds { m with trays := trays } q t ↔
      if q.slot = r.slot then q = r ∧ t = Tray.cleared r false else m.Holds q t := by
  unfold Holds
  dsimp only
  split_ifs with here
  · rw [here, hn]
    constructor
    · rintro ⟨found, current⟩
      rw [← Option.some.inj found] at current
      exact ⟨current.symm, (Option.some.inj found).symm⟩
    · rintro ⟨rfl, rfl⟩
      exact ⟨rfl, rfl⟩
  · rw [ho _ here]

/-- The tables need not change for an actor that sits down in an empty tray. -/
theorem Settled.seated (h : m.Settled w) (hw : r.world = w.id) (hr : m.Free r)
    {trays : List Tray} (hn : trays[r.slot]? = some (Tray.cleared r false))
    (ho : ∀ i, i ≠ r.slot → trays[i]? = m.trays[i]?) : Settled w { m with trays := trays } := by
  have fresh : m.earliest.actors.lookup r = none := h.strangers r hr.stranger
  constructor
  · exact h.sound
  · intro i x found
    by_cases here : i = r.slot
    · subst here
      rw [Option.some.inj (found.symm.trans hn)]
      exact ⟨hw, rfl⟩
    · exact h.slotted i x ((ho i here).symm.trans found)
  · intro i x found
    by_cases here : i = r.slot
    · subst here
      rw [Option.some.inj (found.symm.trans hn)]
      exact Tray.balanced_cleared w.cfg r false
    · exact h.balanced i x ((ho i here).symm.trans found)
  · exact h.index
  · intro q x holds
    rw [holds_seated hn ho] at holds
    split_ifs at holds with here
    · obtain ⟨rfl, rfl⟩ := holds
      rw [Tray.first_cleared, fresh]
      simp
    · exact h.earliest q x holds
  · intro q stranger
    by_cases held : ∃ x, m.Holds q x
    · obtain ⟨x, held⟩ := held
      by_cases here : q.slot = r.slot
      · exact hr.silent h held here
      · exact absurd ((holds_seated hn ho).mpr ((if_neg here).symm ▸ held)) (stranger x)
    · exact h.strangers q fun x holds => held ⟨x, holds⟩
  · intro q x holds
    rw [holds_seated hn ho] at holds
    split_ifs at holds with here
    · obtain ⟨rfl, rfl⟩ := holds
      rw [hr.unstaged h]
      simp [Tray.cleared]
    · exact h.staged q x holds
  · intro i empty
    have outside : i ≠ r.slot := by
      rintro rfl
      rw [hn] at empty
      cases empty
    exact h.vacant i ((ho i outside).symm.trans empty)

/-- A new actor sits down in an empty tray. -/
theorem Settled.seat (h : m.Settled w) (hw : r.world = w.id) (hr : m.Free r) :
    Settled w { m with
      trays := if r.slot = m.trays.length then m.trays ++ [Tray.cleared r false]
        else m.trays.set r.slot (Tray.cleared r false) } := by
  apply h.seated hw hr
  · obtain last | ⟨t, found, -⟩ := hr
    · rw [if_pos last, last]
      simp
    · have inside : r.slot < m.trays.length := (List.getElem?_eq_some_iff.mp found).1
      rw [if_neg inside.ne, List.getElem?_set_self inside]
  · intro i other
    split_ifs with last
    · rw [List.getElem?_append]
      split_ifs with inside
      · rfl
      · have outside : m.trays.length ≤ i := by omega
        rw [List.getElem?_eq_none outside]
        apply List.getElem?_eq_none
        rw [List.length_singleton]
        omega
    · exact List.getElem?_set_ne other.symm

end Mailroom

end Actorplane
