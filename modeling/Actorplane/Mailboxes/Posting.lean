import Actorplane.Mailboxes.Mailroom
import Actorplane.Supervision.Desk

/-!
# Work on one mailbox

Admission, claims, staging, flushes and expiry each work on the tray of one actor and
end with its entry in the tables. What they remove from the counts is counted.
-/

namespace Actorplane

variable {st st' st'' : State} {m : Mailroom} {r : ActorRef} {t t' : Tray} {a : Actor}

def Desk.mailroom (d : Desk) : Mailroom :=
  ⟨d.actors.map Actor.tray, d.eventDeadlines, d.stagedActors, d.poisoned⟩

/-- The mailroom, but for the tray of one actor. -/
structure Shows (m : Mailroom) (r : ActorRef) (t : Tray) (st : State) : Prop where
  mailroom : st.mailroom = { m with trays := m.trays.set r.slot t }
  inside : r.slot < m.trays.length

theorem State.mailroom_of_desk (h : st'.desk = st.desk) : st'.mailroom = st.mailroom :=
  congrArg Desk.mailroom h

namespace Shows

theorem refl (h : st.mailroom.Holds r t) : Shows st.mailroom r t st := by
  obtain ⟨inside, found⟩ := List.getElem?_eq_some_iff.mp h.1
  constructor
  · rw [← found, List.set_getElem_self inside]
  · exact inside

theorem get (h : Shows m r t st) : ∃ a, st.actors[r.slot]? = some a ∧ a.tray = t := by
  have trays := congrArg Mailroom.trays h.mailroom
  have found : (st.actors.map Actor.tray)[r.slot]? = some t := by
    have set : st.actors.map Actor.tray = m.trays.set r.slot t := trays
    rw [set, List.getElem?_set_self h.inside]
  rw [List.getElem?_map, Option.map_eq_some_iff] at found
  exact found

theorem still (h : Shows m r t st) (same : st'.mailroom = st.mailroom) : Shows m r t st' :=
  ⟨same.trans h.mailroom, h.inside⟩

theorem aside (h : Shows m r t st) (same : st'.desk = st.desk) : Shows m r t st' :=
  h.still (State.mailroom_of_desk same)

theorem modify (h : Shows m r t st) {f : Actor → Actor} (hf : ∀ a, a.tray = t → (f a).tray = t') :
    Shows m r t' (st.modifyActor r f) := by
  obtain ⟨a, found, tray⟩ := h.get
  have trays : (st.actors.modify r.slot f).map Actor.tray = m.trays.set r.slot t' := by
    have before : st.actors.map Actor.tray = m.trays.set r.slot t :=
      congrArg Mailroom.trays h.mailroom
    apply List.ext_getElem?
    intro i
    rw [List.getElem?_map, List.getElem?_modify, List.getElem?_set]
    by_cases here : r.slot = i
    · subst here
      rw [found, if_pos rfl, if_pos h.inside]
      simpa using hf a tray
    · have other := congrArg (fun l : List Tray => l[i]?) before
      simp only [List.getElem?_map, List.getElem?_set, here, if_false] at other
      rw [if_neg here]
      simpa [here] using other
  have tables := h.mailroom
  constructor
  · show ({ st.mailroom with trays := (st.actors.modify r.slot f).map Actor.tray } : Mailroom) = _
    rw [trays, tables]
  · exact h.inside

/-- A deadline that is counted is removed. -/
theorem remove (h : Shows m r t st) {l rest : List Instant} (hc : t.deadlines.Counts l)
    {deadline : Option Instant} (hp : l.Perm (deadline.toList ++ rest)) :
    ∃ d, d.Counts rest ∧
      Shows m r { t with deadlines := d } (World.removeDeadline r deadline st) := by
  obtain ⟨a, found, tray⟩ := h.get
  have counts : a.deadlines.Counts l := by
    rw [← tray] at hc
    exact hc
  have removed : ∃ d, a.deadlines.remove? deadline = some d ∧ d.Counts rest := by
    cases deadline with
    | none => exact ⟨a.deadlines, rfl, counts.perm hp⟩
    | some t =>
      have counted : t ∈ l := hp.mem_iff.mpr List.mem_cons_self
      obtain ⟨d, removed, counts'⟩ := counts.remove counted
      refine ⟨d, removed, counts'.perm ?_⟩
      have erased := hp.erase t
      simpa using erased
  obtain ⟨d, removed, counts'⟩ := removed
  refine ⟨d, counts', ?_⟩
  unfold World.removeDeadline
  rw [found]
  dsimp only
  rw [removed]
  apply h.modify
  intro b same
  show ({ b.tray with deadlines := d } : Tray) = _
  rw [same]

theorem refresh (h : Shows m r t st) :
    Shows { m with earliest := m.earliest.set r t.deadlines.first } r t
      (World.refreshEarliest r st) := by
  obtain ⟨a, found, tray⟩ := h.get
  have first : a.deadlines = t.deadlines := congrArg Tray.deadlines tray
  have tables := h.mailroom
  have index : st.eventDeadlines = m.earliest := congrArg Mailroom.earliest tables
  unfold World.refreshEarliest
  rw [found]
  constructor
  · dsimp only
    rw [first, index]
    show ({ st.mailroom with earliest := m.earliest.set r t.deadlines.first } : Mailroom) = _
    rw [tables]
  · exact h.inside

/-- The staging table changes beside the tray. -/
theorem restage (h : Shows m r t st) (f : Assoc ℕ ActorRef → Assoc ℕ ActorRef) :
    ({ st with stagedActors := f st.stagedActors } : State).mailroom =
      ⟨m.trays.set r.slot t, m.earliest, f m.stagedActors, m.poisoned⟩ := by
  have listed : st.stagedActors = m.stagedActors := congrArg Mailroom.stagedActors h.mailroom
  rw [← listed]
  exact congrArg (fun m : Mailroom => { m with stagedActors := f st.stagedActors }) h.mailroom

end Shows

/-! ## Slots -/

namespace Slotwise

variable {α : Type} {R S T : α → α → Prop} {l l' l'' : List α}

theorem comp (h : Slotwise R l l') (h' : Slotwise S l' l'')
    (hT : ∀ a b c, R a b → S b c → T a c) : Slotwise T l l'' := by
  intro i
  have first := h i
  have second := h' i
  generalize l[i]? = x at first ⊢
  generalize l'[i]? = y at first second
  generalize l''[i]? = z at second ⊢
  cases first with
  | none =>
    cases second with
    | none => exact .none
  | some first =>
    cases second with
    | some second => exact .some (hT _ _ _ first second)

/-- One slot changes, and the others stay what they are. -/
theorem set_other {i : ℕ} {a a' : α} (ha : l[i]? = some a) (h : R a a')
    (ho : ∀ j b, j ≠ i → l[j]? = some b → R b b) : Slotwise R l (l.set i a') := by
  have inside : i < l.length := (List.getElem?_eq_some_iff.mp ha).1
  intro j
  by_cases here : i = j
  · subst here
    rw [List.getElem?_set_self inside, ha]
    exact .some h
  · rw [List.getElem?_set_ne here]
    cases found : l[j]? with
    | none => exact .none
    | some b => exact .some (ho j b (Ne.symm here) found)

end Slotwise

/-! ## Calls that keep the tables exact -/

/-- A call after which the tables lack nothing if they lacked nothing before. -/
def Posts (w : World) (st st' : State) : Prop :=
  st.mailroom.Settled w → st'.mailroom.Settled w

namespace Posts

variable {w : World}

theorem refl (st : State) : Posts w st st := id

theorem trans (h : Posts w st st') (h' : Posts w st' st'') : Posts w st st'' := h' ∘ h

theorem still (h : st'.mailroom = st.mailroom) : Posts w st st' := by
  intro settled
  rw [h]
  exact settled

theorem aside (h : st'.desk = st.desk) : Posts w st st' := still (State.mailroom_of_desk h)

theorem after (h : Posts w st st') (h' : st''.mailroom = st'.mailroom) : Posts w st st'' :=
  h.trans (still h')

end Posts

namespace State

theorem mailroom_modify {f : Actor → Actor} (hf : ∀ a, (f a).tray = a.tray) :
    (st.modifyActor r f).mailroom = st.mailroom := by
  have trays : (st.actors.modify r.slot f).map Actor.tray = st.actors.map Actor.tray := by
    apply List.ext_getElem?
    intro i
    rw [List.getElem?_map, List.getElem?_map, List.getElem?_modify]
    cases st.actors[i]? with
    | none => rfl
    | some a =>
      by_cases here : r.slot = i
      · simp [here, hf]
      · simp [here]
  show ({ st.mailroom with trays := (st.actors.modify r.slot f).map Actor.tray } : Mailroom) = _
  rw [trays]
  rfl

/-- An update that leaves the tray of the actor it meets. -/
theorem mailroom_modify_at {f : Actor → Actor} (ha : st.actors[r.slot]? = some a)
    (hf : (f a).tray = a.tray) : (st.modifyActor r f).mailroom = st.mailroom := by
  have trays : (st.actors.modify r.slot f).map Actor.tray = st.actors.map Actor.tray := by
    apply List.ext_getElem?
    intro i
    rw [List.getElem?_map, List.getElem?_map, List.getElem?_modify]
    by_cases here : r.slot = i
    · subst here
      simp [ha, hf]
    · simp [here]
  show ({ st.mailroom with trays := (st.actors.modify r.slot f).map Actor.tray } : Mailroom) = _
  rw [trays]
  rfl

theorem holds_iff : st.mailroom.Holds r t ↔
    ∃ a, st.actors[r.slot]? = some a ∧ a.reference = r ∧ a.tray = t := by
  unfold Mailroom.Holds
  simp only [mailroom, List.getElem?_map, Option.map_eq_some_iff]
  constructor
  · rintro ⟨⟨a, found, rfl⟩, current⟩
    exact ⟨a, found, current, rfl⟩
  · rintro ⟨a, found, current, rfl⟩
    exact ⟨⟨a, found, rfl⟩, current⟩

end State

namespace World

variable {w : World}

theorem mailroom_touch : st.touchActivity.mailroom = st.mailroom := rfl

theorem mailroom_mark : (w.markActivityDependentsLocked r st).mailroom = st.mailroom := rfl

theorem mailroom_note (e : Event) : (st.note e).mailroom = st.mailroom := rfl

/-- Whoever has a tray is current. -/
theorem check_of_holds (hw : r.world = w.id) (h : st.mailroom.Holds r t) :
    ∃ a, w.checkRef r st = .ok a ∧ st.actors[r.slot]? = some a ∧ a.tray = t := by
  obtain ⟨a, found, current, tray⟩ := State.holds_iff.mp h
  refine ⟨a, ?_, found, tray⟩
  unfold checkRef
  rw [found]
  simp [hw, current]

theorem holds_of_check {X Y : List ActorRef} (h : st.mailroom.Exact w X Y)
    (hc : w.checkRef r st = .ok a) :
    st.actors[r.slot]? = some a ∧ a.reference = r ∧ st.mailroom.Holds r a.tray := by
  unfold checkRef at hc
  split_ifs at hc with foreign
  cases found : st.actors[r.slot]? with
  | none =>
    rw [found] at hc
    cases hc
  | some b =>
    rw [found] at hc
    dsimp only at hc
    split_ifs at hc with stale
    cases hc
    have tray : st.mailroom.trays[r.slot]? = some a.tray := by
      show (st.actors.map Actor.tray)[r.slot]? = _
      rw [List.getElem?_map, found]
      rfl
    obtain ⟨home, slot⟩ := h.slotted _ _ tray
    have current : a.reference = r := by
      have world : a.reference.world = r.world := home.trans (not_not.mp foreign).symm
      have slot : a.reference.slot = r.slot := slot
      have generation : a.reference.generation = r.generation := not_not.mp stale
      cases r with
      | mk _ _ _ =>
        cases same : a.reference with
        | mk _ _ _ => simp_all
    exact ⟨rfl, current, State.holds_iff.mpr ⟨a, found, current, rfl⟩⟩

end World

end Actorplane
