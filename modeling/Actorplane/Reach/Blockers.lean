import Actorplane.Core.Finalized
import Actorplane.Reach.Ownership

/-!
# Blockers of reachable states

The flags of an actor agree with the outstanding leases and registrations on it.
While one of them stands the actor is not finalized, and every generation is finalized
once.
-/

namespace Actorplane

/-- The actor that a call which ends a lease or a registration is about. -/
def Action.ends? : Action → Option ActorRef
  | .finishDelivery lease _ | .dropDelivery lease => some lease.target
  | .dropTask r | .dropCallback r => some r
  | .finishFailure lease _ | .dropFailure lease => some lease.supervisor
  | _ => none

namespace World

variable {w : World} {st : State} {r : ActorRef} {a : Actor}

/-- Is a delivery, failure or callback lease, or a task registration on the actor outstanding? -/
def Leased (st : State) (r : ActorRef) : Prop :=
  (∃ l ∈ st.deliveryLeases, l.target = r) ∨ (∃ l ∈ st.failureLeases, l.supervisor = r) ∨
    r ∈ st.callbackLeases ∨ r ∈ st.taskLeases

structure Exclusive (w : World) (st : State) : Prop where
  delivery : ∀ r a, w.checkRef r st = .ok a →
    (a.inFlight = true ↔ st.deliveryLeases.countP (·.target = r) = 1) ∧
      st.deliveryLeases.countP (·.target = r) ≤ 1
  control : ∀ r a, w.checkRef r st = .ok a →
    (a.controlInFlight = true ↔
      st.failureLeases.countP (·.supervisor = r) + st.callbackLeases.count r = 1) ∧
      st.failureLeases.countP (·.supervisor = r) + st.callbackLeases.count r ≤ 1
  apart : ∀ r a, w.checkRef r st = .ok a → ¬(a.inFlight = true ∧ a.controlInFlight = true)
  tasks : ∀ r a, w.checkRef r st = .ok a → a.nativeTasks = st.taskLeases.count r
  held : ∀ r a, w.checkRef r st = .ok a →
    a.inFlight = true ∨ a.controlInFlight = true ∨ 0 < a.nativeTasks → a.state ≠ .stopped
  current : ∀ r, Leased st r → ∃ a, w.Living st r a

theorem Rests.box (h : w.Rests st) (ha : w.checkRef r st = .ok a) :
    st.core.boxes[r.slot]? = some a.box :=
  State.core_boxes_get (h.check.mp ha).1

theorem Rests.holdOf (h : w.Rests st) (ha : w.checkRef r st = .ok a) :
    st.core.holds[r.slot]? = some a.hold :=
  State.core_holds_get (h.check.mp ha).1

theorem count_controls (r : ActorRef) : st.core.controls.count r =
    st.failureLeases.countP (·.supervisor = r) + st.callbackLeases.count r := by
  show (st.failureLeases.map (·.supervisor) ++ st.callbackLeases).count r = _
  rw [List.count_append, List.count, List.countP_map]
  rfl

theorem Rests.gripped (h : w.Rests st) (ha : w.checkRef r st = .ok a) :
    st.core.Gripped r a.hold :=
  h.valid.controlled.gripped r a.node a.hold (seated_of_check h.valid.owned ha) (h.holdOf ha)

theorem Rests.delivery (h : w.Rests st) (ha : w.checkRef r st = .ok a) :
    (a.inFlight = true ↔ st.deliveryLeases.countP (·.target = r) = 1) ∧
      st.deliveryLeases.countP (·.target = r) ≤ 1 := by
  have hle : st.deliveryLeases.countP (·.target = r) ≤ 1 := by
    have hnodup : (st.deliveryLeases.map (·.target)).Nodup :=
      List.Nodup.of_map ActorRef.slot (by
        rw [List.map_map]
        exact h.valid.leased.nodup)
    have := List.nodup_iff_count_le_one.mp hnodup r
    rw [List.count, List.countP_map] at this
    exact this
  refine ⟨?_, hle⟩
  have hn := seated_of_check h.valid.owned ha
  constructor
  · intro hf
    obtain ⟨l, hl, hslot⟩ := h.valid.leased.flown r.slot a.box (h.box ha) hf
    obtain ⟨n, hm, -⟩ := h.valid.leased.target l hl
    have hr : l.target = r := by
      rw [← hm.2, ← hn.2]
      have := hm.1
      rw [hslot, hn.1] at this
      rw [Option.some.inj this]
    have : 0 < st.deliveryLeases.countP (·.target = r) :=
      List.countP_pos_iff.mpr ⟨l, hl, by simpa using hr⟩
    omega
  · intro hc
    obtain ⟨l, hl, hr⟩ := List.countP_pos_iff.mp (by omega :
      0 < st.deliveryLeases.countP (·.target = r))
    obtain ⟨-, -, -, b, hb, hf⟩ := h.valid.leased.target l hl
    rw [show l.target = r by simpa using hr, h.box ha] at hb
    cases hb
    exact hf

/-- A lease or a registration that is outstanding names a living actor. -/
theorem Rests.current (h : w.Rests st) (hr : Leased st r) : ∃ a, w.Living st r a := by
  have hcontrol : r ∈ st.core.controls ∨ r ∈ st.core.tasks → ∃ a, w.Living st r a := by
    intro hr
    obtain ⟨n, hn, hs⟩ := h.valid.controlled.not_stopped h.valid.columns hr
    obtain ⟨a, ha, -⟩ := h.living_iff.mp ⟨hn, hs⟩
    exact ⟨a, ha⟩
  rcases hr with ⟨l, hl, rfl⟩ | ⟨l, hl, rfl⟩ | hr | hr
  · obtain ⟨n, hn, hs, -⟩ := h.valid.leased.target l hl
    obtain ⟨a, ha, -⟩ := h.living_iff.mp ⟨hn, hs⟩
    exact ⟨a, ha⟩
  · exact hcontrol (.inl (List.mem_append_left _ (List.mem_map.mpr ⟨l, hl, rfl⟩)))
  · exact hcontrol (.inl (List.mem_append_right _ hr))
  · exact hcontrol (.inr hr)

theorem Rests.exclusive (h : w.Rests st) : w.Exclusive st where
  delivery r a ha := h.delivery ha
  control r a ha := by
    have hc := (h.gripped ha).control
    rw [count_controls] at hc
    rw [hc]
    show (a.controlInFlight = true ↔ (if a.controlInFlight = true then 1 else 0) = 1) ∧
      (if a.controlInFlight = true then 1 else 0) ≤ 1
    split_ifs with hf <;> simp [hf]
  apart r a ha := by
    rintro ⟨hf, hc⟩
    have := h.valid.controlled.exclusive r.slot a.box a.hold (h.box ha) (h.holdOf ha) hf
    rw [show a.hold.control = a.controlInFlight from rfl, hc] at this
    cases this
  tasks r a ha := (h.gripped ha).tasks.symm
  held r a ha hany := by
    intro hs
    have hleased : Leased st r := by
      rcases hany with hf | hc | ht
      · have := (h.delivery ha).1.mp hf
        obtain ⟨l, hl, hr⟩ := List.countP_pos_iff.mp (by omega :
          0 < st.deliveryLeases.countP (·.target = r))
        exact .inl ⟨l, hl, by simpa using hr⟩
      · have hpos : 0 < st.core.controls.count r := by
          rw [(h.gripped ha).control, if_pos (show a.hold.control = true from hc)]
          exact Nat.one_pos
        rcases List.mem_append.mp (List.count_pos_iff.mp hpos) with hr | hr
        · obtain ⟨l, hl, hr⟩ := List.mem_map.mp hr
          exact .inr (.inl ⟨l, hl, hr⟩)
        · exact .inr (.inr (.inl hr))
      · refine .inr (.inr (.inr (List.count_pos_iff.mp ?_)))
        rw [show st.taskLeases.count r = a.nativeTasks from (h.gripped ha).tasks]
        exact ht
    obtain ⟨b, hb, hbs⟩ := h.current hleased
    rw [ha] at hb
    cases hb
    exact hbs hs
  current r hr := h.current hr

/-- A call that ends a lease finds the actor of the lease, and no slot changes hands. -/
theorem Rests.ends (h : w.Rests st) {action : Action} (hr : action.ends? = some r)
    (hout : (w.step action st).1 ≠ .unavailable) :
    Leased st r ∧ ∀ i : ℕ, (w.step action st).2.actors[i]?.map Actor.reference =
      st.actors[i]?.map Actor.reference := by
  have hmem : ∀ {α : Type} [DecidableEq α] {leases : List α} {lease : α} {call : Outcome × State},
      (outstanding leases lease call st).1 ≠ .unavailable → lease ∈ leases := by
    intro α _ leases lease call hne
    by_contra hno
    exact hne (by rw [outstanding, if_neg hno])
  have hrefs : (∀ q, ¬w.moves action st (.allocate q)) → ∀ i : ℕ,
      (w.step action st).2.actors[i]?.map Actor.reference =
        st.actors[i]?.map Actor.reference := by
    intro hno i
    have h := (step_evolves h.valid action).steps.references hno i
    simp only [State.core, List.getElem?_map, Option.map_map] at h
    exact h
  cases action with
  | finishDelivery lease success =>
    cases hr
    exact ⟨.inl ⟨lease, hmem hout, rfl⟩, hrefs fun _ h => h⟩
  | dropDelivery lease =>
    cases hr
    exact ⟨.inl ⟨lease, hmem hout, rfl⟩, hrefs fun _ h => h⟩
  | dropTask r =>
    cases hr
    exact ⟨.inr (.inr (.inr (hmem hout))), hrefs fun _ h => h⟩
  | dropCallback r =>
    cases hr
    exact ⟨.inr (.inr (.inl (hmem hout))), hrefs fun _ h => h⟩
  | finishFailure lease failure =>
    cases hr
    exact ⟨.inr (.inl ⟨lease, hmem hout, rfl⟩), hrefs fun q hq => by
      rcases hq with hq | hq <;> cases hq⟩
  | dropFailure lease =>
    cases hr
    exact ⟨.inr (.inl ⟨lease, hmem hout, rfl⟩), hrefs fun q hq => by
      rcases hq with hq | hq <;> cases hq⟩
  | _ => cases hr

/-- In every reachable state the leases are exclusive and name living actors, so that ending one
never meets another generation in the slot. -/
theorem lease_exclusivity (w : World) (actions : List Action) :
    w.Exclusive (w.exec w.init actions) ∧
      ∀ action r, action.ends? = some r →
        (w.step action (w.exec w.init actions)).1 ≠ .unavailable →
        (∃ a, w.Living (w.exec w.init actions) r a) ∧
          ∀ i : ℕ, (w.exec w.init (actions ++ [action])).actors[i]?.map Actor.reference =
            (w.exec w.init actions).actors[i]?.map Actor.reference := by
  have h : w.Rests (w.exec w.init actions) := rests actions
  refine ⟨h.exclusive, fun action r hr hout => ?_⟩
  obtain ⟨hl, hrefs⟩ := h.ends hr hout
  rw [exec_append]
  exact ⟨h.current hl, hrefs⟩

/-! ## Stopping actors -/

/-- What keeps a stopping actor from being finalized. -/
def Blocked (w : World) (st : State) (a : Actor) : Prop :=
  a.inFlight = true ∨ a.controlInFlight = true ∨ a.notification.isSome = true ∨
    0 < a.nativeTasks ∨ a.pythonDone = false ∨ ∃ c ∈ a.children, ∃ b, w.Living st c b

theorem Rests.blockedActor (h : w.Rests st) (ha : w.checkRef r st = .ok a)
    (hs : a.state = .stopping) : w.Blocked st a := by
  have hn := seated_of_check h.valid.owned ha
  obtain ⟨b, hb, hf⟩ | ⟨x, hx, hne⟩ | hc := (h.blocked r a.node hn hs).resolve_right not_false
  · rw [h.box ha] at hb
    cases hb
    exact .inl hf
  · rw [h.holdOf ha] at hx
    cases hx
    by_contra hno
    simp only [Blocked, not_or] at hno
    obtain ⟨-, h1, h2, h3, h4, -⟩ := hno
    refine hne ?_
    simp only [Actor.hold, Hold.mk.injEq]
    exact ⟨by simpa using h1, by simpa using h2, by omega, by simpa using h4⟩
  · obtain ⟨c, hc⟩ := List.exists_mem_of_ne_nil _ hc
    obtain ⟨n, hm, hms, -⟩ := (h.valid.owned.child r a.node c hn).mp hc
    obtain ⟨b, hb, -⟩ := h.living_iff.mp ⟨hm, hms⟩
    exact .inr (.inr (.inr (.inr (.inr ⟨c, hc, b, hb⟩))))

/-- The finalizations of a state. -/
structure FinalizedOnce (w : World) (st : State) : Prop where
  once : ∀ r, st.log.count (.finalized r) ≤ 1
  stopped : ∀ r a, w.checkRef r st = .ok a → (a.state = .stopped ↔ Event.finalized r ∈ st.log)
  freed : ∀ i, i ∈ st.free ↔ ∃ a, st.actors[i]? = some a ∧ Event.finalized a.reference ∈ st.log
  live : st.liveActors = st.actors.countP fun a => Event.finalized a.reference ∉ st.log
  retired : ∀ id record, st.operations.view id = some record →
    Event.finalized record.owner ∉ st.log

theorem finalized_init : w.init.core.Finalized where
  past := by simp [World.init, State.core]
  once := by simp [World.init, State.core]
  stopped := by simp [World.init, State.core, Seated]
  owned id record hr := by
    obtain ⟨hl, -⟩ := OperationTable.view_eq_some.mp hr
    simp [World.init, State.core, OperationTable.new, OperationTable.locate] at hl
    split_ifs at hl

theorem mem_life {e : Event} (he : e.isLife = true) : e ∈ st.core.life ↔ e ∈ st.log := by
  show e ∈ st.log.filter _ ↔ _
  simp [he]

theorem Rests.finalizedOnce (h : w.Rests st) (hf : st.core.Finalized) : w.FinalizedOnce st := by
  have hmem : ∀ r, Event.finalized r ∈ st.core.life ↔ Event.finalized r ∈ st.log :=
    fun r => mem_life rfl
  have hstopped : ∀ r a, w.checkRef r st = .ok a →
      (a.state = .stopped ↔ Event.finalized r ∈ st.log) := by
    intro r a ha
    have hn := seated_of_check h.valid.owned ha
    rw [← hmem]
    refine ⟨fun hs => hf.stopped r a.node hn hs, fun hr => ?_⟩
    by_contra hs
    exact hf.not_alive hr ⟨a.node, hn, hs⟩
  have hself : ∀ (i : ℕ) (a : Actor), st.actors[i]? = some a → w.checkRef a.reference st = .ok a := by
    intro i a ha
    refine h.check.mpr ⟨?_, rfl⟩
    have hslot : a.reference.slot = i :=
      (h.valid.owned.slotted i a.node (State.core_nodes_get ha)).2
    rw [hslot]
    exact ha
  refine ⟨fun r => ?_, hstopped, fun i => ?_, ?_, fun id record hr hlog => ?_⟩
  · have := hf.once r
    rwa [show st.core.life.count (.finalized r) = st.log.count (.finalized r) from
      List.count_filter (by rfl)] at this
  · rw [h.tree.free.2]
    exact exists_congr fun a => and_congr_right fun ha => hstopped _ a (hself i a ha)
  · rw [h.tree.live]
    refine List.countP_congr fun a ha => ?_
    obtain ⟨i, hi⟩ := List.mem_iff_getElem?.mp ha
    simp [hstopped _ a (hself i a hi)]
  · exact hf.not_alive ((hmem _).mpr hlog) (hf.owned id record hr)

end World

end Actorplane
