import Actorplane.Reach.Publishing

/-!
# The order of one source

Publications of one source generation are attempted one after the other, so that
their deliveries enter every mailbox, and leave it through claims, in the order in
which the publications were accepted.
-/

namespace Actorplane

/-- The first event comes before the second, wherever both occur. -/
def Precedes (log : List Event) (e e' : Event) : Prop :=
  ∀ i j : ℕ, log[i]? = some e → log[j]? = some e' → i < j

variable {log : List Event} {e e' : Event}

theorem precedes_of_filterMap {β : Type} {f : Event → Option β} {R : β → β → Prop} {b b' : β}
    (h : (log.filterMap f).Pairwise R) (hb : f e = some b) (hb' : f e' = some b') (hno : ¬R b' b)
    (hne : e ≠ e') : Precedes log e e' := by
  intro i j hi hj
  by_contra hlt
  rw [List.pairwise_filterMap] at h
  rcases Nat.lt_or_eq_of_le (Nat.le_of_not_lt hlt) with hji | rfl
  · obtain ⟨hilt, rfl⟩ := List.getElem?_eq_some_iff.mp hi
    obtain ⟨hjlt, rfl⟩ := List.getElem?_eq_some_iff.mp hj
    exact hno (List.pairwise_iff_getElem.mp h j i hjlt hilt hji b' hb' b hb)
  · exact hne (Option.some.inj (hi.symm.trans hj))

/-- Two events in a row are in the order of a relation. -/
theorem related_of_filterMap {β : Type} {f : Event → Option β} {R : β → β → Prop} {b b' : β}
    (h : (log.filterMap f).Pairwise R) (hb : f e = some b) (hb' : f e' = some b') {i j : ℕ}
    (hi : log[i]? = some e) (hj : log[j]? = some e') (hij : i < j) : R b b' := by
  rw [List.pairwise_filterMap] at h
  obtain ⟨hilt, rfl⟩ := List.getElem?_eq_some_iff.mp hi
  obtain ⟨hjlt, rfl⟩ := List.getElem?_eq_some_iff.mp hj
  exact List.pairwise_iff_getElem.mp h i j hilt hjlt hij b hb b' hb'

namespace World

variable {w : World} {st : State} {source : ActorRef} {p q : ℕ}

theorem acceptedIds_published : acceptedIds st.core.published = acceptedIds st.log :=
  filterMap_published fun e he => by cases e <;> first | rfl | cases he

theorem attemptedBy_published : attemptedBy st.core.published source = attemptedBy st.log source :=
  filterMap_published fun e he => by cases e <;> first | rfl | cases he

theorem deliveredIds_published : deliveredIds st.core.published = deliveredIds st.log :=
  filterMap_published fun e he => by cases e <;> first | rfl | cases he

theorem claimedBy_mail (r : ActorRef) : claimedBy st.core.mail r = claimedBy st.log r := by
  show (st.log.filter Event.isMail).filterMap _ = _
  rw [List.filterMap_filter]
  refine List.filterMap_congr fun e _ => ?_
  cases e <;> rfl

/-- One source accepted `p`, and later `q`. -/
def AcceptedBefore (st : State) (source : ActorRef) (p q : ℕ) : Prop :=
  ∃ i j : ℕ, i < j ∧ st.log[i]? = some (.accepted p source) ∧
    st.log[j]? = some (.accepted q source)

/-- What the order of two publications of one source means for their deliveries. -/
structure InOrder (st : State) (source : ActorRef) (p q : ℕ) : Prop where
  attempts : ∀ route target delivery route' target' delivery',
    Precedes st.log (.attempted p source route target delivery)
      (.attempted q source route' target' delivery')
  enqueued : ∀ route route' target e e',
    Event.attempted p source route target (some e) ∈ st.log →
    Event.attempted q source route' target (some e') ∈ st.log →
      (∀ (a : Actor) (i j : ℕ), st.actors[target.slot]? = some a → (a.queue.map Delivery.eventId)[i]? = some e →
        (a.queue.map Delivery.eventId)[j]? = some e' → i < j) ∧
      Precedes st.log (.claimed e target) (.claimed e' target)

theorem Rests.accepted_lt (h : w.Rests st) (ha : AcceptedBefore st source p q) : p < q := by
  obtain ⟨i, j, hij, hi, hj⟩ := ha
  have hord := h.valid.ordered.accepted
  rw [acceptedIds_published] at hord
  exact related_of_filterMap hord (by rfl) (by rfl) hi hj hij

theorem Rests.attempts_precede (h : w.Rests st) (hpq : p < q) (route : ℕ) (target : ActorRef)
    (delivery : Option ℕ) (route' : ℕ) (target' : ActorRef) (delivery' : Option ℕ) :
    Precedes st.log (.attempted p source route target delivery)
      (.attempted q source route' target' delivery') := by
  have hatt := h.valid.ordered.attempts source
  rw [attemptedBy_published] at hatt
  refine @precedes_of_filterMap _ _ _ _ _ _ p q hatt (by simp) (by simp) hpq.not_ge ?_
  simp [hpq.ne]

/-- Deliveries are numbered in the order of their attempts. -/
theorem Rests.delivery_lt (h : w.Rests st) (hpq : p < q) {route route' : ℕ}
    {target target' : ActorRef} {e e' : ℕ}
    (he : Event.attempted p source route target (some e) ∈ st.log)
    (he' : Event.attempted q source route' target' (some e') ∈ st.log) : e < e' := by
  obtain ⟨i, hi⟩ := List.mem_iff_getElem?.mp he
  obtain ⟨j, hj⟩ := List.mem_iff_getElem?.mp he'
  have hdel := h.valid.ordered.deliveries
  rw [deliveredIds_published] at hdel
  exact related_of_filterMap hdel (by rfl) (by rfl) hi hj
    (h.attempts_precede hpq _ _ _ _ _ _ i j hi hj)

theorem Rests.inOrder (h : w.Rests st) (ha : AcceptedBefore st source p q) :
    InOrder st source p q := by
  have hpq := h.accepted_lt ha
  refine ⟨h.attempts_precede hpq, fun route route' target e e' he he' => ?_⟩
  have hlt : e < e' := h.delivery_lt hpq he he'
  refine ⟨fun a i j hget hi hj => ?_, ?_⟩
  · have hsorted := h.valid.queued.order _ a.box (State.core_boxes_get hget)
    rw [show (a.box.queue.map Mail.eventId) = a.queue.map Delivery.eventId by
      simp [Actor.box, Delivery.mail, Function.comp_def]] at hsorted
    by_contra hno
    rcases Nat.lt_or_eq_of_le (Nat.le_of_not_lt hno) with hji | rfl
    · obtain ⟨hilt, hie⟩ := List.getElem?_eq_some_iff.mp hi
      obtain ⟨hjlt, hje⟩ := List.getElem?_eq_some_iff.mp hj
      have := List.pairwise_iff_getElem.mp hsorted j i hjlt hilt hji
      omega
    · rw [hi] at hj
      exact hlt.ne (Option.some.inj hj)
  · have hclaims := h.valid.queued.claims target
    rw [claimedBy_mail] at hclaims
    refine @precedes_of_filterMap _ _ _ _ _ _ e e' hclaims (by simp) (by simp) hlt.not_gt ?_
    simp [hlt.ne]

/-- Per source and target, deliveries keep the order of publication; what claim returns is what
the history says. -/
theorem source_fifo (w : World) (actions : List Action) :
    (∀ source p q, AcceptedBefore (w.exec w.init actions) source p q →
      InOrder (w.exec w.init actions) source p q) ∧
    (w.exec w.init actions).core.claims =
      (w.outcomes w.init actions).filterMap Outcome.claim? := by
  have h : w.Rests (w.exec w.init actions) := rests actions
  exact ⟨fun source p q ha => h.inOrder ha, claims_exec w actions⟩

end World

end Actorplane
