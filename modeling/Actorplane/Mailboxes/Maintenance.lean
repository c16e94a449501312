import Actorplane.Mailboxes.Steps

/-!
# What maintenance leaves in the mailboxes

After a maintenance pass nothing that is due waits anywhere. An actor that the pass does not
stop keeps everything else, in its order.
-/

namespace Actorplane

variable {st st' : State} {m : Mailroom} {t t' : Tray} {w : World} {now : Instant}

/-- With no entry of the index due, nothing in a mailbox is. -/
theorem Mailroom.Settled.not_due (h : m.Settled w) (ha : m.Ahead now) {i : ℕ}
    (ht : m.trays[i]? = some t) : ∀ x ∈ t.queue ++ t.staged, x.due now = false := by
  intro x mem
  by_contra late
  obtain ⟨deadline, found, passed⟩ := Item.due_iff.mp (Bool.not_eq_false _ ▸ late)
  have balanced := h.balanced i t ht
  have waits : deadline ∈ t.times := mem_times.mpr ⟨x, mem, found⟩
  obtain ⟨first, earliest, due⟩ := balanced.counts.due.mpr ⟨deadline, waits, passed⟩
  have slot := (h.slotted i t ht).2
  have entry := h.earliest t.reference t ⟨slot.symm ▸ ht, rfl⟩
  rw [if_neg List.not_mem_nil, earliest] at entry
  exact ha _ _ entry due

/-- The tray is without what is due, or its actor has ended and nothing waits in it. -/
def Tray.Maintained (now : Instant) (t t' : Tray) : Prop :=
  t'.reference = t.reference ∧
    (t'.queue = t.queue.filter (fun i => !i.due now) ∧
        t'.staged = t.staged.filter (fun i => !i.due now) ∨
      t'.ended = true ∧ t'.queue = [] ∧ t'.staged = [])

theorem Tray.Maintained.falls {t'' : Tray} (h : t.Maintained now t') (h' : t'.Falls t'') :
    t.Maintained now t'' := by
  rcases h' with rfl | rfl
  · exact h
  · exact ⟨h.1, .inr ⟨rfl, rfl, rfl⟩⟩

/-- An expired tray in which nothing is due any more. -/
theorem Mailroom.Expires.maintained {owners : List ActorRef} (h : Expires now owners t t')
    (hd : ∀ x ∈ t'.queue ++ t'.staged, x.due now = false) : t.Maintained now t' := by
  unfold Expires at h
  split_ifs at h
  · rw [h]
    exact ⟨rfl, .inl ⟨rfl, rfl⟩⟩
  · subst h
    have whole : ∀ items : List Item, (∀ x ∈ items, x.due now = false) →
        items = items.filter fun i => !i.due now := by
      intro items early
      rw [eq_comm, List.filter_eq_self]
      intro x mem
      simp [early x mem]
    refine ⟨rfl, .inl ⟨whole _ ?_, whole _ ?_⟩⟩
    · exact fun x mem => hd x (List.mem_append_left _ mem)
    · exact fun x mem => hd x (List.mem_append_right _ mem)

/-- Columns of what is read off their entries are related, so the entries are. -/
theorem Slotwise.of_map {α β : Type} {f : α → β} {R : β → β → Prop} {S : α → α → Prop}
    {l l' : List α} (h : Slotwise R (l.map f) (l'.map f))
    (hS : ∀ a a', R (f a) (f a') → S a a') : Slotwise S l l' := by
  intro i
  have mapped := h i
  rw [List.getElem?_map, List.getElem?_map] at mapped
  generalize l[i]? = x at mapped ⊢
  generalize l'[i]? = y at mapped ⊢
  cases x with
  | none =>
    cases y with
    | none => exact .none
    | some a' => cases mapped
  | some a =>
    cases y with
    | none => cases mapped
    | some a' =>
      cases mapped with
      | some related => exact .some (hS a a' related)

/-- The actor has its queue and its staging list but for what is due, or it has ended and
nothing is left in them. -/
def Actor.Maintained (now : Instant) (a a' : Actor) : Prop :=
  a'.reference = a.reference ∧
    (a'.queue = a.queue.filter (fun d => !World.isDue now d.envelope.deadline) ∧
        a'.staged = a.staged.filter (fun s => !World.isDue now s.stored.options.deadline) ∨
      (a'.state = .stopping ∨ a'.state = .stopped) ∧ a'.queue = [] ∧ a'.staged = [])

theorem Tray.Maintained.actor {a a' : Actor} (h : a.tray.Maintained now a'.tray) :
    a.Maintained now a' := by
  obtain ⟨same, ⟨queue, staged⟩ | ⟨ended, queue, staged⟩⟩ := h
  · have deliveries : a'.queue.map Item.delivery =
        (a.queue.map Item.delivery).filter fun i => !i.due now := queue
    have outputs : a'.staged.map Item.output =
        (a.staged.map Item.output).filter fun i => !i.due now := staged
    rw [List.filter_map] at deliveries outputs
    refine ⟨same, .inl ⟨?_, ?_⟩⟩
    · exact List.map_injective_iff.mpr (fun _ _ => Item.delivery.inj) deliveries
    · exact List.map_injective_iff.mpr (fun _ _ => Item.output.inj) outputs
  · refine ⟨same, .inr ⟨?_, List.map_eq_nil_iff.mp queue, List.map_eq_nil_iff.mp staged⟩⟩
    simpa [Actor.tray] using ended

namespace World

/-- What a maintenance pass makes of the mailboxes. -/
structure Tidies (now : Instant) (st st' : State) : Prop where
  ahead : ∀ a ∈ st'.actors,
    (∀ d ∈ a.queue, isDue now d.envelope.deadline = false) ∧
      ∀ s ∈ a.staged, isDue now s.stored.options.deadline = false
  kept : Slotwise (Actor.Maintained now) st.actors st'.actors

theorem maintainLocked_tidies (hv : st.core.Valid w.id) (h : st.mailroom.Settled w) :
    Tidies now st (w.maintainLocked now st) := by
  obtain ⟨settled, ahead, expired⟩ := @expireEventsLocked_settled _ now _ h
  have valid : (w.expireAll now st).core.Valid w.id := (expireAll_expires hv).valid hv
  have stopped : Empties w (w.expireAll now st) (w.maintainLocked now st) :=
    maintainRoots_empties _ valid
  have falls := stopped.trays
  rw [mailroom_expireAll] at falls
  generalize w.maintainLocked now st = st' at falls ⊢
  generalize w.expireEventsLocked now st = st₁ at settled ahead expired falls
  constructor
  · intro a mem
    obtain ⟨i, found⟩ := List.mem_iff_getElem?.mp mem
    have tray : st'.mailroom.trays[i]? = some a.tray := by
      show (st'.actors.map Actor.tray)[i]? = _
      rw [List.getElem?_map, found]
      rfl
    have early : ∀ x ∈ a.tray.queue ++ a.tray.staged, x.due now = false := by
      obtain ⟨t, before, same | cleared⟩ := falls.back tray
      · rw [same]
        exact settled.not_due ahead before
      · rw [cleared]
        exact fun x impossible => absurd impossible List.not_mem_nil
    constructor
    · exact fun d waits => early _ (List.mem_append_left _ (List.mem_map_of_mem waits))
    · exact fun s waits => early _ (List.mem_append_right _ (List.mem_map_of_mem waits))
  · have trays : Slotwise (Tray.Maintained now) st.mailroom.trays st'.mailroom.trays := by
      intro i
      have first := expired i
      have second := falls i
      cases found : st.mailroom.trays[i]? with
      | none =>
        rw [found] at first
        generalize st₁.mailroom.trays[i]? = x at first second
        generalize st'.mailroom.trays[i]? = y at second ⊢
        cases first with
        | none =>
          cases second with
          | none => exact .none
      | some t =>
        obtain ⟨t₁, between, related⟩ := expired.get found
        obtain ⟨t₂, after, fallen⟩ := falls.get between
        rw [after]
        exact .some ((related.maintained (settled.not_due ahead between)).falls fallen)
    exact trays.of_map fun _ _ => Tray.Maintained.actor

/-- After every run, a maintenance pass leaves nothing due in any mailbox or staging list. Of
an actor that it does not stop it takes nothing else. -/
theorem maintain_tidies (w : World) (actions : List Action) (now : Instant) :
    Tidies now (w.exec w.init actions) (w.maintain now (w.exec w.init actions)) := by
  have hv := (w.rests actions).valid
  have settled := (@rests_init w).settled settled_init actions
  generalize w.exec w.init actions = st at hv settled ⊢
  have tidies := @maintainLocked_tidies _ _ now hv settled
  unfold maintain
  dsimp only
  generalize w.maintainLocked now st = st' at tidies ⊢
  split_ifs
  · exact tidies
  · exact ⟨tidies.ahead, tidies.kept⟩

end World

end Actorplane
