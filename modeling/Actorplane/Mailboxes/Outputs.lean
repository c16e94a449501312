import Actorplane.Locked.Turns
import Actorplane.Mailboxes.Admission

/-!
# Staged outputs and routing

A source that has not started stages its outputs below the limits, and flushing them clears
its list. Routing only admits events.
-/

namespace Actorplane

variable {st st' : State} {m : Mailroom} {r : ActorRef} {t t' : Tray} {a : Actor} {w : World}

namespace Tray

/-- One more output is staged. -/
def stage (t : Tray) (i : Item) : Tray where
  reference := t.reference
  ended := t.ended
  queue := t.queue
  queueBytes := t.queueBytes
  staged := t.staged ++ [i]
  stagedBytes := t.stagedBytes + i.bytes
  deadlines := t.deadlines.add i.deadline

theorem Balanced.stage {cfg : Config} {i : Item} (h : t.Balanced cfg) (ha : t.ended = false)
    (room : t.staged.length < cfg.mailboxCapacity)
    (limit : t.stagedBytes + i.bytes ≤ cfg.mailboxBytes) : (t.stage i).Balanced cfg where
  queueBytes := h.queueBytes
  stagedBytes := by
    have bytes := h.stagedBytes
    simp only [Tray.stage, List.map_append, List.sum_append, bytes]
    simp
  counts := by
    apply (h.counts.add i.deadline).perm
    have before := t.times_eq
    have after : (t.stage i).times = Actorplane.times t.queue ++
        Actorplane.times (t.staged ++ [i]) := (t.stage i).times_eq
    have single : Actorplane.times [i] = i.deadline.toList := by
      rw [times_cons]
      exact List.append_nil _
    rw [before, after, times_append, single, List.append_assoc]
  queueRoom := h.queueRoom
  queueLimit := h.queueLimit
  stagedRoom := by
    show (t.staged ++ [i]).length ≤ _
    rw [List.length_append]
    exact room
  stagedLimit := limit
  quiet := fun ended => absurd (ha.symm.trans ended) (by decide)

/-- All staged outputs leave. -/
def flush (t : Tray) (d : ActorDeadlines) : Tray where
  reference := t.reference
  ended := t.ended
  queue := t.queue
  queueBytes := t.queueBytes
  staged := []
  stagedBytes := 0
  deadlines := d

theorem Balanced.flush {cfg : Config} {d : ActorDeadlines} (h : t.Balanced cfg)
    (hd : d.Counts (Actorplane.times t.queue)) : (t.flush d).Balanced cfg where
  queueBytes := h.queueBytes
  stagedBytes := rfl
  counts := by
    have all : (t.flush d).times = Actorplane.times t.queue ++ [] := (t.flush d).times_eq
    rw [all, List.append_nil]
    exact hd
  queueRoom := h.queueRoom
  queueLimit := h.queueLimit
  stagedRoom := Nat.zero_le _
  stagedLimit := Nat.zero_le _
  quiet := fun ended => ⟨(h.quiet ended).1, rfl⟩

end Tray

namespace World

/-! ## Staging -/

theorem stageOutput_posts (port : ℕ) (stored : Stored) (ticket : ℕ)
    (hs : ∀ a, w.checkRef r st = .ok a → a.state ≠ .stopping ∧ a.state ≠ .stopped) :
    Posts w st (w.stageOutput r port stored ticket st).2 := by
  intro settled
  unfold stageOutput
  cases check : w.checkRef r st with
  | error e => exact settled
  | ok a =>
    obtain ⟨-, current, holds⟩ := holds_of_check settled check
    dsimp only
    split_ifs with full
    · exact settled
    obtain ⟨room, limit⟩ := not_or.mp full
    set item : Item := .output ⟨port, stored, ticket⟩ with hitem
    have balanced := settled.balanced _ _ holds.1
    have within := balanced.stagedLimit
    have limit : a.tray.stagedBytes + item.bytes ≤ w.cfg.mailboxBytes := by
      have fits : a.tray.stagedBytes ≤ w.cfg.mailboxBytes := within
      have left : stored.bytes ≤ w.cfg.mailboxBytes - a.tray.stagedBytes := not_lt.mp limit
      show a.tray.stagedBytes + stored.bytes ≤ _
      omega
    have kept : (a.tray.stage item).Balanced w.cfg := by
      apply balanced.stage
      · simp [Actor.tray, hs a check]
      · simpa [Actor.tray] using room
      · exact limit
    have staged : Shows st.mailroom r (a.tray.stage item) (st.modifyActor r fun a => { a with
        stagedBytes := a.stagedBytes + stored.bytes
        deadlines := a.deadlines.add stored.options.deadline
        staged := a.staged ++ [⟨port, stored, ticket⟩] }) := by
      apply (Shows.refl holds).modify
      intro b same
      rw [← same]
      unfold Tray.stage
      simp [Actor.tray, hitem]
    have refreshed := staged.refresh
    generalize refreshEarliest r (st.modifyActor r _) = st₁ at refreshed ⊢
    show ({ st₁ with
      stagedActors := AList.insert r.slot r st₁.stagedActors } : State).mailroom.Settled w
    rw [refreshed.restage (AList.insert r.slot r)]
    apply Mailroom.Exact.put settled holds current kept (settled.index.set _)
    · intro q
      rw [DeadlineIndex.lookup_set]
      simp
    · exact fun _ _ => Iff.rfl
    · intro i
      have waits : (a.tray.stage item).staged ≠ [] :=
        List.append_ne_nil_of_right_ne_nil _ (List.cons_ne_nil _ _)
      rw [Assoc.lookup_insert_ite]
      simp [waits]

/-- The checks of a publication leave no output without a port to stage it on. -/
theorem submitPublicationLocked_posts (port : Option ℕ) (p : Payload) (o : MessageOptions)
    (completion : Bool) (hp : w.executionStateLocked r st = .ok .starting → port.isSome = true) :
    Posts w st (w.submitPublicationLocked r port p o completion st).2 := by
  intro settled
  unfold submitPublicationLocked
  cases execution : w.executionStateLocked r st with
  | error e => exact settled
  | ok s =>
  dsimp only
  rcases st.publications.reserve r (s = .starting) with ⟨e | ticket, publications⟩
  · exact settled
  dsimp only
  have checked : ∀ q, w.checkRef q ({ st with publications := publications } : State) =
    w.checkRef q st := fun _ => rfl
  have reserved : ({ st with publications := publications } : State).mailroom.Settled w := settled
  generalize ({ st with publications := publications } : State) = st₁ at reserved checked ⊢
  set dispatcher := port.map fun index => (⟨r, index⟩ : PortRef)
  have stored := @desk_makeStoredWith st₁ w p o dispatcher
  cases result : w.makeStoredWith p o dispatcher st₁ with
  | mk answer st₂ =>
  rw [result] at stored
  have settled₂ : st₂.mailroom.Settled w := Posts.aside stored reserved
  have checked₂ : w.checkRef r st₂ = w.checkRef r st := by
    have actors : st₂.actors = st₁.actors := congrArg Desk.actors stored
    rw [← checked]
    unfold checkRef
    rw [actors]
  cases answer with
  | error e => exact settled₂
  | ok s' =>
  dsimp only
  have accepted : ∀ (publication : Publication) (st₃ : State), st₃.mailroom.Settled w →
      (w.acceptPublication publication st₃).mailroom.Settled w := fun publication _ h =>
    Posts.aside (desk_acceptPublication publication) h
  by_cases starting : s = .starting
  · have some_port := hp (by rw [execution, starting])
    obtain ⟨index, rfl⟩ := Option.isSome_iff_exists.mp some_port
    have staged : Posts w st₂ (w.stageOutput r index s' ticket st₂).2 := by
      apply stageOutput_posts
      intro a check
      obtain ⟨b, check', alive⟩ := execution_alive execution (by simp [starting])
      rw [checked₂, check'] at check
      obtain rfl := Except.ok.inj check
      exact alive
    have staged := staged settled₂
    simp only [starting, decide_true, if_true]
    rcases hcall : w.stageOutput r index s' ticket st₂ with ⟨e | u, st₃⟩
    · rw [hcall] at staged
      exact staged
    · rw [hcall] at staged
      exact accepted _ st₃ staged
  · simp only [starting, decide_false, Bool.false_eq_true, if_false]
    exact accepted _ st₂ settled₂

/-- Whoever may publish before it has started does so through a port. -/
theorem publishable_port {p : Payload} {owner : Option ActorRef} {port : Option ℕ}
    (h : w.publishable r p owner port st = .ok ())
    (hs : w.executionStateLocked r st = .ok .starting) : port.isSome = true := by
  obtain ⟨s, execution, start | active | quiescing⟩ := publishable_ok h
  · exact start.2.1
  · have same := Except.ok.inj (hs.symm.trans execution)
    exact absurd (same.trans active) (by decide)
  · have same := Except.ok.inj (hs.symm.trans execution)
    exact absurd (same.trans quiescing.1) (by decide)

theorem publishLocked_posts (p : Payload) (owner : Option ActorRef) (port : Option ℕ)
    (o : MessageOptions) : Posts w st (w.publishLocked r p owner port o st).2 := by
  unfold publishLocked
  cases w.publishMetadata r o st with
  | error e => exact .refl st
  | ok o' =>
    dsimp only
    cases checkDeadline o' (w.now st) with
    | error e => exact .still rfl
    | ok u =>
      dsimp only
      cases allowed : w.publishable r p owner port st.tick with
      | error e => exact .still rfl
      | ok u =>
        have ticked : Posts w st st.tick := .still rfl
        exact ticked.trans (submitPublicationLocked_posts port p o' owner.isSome
          (publishable_port allowed))

theorem publishInternal_posts (p : Payload) (owner : Option ActorRef) (port : Option ℕ)
    (o : MessageOptions) : Posts w st (w.publishInternal r p owner port o st).2 := by
  unfold publishInternal
  dsimp only
  set st₁ := st.addMetrics fun m =>
    { m with
      publicationSubmitted := m.publicationSubmitted + 1
      submitted := m.submitted + 1 }
  have counted : Posts w st st₁ := .still rfl
  have published := @publishLocked_posts st₁ r w p owner port o
  rcases hcall : w.publishLocked r p owner port o st₁ with ⟨e | ticket, st₂⟩
  · rw [hcall] at published
    exact (counted.trans published).after rfl
  · rw [hcall] at published
    exact (counted.trans published).after rfl

theorem deliveryPublish_posts (lease : DeliveryLease) (source : PortRef) (p : Payload)
    (o : MessageOptions) : Posts w st (w.deliveryPublish lease source p o st).2 := by
  unfold deliveryPublish
  cases o.validate with
  | error e => exact .refl st
  | ok u =>
    dsimp only
    split_ifs
    · exact .refl st
    · exact publishInternal_posts p _ _ _

/-! ## Flushing -/

/-- A flush clears the staging of its source. -/
theorem flushSource_settled (h : st.mailroom.Settled w) (hr : st.mailroom.Holds r t) :
    (w.flushSource st r).mailroom.Settled w ∧
      ∃ d, (w.flushSource st r).mailroom.trays = st.mailroom.trays.set r.slot (t.flush d) := by
  have balanced := h.balanced _ t hr.1
  have home := (h.slotted _ t hr.1).1
  rw [hr.2] at home
  obtain ⟨a, check, found, rfl⟩ := check_of_holds home hr
  unfold flushSource
  rw [check]
  dsimp only
  have emptied : Shows st.mailroom r { a.tray with staged := [], stagedBytes := 0 }
      (st.modifyActor r fun a => { a with staged := [], stagedBytes := 0 }) := by
    apply (Shows.refl hr).modify
    intro b same
    rw [← same]
    rfl
  have counts : a.tray.deadlines.Counts (times (a.staged.map Item.output) ++
      times a.tray.queue) := by
    have before : a.tray.deadlines.Counts a.tray.times := balanced.counts
    rw [Tray.times_eq] at before
    exact before.perm List.perm_append_comm
  obtain ⟨d, counts', removed⟩ := emptied.expireStagedDeadlines a.staged counts
  have refreshed := removed.refresh
  generalize refreshEarliest r (expireStagedDeadlines r a.staged _) = st₁ at refreshed ⊢
  have after := refreshed.restage (AList.erase r.slot)
  generalize ({ st₁ with stagedActors := st₁.stagedActors.erase r.slot } : State) = st₂ at after ⊢
  have released := State.mailroom_of_desk (@desk_foldl _ (fun st (s : StagedOutput) =>
    w.enqueuePublicationLocked s.publication st)
    (fun _ s => desk_enqueuePublicationLocked s.publication) a.staged st₂)
  have same : (w.markActivityDependentsLocked r (a.staged.foldl (fun st s =>
      w.enqueuePublicationLocked s.publication st) st₂)).mailroom = st₂.mailroom := released
  rw [same, after]
  refine ⟨?_, d, rfl⟩
  have current : (a.tray.flush d).reference = r := hr.2
  apply Mailroom.Exact.put h hr current (balanced.flush counts') (h.index.set _)
  · intro q
    rw [DeadlineIndex.lookup_set]
    simp [Tray.flush]
  · exact fun _ _ => Iff.rfl
  · intro i
    rw [Assoc.lookup_erase_ite]
    simp [Tray.flush]

theorem flushSources_settled (sources : List ActorRef) (h : st.mailroom.Settled w)
    (hh : ∀ x ∈ sources, ∃ t, st.mailroom.Holds x t) :
    (sources.foldl w.flushSource st).mailroom.Settled w := by
  induction sources generalizing st with
  | nil => exact h
  | cons r sources ih =>
    obtain ⟨t, holds⟩ := hh r List.mem_cons_self
    obtain ⟨settled, d, trays⟩ := flushSource_settled h holds
    apply ih settled
    intro x mem
    obtain ⟨t', found, current⟩ := hh x (List.mem_cons_of_mem r mem)
    unfold Mailroom.Holds
    rw [trays, List.getElem?_set]
    split_ifs with here inside
    · have same : x = r := holds.slot_eq ⟨found, current⟩ here.symm
      exact ⟨_, rfl, holds.2.trans same.symm⟩
    · exact absurd (List.getElem?_eq_some_iff.mp holds.1).1 inside
    · exact ⟨t', found, current⟩

theorem flushStagedLocked_posts : Posts w st (w.flushStagedLocked st) := by
  intro settled
  have ticked : st.tick.mailroom.Settled w := settled
  have expired := @expireEventsLocked_posts _ (w.now st) _ ticked
  unfold flushStagedLocked
  dsimp only
  generalize w.expireEventsLocked (w.now st) st.tick = st₁ at expired ⊢
  apply flushSources_settled _ expired
  intro x mem
  have ready := (List.mem_filter.mp mem).2
  cases execution : w.executionStateLocked x st₁ with
  | error e =>
    rw [execution] at ready
    cases ready
  | ok s =>
    cases s with
    | active =>
      obtain ⟨a, check, -⟩ := execution_alive execution (by decide)
      exact ⟨_, (holds_of_check expired check).2.2⟩
    | starting =>
      rw [execution] at ready
      cases ready
    | quiescing =>
      rw [execution] at ready
      cases ready
    | stopping =>
      rw [execution] at ready
      cases ready
    | stopped =>
      rw [execution] at ready
      cases ready

/-! ## Routing -/

theorem attemptRoute_posts (p : Publication) (route : ℕ) (target : ActorRef) :
    Posts w st (w.attemptRoute p route target st).2 := by
  unfold attemptRoute
  dsimp only
  cases w.routeFence { p with cursor := p.cursor + 1 } route target st with
  | error e => exact .still rfl
  | ok u =>
    dsimp only
    have admitted := @admitMessage_posts st target w p.stored (some route) true none
    rcases hcall : w.admitMessage target p.stored (some route) true none st with ⟨e | id, st'⟩
    · rw [hcall] at admitted
      exact admitted.after rfl
    · rw [hcall] at admitted
      exact admitted.after rfl

theorem attemptRoutes_posts (batch : ℕ) (routes : List (ℕ × ActorRef)) (p : Publication)
    (st : State) : Posts w st (w.attemptRoutes batch routes p st).2.2.2 := by
  induction batch generalizing routes p st with
  | zero => exact .refl st
  | succ batch ih =>
    cases routes with
    | nil => exact .refl st
    | cons first rest =>
      obtain ⟨route, target⟩ := first
      have ticked : Posts w st st.tick := .still rfl
      unfold attemptRoutes
      dsimp only
      split_ifs
      · exact ticked
      · have attempted := @attemptRoute_posts st.tick w p route target
        exact (ticked.trans attempted).trans (ih rest _ _)

theorem mailroom_turnOutcome (p : Publication) :
    (w.turnOutcome p st).2.mailroom = st.mailroom := by
  unfold turnOutcome
  split_ifs <;> rfl

theorem mailroom_captureRoutes (p : Publication) :
    (w.captureRoutes p st).2.mailroom = st.mailroom := by
  unfold captureRoutes
  cases p.routes with
  | some routes => rfl
  | none =>
    dsimp only
    split_ifs <;> rfl

theorem routeTurn_posts (p : Publication) : Posts w st (w.routeTurn p st).2.2.2 := by
  have outcome := @mailroom_turnOutcome st w p
  unfold routeTurn
  rcases hturn : w.turnOutcome p st with ⟨e | e, st₁⟩
  · rw [hturn] at outcome
    dsimp only
    have captured := @mailroom_captureRoutes st₁ w p
    rcases hcapture : w.captureRoutes p st₁ with ⟨e | p', st₂⟩
    · rw [hcapture] at captured
      exact .still (captured.trans outcome)
    · rw [hcapture] at captured
      have begun : Posts w st st₂ := .still (captured.trans outcome)
      exact begun.trans (attemptRoutes_posts _ _ p' st₂)
  · rw [hturn] at outcome
    exact .still outcome

/-- A ready source has a publication at the head of its queue. -/
theorem routeBatch_posts (hv : st.core.Valid w.id) : Posts w st (w.routeBatch st).2 := by
  unfold routeBatch
  rcases hready : st.publications.ready with - | ⟨source, ready⟩
  · exact .still rfl
  obtain ⟨p, id, hhead, hp, -⟩ := turning_start hv hready
  set st₁ : State := { st with
    publications :=
      { st.publications with
        ready := ready
        readySet := st.publications.readySet.erase source } } with hst₁
  have hhead₁ : (st₁.publications.queueOf source).head? = some id := hhead
  have hp₁ : st₁.publications.entries.lookup id = some p := hp
  dsimp only
  rw [hhead₁]
  dsimp only
  rw [hp₁]
  dsimp only
  set st₂ : State := { st₁ with
    publications := { st₁.publications with
      entries := st₁.publications.entries.erase id } } with hst₂
  have taken : Posts w st st₂ := .still rfl
  have turned := taken.trans (@routeTurn_posts st₂ w p)
  rcases hcall : w.routeTurn p st₂ with ⟨- | outcome, k, q, st'⟩
  · rw [hcall] at turned
    have requeued : (requeuePublication q st').mailroom = st'.mailroom := rfl
    exact (turned.after requeued).after mailroom_touch
  · rw [hcall] at turned
    have finished := State.mailroom_of_desk (@desk_finishPublicationLocked st' w q outcome)
    exact (turned.after finished).after mailroom_touch

end World

end Actorplane
