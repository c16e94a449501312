import Actorplane.Locked.Endings

/-!
# Expiry

One pass over the due events, publications and operations. A mailbox that is taken
out of its actor while its due deliveries end is put back without them, so the
moves are made on the core in which it never left.
-/

namespace Actorplane

variable {world : ℕ} {c c' c₀ : Core} {now : Instant}

/-- The moves of an expiry pass that starts from the core `c₀`. -/
def Move.byExpiry (now : Instant) (c₀ : Core) : Move → Prop
  | .conclude id _ outcome => outcome = .expired ∧
      ∃ p d, c₀.publications.entries.lookup id = some p ∧ p.stored.options.deadline = some d ∧ d ≤ now
  | .lose _ _ => True
  | .cancel _ mail reason => reason = .expired ∧ ∃ d, mail.deadline = some d ∧ d ≤ now
  | .endOperation _ outcome => outcome = .timedOut
  | .expireOperations at' => at' = now
  | _ => False

theorem Move.byExpiry.fencing {m : Move} (h : m.byExpiry now c₀) : m.fencing := by
  cases m <;> simp_all [Move.byExpiry, Move.fencing]

/-- An expiry pass, with what it keeps. -/
abbrev Expires (world : ℕ) (now : Instant) (c₀ c c' : Core) : Prop :=
  Evolves world (Move.byExpiry now c₀) c c'

theorem Expires.reduces (h : Expires world now c₀ c c') (hv : c.Valid world) : c.Reduces c' :=
  h.steps.reduces (fun _ hm => hm.fencing) hv

/-- An expiry pass from a core with fewer publications. -/
theorem Expires.later {c₁ : Core} (h : Expires world now c₁ c c') (hr : c₀.Reduces c₁) :
    Expires world now c₀ c c' := by
  refine h.mono fun m hm => ?_
  cases m <;> simp only [Move.byExpiry] at hm ⊢
  case conclude id source outcome =>
    obtain ⟨he, p, d, hp, hd⟩ := hm
    exact ⟨he, p, d, hr.entries id p hp, hd⟩
  all_goals exact hm

/-- Expire the operation of an expired delivery. -/
def Core.timeOutOf (operation : Option OperationId) (now : Instant) (c : Core) : Core :=
  match operation with
  | none => c
  | some id => c.timeOut id now

theorem Core.Valid.timeOutOf (hv : c.Valid world) (operation : Option OperationId) :
    Expires world now c₀ c (c.timeOutOf operation now) := by
  cases operation with
  | none => exact .refl c
  | some id => exact hv.timeOut id now rfl

/-- A timeout does not look at mailboxes or at the delivery history. -/
theorem Core.timeOutOf_mail (operation : Option OperationId) (i : ℕ) (b : Box) (mail : List Event) :
    ({ c.setBox i b with mail := mail } : Core).timeOutOf operation now =
      { (c.timeOutOf operation now).setBox i b with mail := mail } := by
  cases operation with
  | none => rfl
  | some id =>
    unfold Core.timeOutOf Core.timeOut Core.setBox
    dsimp only
    split_ifs <;> rfl

theorem Core.timeOutOf_columns (operation : Option OperationId) :
    (c.timeOutOf operation now).boxes = c.boxes ∧ (c.timeOutOf operation now).nodes = c.nodes ∧
      (c.timeOutOf operation now).mail = c.mail := by
  cases operation with
  | none => exact ⟨rfl, rfl, rfl⟩
  | some id =>
    unfold Core.timeOutOf Core.timeOut
    dsimp only
    split_ifs <;> exact ⟨rfl, rfl, rfl⟩

namespace World

variable {w : World} {st : State} {r : ActorRef} {a : Actor} {n : Node}

theorem isDue_iff {deadline : Option Instant} :
    isDue now deadline = true ↔ ∃ d, deadline = some d ∧ d ≤ now := by
  cases deadline <;> simp [isDue]

/-! ## Expired deliveries -/

theorem core_expireDeliveryLocked (d : Delivery) :
    (w.expireDeliveryLocked d now st).core =
      ({ st.core with ledger := st.core.ledger.cancel .expired } : Core).timeOutOf d.operation
        now := by
  unfold expireDeliveryLocked
  rcases d.operation with - | id
  · rfl
  · dsimp only
    rw [core_timeOutOperation]
    rfl

@[simp] theorem actors_timeOutOperation (id : OperationId) (actor : Option ActorRef) :
    (w.timeOutOperation id now actor st).actors = st.actors := by
  have h : (w.expireOperationLocked id now st).2.actors = st.actors := by
    unfold expireOperationLocked
    rcases st.operations.participants id with e | ⟨owner, target⟩
    · rfl
    · dsimp only
      split_ifs <;> rfl
  unfold timeOutOperation
  dsimp only
  split_ifs
  · exact h
  · exact h

@[simp] theorem actors_expireDeliveryLocked (d : Delivery) :
    (w.expireDeliveryLocked d now st).actors = st.actors := by
  unfold expireDeliveryLocked
  rcases d.operation with - | id
  · rfl
  · dsimp only
    rw [actors_timeOutOperation]
    rfl

/-- The same actor to the core. -/
structure Alike (a a' : Actor) : Prop where
  node : a'.node = a.node
  box : a'.box = a.box
  hold : a'.hold = a.hold

theorem Alike.trans {a' a'' : Actor} (h : Alike a a') (h' : Alike a' a'') : Alike a a'' :=
  ⟨h'.node.trans h.node, h'.box.trans h.box, h'.hold.trans h.hold⟩

theorem removeDeadline_actor (deadline : Option Instant) (ha : st.actors[r.slot]? = some a) :
    ∃ a', (removeDeadline r deadline st).actors[r.slot]? = some a' ∧ Alike a a' := by
  unfold removeDeadline
  rw [ha]
  dsimp only
  rcases a.deadlines.remove? deadline with - | x
  · exact ⟨a, ha, rfl, rfl, rfl⟩
  · exact ⟨{ a with deadlines := x }, State.modifyActor_get _ ha, rfl, rfl, rfl⟩

/-- The loop over a mailbox that was taken out of its actor. -/
theorem expireQueued_spec (queue : List Delivery) (before : List Mail)
    (ha : st.actors[r.slot]? = some a) (hn : Seated st.core.nodes r n)
    (hv : (st.core.setBox r.slot
      { a.box with queue := before ++ queue.map Delivery.mail }).Valid w.id) :
    Expires w.id now c₀
        (st.core.setBox r.slot { a.box with queue := before ++ queue.map Delivery.mail })
        ((w.expireQueued r now queue st).core.setBox r.slot
          { a.box with
            queue := before ++ (queue.filter fun d => ¬isDue now d.envelope.deadline).map
              Delivery.mail }) ∧
      ∃ a', (w.expireQueued r now queue st).actors[r.slot]? = some a' ∧ Alike a a' := by
  induction queue generalizing st a before with
  | nil => exact ⟨.refl _, a, ha, rfl, rfl, rfl⟩
  | cons d queue ih =>
    unfold expireQueued
    by_cases hd : isDue now d.envelope.deadline = true
    · rw [if_pos hd, List.filter_cons_of_neg (by simp [hd])]
      dsimp only
      set st₁ := (w.expireDeliveryLocked d now (removeDeadline r d.envelope.deadline st)).note
        (.cancelled d.eventId r .expired) with hst₁
      obtain ⟨a', ha', hsame⟩ := removeDeadline_actor d.envelope.deadline ha
      have ha₁ : st₁.actors[r.slot]? = some a' := by
        rw [hst₁, State.note_actors, actors_expireDeliveryLocked, ha']
      set b₁ : Box := { a.box with queue := before ++ queue.map Delivery.mail } with hb₁
      -- the delivery leaves the mailbox, then its operation times out
      set c₁ : Core := { st.core.setBox r.slot b₁ with
        ledger := st.core.ledger.cancel .expired
        mail := st.core.mail ++ [.cancelled d.mail.eventId r .expired] } with hc₁
      have hlt : r.slot < st.core.boxes.length :=
        (List.getElem?_eq_some_iff.mp (State.core_boxes_get ha)).1
      have hstep : Step w.id (st.core.setBox r.slot
          { a.box with queue := before ++ (d :: queue).map Delivery.mail })
          (.cancel r d.mail .expired) c₁ := by
        have := @Step.cancel w.id (st.core.setBox r.slot
            { a.box with queue := before ++ (d :: queue).map Delivery.mail }) r d.mail .expired
          { a.box with queue := before ++ (d :: queue).map Delivery.mail } n before
          (queue.map Delivery.mail) hn (by simp [Core.setBox, hlt]) rfl (by simp)
        simpa [Core.setBox, hc₁, hb₁, List.set_set] using this
      have hdue : ∃ t, d.mail.deadline = some t ∧ t ≤ now := isDue_iff.mp hd
      have h₁ : Expires w.id now c₀ _ c₁ :=
        .single hv (show Move.byExpiry now c₀ (.cancel r d.mail .expired) from ⟨rfl, hdue⟩) hstep
          (by simp) (by simp [Move.loosens])
      have h₂ : Expires w.id now c₀ c₁ (c₁.timeOutOf d.operation now) :=
        (h₁.valid hv).timeOutOf d.operation
      have hcore : c₁.timeOutOf d.operation now = st₁.core.setBox r.slot b₁ := by
        rw [hst₁, State.core_note_mail _ rfl, core_expireDeliveryLocked, core_removeDeadline]
        have := @Core.timeOutOf_mail ({ st.core with ledger := st.core.ledger.cancel .expired }) now d.operation r.slot b₁ (st.core.mail ++ [.cancelled d.eventId r .expired])
        rw [(Core.timeOutOf_columns d.operation).2.2]
        exact this
      have hn₁ : Seated st₁.core.nodes r n := by
        have := (@Core.timeOutOf_columns c₁ now d.operation).2.1
        rw [hcore] at this
        exact this ▸ hn
      have hb₁' : ({ a'.box with queue := before ++ queue.map Delivery.mail } : Box) = b₁ := by
        rw [hsame.box]
      obtain ⟨h₃, a'', ha'', hsame'⟩ := ih before ha₁ hn₁
        (by rw [hb₁', ← hcore]; exact h₂.valid (h₁.valid hv))
      rw [hsame.box, ← hb₁, ← hcore] at h₃
      exact ⟨h₁.trans (h₂.trans h₃), a'', ha'', hsame.trans hsame'⟩
    · rw [if_neg hd, List.filter_cons_of_pos (by simpa using hd), List.map_cons, List.map_cons]
      rw [List.append_cons before d.mail (queue.map Delivery.mail),
        List.append_cons before d.mail ((queue.filter _).map Delivery.mail)]
      rw [List.map_cons, List.append_cons] at hv
      exact ih (before ++ [d.mail]) ha hn hv

/-! ## Expired staged outputs -/

theorem core_foldl_diagnostic {α : Type} (code : DiagnosticCode) (actor : Option ActorRef)
    (xs : List α) : (xs.foldl (fun st _ => st.diagnostic code actor none) st).core = st.core :=
  core_foldl (fun st _ => st.diagnostic code actor none) (fun _ _ => rfl) xs st

theorem core_foldl_stagedLost (lost : List StagedOutput) :
    (lost.foldl (fun st s => st.note (.stagedLost s.publication)) st).core =
      { st.core with mail := st.core.mail ++ (lost.map (·.publication)).map .stagedLost } := by
  induction lost generalizing st with
  | nil => simp
  | cons s lost ih =>
    rw [List.foldl_cons, ih, State.core_note_mail _ rfl]
    simp

theorem core_countLost (n : ℕ) :
    (st.addMetrics fun m =>
      { m with
        expired := m.expired + n
        cancelled := m.cancelled + n
        discarded := m.discarded + n }).core =
      { st.core with ledger := st.core.ledger.lose n true } := rfl

/-- A staging list loses its due outputs once their publications have ended. -/
theorem loseStaged {c : Core} {b : Box} (hv : c.Valid w.id) (hn : Seated c.nodes r n)
    (hb : c.boxes[r.slot]? = some b) :
    Expires w.id now c c
      (let lost := (b.staged.filter fun s => isDue now s.stored.options.deadline).map (·.publication)
      let c' := c.cancelAll lost .expired
      { c'.setBox r.slot
          { b with staged := b.staged.filter fun s => ¬isDue now s.stored.options.deadline } with
        ledger := c'.ledger.lose lost.length true
        mail := c'.mail ++ lost.map .stagedLost }) := by
  dsimp only
  set lost := (b.staged.filter fun s => isDue now s.stored.options.deadline).map (·.publication)
    with hlost
  obtain ⟨h1, h2⟩ := hv.cancelAll (P := Move.byExpiry now c) lost .expired (by decide) fun id hid p hp => by
    obtain ⟨s, hs, rfl⟩ := List.mem_map.mp hid
    obtain ⟨hmem, hdue⟩ := List.mem_filter.mp hs
    obtain ⟨d, hd, hle⟩ := isDue_iff.mp hdue
    obtain ⟨-, -, hst, -⟩ := hv.staging.data r.slot n b s p hn.1 hb hmem hp
    exact ⟨rfl, p, d, hp, by rw [hst, hd], hle⟩
  obtain ⟨hboxes, hnodes⟩ := Core.cancelAll_boxes (c := c) lost .expired
  refine h1.trans (.single (h1.valid hv) (m := .lose r lost) trivial ?_ (by simp)
    (by simp [Move.loosens]))
  refine .lose b n _ true (hnodes ▸ hn) (hboxes ▸ hb) List.filter_sublist (fun s hs => ?_)
    fun id hid => by rw [h2, if_pos hid]
  by_cases hdue : isDue now s.stored.options.deadline = true
  · exact .inr (List.mem_map_of_mem (List.mem_filter.mpr ⟨hs, hdue⟩))
  · exact .inl (List.mem_filter.mpr ⟨hs, by simpa using hdue⟩)

theorem expireStagedDeadlines_actor (staged : List StagedOutput)
    (ha : st.actors[r.slot]? = some a) :
    ∃ a', (expireStagedDeadlines r staged st).actors[r.slot]? = some a' ∧ Alike a a' := by
  induction staged generalizing st a with
  | nil => exact ⟨a, ha, rfl, rfl, rfl⟩
  | cons s staged ih =>
    obtain ⟨a', ha', hsame⟩ := removeDeadline_actor s.stored.options.deadline ha
    obtain ⟨a'', ha'', hsame'⟩ := ih ha'
    exact ⟨a'', ha'', hsame.trans hsame'⟩

theorem expireOwner_expires (hv : st.core.Valid w.id) :
    Expires w.id now st.core st.core (w.expireOwner now r st).core := by
  unfold expireOwner
  rcases hc : w.checkRef r st with e | a
  · exact .refl _
  dsimp only
  have hn := seated_of_check hv.owned hc
  obtain ⟨ha, -⟩ := (checkRef_ok hv.owned).mp hc
  have hlt : r.slot < st.core.boxes.length :=
    (List.getElem?_eq_some_iff.mp (State.core_boxes_get ha)).1
  set due := a.queue.filter fun d => isDue now d.envelope.deadline
  set kept := a.queue.filter fun d => ¬isDue now d.envelope.deadline with hkept
  set lost := a.staged.filter fun s => isDue now s.stored.options.deadline with hlost
  -- the mailbox
  set st₁ := st.modifyActor r fun a => { a with queue := [] }
  have ha₁ : st₁.actors[r.slot]? = some { a with queue := [] } := State.modifyActor_get _ ha
  have hc₁ : st₁.core = st.core.setBox r.slot { a.box with queue := [] } :=
    State.core_modify_box _ ha rfl rfl
  have hback : st₁.core.setBox r.slot { ({ a with queue := [] } : Actor).box with
      queue := [] ++ a.queue.map Delivery.mail } = st.core := by
    rw [hc₁]
    simp only [Core.setBox, List.set_set]
    exact congrArg (fun boxes => { st.core with boxes := boxes }) (State.set_map_self Actor.box ha)
  obtain ⟨h₁, a₂, ha₂, hs₂⟩ := @expireQueued_spec st.core now w _ _ _ _ a.queue [] ha₁ (hc₁ ▸ hn : Seated st₁.core.nodes r a.node) (hback.symm ▸ hv)
  rw [hback] at h₁
  set st₂ := w.expireQueued r now a.queue st₁
  set put : Actor → Actor := fun a =>
    { a with
      queue := kept
      queueBytes := a.queueBytes - (due.map fun d => d.payload.bytes).sum }
  set b₃ : Box := { a.box with queue := kept.map Delivery.mail } with hb₃
  have hput : (put a₂).box = b₃ := by
    have h := hs₂.box
    simp only [Actor.box, Box.mk.injEq] at h
    simp only [put, hb₃, Actor.box, h]
  have hc₃ : (st₂.modifyActor r put).core = st₂.core.setBox r.slot b₃ := by
    rw [State.core_modify_box put ha₂ rfl rfl, hput]
  have h₁ : Expires w.id now st.core st.core (st₂.modifyActor r put).core := by
    rw [hc₃]
    exact h₁
  have ha₃ := State.modifyActor_get put ha₂
  set st₃ := st₂.modifyActor r put
  -- the staged outputs
  obtain ⟨a₄, ha₄, hs₄⟩ := expireStagedDeadlines_actor lost ha₃
  have hv₃ := h₁.valid hv
  obtain ⟨n₃, hn₃, -⟩ := (h₁.reduces hv).seated hn
  have hgb₃ : st₃.core.boxes[r.slot]? = some b₃ := hput ▸ State.core_boxes_get ha₃
  have h₂ := (@loseStaged now _ _ _ _ _ hv₃ hn₃ hgb₃).later (h₁.reduces hv)
  refine h₁.trans ?_
  set st₄ := expireStagedDeadlines r lost st₃
  have hc₄ : st₄.core = st₃.core := core_expireStagedDeadlines lost
  set keep : Actor → Actor := fun a =>
    { a with
      staged := a.staged.filter fun s => ¬isDue now s.stored.options.deadline
      stagedBytes := a.stagedBytes - (lost.map fun s => s.stored.bytes).sum }
  have hkeep : (keep a₄).box = { b₃ with
      staged := b₃.staged.filter fun s => ¬isDue now s.stored.options.deadline } := by
    have h := hs₄.box
    rw [hput] at h
    simp only [Actor.box, hb₃, Box.mk.injEq] at h
    simp only [keep, hb₃, Actor.box, h]
  have hc₅ : (st₄.modifyActor r keep).core = st₃.core.setBox r.slot { b₃ with
      staged := b₃.staged.filter fun s => ¬isDue now s.stored.options.deadline } := by
    rw [State.core_modify_box keep ha₄ rfl rfl, hkeep, hc₄]
  have hsoft : ∀ st : State, (if a.staged.all fun s => isDue now s.stored.options.deadline then
      { st with stagedActors := st.stagedActors.erase r.slot } else st).core = st.core := by
    intro st
    split_ifs <;> rfl
  rw [core_foldl_diagnostic, core_foldl_stagedLost, core_countLost, core_refreshPythonReadyLocked,
    core_markActivityDependentsLocked, core_cancel_foldl, hsoft, core_refreshEarliest, hc₅,
    Core.cancelAll_setBox]
  simp only [List.length_map] at h₂
  exact h₂

/-! ## The passes -/

/-- A sequence of expiry passes. -/
theorem expires_foldl {α : Type} {f : State → α → State}
    (hf : ∀ st x, st.core.Valid w.id → Expires w.id now st.core st.core (f st x).core)
    (xs : List α) (hv : st.core.Valid w.id) :
    Expires w.id now st.core st.core (xs.foldl f st).core := by
  induction xs generalizing st with
  | nil => exact .refl _
  | cons x xs ih =>
    have h := hf st x hv
    exact h.trans ((ih (h.valid hv)).later (h.reduces hv))

theorem expireEventsLocked_expires (hv : st.core.Valid w.id) :
    Expires w.id now st.core st.core (w.expireEventsLocked now st).core :=
  @expires_foldl now w { st with eventDeadlines := (st.eventDeadlines.takeDue now).2 } _
    (fun st r => w.expireOwner now r st) (fun _ _ => expireOwner_expires) _ hv

theorem expirePublicationsLocked_expires (hv : st.core.Valid w.id) :
    Expires w.id now st.core st.core (w.expirePublicationsLocked now st).core := by
  unfold expirePublicationsLocked
  have hcore := @core_cancel_foldl w st _ (fun i : ℕ => i) .expired (st.publications.due now)
  rw [List.map_id'] at hcore
  rw [hcore]
  refine (hv.cancelAll (st.publications.due now) .expired (by decide) fun id hid p hp => ?_).1
  simp only [PublicationTable.due, List.mem_map, List.mem_insertionSort, List.mem_filter,
    decide_eq_true_eq] at hid
  obtain ⟨⟨d, i⟩, ⟨hmem, hle⟩, rfl⟩ := hid
  obtain ⟨q, hq, hd⟩ := (hv.budgeted.table.due d i).mp hmem
  exact ⟨rfl, q, d, hq, hd, hle⟩

theorem core_countTimedOut (n : ℕ) :
    (st.addMetrics fun m => { m with operationTimedOut := m.operationTimedOut + n }).core =
      { st.core with
        ledger :=
          { st.core.ledger with
            operationTimedOut := st.core.ledger.operationTimedOut + n } } := rfl

theorem expireOperationsLocked_expires (hv : st.core.Valid w.id) :
    Expires w.id now st.core st.core (w.expireOperationsLocked now st).core := by
  refine .single hv (m := .expireOperations now) rfl ?_ (by simp) (by simp [Move.loosens])
  have hcore : (w.expireOperationsLocked now st).core =
      { st.core with
        operations := (st.core.operations.expireIds now).2
        ledger :=
          { st.core.ledger with
            operationTimedOut := st.core.ledger.operationTimedOut +
              (st.core.operations.expireIds now).1.length } } := by
    unfold expireOperationsLocked
    dsimp only
    rw [core_foldl (fun st id => st.diagnostic .operationTimedOut none (some id)) fun _ _ => rfl,
      core_countTimedOut,
      core_foldl (fun st (p : OperationOwner) =>
        w.markOperationActivityLocked p.owner (some p.target) st) fun _ _ => rfl]
    rfl
  rw [hcore]
  exact .expireOperations

theorem expireAll_expires (hv : st.core.Valid w.id) :
    Expires w.id now st.core st.core (w.expireAll now st).core := by
  have h₁ := @expireEventsLocked_expires now _ _ hv
  have h₂ := @expirePublicationsLocked_expires now _ _ (h₁.valid hv)
  have h₃ := @expireOperationsLocked_expires now _ _ (h₂.valid (h₁.valid hv))
  have h₁₂ : Expires w.id now st.core st.core _ := h₁.trans (h₂.later (h₁.reduces hv))
  exact h₁₂.trans (h₃.later (h₁₂.reduces hv))

end World

end Actorplane
