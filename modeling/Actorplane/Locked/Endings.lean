import Actorplane.Locked.Checks

/-!
# Ending publications, operations and events

What the calls that end work do to the core. Each is a sequence of fencing moves;
where the source takes a container out of its actor for a while, the moves are
made on the core that still has it.
-/

namespace Actorplane

variable {world : ℕ} {c c' : Core} {P : Move → Prop}

/-! ## Publications -/

/-- `cancel_publication_locked` on the core. -/
def Core.cancelPublication (id : ℕ) (outcome : PublicationOutcome) (c : Core) : Core :=
  match c.publications.entries.lookup id with
  | none => c
  | some p =>
    let t : PublicationTable := { c.publications with entries := c.publications.entries.erase id }
    { c with
      publications := ((t.removeIndexes p).setStatus p.ticket (.terminal (p.closing outcome))).settle
        p.ticket
      ledger := c.ledger.conclude outcome
      published := c.published ++ [.concluded p.ticket (p.closing outcome)] }

theorem Core.cancelPublication_none {id : ℕ} (outcome : PublicationOutcome)
    (h : c.publications.entries.lookup id = none) : c.cancelPublication id outcome = c := by
  unfold Core.cancelPublication
  rw [h]

theorem Core.Valid.cancelPublication_step (hv : c.Valid world) {id : ℕ} {p : Publication}
    {outcome : PublicationOutcome} (hout : outcome ≠ .routed)
    (hp : c.publications.entries.lookup id = some p) :
    Step world c (.conclude id p.source outcome) (c.cancelPublication id outcome) := by
  have hkey := (hv.publishing.sound.key id p hp).1
  subst hkey
  unfold Core.cancelPublication
  rw [hp]
  exact .conclude p hp fun h => absurd h hout

theorem Core.Valid.cancelPublication (hv : c.Valid world) (id : ℕ) (outcome : PublicationOutcome)
    (hout : outcome ≠ .routed)
    (hP : ∀ p, c.publications.entries.lookup id = some p → P (.conclude id p.source outcome)) :
    Evolves world P c (c.cancelPublication id outcome) := by
  rcases hp : c.publications.entries.lookup id with - | p
  · rw [Core.cancelPublication_none outcome hp]
    exact .refl c
  · exact .single hv (hP p hp) (hv.cancelPublication_step hout hp) (by simp)
      (by simp [Move.loosens])

/-- The table after one publication was ended. -/
theorem Core.Valid.cancelPublication_lookup (hv : c.Valid world) (id : ℕ)
    (outcome : PublicationOutcome) (i : ℕ) :
    (c.cancelPublication id outcome).publications.entries.lookup i =
      if i = id then none else c.publications.entries.lookup i := by
  rcases hp : c.publications.entries.lookup id with - | p
  · rw [Core.cancelPublication_none outcome hp]
    split_ifs with hi
    · rw [hi, hp]
    · rfl
  · have hkey := (hv.publishing.sound.key id p hp).1
    subst hkey
    have he := (hv.publishing.sound.conclude hp outcome).2.1
    unfold Core.cancelPublication
    rw [hp]
    show (c.publications.conclude p outcome).entries.lookup i = _
    rw [he, Assoc.lookup_erase_ite]

def Core.cancelAll (ids : List ℕ) (outcome : PublicationOutcome) (c : Core) : Core :=
  ids.foldl (fun c id => c.cancelPublication id outcome) c

theorem Core.Valid.cancelAll (hv : c.Valid world) (ids : List ℕ) (outcome : PublicationOutcome)
    (hout : outcome ≠ .routed)
    (hP : ∀ id ∈ ids, ∀ p, c.publications.entries.lookup id = some p →
      P (.conclude id p.source outcome)) :
    Evolves world P c (c.cancelAll ids outcome) ∧
      ∀ i, (c.cancelAll ids outcome).publications.entries.lookup i =
        if i ∈ ids then none else c.publications.entries.lookup i := by
  induction ids generalizing c with
  | nil => exact ⟨.refl c, fun i => by simp [Core.cancelAll]⟩
  | cons id ids ih =>
    have h1 := hv.cancelPublication id outcome hout (hP id (by simp))
    have hlook := hv.cancelPublication_lookup id outcome
    obtain ⟨h2, h3⟩ := ih (h1.valid hv) fun i hi p hp => by
      rw [hlook] at hp
      split_ifs at hp
      exact hP i (List.mem_cons_of_mem _ hi) p hp
    refine ⟨h1.trans h2, fun i => (h3 i).trans ?_⟩
    rw [hlook]
    by_cases hi : i = id <;> by_cases hm : i ∈ ids <;> simp [hi, hm]

/-- Ending publications does not look at the mailboxes. -/
theorem Core.cancelAll_setBox (ids : List ℕ) (outcome : PublicationOutcome) (i : ℕ) (b : Box) :
    (c.setBox i b).cancelAll ids outcome = (c.cancelAll ids outcome).setBox i b := by
  induction ids generalizing c with
  | nil => rfl
  | cons id ids ih =>
    have h : (c.setBox i b).cancelPublication id outcome =
        (c.cancelPublication id outcome).setBox i b := by
      unfold Core.cancelPublication Core.setBox
      dsimp only
      rcases c.publications.entries.lookup id with - | p <;> rfl
    show ((c.setBox i b).cancelPublication id outcome).cancelAll ids outcome = _
    rw [h, ih]
    rfl

theorem Core.cancelAll_boxes (ids : List ℕ) (outcome : PublicationOutcome) :
    (c.cancelAll ids outcome).boxes = c.boxes ∧ (c.cancelAll ids outcome).nodes = c.nodes := by
  induction ids generalizing c with
  | nil => exact ⟨rfl, rfl⟩
  | cons id ids ih =>
    have h : (c.cancelPublication id outcome).boxes = c.boxes ∧
        (c.cancelPublication id outcome).nodes = c.nodes := by
      unfold Core.cancelPublication
      split <;> exact ⟨rfl, rfl⟩
    exact ⟨(ih (c := c.cancelPublication id outcome)).1.trans h.1,
      (ih (c := c.cancelPublication id outcome)).2.trans h.2⟩

/-! ## Operations -/

/-- `expire_operation_locked` on the core, with the timeout counted. -/
def Core.timeOut (id : OperationId) (now : Instant) (c : Core) : Core :=
  if (c.operations.participants id).isOk = true ∧ (c.operations.expireOne id now).1 = .ok true then
    { c with
      operations := (c.operations.expireOne id now).2
      ledger := c.ledger.endOperation .timedOut }
  else c

theorem OperationTable.expireOne_true {t : OperationTable} {id : OperationId} {now : Instant}
    (h : (t.expireOne id now).1 = .ok true) :
    t.isPending id = true ∧ t.foreign .timedOut = false ∧
      (t.expireOne id now).2 = (t.complete id .timedOut).2 := by
  unfold OperationTable.expireOne at h ⊢
  rcases hl : t.locate id with e | e
  · simp [hl] at h
  · cases e with
    | terminal o => simp [hl] at h
    | pending p =>
      simp only [hl] at h ⊢
      split_ifs at h ⊢ with hd
      · exact ⟨by simp [OperationTable.isPending, hl], rfl, rfl⟩
      · simp at h

theorem OperationTable.complete_lost {t : OperationTable} {id : OperationId}
    {outcome : TerminalOutcome} (h : (t.complete id outcome).1 ≠ .ok true) :
    (t.complete id outcome).2 = t := by
  unfold OperationTable.complete at h ⊢
  split_ifs with hf
  · rfl
  · rcases hl : t.locate id with e | e
    · rfl
    · cases e with
      | terminal o => rfl
      | pending p => simp [hf, hl] at h

theorem OperationTable.expireOne_lost {t : OperationTable} {id : OperationId} {now : Instant}
    (h : (t.expireOne id now).1 ≠ .ok true) : (t.expireOne id now).2 = t := by
  unfold OperationTable.expireOne at h ⊢
  rcases hl : t.locate id with e | e
  · rfl
  · cases e with
    | terminal o => rfl
    | pending p =>
      simp only [hl] at h ⊢
      split_ifs at h ⊢ with hd
      · exact OperationTable.complete_lost h
      · rfl

theorem Core.Valid.timeOut (hv : c.Valid world) (id : OperationId) (now : Instant)
    (hP : P (.endOperation id .timedOut)) : Evolves world P c (c.timeOut id now) := by
  unfold Core.timeOut
  split_ifs with h
  · obtain ⟨hp, hf, he⟩ := OperationTable.expireOne_true h.2
    rw [he]
    exact .single hv hP (.endOperation hp hf) (by simp) (by simp [Move.loosens])
  · exact .refl c

/-- `complete_operation_locked` on the core, with the outcome counted. -/
def Core.endOperation (id : OperationId) (outcome : TerminalOutcome) (c : Core) : Core :=
  if (c.operations.participants id).isOk = true ∧ (c.operations.complete id outcome).1 = .ok true then
    { c with
      operations := (c.operations.complete id outcome).2
      ledger := c.ledger.endOperation outcome }
  else c

theorem OperationTable.complete_true {t : OperationTable} {id : OperationId}
    {outcome : TerminalOutcome} (h : (t.complete id outcome).1 = .ok true) :
    t.isPending id = true ∧ t.foreign outcome = false := by
  unfold OperationTable.complete at h
  split_ifs at h with hf
  rcases hl : t.locate id with e | e
  · simp [hl] at h
  · cases e with
    | terminal o => simp [hl] at h
    | pending p => exact ⟨by simp [OperationTable.isPending, hl], by simpa using hf⟩

theorem Core.Valid.endOperation (hv : c.Valid world) (id : OperationId)
    (outcome : TerminalOutcome) (hP : P (.endOperation id outcome)) :
    Evolves world P c (c.endOperation id outcome) := by
  unfold Core.endOperation
  split_ifs with h
  · obtain ⟨hp, hf⟩ := OperationTable.complete_true h.2
    exact .single hv hP (.endOperation hp hf) (by simp) (by simp [Move.loosens])
  · exact .refl c

namespace World

variable {w : World} {st : State} {r : ActorRef} {a : Actor}

/-! ## The calls on the core -/

theorem concludedMetrics_ledger (outcome : PublicationOutcome) (m : Metrics) :
    (concludedMetrics outcome m).ledger = m.ledger.conclude outcome := by
  cases outcome <;> rfl

theorem core_finishPublicationLocked (p : Publication) (outcome : PublicationOutcome) :
    (w.finishPublicationLocked p outcome st).core =
      { st.core with
        publications := ((st.publications.removeIndexes p).setStatus p.ticket
          (.terminal (p.closing outcome))).settle p.ticket
        ledger := st.core.ledger.conclude outcome
        published := st.core.published ++ [.concluded p.ticket (p.closing outcome)] } := by
  have hroute : ∀ st : State,
      (if st.publications.ready ≠ [] then st.markRoutingLocked else st).core = st.core ∧
        (if st.publications.ready ≠ [] then st.markRoutingLocked else st).publications =
          st.publications := by
    intro st
    split_ifs <;> exact ⟨rfl, rfl⟩
  unfold finishPublicationLocked
  dsimp only
  rw [State.core_note_published _ rfl, State.core_with_publications, (hroute _).1, (hroute _).2,
    core_markActivityDependentsLocked, State.core_addMetrics, concludedMetrics_ledger]
  rfl

theorem core_cancelPublicationLocked (id : ℕ) (outcome : PublicationOutcome) :
    (w.cancelPublicationLocked id outcome st).core = st.core.cancelPublication id outcome := by
  unfold cancelPublicationLocked Core.cancelPublication
  show (match st.publications.entries.lookup id with | none => _ | some p => _ : State).core =
    match st.publications.entries.lookup id with | none => _ | some p => _
  rcases st.publications.entries.lookup id with - | p
  · rfl
  · exact core_finishPublicationLocked p outcome

theorem core_cancel_foldl {α : Type} (f : α → ℕ) (outcome : PublicationOutcome) (xs : List α) :
    (xs.foldl (fun st x => w.cancelPublicationLocked (f x) outcome st) st).core =
      st.core.cancelAll (xs.map f) outcome := by
  induction xs generalizing st with
  | nil => rfl
  | cons x xs ih =>
    rw [List.foldl_cons, ih, core_cancelPublicationLocked]
    rfl

theorem cancelSourcePublicationsLocked_spec (hv : st.core.Valid w.id)
    (hP : ∀ id, P (.conclude id r .cancelled)) :
    Evolves w.id P st.core (w.cancelSourcePublicationsLocked r st).core ∧
      (w.cancelSourcePublicationsLocked r st).publications.queueOf r = [] := by
  unfold cancelSourcePublicationsLocked
  have hcore := @core_cancel_foldl w st _ (fun i : ℕ => i) .cancelled (st.publications.queueOf r)
  rw [List.map_id'] at hcore
  obtain ⟨h1, h2⟩ := hv.cancelAll (P := P) (st.publications.queueOf r) .cancelled (by decide)
    fun i hi p hp => by
      obtain ⟨q, hq, hs⟩ := (hv.publishing.sound.queue r i).mp hi
      rw [hp] at hq
      cases hq
      exact hs ▸ hP i
  rw [← hcore] at h1 h2
  refine ⟨h1, List.eq_nil_iff_forall_not_mem.mpr fun i hi => ?_⟩
  obtain ⟨p, hp, hs⟩ := ((h1.valid hv).publishing.sound.queue r i).mp hi
  have hgone := (h2 i).symm.trans hp
  split_ifs at hgone with hm
  exact hm ((hv.publishing.sound.queue r i).mpr ⟨p, hgone, hs⟩)

theorem completeOperationLocked_cases (id : OperationId) (outcome : TerminalOutcome) :
    (w.completeOperationLocked id outcome st).1 = .ok true ∧
        (st.operations.participants id).isOk = true ∧
        (st.operations.complete id outcome).1 = .ok true ∧
        (w.completeOperationLocked id outcome st).2.core =
          { st.core with operations := (st.operations.complete id outcome).2 } ∨
      (w.completeOperationLocked id outcome st).1 ≠ .ok true ∧
        ¬((st.operations.participants id).isOk = true ∧
          (st.operations.complete id outcome).1 = .ok true) ∧
        (w.completeOperationLocked id outcome st).2.core = st.core := by
  unfold completeOperationLocked
  rcases st.operations.participants id with e | ⟨owner, target⟩
  · exact .inr ⟨by simp, by simp [Except.isOk, Except.toBool], rfl⟩
  · by_cases h : (st.operations.complete id outcome).1 = .ok true
    · refine .inl ⟨h, rfl, h, ?_⟩
      simp only [h, if_true, core_markOperationActivityLocked]
      rfl
    · refine .inr ⟨h, fun hc => h hc.2, ?_⟩
      simp only [h, if_false]
      rw [OperationTable.complete_lost h]

/-- Completing an operation and counting the transition it wins. -/
theorem core_endOperation (id : OperationId) (outcome : TerminalOutcome) (won : State → State)
    (hwon : ∀ st : State, (won st).core =
      { st.core with ledger := st.core.ledger.endOperation outcome }) :
    (w.endOperation id outcome won st).core = st.core.endOperation id outcome := by
  unfold endOperation Core.endOperation
  rcases @completeOperationLocked_cases w st id outcome with
    ⟨h1, h2, h3, h4⟩ | ⟨h1, h2, h3⟩
  · have h5 : (st.core.operations.participants id).isOk = true ∧
        (st.core.operations.complete id outcome).1 = .ok true := ⟨h2, h3⟩
    simp only [h1, if_true, if_pos h5, hwon, h4]
    rfl
  · have h5 : ¬((st.core.operations.participants id).isOk = true ∧
        (st.core.operations.complete id outcome).1 = .ok true) := h2
    simp only [h1, if_false, if_neg h5, h3]

@[simp] theorem core_timeOutOperation (id : OperationId) (now : Instant)
    (actor : Option ActorRef) :
    (w.timeOutOperation id now actor st).core = st.core.timeOut id now := by
  have hcases : (w.expireOperationLocked id now st).1 = .ok true ∧
        ((st.core.operations.participants id).isOk = true ∧
          (st.core.operations.expireOne id now).1 = .ok true) ∧
        (w.expireOperationLocked id now st).2.core =
          { st.core with operations := (st.operations.expireOne id now).2 } ∨
      (w.expireOperationLocked id now st).1 ≠ .ok true ∧
        ¬((st.core.operations.participants id).isOk = true ∧
          (st.core.operations.expireOne id now).1 = .ok true) ∧
        (w.expireOperationLocked id now st).2.core = st.core := by
    unfold expireOperationLocked
    show _ ∧ ((st.operations.participants id).isOk = true ∧
      (st.operations.expireOne id now).1 = .ok true) ∧ _ ∨ _ ∧
        ¬((st.operations.participants id).isOk = true ∧
          (st.operations.expireOne id now).1 = .ok true) ∧ _
    rcases st.operations.participants id with e | ⟨owner, target⟩
    · exact .inr ⟨by simp, by simp [Except.isOk, Except.toBool], rfl⟩
    · by_cases h : (st.operations.expireOne id now).1 = .ok true
      · refine .inl ⟨h, ⟨rfl, h⟩, ?_⟩
        simp only [h, if_true, core_markOperationActivityLocked]
        rfl
      · refine .inr ⟨h, fun hc => h hc.2, ?_⟩
        simp only [h, if_false, OperationTable.expireOne_lost h]
  unfold timeOutOperation Core.timeOut
  rcases hcases with ⟨h1, h2, h3⟩ | ⟨h1, h2, h3⟩
  · simp only [h1, if_true, if_pos h2]
    show ({ (w.expireOperationLocked id now st).2.core with
      ledger := (w.expireOperationLocked id now st).2.core.ledger.endOperation .timedOut } :
        Core) = _
    rw [h3]
    rfl
  · simp only [h1, if_false, if_neg h2, h3]

end World

end Actorplane
