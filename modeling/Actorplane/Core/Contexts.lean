import Actorplane.Core.Invariant
import Actorplane.Operations.Retirement

/-!
# What operations and publications carry

An operation keeps the context of its request, and a publication the payload and
metadata it was accepted with, for as long as either is in its table. A move
makes an operation terminal with a result only if it is a reply.
-/

namespace Actorplane

open OperationTable

variable {world : ℕ} {c c' : Core} {m : Move} {P : Move → Prop} {id : OperationId}

/-! ## Operations -/

/-- What an entry of the table was before the move. -/
inductive EntryBack (c : Core) (m : Move) (id : OperationId) (e : Entry) : Prop
  | same : c.operations.locate id = .ok e → EntryBack c m id e
  | reserved (p : PendingOperation) : m = .reserve id →
      (∀ y, c.operations.locate id ≠ .ok y) → e = .pending p → EntryBack c m id e
  | context (p : PendingOperation) (held : HeldPayload) : m = .context id →
      c.operations.locate id = .ok (.pending p) → p.context = none →
      e = .pending { p with context := some held } → EntryBack c m id e
  | ended (p : PendingOperation) (o : TerminalOutcome) :
      c.operations.locate id = .ok (.pending p) → e = .terminal o →
      (o.isCompleted = true → m = .endOperation id o) →
      EntryBack c m id e

/-- A context is only added to the pending operation it is for, and only once. -/
theorem setContext_back {t : OperationTable} (h : t.Indexed fun _ => True) (i : OperationId)
    (held : HeldPayload) {e : Entry} (he : (t.setContext i held).2.locate id = .ok e) :
    t.locate id = .ok e ∨ i = id ∧ ∃ p, t.locate id = .ok (.pending p) ∧ p.context = none ∧
      e = .pending { p with context := some held } := by
  by_cases hw : held.world = t.world
  · cases hl : t.locate i with
    | error x =>
      left
      simpa [setContext, hw, hl] using he
    | ok entry =>
      cases entry with
      | terminal x =>
        left
        simpa [setContext, hw, hl] using he
      | pending p =>
        cases hc : p.context with
        | some x =>
          left
          simpa [setContext, hw, hl, hc] using he
        | none =>
          have heq := ((h.setContext_pending hw hl hc).2 id e).mp he
          split_ifs at heq with hi
          · subst hi
            exact Or.inr ⟨rfl, p, hl, hc, heq.symm⟩
          · exact Or.inl heq
  · left
    simpa [setContext, hw] using he

theorem normalized_completed {o : TerminalOutcome} (h : o.normalized.isCompleted = true) :
    o.normalized = o := by
  cases o
  case completed => rfl
  all_goals cases h

theorem Core.Operating.entry_back (h : c.Operating world) (hs : Step world c m c') {e : Entry}
    (he : c'.operations.locate id = .ok e) : EntryBack c m id e := by
  cases hs
  case endOperation i outcome hp hf =>
    rw [complete_locate_iff i hf] at he
    split_ifs at he with hi
    · obtain ⟨rfl, hi⟩ := hi
      obtain ⟨p, hp⟩ := isPending_iff.mp hi
      apply EntryBack.ended p outcome.normalized hp he.symm
      intro hcompleted
      rw [normalized_completed hcompleted]
    · exact .same he
  case expireOperations now =>
    obtain ⟨-, -, -, -, h5, -⟩ := expireIds_spec h.indexed now
    have he := (h5 id _).mp he
    split_ifs at he with hdue
    · obtain ⟨p, hp, -⟩ := (mem_dueIds h.indexed now).mp hdue
      exact .ended p .timedOut hp he.symm (by simp [TerminalOutcome.isCompleted])
    · exact .same he
  case finalize r n b hd hn hst hb hfl hh hhd hc =>
    have hnd : (sortIds (c.operations.ownerIndex.members r)).Nodup :=
      (nodup_sortIds _).mpr (h.indexed.indexes.ownerIndex.nodup r)
    obtain ⟨-, -, -, h4, -⟩ := retireIds_spec h.indexed hnd
    exact .same ((h4 id _).mp he).2
  case reserve i owner target deadline _ _ hok =>
    obtain ⟨-, -, h3, h4⟩ := h.indexed.reserve hok
    rw [h4] at he
    split_ifs at he with hi
    · subst hi
      exact .reserved _ rfl h3 he.symm
    · exact .same he
  case release i hp =>
    obtain ⟨p, hp'⟩ := isPending_iff.mp hp
    exact .same (((h.indexed.release_pending hp').2 id _).mp he).2
  case context i held =>
    rcases setContext_back h.indexed i held he with hsame | ⟨rfl, p, hp, hnone, rfl⟩
    · exact .same hsame
    · exact .context p held rfl hp hnone rfl
  case take i =>
    cases hl : c.operations.locate i with
    | error e =>
      have hno : ∀ e, c.operations.locate i ≠ .ok e := by simp [hl]
      simp only [take_missing hno] at he
      exact .same he
    | ok entry =>
      cases entry with
      | pending p =>
        simp only [take_pending hl] at he
        exact .same he
      | terminal x => exact .same (((h.indexed.take_terminal hl).2 id _).mp he).2
  all_goals exact .same he

/-- No move makes an identity of the past live again. -/
theorem Core.Operating.advances (h : c.Operating world) (hs : Step world c m c') :
    c.operations.Advances c'.operations := by
  cases hs
  case endOperation => exact edits_complete.advances
  case expireOperations now => exact (edits_expireIds now).advances
  case finalize => exact (edits_retireIds h.indexed _).advances
  case reserve owner target deadline _ _ _ => exact advances_reserve h.indexed owner target deadline
  case release => exact (edits_release h.indexed.columns).advances
  case context held => exact (edits_setContext held).advances
  case take => exact (edits_take h.indexed.columns).advances
  all_goals exact .refl _

/-- Pending with its context, ended, or gone for good. -/
def Core.Holds (id : OperationId) (p : PendingOperation) (c : Core) : Prop :=
  c.operations.locate id = .ok (.pending p) ∨ (∃ o, c.operations.locate id = .ok (.terminal o)) ∨
    c.operations.Spent id

theorem Core.Holds.step {p : PendingOperation} (hp : p.context.isSome) (h : c.Holds id p)
    (ho : c.Operating world) (hs : Step world c m c') : c'.Holds id p := by
  have hadvances := ho.advances hs
  have hlocated {e : Entry} (he : c.operations.locate id = .ok e) :
      (∃ e', c'.operations.locate id = .ok e') ∨ c'.operations.Spent id :=
    hadvances.retires id e he
  rcases h with h | ⟨o, h⟩ | h
  · rcases hlocated h with ⟨e', he'⟩ | hspent
    · cases ho.entry_back hs he' with
      | same hsame =>
        rw [h] at hsame
        cases hsame
        exact Or.inl he'
      | reserved _ _ hfree _ => exact absurd h (hfree _)
      | context q held _ hq hnone _ =>
        rw [h] at hq
        cases hq
        simp [hnone] at hp
      | ended q o _ ho _ => exact Or.inr (Or.inl ⟨o, ho ▸ he'⟩)
    · exact Or.inr (Or.inr hspent)
  · rcases hlocated h with ⟨e', he'⟩ | hspent
    · cases ho.entry_back hs he' with
      | same hsame =>
        rw [h] at hsame
        cases hsame
        exact Or.inr (Or.inl ⟨o, he'⟩)
      | reserved _ _ hfree _ => exact absurd h (hfree _)
      | context q held _ hq _ _ =>
        rw [h] at hq
        cases hq
      | ended q o _ ho _ => exact Or.inr (Or.inl ⟨o, ho ▸ he'⟩)
    · exact Or.inr (Or.inr hspent)
  · exact Or.inr (Or.inr (hadvances.spent id h))

/-- While an operation stays pending, it stays as it is. -/
theorem Steps.holds {p q : PendingOperation} (hs : Steps world P c c') (hv : c.Valid world)
    (hp : c.operations.locate id = .ok (.pending p)) (hcontext : p.context.isSome)
    (hq : c'.operations.locate id = .ok (.pending q)) : q = p := by
  have h : c'.Valid world ∧ c'.Holds id p := by
    apply hs.invariant (I := fun c => c.Valid world ∧ c.Holds id p)
    · intro c m c' h _ hstep
      exact ⟨h.1.step hstep, h.2.step hcontext h.1.operating hstep⟩
    · exact ⟨hv, Or.inl hp⟩
  rcases h.2 with h | ⟨o, h⟩ | h
  · rw [h] at hq
    cases hq
    rfl
  · rw [h] at hq
    cases hq
  · rw [h.locate] at hq
    cases hq

/-- A result is only in the table if it was, or a reply among the moves put it there. -/
theorem Steps.completed_back {o : TerminalOutcome} (hs : Steps world P c c') (hv : c.Valid world)
    (hP : ∀ id o, o.isCompleted = true → ¬P (.endOperation id o)) (ho : o.isCompleted = true)
    (hc : c'.operations.locate id = .ok (.terminal o)) :
    c.operations.locate id = .ok (.terminal o) := by
  induction hs with
  | refl => exact hc
  | tail hs hm hstep ih =>
    apply ih
    cases (hs.valid hv).operating.entry_back hstep hc with
    | same hsame => exact hsame
    | reserved _ _ _ he => cases he
    | context _ _ _ _ _ he => cases he
    | ended p o' _ he hreply =>
      cases he
      obtain rfl := hreply ho
      exact absurd hm (hP id o ho)

/-- Each pending operation has the message of its request, with the deadline of both. -/
def Core.Contextual (c : Core) : Prop :=
  ∀ id p, c.operations.locate id = .ok (.pending p) →
    ∃ held envelope, p.context = some held ∧ held.envelope = some envelope ∧
      envelope.deadline = some p.deadline

theorem Steps.contextual (hs : Steps world P c c') (hv : c.Valid world)
    (hP : ∀ id, ¬P (.reserve id) ∧ ¬P (.context id)) (h : c.Contextual) : c'.Contextual := by
  induction hs with
  | refl => exact h
  | tail hs hm hstep ih =>
    intro id p hp
    cases (hs.valid hv).operating.entry_back hstep hp with
    | same hsame => exact ih id p hsame
    | reserved _ heq _ _ =>
      subst heq
      exact absurd hm (hP id).1
    | context _ _ heq _ _ _ =>
      subst heq
      exact absurd hm (hP id).2
    | ended _ _ _ he _ => cases he

/-! ## Publications -/

/-- A publication in the table had its payload, metadata and source when it was accepted. -/
structure Core.Keeps (c c' : Core) : Prop where
  next : c.publications.nextId ≤ c'.publications.nextId
  stored : ∀ id p', id < c.publications.nextId → c'.publications.entries.lookup id = some p' →
    ∃ p, c.publications.entries.lookup id = some p ∧ p'.stored = p.stored

theorem Core.Keeps.refl (c : Core) : c.Keeps c := ⟨le_rfl, fun _ p _ hp => ⟨p, hp, rfl⟩⟩

theorem Core.Keeps.trans {c'' : Core} (h : c.Keeps c') (h' : c'.Keeps c'') : c.Keeps c'' := by
  refine ⟨h.next.trans h'.next, ?_⟩
  intro id p'' hid hp''
  obtain ⟨p', hp', hstored'⟩ := h'.stored id p'' (hid.trans_le h.next) hp''
  obtain ⟨p, hp, hstored⟩ := h.stored id p' hid hp'
  exact ⟨p, hp, hstored'.trans hstored⟩

/-- A change of the table that only rewrites what is not data. -/
theorem Core.Keeps.of_lookup (hnext : c.publications.nextId ≤ c'.publications.nextId)
    (h : ∀ id p', c'.publications.entries.lookup id = some p' →
      ∃ p, c.publications.entries.lookup id = some p ∧ p'.stored = p.stored) : c.Keeps c' :=
  ⟨hnext, fun id p' _ hp' => h id p' hp'⟩

theorem Core.Keeps.of_entries (hnext : c.publications.nextId ≤ c'.publications.nextId)
    (h : c'.publications.entries = c.publications.entries) : c.Keeps c' :=
  .of_lookup hnext fun _ p' hp' => ⟨p', h ▸ hp', rfl⟩

theorem Core.Publishing.keeps (h : c.Publishing) (hs : Step world c m c') : c.Keeps c' := by
  have hsound := h.sound
  have hupdate {id : ℕ} {p q : Publication} (hp : c.publications.entries.lookup id = some p)
      (hticket : q.ticket = p.ticket) (hstored : q.stored = p.stored) (j : ℕ) (x : Publication)
      (hx : (c.publications.update q).entries.lookup j = some x) :
      ∃ p, c.publications.entries.lookup j = some p ∧ x.stored = p.stored := by
    simp only [PublicationTable.update, Assoc.lookup_insert_ite] at hx
    split_ifs at hx with hj
    · cases hx
      exact ⟨p, by rw [hj, hticket, (hsound.key id p hp).1, hp], hstored⟩
    · exact ⟨x, hx, rfl⟩
  cases hs
  case conclude id outcome p hp _ =>
    obtain ⟨-, h2, -, h4, -⟩ := hsound.conclude hp outcome
    apply Core.Keeps.of_lookup h4.ge
    intro j x hx
    simp only [h2, Assoc.lookup_erase_ite] at hx
    split_ifs at hx
    exact ⟨x, hx, rfl⟩
  case reserveTicket source staged =>
    rcases PublicationTable.reserve_frame c.publications source staged with
      ⟨heq, -⟩ | ⟨-, he, -, -, -, hn, -⟩
    · exact .of_entries (by simp [heq]) (by simp [heq])
    · exact .of_entries (by simp [hn]) he
  case cloneHandle id =>
    obtain ⟨he, -, -, -, hn, -⟩ := PublicationTable.cloneHandle_frame c.publications id
    exact .of_entries hn.ge he
  case dropHandle id =>
    obtain ⟨he, -, -, -, hn, -⟩ := PublicationTable.dropHandle_frame c.publications id
    exact .of_entries hn.ge he
  case accept p n b s hok _ _ _ _ _ _ _ _ _ _ =>
    obtain ⟨hticket, -, hlookup, -, hn, -⟩ := hsound.accept hok
    refine ⟨by simp [hn], ?_⟩
    intro j x hj hx
    simp only [hlookup] at hx
    split_ifs at hx with heq
    · omega
    · exact ⟨x, hx, rfl⟩
  case flush r id n b s rest _ _ _ _ =>
    obtain ⟨-, hlookup, -, hn, -⟩ := hsound.unstage id
    apply Core.Keeps.of_lookup hn.ge
    intro j x hx
    simp only [hlookup] at hx
    split_ifs at hx with heq
    · obtain ⟨p, hp, rfl⟩ := Option.map_eq_some_iff.mp hx
      exact ⟨p, heq ▸ hp, rfl⟩
    · exact ⟨x, hx, rfl⟩
  case capture id routes p hp _ _ _ _ => exact .of_lookup le_rfl (hupdate hp rfl rfl)
  case attempt id route target p routes hp _ _ _ => exact .of_lookup le_rfl (hupdate hp rfl rfl)
  case deliver id route target m p routes b sub hp _ _ _ _ _ _ _ _ =>
    exact .of_lookup le_rfl (hupdate hp rfl rfl)
  case requeue id p ready hp _ hready =>
    obtain ⟨-, he, -, hn, -⟩ := hsound.requeue hp hready
    exact .of_entries hn.ge he
  all_goals exact .of_entries le_rfl rfl

theorem Steps.keeps (hs : Steps world P c c') (hv : c.Valid world) : c.Keeps c' :=
  hs.relates Core.Keeps.refl (fun _ _ _ => Core.Keeps.trans)
    (fun _ _ _ hv _ hstep => ⟨hv.step hstep, hv.publishing.keeps hstep⟩) hv

end Actorplane
