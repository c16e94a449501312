import Actorplane.Core.Ownership
import Actorplane.Operations.Refinement

/-!
# Operations under the moves

The operation table of a core keeps its indexes exact, belongs to the World, and
has running endpoints for every pending operation. The pending operations and the
three outcome counters together change only with a reservation or its release.
-/

namespace Actorplane

namespace OperationTable

variable {t : OperationTable} {id : OperationId} {p : PendingOperation} {o : TerminalOutcome}
  {keep : Instant → Prop}

/-! ## The pending count -/

theorem complete_count (h : t.Indexed keep) (hf : t.foreign o = false) (hp : t.isPending id = true) :
    (t.complete id o).2.pending + 1 = t.pending := by
  obtain ⟨p, hp⟩ := isPending_iff.mp hp
  have := h.columns.pending_pos hp
  rw [complete_pending hf hp]
  show t.pending - 1 + 1 = t.pending
  omega

theorem transitionIds_count (h : t.Indexed keep) (hf : t.foreign o = false)
    (ids : List OperationId) :
    (t.transitionIds ids o).2.pending + (t.transitionIds ids o).1 = t.pending := by
  induction ids generalizing t with
  | nil => rfl
  | cons id ids ih =>
    have hw := (complete_frame t id o).1
    have ih := ih (h.complete id o) (by rwa [foreign_of_world hw])
    simp only [transitionIds]
    by_cases hp : t.isPending id = true
    · have := complete_count h hf hp
      rw [if_pos ((complete_won hf).mpr hp)]
      omega
    · rw [if_neg fun hc => hp ((complete_won hf).mp hc)]
      rwa [(complete_not_pending (by simpa using hp)).2] at ih ⊢

theorem expireIds_count (h : t.Indexed fun _ => True) (now : Instant) :
    (t.expireIds now).2.pending + (t.expireIds now).1.length = t.pending := by
  obtain ⟨-, -, -, -, -, h6⟩ := expireIds_spec h now
  obtain ⟨-, -, -, -, -, -, -, -, h9⟩ :=
    transitionIds_spec (o := .timedOut) (h.popDue now) _ rfl (nodup_dueIds h now)
  have hall : (t.dueIds now).countP ({ t with
      deadlines := t.deadlines.filter fun key => ¬key.1 ≤ now } : OperationTable).isPending =
        (t.dueIds now).length := by
    refine List.countP_eq_length.mpr fun i hi => ?_
    obtain ⟨p, hp, -⟩ := (mem_dueIds h now).mp hi
    exact isPending_iff.mpr ⟨p, hp⟩
  rw [h6, sortIds, List.length_insertionSort, ← hall, ← h9]
  exact transitionIds_count (h.popDue now) rfl (t.dueIds now)

theorem take_count (h : t.Columns) (id : OperationId) : (t.take id).2.pending = t.pending := by
  rcases hl : t.locate id with e | (p | x)
  · rw [take_missing (by simp [hl])]
  · rw [take_pending hl]
  · obtain ⟨owner, -, heq⟩ := take_terminal h hl
    rw [heq]
    unfold retireGeneration
    split_ifs <;> rfl

theorem retireIds_count {ids : List OperationId} (h : t.Indexed keep)
    (hno : ∀ id ∈ ids, t.isPending id = false) :
    (t.retireIds ids).2.pending = t.pending := by
  induction ids generalizing t with
  | nil => rfl
  | cons id ids ih =>
    have hsame := (complete_not_pending (o := .ownerStopped) (hno id (by simp))).2
    obtain ⟨h1, hloc, -⟩ := retireOne_spec h id
    simp only [retireIds]
    rw [hsame] at h1 hloc ⊢
    rw [ih h1, take_count h.columns]
    intro i hi
    by_contra hp
    obtain ⟨p, hp⟩ := isPending_iff.mp (by simpa using hp)
    have := hno i (by simp [hi])
    rw [isPending_iff.mpr ⟨p, ((hloc i _).mp hp).2⟩] at this
    simp at this

theorem reserve_count {owner target : ActorRef} {deadline : Instant}
    (hok : (t.reserve owner target deadline).1 = .ok id) :
    (t.reserve owner target deadline).2.pending = t.pending + 1 := by
  unfold reserve at hok ⊢
  split_ifs at hok ⊢
  simp only [takeSlot]
  cases t.free <;> rfl

theorem release_count (h : t.Indexed keep) (hp : t.isPending id = true) :
    (t.releaseUnsubmitted id).2.pending + 1 = t.pending := by
  obtain ⟨p, hp⟩ := isPending_iff.mp hp
  have := h.columns.pending_pos hp
  rw [releaseUnsubmitted_pending hp]
  unfold retireGeneration
  split_ifs <;>
  · show t.pending - 1 + 1 = t.pending
    omega

/-! ## Reservation and context, as table facts -/

theorem Indexed.reserve (h : t.Indexed fun _ => True) {owner target : ActorRef}
    {deadline : Instant} (hok : (t.reserve owner target deadline).1 = .ok id) :
    (t.reserve owner target deadline).2.Indexed (fun _ => True) ∧
      (t.reserve owner target deadline).2.world = t.world ∧
      (∀ y, t.locate id ≠ .ok y) ∧
      ∀ i y, (t.reserve owner target deadline).2.locate i = .ok y ↔
        if i = id then .pending ⟨owner, target, deadline, none⟩ = y else t.locate i = .ok y := by
  by_cases hcan : (owner.world = t.world ∧ target.world = t.world) ∧ t.live < t.max ∧
      (t.free ≠ [] ∨ t.slots.length < t.max)
  · obtain ⟨hw, hlive, hroom⟩ := hcan
    obtain ⟨id', hid, -, h1, h2, -, h4, h5, -⟩ := reserve_ok h deadline hw hroom hlive
    rw [hid] at hok
    cases hok
    exact ⟨h1, h2, h4, h5⟩
  · rw [reserve_error deadline hcan] at hok
    cases hok

theorem setContext_spec (h : t.Indexed fun _ => True) (id : OperationId) (held : HeldPayload) :
    (t.setContext id held).2.Indexed (fun _ => True) ∧ (t.setContext id held).2.world = t.world ∧
      (t.setContext id held).2.pending = t.pending ∧
      ∀ i q, (t.setContext id held).2.locate i = .ok (.pending q) →
        ∃ p, t.locate i = .ok (.pending p) ∧ p.owner = q.owner ∧ p.target = q.target := by
  have hsame : (t.setContext id held).2 = t → _ ∧ _ ∧ _ ∧ ∀ i q,
      (t.setContext id held).2.locate i = .ok (.pending q) →
        ∃ p, t.locate i = .ok (.pending p) ∧ p.owner = q.owner ∧ p.target = q.target :=
    fun heq => ⟨heq ▸ h, congrArg world heq, congrArg OperationTable.pending heq,
      fun i q hq => ⟨q, heq ▸ hq, rfl, rfl⟩⟩
  by_cases hw : held.world = t.world
  · rcases hl : t.locate id with e | (p | x)
    · exact hsame (by simp [setContext, hw, hl])
    · by_cases hc : p.context = none
      · obtain ⟨h1, h2⟩ := h.setContext_pending hw hl hc
        refine ⟨h1, ?_, ?_, fun i q hq => ?_⟩
        · rw [setContext_pending hw hl hc]
        · rw [setContext_pending hw hl hc]
        · rw [h2] at hq
          split_ifs at hq with hi
          · cases hq
            exact ⟨p, hi ▸ hl, rfl, rfl⟩
          · exact ⟨q, hq, rfl, rfl⟩
      · refine hsame ?_
        cases hp : p.context with
        | none => exact absurd hp hc
        | some _ => simp [setContext, hw, hl, hp]
    · exact hsame (by simp [setContext, hw, hl])
  · exact hsame (by simp [setContext, hw])

end OperationTable

open OperationTable

variable {world : ℕ} {c c' : Core} {m : Move}

structure Core.Operating (world : ℕ) (c : Core) : Prop where
  indexed : c.operations.Indexed fun _ => True
  world_eq : c.operations.world = world
  endpoints : ∀ id p, c.operations.locate id = .ok (.pending p) →
    Running c.nodes p.owner ∧ Running c.nodes p.target

/-- A table update that keeps the endpoints of the operations still pending. -/
theorem Core.Operating.update (h : c.Operating world) (ho : c.Owned world)
    (hs : Step world c m c') (hidx : c'.operations.Indexed fun _ => True)
    (hw : c'.operations.world = c.operations.world)
    (hpend : ∀ id q, c'.operations.locate id = .ok (.pending q) →
      ∃ p, c.operations.locate id = .ok (.pending p) ∧ p.owner = q.owner ∧ p.target = q.target ∧
        ¬m.stops p.owner ∧ ¬m.stops p.target) : c'.Operating world := by
  refine ⟨hidx, hw.trans h.world_eq, fun id q hq => ?_⟩
  obtain ⟨p, hp, hpo, hpt, hmo, hmt⟩ := hpend id q hq
  obtain ⟨h1, h2⟩ := h.endpoints id p hp
  exact ⟨hpo ▸ ho.running hs hmo h1, hpt ▸ ho.running hs hmt h2⟩

theorem Core.Operating.keep (h : c.Operating world) (ho : c.Owned world)
    (hs : Step world c m c') (heq : c'.operations = c.operations) (hm : ∀ r, ¬m.stops r) :
    c'.Operating world :=
  h.update ho hs (heq ▸ h.indexed) (congrArg _ heq) fun _ q hq =>
    ⟨q, heq ▸ hq, rfl, rfl, hm _, hm _⟩

theorem mem_ownerIds (h : c.operations.Indexed fun _ => True) {r : ActorRef} {id : OperationId}
    {p : PendingOperation} (hp : c.operations.locate id = .ok (.pending p))
    (hm : id ∈ c.operations.ownerIndex.members r) : p.owner = r := by
  obtain ⟨-, ho⟩ := (h.indexes.ownerIndex.mem r id).mp hm
  rw [h.columns.owner_of_locate hp] at ho
  exact Option.some.inj ho

/-- A stopping actor owns no pending operation, so that retiring it only takes terminal ones. -/
theorem Core.Operating.not_pending (h : c.Operating world) {r : ActorRef} {n : Node}
    (hn : Seated c.nodes r n) (hst : n.state = .stopping) :
    ∀ id ∈ sortIds (c.operations.ownerIndex.members r), c.operations.isPending id = false := by
  intro id hid
  by_contra hp
  obtain ⟨p, hp⟩ := isPending_iff.mp (by simpa using hp)
  have howner := mem_ownerIds h.indexed hp (by simpa using hid)
  obtain ⟨k, hk, hks⟩ := (h.endpoints id p hp).1
  rw [howner] at hk
  rw [hk.unique hn, hst] at hks
  simp at hks

theorem Core.Operating.step (h : c.Operating world) (ho : c.Owned world)
    (hs : Step world c m c') : c'.Operating world := by
  have hs' := hs
  cases hs
  case endOperation id outcome hp hf =>
    refine h.update ho (.endOperation hp hf) (h.indexed.complete id _)
      (complete_frame _ _ _).1 fun i q hq => ?_
    rw [complete_locate_iff id hf] at hq
    split_ifs at hq
    exact ⟨q, hq, rfl, rfl, not_false, not_false⟩
  case expireOperations now =>
    obtain ⟨h1, h2, -, -, h5, -⟩ := expireIds_spec h.indexed now
    refine h.update ho .expireOperations h1 h2 fun i q hq => ?_
    have hq := (h5 i _).mp hq
    split_ifs at hq
    exact ⟨q, hq, rfl, rfl, not_false, not_false⟩
  case stop r n b _ _ _ _ _ _ hp _ _ _ _ _ =>
    refine h.update ho hs' h.indexed rfl fun i q hq => ⟨q, hq, rfl, rfl, ?_, ?_⟩
    · exact fun he => (hp i q hq).1 he.symm
    · exact fun he => (hp i q hq).2 he.symm
  case finalize r n b hd hn hst hb hfl hh hhd hc =>
    have hnd : (sortIds (c.operations.ownerIndex.members r)).Nodup :=
      (nodup_sortIds _).mpr (h.indexed.indexes.ownerIndex.nodup r)
    obtain ⟨h1, h2, -, h4, -⟩ := retireIds_spec h.indexed hnd
    refine h.update ho (.finalize n b hd hn hst hb hfl hh hhd hc) h1 h2 fun i q hq => ?_
    exact ⟨q, ((h4 i _).mp hq).2, rfl, rfl, not_false, not_false⟩
  case reserve id owner target deadline hro hrt hok =>
    obtain ⟨h1, h2, -, h4⟩ := h.indexed.reserve hok
    refine ⟨h1, h2.trans h.world_eq, fun i q hq => ?_⟩
    rw [h4] at hq
    split_ifs at hq
    · cases hq
      exact ⟨hro, hrt⟩
    · exact h.endpoints i q hq
  case release id hp =>
    obtain ⟨p, hp'⟩ := isPending_iff.mp hp
    obtain ⟨h1, h2⟩ := h.indexed.release_pending hp'
    refine h.update ho (.release hp) h1 ?_ fun i q hq => ?_
    · rw [releaseUnsubmitted_pending hp']
      exact (retireGeneration_frame _ _).1
    · exact ⟨q, ((h2 i _).mp hq).2, rfl, rfl, not_false, not_false⟩
  case context id held =>
    obtain ⟨h1, h2, -, h4⟩ := setContext_spec h.indexed id held
    refine h.update ho (.context held) h1 h2 fun i q hq => ?_
    obtain ⟨p, hp, hpo, hpt⟩ := h4 i q hq
    exact ⟨p, hp, hpo, hpt, not_false, not_false⟩
  case take id =>
    refine h.update ho .take h.indexed.take (take_frame h.indexed.columns id).1 fun i q hq => ?_
    rcases hl : c.operations.locate id with e | (p | x)
    · have hno : ∀ e, c.operations.locate id ≠ .ok e := by simp [hl]
      simp only [take_missing hno] at hq
      exact ⟨q, hq, rfl, rfl, not_false, not_false⟩
    · simp only [take_pending hl] at hq
      exact ⟨q, hq, rfl, rfl, not_false, not_false⟩
    · have := (h.indexed.take_terminal hl).2 i (.pending q)
      exact ⟨q, (this.mp hq).2, rfl, rfl, not_false, not_false⟩
  all_goals exact h.keep ho hs' rfl fun _ => not_false

/-- Only a reservation makes an operation pending. -/
theorem Core.Operating.pending_back (h : c.Operating world) (hs : Step world c m c')
    (hm : ∀ id, m ≠ .reserve id) {id : OperationId} {q : PendingOperation}
    (hq : c'.operations.locate id = .ok (.pending q)) :
    ∃ p, c.operations.locate id = .ok (.pending p) := by
  cases hs
  case endOperation i outcome hp hf =>
    rw [complete_locate_iff i hf] at hq
    split_ifs at hq
    exact ⟨q, hq⟩
  case expireOperations now =>
    obtain ⟨-, -, -, -, h5, -⟩ := expireIds_spec h.indexed now
    have hq := (h5 id _).mp hq
    split_ifs at hq
    exact ⟨q, hq⟩
  case finalize r n b hd hn hst hb hfl hh hhd hc =>
    have hnd : (sortIds (c.operations.ownerIndex.members r)).Nodup :=
      (nodup_sortIds _).mpr (h.indexed.indexes.ownerIndex.nodup r)
    obtain ⟨-, -, -, h4, -⟩ := retireIds_spec h.indexed hnd
    exact ⟨q, ((h4 id _).mp hq).2⟩
  case reserve i _ _ _ _ _ _ => exact absurd rfl (hm i)
  case release i hp =>
    obtain ⟨p, hp'⟩ := isPending_iff.mp hp
    exact ⟨q, (((h.indexed.release_pending hp').2 id _).mp hq).2⟩
  case context i held =>
    obtain ⟨-, -, -, h4⟩ := setContext_spec h.indexed i held
    obtain ⟨p, hp, -⟩ := h4 id q hq
    exact ⟨p, hp⟩
  case take i =>
    rcases hl : c.operations.locate i with e | (p | x)
    · have hno : ∀ e, c.operations.locate i ≠ .ok e := by simp [hl]
      simp only [take_missing hno] at hq
      exact ⟨q, hq⟩
    · simp only [take_pending hl] at hq
      exact ⟨q, hq⟩
    · exact ⟨q, (((h.indexed.take_terminal hl).2 id (.pending q)).mp hq).2⟩
  all_goals exact ⟨q, hq⟩

/-! ## The request ledger -/

/-- Pending operations, and those that ended in one of the three counted ways. -/
def Core.requests (c : Core) : ℕ :=
  c.operations.pending + c.ledger.operationCompleted + c.ledger.operationTimedOut +
    c.ledger.operationCancelled

theorem Core.Operating.requests_eq (h : c.Operating world) (hs : Step world c m c')
    (hm : (∀ id, m ≠ .reserve id) ∧ ∀ id, m ≠ .release id) : c'.requests = c.requests := by
  unfold Core.requests
  cases hs
  case endOperation id outcome hp hf =>
    have := complete_count h.indexed hf hp
    cases outcome <;> simp only [Ledger.endOperation] <;> omega
  case expireOperations now =>
    have := expireIds_count h.indexed now
    simp only
    omega
  case finalize r n b hd hn hst hb hfl hh hhd hc =>
    rw [show (c.operations.retireOwner r).2.pending = c.operations.pending from
      retireIds_count h.indexed (h.not_pending hn hst)]
  case reserve id _ _ _ _ _ _ => exact absurd rfl (hm.1 id)
  case release id _ => exact absurd rfl (hm.2 id)
  case context id held => rw [(setContext_spec h.indexed id held).2.2.1]
  case take id => rw [take_count h.indexed.columns]
  case conclude id outcome _ _ _ => cases outcome <;> rfl
  all_goals rfl

theorem Core.Operating.requests_reserve {id : OperationId} (hs : Step world c (.reserve id) c') :
    c'.requests = c.requests + 1 := by
  cases hs
  case reserve owner target deadline hro hrt hok =>
    simp only [Core.requests, reserve_count hok]
    omega

theorem Core.Operating.requests_release (h : c.Operating world) {id : OperationId}
    (hs : Step world c (.release id) c') : c'.requests + 1 = c.requests := by
  cases hs
  case release hp =>
    have := release_count h.indexed hp
    simp only [Core.requests]
    omega

end Actorplane
