import Actorplane.Operations.Indexes

/-!
# Batch transitions of the operation table

What `complete`, `take` and the loops over them do to the located entries, and
that they keep the indexes exact. Owners never change while an identity is live.
-/

namespace Actorplane

namespace OperationTable

variable {t : OperationTable} {id : OperationId} {e : Entry} {p : PendingOperation}
  {o : TerminalOutcome} {keep : Instant → Prop}

def isPending (t : OperationTable) (id : OperationId) : Bool :=
  match t.locate id with
  | .ok (.pending _) => true
  | _ => false

theorem isPending_iff : t.isPending id = true ↔ ∃ p, t.locate id = .ok (.pending p) := by
  unfold isPending
  rcases t.locate id with e | (p | x) <;> simp

def isLive (t : OperationTable) (id : OperationId) : Bool := (t.locate id).isOk

theorem isLive_iff : t.isLive id = true ↔ ∃ e, t.locate id = .ok e := by
  unfold isLive
  cases t.locate id <;> simp [Except.isOk, Except.toBool]

/-! ## One completion, whatever the entry -/

theorem complete_not_pending (h : t.isPending id = false) :
    (t.complete id o).1 ≠ .ok true ∧ (t.complete id o).2 = t := by
  unfold complete isPending at *
  split_ifs
  · simp
  · rcases ht : t.locate id with e | (p | x) <;> simp_all

theorem complete_foreign (h : t.foreign o = true) :
    t.complete id o = (.error .crossWorld, t) := by
  simp [complete, h]

theorem complete_frame (t : OperationTable) (id : OperationId) (o : TerminalOutcome) :
    (t.complete id o).2.world = t.world ∧ (t.complete id o).2.max = t.max ∧
      (t.complete id o).2.generations = t.generations ∧ (t.complete id o).2.owners = t.owners ∧
      (t.complete id o).2.free = t.free ∧ (t.complete id o).2.ownerIndex = t.ownerIndex ∧
      (t.complete id o).2.slots.length = t.slots.length := by
  by_cases hf : t.foreign o
  · simp [complete_foreign hf]
  · by_cases hp : t.isPending id
    · obtain ⟨p, hp⟩ := isPending_iff.mp hp
      simp [complete_pending (by simpa using hf) hp]
    · simp [(complete_not_pending (by simpa using hp)).2]

theorem Indexed.complete (h : t.Indexed keep) (id : OperationId) (o : TerminalOutcome) : (t.complete id o).2.Indexed keep := by
  by_cases hf : t.foreign o
  · rwa [complete_foreign hf]
  · by_cases hp : t.isPending id
    · obtain ⟨p, hp⟩ := isPending_iff.mp hp
      exact h.complete_pending (by simpa using hf) hp
    · rwa [(complete_not_pending (by simpa using hp)).2]

theorem foreign_of_world {t' : OperationTable} (h : t'.world = t.world) :
    t'.foreign o = t.foreign o := by
  unfold foreign
  rw [h]

theorem complete_locate_iff (id : OperationId) (hf : t.foreign o = false) (i : OperationId) (y : Entry) :
    (t.complete id o).2.locate i = .ok y ↔
      if i = id ∧ t.isPending i = true then .terminal o.normalized = y
      else t.locate i = .ok y := by
  by_cases hp : t.isPending id
  · obtain ⟨p, hp'⟩ := isPending_iff.mp hp
    rw [complete_locate hf hp']
    by_cases hi : i = id
    · subst hi
      simp [hp]
    · simp [hi]
  · rw [(complete_not_pending (by simpa using hp)).2]
    rw [if_neg]
    rintro ⟨rfl, hi⟩
    exact hp hi

theorem complete_won (hf : t.foreign o = false) :
    (t.complete id o).1 = .ok true ↔ t.isPending id = true := by
  by_cases hp : t.isPending id
  · obtain ⟨p, hp'⟩ := isPending_iff.mp hp
    simp [complete_pending hf hp', hp]
  · simp [(complete_not_pending (o := o) (by simpa using hp)).1, hp]

theorem complete_isPending (hf : t.foreign o = false) (i : OperationId) :
    (t.complete id o).2.isPending i = (t.isPending i && i ≠ id) := by
  rw [Bool.eq_iff_iff, isPending_iff]
  simp only [complete_locate_iff id hf, Bool.and_eq_true, decide_eq_true_eq]
  by_cases hp : t.isPending i <;> by_cases hi : i = id
  · simp [hi, hi ▸ hp]
  · simpa [hi] using isPending_iff.symm
  all_goals
    simp only [hp, and_false, Bool.false_eq_true, if_false, false_and, iff_false]
    exact fun hq => hp (isPending_iff.mpr hq)

/-! ## Several completions -/

/-- The loop completes the pending identities of a duplicate-free list and counts them. -/
theorem transitionIds_spec (h : t.Indexed keep) (ids : List OperationId)
    (hf : t.foreign o = false) (hn : ids.Nodup) :
    (t.transitionIds ids o).2.Indexed keep ∧
      (t.transitionIds ids o).2.world = t.world ∧
      (t.transitionIds ids o).2.max = t.max ∧
      (t.transitionIds ids o).2.generations = t.generations ∧
      (t.transitionIds ids o).2.owners = t.owners ∧
      (t.transitionIds ids o).2.free = t.free ∧
      (t.transitionIds ids o).2.slots.length = t.slots.length ∧
      (∀ i y, (t.transitionIds ids o).2.locate i = .ok y ↔
        if i ∈ ids ∧ t.isPending i = true then .terminal o.normalized = y
        else t.locate i = .ok y) ∧
      (t.transitionIds ids o).1 = ids.countP t.isPending := by
  induction ids generalizing t with
  | nil => simpa [transitionIds] using h
  | cons id ids ih =>
    obtain ⟨hid, hn⟩ := List.nodup_cons.mp hn
    obtain ⟨hw, hm, hg, ho, hfr, -, hl⟩ := complete_frame t id o
    obtain ⟨h1, h2, h3, h4, h5, h6, h7, h8, h9⟩ :=
      ih (h.complete id o) (by rwa [foreign_of_world hw]) hn
    simp only [transitionIds]
    refine ⟨h1, h2.trans hw, h3.trans hm, h4.trans hg, h5.trans ho, h6.trans hfr, h7.trans hl,
      fun i y => ?_, ?_⟩
    · rw [h8, complete_isPending hf, complete_locate_iff id hf]
      by_cases hi : i = id
      · subst hi
        simp [hid]
      · simp [hi]
    · have hcount : ids.countP (t.complete id o).2.isPending = ids.countP t.isPending := by
        refine List.countP_congr fun i hi => ?_
        have hne : i ≠ id := fun he => hid (he ▸ hi)
        simp [complete_isPending hf, hne]
      rw [h9, hcount, List.countP_cons]
      by_cases hp : t.isPending id
      · simp [(complete_won hf).mpr hp, hp]
      · have hlost : (t.complete id o).1 ≠ .ok true := fun hc => hp ((complete_won hf).mp hc)
        simp [hlost, hp]

/-! ## Taking, whatever the entry -/

theorem take_missing (h : ∀ e, t.locate id ≠ .ok e) :
    t.take id = (.error (if id.world = t.world then .staleReference else .crossWorld), t) := by
  simp [take, locate_error h]

theorem take_pending (hp : t.locate id = .ok (.pending p)) : t.take id = (.ok none, t) := by
  simp [take, hp]

theorem retireGeneration_frame (t : OperationTable) (s : ℕ) :
    (t.retireGeneration s).world = t.world ∧ (t.retireGeneration s).max = t.max ∧
      (t.retireGeneration s).owners = t.owners := by
  unfold retireGeneration
  split_ifs <;> simp

theorem take_frame (h : t.Columns) (id : OperationId) :
    (t.take id).2.world = t.world ∧ (t.take id).2.max = t.max ∧
      ∀ s, s ≠ id.slot → (t.take id).2.ownerAt s = t.ownerAt s := by
  rcases hl : t.locate id with e | (p | x)
  · rw [take_missing (by simp [hl])]
    exact ⟨rfl, rfl, fun _ _ => rfl⟩
  · rw [take_pending hl]
    exact ⟨rfl, rfl, fun _ _ => rfl⟩
  · obtain ⟨owner, -, heq⟩ := take_terminal h hl
    rw [heq]
    obtain ⟨hw, hm, ho⟩ := retireGeneration_frame
      { t with
        slots := t.slots.set id.slot none
        owners := t.owners.set id.slot none
        ownerIndex := t.ownerIndex.drop owner id
        live := t.live - 1 } id.slot
    refine ⟨hw, hm, fun s hs => ?_⟩
    unfold ownerAt
    rw [ho]
    exact ownerAt_clear t.owners id.slot s hs

theorem Indexed.take (h : t.Indexed keep) : (t.take id).2.Indexed keep := by
  rcases hl : t.locate id with e | (p | x)
  · rwa [take_missing (by simp [hl])]
  · rwa [take_pending hl]
  · exact (h.take_terminal hl).1

/-! ## Retiring an owner -/

/-- Complete, then take: the slot of a located identity is emptied. -/
theorem retireOne_spec (h : t.Indexed keep) (id : OperationId) :
    ((t.complete id .ownerStopped).2.take id).2.Indexed keep ∧
      (∀ i y, ((t.complete id .ownerStopped).2.take id).2.locate i = .ok y ↔
        i ≠ id ∧ t.locate i = .ok y) ∧
      (∀ i y, ((t.complete id .ownerStopped).2.take id).2.locate i = .ok y →
        ((t.complete id .ownerStopped).2.take id).2.ownerAt i.slot = t.ownerAt i.slot) ∧
      ((∃ x, ((t.complete id .ownerStopped).2.take id).1 = .ok (some x)) ↔
        t.isLive id = true) := by
  have h1 : (t.complete id .ownerStopped).2.Indexed keep := h.complete id _
  have hloc1 := complete_locate_iff id (show t.foreign .ownerStopped = false from rfl)
  have hown : (t.complete id .ownerStopped).2.owners = t.owners := (complete_frame t id _).2.2.2.1
  rcases hl : t.locate id with e | y
  · have hp : t.isPending id = false := by simp [isPending, hl]
    rw [(complete_not_pending hp).2, take_missing (by simp [hl])]
    refine ⟨h, fun i y => ⟨fun hi => ⟨?_, hi⟩, And.right⟩, fun _ _ _ => rfl, ?_⟩
    swap
    · simp [isLive_iff, hl]
    rintro rfl
    simp [hl] at hi
  · obtain ⟨x, hx⟩ : ∃ x, (t.complete id .ownerStopped).2.locate id = .ok (.terminal x) := by
      rcases y with p | x
      · exact ⟨_, (hloc1 id _).mpr (by simp [isPending_iff.mpr ⟨p, hl⟩]; rfl)⟩
      · exact ⟨x, (hloc1 id _).mpr (by simp [isPending, hl])⟩
    have hloc : ∀ i y, ((t.complete id .ownerStopped).2.take id).2.locate i = .ok y ↔
        i ≠ id ∧ t.locate i = .ok y := by
      intro i y
      rw [(h1.take_terminal hx).2, hloc1]
      by_cases hi : i = id <;> simp [hi]
    refine ⟨h1.take, hloc, fun i y hi => ?_, ?_⟩
    · obtain ⟨hne, hi⟩ := (hloc i y).mp hi
      have hs : i.slot ≠ id.slot := fun hs => hne (locate_slot_inj hi hl hs)
      rw [(take_frame h1.columns id).2.2 i.slot hs, ownerAt, ownerAt, hown]
    · obtain ⟨owner, -, heq⟩ := take_terminal h1.columns hx
      simp [heq, isLive_iff.mpr ⟨y, hl⟩]

/-- The loop of `retire_owner` empties the slot of every located identity it visits. -/
theorem retireIds_spec {ids : List OperationId} (h : t.Indexed keep) (hn : ids.Nodup) :
    (t.retireIds ids).2.Indexed keep ∧ (t.retireIds ids).2.world = t.world ∧
      (t.retireIds ids).2.max = t.max ∧
      (∀ i y, (t.retireIds ids).2.locate i = .ok y ↔ i ∉ ids ∧ t.locate i = .ok y) ∧
      (∀ i y, (t.retireIds ids).2.locate i = .ok y →
        (t.retireIds ids).2.ownerAt i.slot = t.ownerAt i.slot) ∧
      (t.retireIds ids).1 = ids.countP t.isLive := by
  induction ids generalizing t with
  | nil => simpa [retireIds] using h
  | cons id ids ih =>
    obtain ⟨hid, hn⟩ := List.nodup_cons.mp hn
    obtain ⟨hw, hm, -⟩ := complete_frame t id .ownerStopped
    obtain ⟨h1, hloc, hown, hwon⟩ := retireOne_spec h id
    obtain ⟨hw', hm', -⟩ := take_frame (h.complete id .ownerStopped).columns id
    obtain ⟨h2, h3, h4, h5, h6, h7⟩ := ih h1 hn
    simp only [retireIds]
    refine ⟨h2, h3.trans (hw'.trans hw), h4.trans (hm'.trans hm), fun i y => ?_,
      fun i y hy => ?_, ?_⟩
    · rw [h5, hloc, List.mem_cons, not_or]
      tauto
    · rw [h6 i y hy]
      exact hown i y ((h5 i y).mp hy).2
    · have hcount : ids.countP ((t.complete id .ownerStopped).2.take id).2.isLive =
          ids.countP t.isLive := by
        refine List.countP_congr fun i hi => ?_
        have hne : i ≠ id := fun he => hid (he ▸ hi)
        simp [isLive_iff, hloc, hne]
      rw [h7, hcount, List.countP_cons]
      by_cases hl : t.isLive id
      · obtain ⟨x, hx⟩ := hwon.mpr hl
        simp [hx, hl]
      · have hlost : ∀ x, ((t.complete id .ownerStopped).2.take id).1 ≠ .ok (some x) :=
          fun x hx => hl (hwon.mp ⟨x, hx⟩)
        rw [if_neg hl]
        split
        · exact absurd ‹_› (hlost _)
        · rfl

/-! ## Expiry -/

@[simp] theorem mem_sortIds (ids : List OperationId) : id ∈ sortIds ids ↔ id ∈ ids :=
  List.mem_insertionSort _

@[simp] theorem nodup_sortIds (ids : List OperationId) : (sortIds ids).Nodup ↔ ids.Nodup :=
  (List.perm_insertionSort _ ids).nodup_iff

theorem mem_dueIds (h : t.Indexed fun _ => True) (now : Instant) :
    id ∈ t.dueIds now ↔ ∃ p, t.locate id = .ok (.pending p) ∧ p.deadline ≤ now := by
  simp only [dueIds, List.mem_filter, List.mem_map, List.mem_insertionSort, Prod.exists,
    decide_eq_true_eq]
  constructor
  · rintro ⟨⟨d, s, g, ⟨hd, hle⟩, rfl⟩, -⟩
    obtain ⟨p, hp, rfl, -⟩ := (h.indexes.deadlines_mem d s g).mp hd
    exact ⟨p, hp, hle⟩
  · rintro ⟨p, hp, hle⟩
    obtain ⟨hw, -, -⟩ := locate_ok_iff.mp hp
    have hid : (⟨t.world, id.slot, id.generation⟩ : OperationId) = id := by rw [← hw]
    refine ⟨⟨p.deadline, id.slot, id.generation, ⟨?_, hle⟩, hid⟩, isLive_iff.mpr ⟨_, hp⟩⟩
    exact (h.indexes.deadlines_mem _ _ _).mpr ⟨p, by rwa [hid], rfl, trivial⟩

theorem nodup_dueIds (h : t.Indexed fun _ => True) (now : Instant) : (t.dueIds now).Nodup := by
  refine List.Nodup.filter _ (List.Nodup.map_on ?_ ?_)
  · rintro ⟨d, s, g⟩ hk ⟨d', s', g'⟩ hk' heq
    simp only [List.mem_insertionSort, List.mem_filter] at hk hk'
    simp only [OperationId.mk.injEq, true_and] at heq
    obtain ⟨rfl, rfl⟩ := heq
    obtain ⟨p, hp, rfl, -⟩ := (h.indexes.deadlines_mem d s g).mp hk.1
    obtain ⟨q, hq, rfl, -⟩ := (h.indexes.deadlines_mem d' s g).mp hk'.1
    rw [hp] at hq
    cases hq
    rfl
  · exact (List.perm_insertionSort _ _).nodup_iff.mpr (h.indexes.deadlines_nodup.filter _)

/-- Without its due part the deadline set covers the later deadlines only. -/
theorem Indexed.popDue (h : t.Indexed fun _ => True) (now : Instant) :
    ({ t with deadlines := t.deadlines.filter fun key => ¬key.1 ≤ now } : OperationTable).Indexed
      (now < ·) := by
  refine ⟨{ h.columns with }, { h.indexes with deadlines_nodup := h.indexes.deadlines_nodup.filter _, deadlines_mem := fun d s g => ?_ }⟩
  simp only [List.mem_filter, h.indexes.deadlines_mem, decide_eq_true_eq, and_true, not_le]
  constructor
  · rintro ⟨⟨p, hp, hd⟩, hlt⟩
    exact ⟨p, hp, hd, hlt⟩
  · rintro ⟨p, hp, hd, hlt⟩
    exact ⟨⟨p, hp, hd⟩, hlt⟩

theorem Indexed.all (h : t.Indexed keep)
    (hk : ∀ i p, t.locate i = .ok (.pending p) → keep p.deadline) : t.Indexed fun _ => True := by
  refine ⟨h.columns, { h.indexes with deadlines_mem := fun d s g => ?_ }⟩
  rw [h.indexes.deadlines_mem]
  constructor
  · rintro ⟨p, hp, hd, -⟩
    exact ⟨p, hp, hd, trivial⟩
  · rintro ⟨p, hp, rfl, -⟩
    exact ⟨p, hp, rfl, hk _ p hp⟩

/-- Expiry completes exactly the pending operations whose deadline has been reached. -/
theorem expireIds_spec (h : t.Indexed fun _ => True) (now : Instant) :
    (t.expireIds now).2.Indexed (fun _ => True) ∧ (t.expireIds now).2.world = t.world ∧
      (t.expireIds now).2.max = t.max ∧ (t.expireIds now).2.owners = t.owners ∧
      (∀ i y, (t.expireIds now).2.locate i = .ok y ↔
        if i ∈ t.dueIds now then .terminal .timedOut = y else t.locate i = .ok y) ∧
      (t.expireIds now).1 = sortIds (t.dueIds now) := by
  obtain ⟨h1, h2, h3, -, h5, -, -, h8, -⟩ :=
    transitionIds_spec (o := .timedOut) (h.popDue now) _ rfl (nodup_dueIds h now)
  have hloc : ∀ i y, (t.expireIds now).2.locate i = .ok y ↔
      if i ∈ t.dueIds now then .terminal .timedOut = y else t.locate i = .ok y := by
    intro i y
    refine (h8 i y).trans ?_
    have hiff : (i ∈ t.dueIds now ∧ t.isPending i = true) ↔ i ∈ t.dueIds now := by
      refine and_iff_left_of_imp fun hi => ?_
      obtain ⟨p, hp, -⟩ := (mem_dueIds h now).mp hi
      exact isPending_iff.mpr ⟨p, hp⟩
    by_cases hi : i ∈ t.dueIds now
    · exact (iff_of_eq (if_pos (hiff.mpr hi))).trans (iff_of_eq (if_pos hi).symm)
    · exact (iff_of_eq (if_neg (mt hiff.mp hi))).trans (iff_of_eq (if_neg hi).symm)
  refine ⟨Indexed.all h1 fun i p hp => ?_, h2, h3, h5, hloc, rfl⟩
  have hp := (hloc i _).mp hp
  split_ifs at hp with hd
  by_contra hle
  exact hd ((mem_dueIds h now).mpr ⟨p, hp, not_lt.mp hle⟩)

end OperationTable

end Actorplane
