import Actorplane.Operations.Refinement

/-!
# Rolling a reservation back

A reservation that is released before it is submitted leaves every entry, owner,
count and index as it was. Only the slot it had taken is different: its
generation has moved on, and at the last generation it is not free again.
-/

namespace Actorplane
namespace OperationTable

/-- Nothing an identity can reach has changed; slot `s`, which is empty, may have new
generations. -/
structure Spares (t t' : OperationTable) (s : ℕ) : Prop where
  empty : t.entryAt s = none
  generations : ∀ i, i ≠ s → t'.generationAt i = t.generationAt i
  generation : t.generationAt s ≤ t'.generationAt s
  free : ∀ i, i ≠ s → (i ∈ t'.free ↔ i ∈ t.free)
  again : s ∈ t.free → s ∈ t'.free ∨ u64Max ≤ t'.generationAt s

/-- `t'` is `t` after reservations that were rolled back. -/
structure Reverts (t t' : OperationTable) : Prop where
  world : t'.world = t.world
  max : t'.max = t.max
  locate : ∀ id, t'.locate id = t.locate id
  entries : ∀ s, t'.entryAt s = t.entryAt s
  owners : ∀ s, t'.ownerAt s = t.ownerAt s
  live : t'.live = t.live
  pending : t'.pending = t.pending
  pendingOwners : ∀ r, t'.pendingOwners.lookup r = t.pendingOwners.lookup r
  ownerIndex : ∀ r id, id ∈ t'.ownerIndex.members r ↔ id ∈ t.ownerIndex.members r
  targetIndex : ∀ r id, id ∈ t'.targetIndex.members r ↔ id ∈ t.targetIndex.members r
  deadlines : ∀ key, key ∈ t'.deadlines ↔ key ∈ t.deadlines
  spares : ∃ s, t.Spares t' s

variable {t t' : OperationTable} {id : OperationId}

theorem Spares.refl (t : OperationTable) : t.Spares t t.slots.length where
  empty := by simp [entryAt]
  generations _ _ := rfl
  generation := Nat.le_refl _
  free _ _ := Iff.rfl
  again := .inl

theorem Reverts.refl (t : OperationTable) : t.Reverts t where
  world := rfl
  max := rfl
  locate _ := rfl
  entries _ := rfl
  owners _ := rfl
  live := rfl
  pending := rfl
  pendingOwners _ := rfl
  ownerIndex _ _ := Iff.rfl
  targetIndex _ _ := Iff.rfl
  deadlines _ := Iff.rfl
  spares := ⟨_, .refl t⟩

/-- Two tables that locate the same entries also refuse the same identities. -/
theorem locate_congr (world : t'.world = t.world)
    (found : ∀ id e, t'.locate id = .ok e ↔ t.locate id = .ok e) (id : OperationId) :
    t'.locate id = t.locate id := by
  by_cases h : ∃ e, t.locate id = .ok e
  · obtain ⟨e, he⟩ := h
    rw [he, found, he]
  · have missing : ∀ e, t.locate id ≠ .ok e := fun e he => h ⟨e, he⟩
    have missing' : ∀ e, t'.locate id ≠ .ok e := fun e he => h ⟨e, (found id e).mp he⟩
    rw [locate_error missing, locate_error missing', world]

/-- The indexes of a consistent table are determined by its slots and owners. -/
theorem Indexed.reverts (h : t.Indexed fun _ => True) (h' : t'.Indexed fun _ => True)
    (world : t'.world = t.world) (max : t'.max = t.max)
    (found : ∀ id e, t'.locate id = .ok e ↔ t.locate id = .ok e)
    (entries : ∀ s, t'.entryAt s = t.entryAt s) (owners : ∀ s, t'.ownerAt s = t.ownerAt s)
    (counts : ∀ p : Option Entry → Bool, p none = false → t'.slots.countP p = t.slots.countP p)
    (spares : ∃ s, t.Spares t' s) : t.Reverts t' where
  world := world
  max := max
  locate := locate_congr world found
  entries := entries
  owners := owners
  live := by rw [h'.columns.live_eq, h.columns.live_eq, counts _ rfl]
  pending := by rw [h'.columns.pending_eq, h.columns.pending_eq, counts _ rfl]
  pendingOwners r := by
    rw [h'.indexes.pendingOwners, h.indexes.pendingOwners, counts _ rfl]
  ownerIndex r id := by
    rw [h'.indexes.ownerIndex.mem, h.indexes.ownerIndex.mem, owners]
    simp only [found]
  targetIndex r id := by
    rw [h'.indexes.targetIndex.mem, h.indexes.targetIndex.mem]
    simp only [found]
  deadlines key := by
    obtain ⟨d, s, g⟩ := key
    rw [h'.indexes.deadlines_mem, h.indexes.deadlines_mem, world]
    simp only [found]
  spares := spares

/-- What taking a slot does to the columns. -/
theorem takeSlot_columns (h : t.Columns) :
    (∀ i, t.takeSlot.2.entryAt i = t.entryAt i) ∧ (∀ i, t.takeSlot.2.ownerAt i = t.ownerAt i) ∧
      (∀ i, i ≠ t.takeSlot.1 → t.takeSlot.2.generationAt i = t.generationAt i) ∧
      t.generationAt t.takeSlot.1 ≤ t.takeSlot.2.generationAt t.takeSlot.1 ∧
      (∀ i, i ≠ t.takeSlot.1 → (i ∈ t.takeSlot.2.free ↔ i ∈ t.free)) ∧
      ∀ p : Option Entry → Bool, p none = false →
        t.takeSlot.2.slots.countP p = t.slots.countP p := by
  unfold takeSlot
  cases hfree : t.free with
  | cons s free =>
    refine ⟨fun _ => rfl, fun _ => rfl, fun _ _ => rfl, Nat.le_refl _, ?_, fun _ _ => rfl⟩
    intro i hi
    rw [List.mem_cons, or_iff_right hi]
  | nil =>
    have grown : ∀ {α : Type} (l : List (Option α)) (i : ℕ),
        ((l ++ [none])[i]?).join = (l[i]?).join := by
      intro α l i
      rcases lt_trichotomy i l.length with inside | rfl | beyond
      · rw [List.getElem?_append_left inside]
      · simp
      · rw [List.getElem?_eq_none (by simp; omega), List.getElem?_eq_none (by omega)]
    refine ⟨grown t.slots, grown t.owners, ?_, ?_, fun _ _ => by simp, ?_⟩
    · intro i hi
      have length := h.generations_length
      unfold generationAt
      rcases Nat.lt_or_ge i t.generations.length with inside | beyond
      · rw [List.getElem?_append_left inside]
      · have past : (t.generations ++ [1]).length ≤ i := by
          rw [List.length_append, List.length_singleton]
          dsimp only at hi
          omega
        rw [List.getElem?_eq_none past, List.getElem?_eq_none beyond]
    · have length := h.generations_length
      have beyond : t.generations.length ≤ t.slots.length := by omega
      unfold generationAt
      dsimp only
      rw [List.getElem?_eq_none beyond]
      exact Nat.zero_le _
    · intro p hp
      rw [List.countP_append, List.countP_singleton, hp]
      rfl

theorem retireGeneration_columns (t : OperationTable) (s : ℕ) :
    (t.retireGeneration s).slots = t.slots ∧ (t.retireGeneration s).owners = t.owners ∧
      (t.retireGeneration s).world = t.world ∧ (t.retireGeneration s).max = t.max ∧
      (∀ i, i ≠ s → (t.retireGeneration s).generationAt i = t.generationAt i) ∧
      t.generationAt s ≤ (t.retireGeneration s).generationAt s ∧
      (∀ i, i ≠ s → (i ∈ (t.retireGeneration s).free ↔ i ∈ t.free)) ∧
      (s ∈ (t.retireGeneration s).free ∨ u64Max ≤ (t.retireGeneration s).generationAt s) := by
  unfold retireGeneration
  split
  next below =>
    refine ⟨rfl, rfl, rfl, rfl, ?_, ?_, ?_, .inl List.mem_cons_self⟩
    · intro i hi
      unfold generationAt
      rw [List.getElem?_set_ne (Ne.symm hi)]
    · unfold generationAt
      rw [List.getElem?_set, if_pos rfl]
      split_ifs with inside
      · exact Nat.le_succ _
      · rw [List.getElem?_eq_none (Nat.not_lt.mp inside)]
    · intro i hi
      rw [List.mem_cons, or_iff_right hi]
  next spent =>
    exact ⟨rfl, rfl, rfl, rfl, fun _ _ => rfl, Nat.le_refl _, fun _ _ => Iff.rfl,
      .inr (Nat.not_lt.mp spent)⟩

/-- The slot that is taken has neither an entry nor an owner. -/
theorem takeSlot_vacant (h : t.Indexed fun _ => True)
    (room : t.free ≠ [] ∨ t.slots.length < t.max) :
    t.entryAt t.takeSlot.1 = none ∧ t.ownerAt t.takeSlot.1 = none := by
  obtain ⟨_, hempty, _, _⟩ := h.takeSlot room
  obtain ⟨entries, -⟩ := takeSlot_columns h.columns
  have vacant : t.entryAt t.takeSlot.1 = none := by
    rw [← entries]
    unfold entryAt
    rw [hempty]
    rfl
  have same := h.columns.owner_iff t.takeSlot.1
  rw [vacant] at same
  exact ⟨vacant, Option.not_isSome_iff_eq_none.mp (by rw [same]; decide)⟩

/-- Releasing the operation that was just reserved brings the table back. -/
theorem reverts_reserve (h : t.Indexed fun _ => True) {owner target : ActorRef} {deadline : Instant}
    (hok : (t.reserve owner target deadline).1 = .ok id) :
    t.Reverts ((t.reserve owner target deadline).2.releaseUnsubmitted id).2 := by
  have able : (owner.world = t.world ∧ target.world = t.world) ∧ t.live < t.max ∧
      (t.free ≠ [] ∨ t.slots.length < t.max) := by
    by_contra hno
    rw [reserve_error deadline hno] at hok
    cases hok
  obtain ⟨worlds, alive, room⟩ := able
  obtain ⟨id', hid', _, hindexed, hworld, hmax, fresh, hloc, _⟩ :=
    reserve_ok h deadline worlds room alive
  obtain rfl : id' = id := Except.ok.inj (hid'.symm.trans hok)
  have hp : (t.reserve owner target deadline).2.locate id' =
      .ok (.pending ⟨owner, target, deadline, none⟩) := (hloc id' _).mpr (by simp)
  obtain ⟨hindexed', hloc'⟩ := hindexed.release_pending hp
  obtain ⟨_, hempty, _, _⟩ := h.takeSlot room
  obtain ⟨entries, owners, generations, generation, free, counts⟩ := takeSlot_columns h.columns
  rw [releaseUnsubmitted_pending hp] at hindexed' hloc' ⊢
  have slot : id'.slot = t.takeSlot.1 := by
    rw [reserve_eq worlds room alive] at hid'
    rw [← Except.ok.inj hid']
    rfl
  obtain ⟨vacant, unowned⟩ := takeSlot_vacant h room
  generalize cleared : ({ (t.reserve owner target deadline).2 with
    slots := (t.reserve owner target deadline).2.slots.set id'.slot none
    owners := (t.reserve owner target deadline).2.owners.set id'.slot none
    pendingOwners := decrement (t.reserve owner target deadline).2.pendingOwners owner
    ownerIndex := (t.reserve owner target deadline).2.ownerIndex.drop owner id'
    targetIndex := (t.reserve owner target deadline).2.targetIndex.drop target id'
    deadlines :=
      (t.reserve owner target deadline).2.deadlines.erase (deadline, id'.slot, id'.generation)
    pending := (t.reserve owner target deadline).2.pending - 1
    live := (t.reserve owner target deadline).2.live - 1 } : OperationTable) = u at hindexed' hloc' ⊢
  have slots : u.slots = t.takeSlot.2.slots := by
    rw [← cleared, reserve_eq worlds room alive]
    change (t.takeSlot.2.slots.set t.takeSlot.1 _).set id'.slot none = _
    obtain ⟨inside, blank⟩ := List.getElem?_eq_some_iff.mp hempty
    rw [slot, List.set_set, ← blank, List.set_getElem_self]
  have ownersCleared : u.owners = t.takeSlot.2.owners.set t.takeSlot.1 none := by
    rw [← cleared, reserve_eq worlds room alive]
    change (t.takeSlot.2.owners.set t.takeSlot.1 _).set id'.slot none = _
    rw [slot, List.set_set]
  have generationsKept : u.generations = t.takeSlot.2.generations := by
    rw [← cleared, reserve_eq worlds room alive]
    rfl
  have freeKept : u.free = t.takeSlot.2.free := by
    rw [← cleared, reserve_eq worlds room alive]
    rfl
  obtain ⟨rslots, rowners, rworld, rmax, rgenerations, rgeneration, rfree, ragain⟩ :=
    retireGeneration_columns u t.takeSlot.1
  rw [slot] at hindexed' hloc' ⊢
  have world : u.world = t.world := by
    rw [← cleared]
    exact hworld
  have max : u.max = t.max := by
    rw [← cleared]
    exact hmax
  apply h.reverts hindexed'
  · rw [rworld, world]
  · rw [rmax, max]
  · intro i e
    rw [hloc', hloc]
    by_cases same : i = id'
    · subst same
      exact iff_of_false (fun both => both.1 rfl) (fresh e)
    · rw [if_neg same, and_iff_right same]
  · intro i
    rw [← entries]
    unfold entryAt
    rw [rslots, slots]
  · intro i
    unfold ownerAt
    rw [rowners, ownersCleared, List.getElem?_set]
    split_ifs with here inside
    · rw [← here]
      exact unowned.symm
    · rw [← here]
      exact unowned.symm
    · exact owners i
  · intro p hp
    rw [rslots, slots]
    exact counts p hp
  · refine ⟨t.takeSlot.1, vacant, ?_, ?_, ?_, fun _ => ragain⟩
    · intro i hi
      rw [rgenerations i hi]
      unfold generationAt
      rw [generationsKept]
      exact generations i hi
    · refine Nat.le_trans generation (Nat.le_trans ?_ rgeneration)
      unfold generationAt
      rw [generationsKept]
    · intro i hi
      rw [rfree i hi, freeKept]
      exact free i hi

end OperationTable
end Actorplane
