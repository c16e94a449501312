import Actorplane.Lib.Slots
import Actorplane.Model.Operations

/-!
# Exactness of the operation indexes

Every count and index kept beside the slots equals the value recomputed from
them. `Indexed keep` leaves out of the deadline set the operations whose deadline
does not satisfy `keep`: expiry empties the due part of the set before it
completes what was in it.
-/

namespace Actorplane

def slotPending : Option Entry → Bool
  | some (.pending _) => true
  | _ => false

def slotPendingFor (owner : ActorRef) : Option Entry → Bool
  | some (.pending p) => p.owner = owner
  | _ => false

@[simp] theorem slotPendingFor_pending (owner : ActorRef) (p : PendingOperation) :
    slotPendingFor owner (some (.pending p)) = decide (p.owner = owner) := rfl

@[simp] theorem slotPendingFor_terminal (owner : ActorRef) (o : TerminalOutcome) :
    slotPendingFor owner (some (.terminal o)) = false := rfl

@[simp] theorem slotPendingFor_none (owner : ActorRef) : slotPendingFor owner none = false := rfl

@[simp] theorem slotPending_pending (p : PendingOperation) :
    slotPending (some (.pending p)) = true := rfl

@[simp] theorem slotPending_terminal (o : TerminalOutcome) :
    slotPending (some (.terminal o)) = false := rfl

@[simp] theorem slotPending_none : slotPending none = false := rfl

/-- The entry of a counting map: absent when the count is zero. -/
def positive (n : ℕ) : Option ℕ := if n = 0 then none else some n

namespace OperationTable

def entryAt (t : OperationTable) (slot : ℕ) : Option Entry := (t.slots[slot]?).join

def ownerAt (t : OperationTable) (slot : ℕ) : Option ActorRef := (t.owners[slot]?).join

variable {t : OperationTable} {id : OperationId} {e : Entry} {p : PendingOperation}
  {o : TerminalOutcome}

theorem locate_ok_iff :
    t.locate id = .ok e ↔
      id.world = t.world ∧ t.generationAt id.slot = id.generation ∧ t.entryAt id.slot = some e := by
  unfold locate entryAt
  split_ifs with hw hg
  · simp [hw]
  · simp [hg]
  · rcases hs : t.slots[id.slot]? with - | - | x <;> simp_all

theorem locate_error (h : ∀ e, t.locate id ≠ .ok e) :
    t.locate id = .error (if id.world = t.world then .staleReference else .crossWorld) := by
  unfold locate at h ⊢
  split_ifs at h ⊢ <;> first | rfl | contradiction | skip
  rcases hs : t.slots[id.slot]? with - | - | x
  · rfl
  · rfl
  · simp [hs] at h

theorem locate_slot_lt (h : t.locate id = .ok e) : id.slot < t.slots.length := by
  obtain ⟨-, -, hs⟩ := locate_ok_iff.mp h
  by_contra hlt
  simp [entryAt, List.getElem?_eq_none (Nat.le_of_not_lt hlt)] at hs

theorem locate_getElem? (h : t.locate id = .ok e) : t.slots[id.slot]? = some (some e) := by
  obtain ⟨-, -, hs⟩ := locate_ok_iff.mp h
  unfold entryAt at hs
  rcases hs' : t.slots[id.slot]? with - | x
  · simp [hs'] at hs
  · simpa [hs'] using hs

/-- Two identities located in one slot are the same. -/
theorem locate_slot_inj {id' : OperationId} {e' : Entry} (h : t.locate id = .ok e)
    (h' : t.locate id' = .ok e') (hs : id.slot = id'.slot) : id = id' := by
  obtain ⟨hw, hg, -⟩ := locate_ok_iff.mp h
  obtain ⟨hw', hg', -⟩ := locate_ok_iff.mp h'
  cases id
  cases id'
  simp_all

/-- Rewriting the slot of a located identity changes what that identity locates. -/
theorem locate_of_set {t' : OperationTable} (h : t.locate id = .ok e) {x : Entry} (hw : t'.world = t.world)
    (hg : t'.generations = t.generations) (hs : t'.slots = t.slots.set id.slot (some x))
    (i : OperationId) (y : Entry) :
    t'.locate i = .ok y ↔ if i = id then x = y else t.locate i = .ok y := by
  have hlt := locate_slot_lt h
  obtain ⟨hiw, hig, -⟩ := locate_ok_iff.mp h
  rw [locate_ok_iff, locate_ok_iff]
  unfold generationAt entryAt at *
  rw [hw, hg, hs, List.getElem?_set]
  split_ifs with hslot heq heq
  · subst heq
    simp [hiw, hig]
  · have : ¬(i.world = t.world ∧ (t.generations[i.slot]?).getD 0 = i.generation) := by
      rintro ⟨hiw', hig'⟩
      apply heq
      cases i
      cases id
      simp_all
    tauto
  · subst heq
    contradiction
  · rfl

/-- Emptying the slot of a located identity, whatever its next generation. -/
theorem locate_of_clear {t' : OperationTable} (h : t.locate id = .ok e) (hw : t'.world = t.world)
    (hg : ∀ s, s ≠ id.slot → t'.generationAt s = t.generationAt s)
    (hs : t'.slots = t.slots.set id.slot none) (i : OperationId) (y : Entry) :
    t'.locate i = .ok y ↔ i ≠ id ∧ t.locate i = .ok y := by
  have hlt := locate_slot_lt h
  rw [locate_ok_iff, hw]
  unfold entryAt
  rw [hs, List.getElem?_set]
  by_cases hslot : id.slot = i.slot
  · simp only [hslot, if_true]
    constructor
    · rintro ⟨-, -, hn⟩
      split_ifs at hn <;> simp at hn
    · rintro ⟨hne, hi⟩
      exact absurd (locate_slot_inj h hi hslot).symm hne
  · have hne : i ≠ id := fun he => hslot (he ▸ rfl)
    rw [hg i.slot (Ne.symm hslot), locate_ok_iff]
    simp [hslot, hne, entryAt]

/-- The columns beside the slots, the free list and the two totals. -/
structure Columns (t : OperationTable) : Prop where
  generations_length : t.generations.length = t.slots.length
  owners_length : t.owners.length = t.slots.length
  slots_le : t.slots.length ≤ t.max
  free_nodup : t.free.Nodup
  free_mem : ∀ s ∈ t.free, t.slots[s]? = some none
  live_eq : t.live = t.slots.countP Option.isSome
  pending_eq : t.pending = t.slots.countP slotPending
  owner_iff : ∀ s, (t.ownerAt s).isSome = (t.entryAt s).isSome
  owner_pending : ∀ s p, t.entryAt s = some (.pending p) → t.ownerAt s = some p.owner

/-- The counting map, the two set-valued indexes and the deadline set. -/
structure Indexes (keep : Instant → Prop) (t : OperationTable) : Prop where
  pendingOwners : ∀ o, t.pendingOwners.lookup o = positive (t.slots.countP (slotPendingFor o))
  ownerIndex : t.ownerIndex.Exact fun o id =>
    (∃ e, t.locate id = .ok e) ∧ t.ownerAt id.slot = some o
  targetIndex : t.targetIndex.Exact fun x id => ∃ p, t.locate id = .ok (.pending p) ∧ p.target = x
  deadlines_nodup : t.deadlines.Nodup
  deadlines_mem : ∀ d s g, (d, s, g) ∈ t.deadlines ↔
    ∃ p, t.locate ⟨t.world, s, g⟩ = .ok (.pending p) ∧ p.deadline = d ∧ keep d

/-- The table's redundant columns and indexes are what its slots say. -/
structure Indexed (keep : Instant → Prop) (t : OperationTable) : Prop where
  columns : t.Columns
  indexes : t.Indexes keep

theorem indexed_new (world max : ℕ) : Indexed (fun _ => True) (.new world max) where
  columns :=
    { generations_length := rfl
      owners_length := rfl
      slots_le := Nat.zero_le _
      free_nodup := List.nodup_nil
      free_mem := by simp [new]
      live_eq := rfl
      pending_eq := rfl
      owner_iff := by simp [new, ownerAt, entryAt]
      owner_pending := by simp [new, entryAt] }
  indexes :=
    { pendingOwners := by simp [new, positive]
      ownerIndex := Index.exact_empty.congr (by simp [new, locate_ok_iff, entryAt])
      targetIndex := Index.exact_empty.congr (by simp [new, locate_ok_iff, entryAt])
      deadlines_nodup := List.nodup_nil
      deadlines_mem := by simp [new, locate_ok_iff, entryAt] }

/-! ## Columns -/

theorem entryAt_set {s : ℕ} {x : Option Entry} (hlt : s < t.slots.length) {t' : OperationTable}
    (hs : t'.slots = t.slots.set s x) (s' : ℕ) :
    t'.entryAt s' = if s' = s then x else t.entryAt s' := by
  unfold entryAt
  rw [hs, List.getElem?_set]
  by_cases hslot : s = s'
  · simp [hslot, hslot ▸ hlt]
  · simp [hslot, Ne.symm hslot]

theorem ownerAt_set {s : ℕ} {y : Option ActorRef} (hlt : s < t.owners.length)
    {t' : OperationTable} (hs : t'.owners = t.owners.set s y) (s' : ℕ) :
    t'.ownerAt s' = if s' = s then y else t.ownerAt s' := by
  unfold ownerAt
  rw [hs, List.getElem?_set]
  by_cases hslot : s = s'
  · simp [hslot, hslot ▸ hlt]
  · simp [hslot, Ne.symm hslot]

theorem Columns.not_free (h : t.Columns) (he : t.locate id = .ok e) : id.slot ∉ t.free := by
  intro hf
  have := locate_getElem? he
  simp [h.free_mem _ hf] at this

/-- Rewriting a slot outside the free list together with its owner. -/
theorem Columns.set (h : t.Columns) {s : ℕ} {b : Option Entry} (hs : t.slots[s]? = some b)
    (hn : s ∉ t.free) (x : Option Entry) (y : Option ActorRef) {t' : OperationTable}
    (hmax : t'.max = t.max) (hgen : t'.generations = t.generations) (hfree : t'.free = t.free)
    (hslots : t'.slots = t.slots.set s x) (hlen : t'.owners.length = t.owners.length)
    (howner : ∀ s', t'.ownerAt s' = if s' = s then y else t.ownerAt s')
    (hlive : t'.live + (if b.isSome then 1 else 0) = t.live + (if x.isSome then 1 else 0))
    (hpending : t'.pending + (if slotPending b then 1 else 0) =
      t.pending + (if slotPending x then 1 else 0))
    (hxy : y.isSome = x.isSome) (hxp : ∀ p, x = some (.pending p) → y = some p.owner) :
    t'.Columns := by
  have hlt : s < t.slots.length := (List.getElem?_eq_some_iff.mp hs).1
  constructor
  case generations_length => rw [hgen, hslots, List.length_set, h.generations_length]
  case owners_length => rw [hlen, hslots, List.length_set, h.owners_length]
  case slots_le =>
    rw [hslots, List.length_set, hmax]
    exact h.slots_le
  case free_nodup =>
    rw [hfree]
    exact h.free_nodup
  case free_mem =>
    intro i hi
    rw [hfree] at hi
    have hne : s ≠ i := fun he => hn (he ▸ hi)
    rw [hslots, List.getElem?_set_ne hne, h.free_mem i hi]
  case live_eq =>
    have hcount := countP_set_add Option.isSome x hs
    have := h.live_eq
    rw [hslots]
    omega
  case pending_eq =>
    have hcount := countP_set_add slotPending x hs
    have := h.pending_eq
    rw [hslots]
    omega
  case owner_iff =>
    intro i
    rw [howner, entryAt_set hlt hslots]
    split_ifs
    · exact hxy
    · exact h.owner_iff i
  case owner_pending =>
    intro i p hp
    rw [entryAt_set hlt hslots] at hp
    rw [howner]
    split_ifs at hp ⊢
    · exact hxp p hp
    · exact h.owner_pending i p hp

theorem Columns.owner_of_locate (h : t.Columns) (hp : t.locate id = .ok (.pending p)) :
    t.ownerAt id.slot = some p.owner :=
  h.owner_pending _ _ (locate_ok_iff.mp hp).2.2

theorem Columns.owner_isSome (h : t.Columns) (he : t.locate id = .ok e) :
    (t.ownerAt id.slot).isSome := by
  rw [h.owner_iff, (locate_ok_iff.mp he).2.2]
  rfl

theorem Columns.live_pos (h : t.Columns) (he : t.locate id = .ok e) : 0 < t.live := by
  rw [h.live_eq, List.countP_pos_iff]
  exact ⟨_, List.mem_of_getElem? (locate_getElem? he), rfl⟩

theorem Columns.pending_pos (h : t.Columns) (hp : t.locate id = .ok (.pending p)) :
    0 < t.pending := by
  rw [h.pending_eq, List.countP_pos_iff]
  exact ⟨_, List.mem_of_getElem? (locate_getElem? hp), rfl⟩

/-! ## The counting map -/

/-- The map of pending counts after one operation of `o` has ended. -/
def decrement (m : Assoc ActorRef ℕ) (o : ActorRef) : Assoc ActorRef ℕ :=
  match m.lookup o with
  | none => m
  | some count => if count - 1 = 0 then m.erase o else AList.insert o (count - 1) m

theorem removePendingOwner_eq (t : OperationTable) (o : ActorRef) :
    t.removePendingOwner o = { t with pendingOwners := decrement t.pendingOwners o } := by
  unfold decrement removePendingOwner
  cases t.pendingOwners.lookup o with
  | none => rfl
  | some n => dsimp only; split <;> rfl

theorem decrement_lookup {m : Assoc ActorRef ℕ} {n : ℕ} {o : ActorRef}
    (h : m.lookup o = positive (n + 1)) (o' : ActorRef) :
    (decrement m o).lookup o' = if o' = o then positive n else m.lookup o' := by
  have h : m.lookup o = some (n + 1) := h
  unfold decrement
  rw [h]
  by_cases hn : n = 0 <;> by_cases ho : o' = o <;> simp [hn, ho, positive]

/-- One pending operation of `p.owner` fewer, when its slot stops being pending. -/
theorem decrement_pendingOwners
    (h : ∀ o, t.pendingOwners.lookup o = positive (t.slots.countP (slotPendingFor o)))
    (hp : t.locate id = .ok (.pending p)) {x : Option Entry}
    (hx : ∀ o, slotPendingFor o x = false) (o : ActorRef) :
    (decrement t.pendingOwners p.owner).lookup o =
      positive ((t.slots.set id.slot x).countP (slotPendingFor o)) := by
  have hcount := fun o => countP_set_add (slotPendingFor o) x (locate_getElem? hp)
  simp only [hx, Bool.false_eq_true, if_false, add_zero, slotPendingFor_pending,
    decide_eq_true_eq] at hcount
  have hown := hcount p.owner
  rw [if_pos rfl] at hown
  rw [decrement_lookup (by rw [h, ← hown])]
  split_ifs with ho
  · rw [ho]
  · have hother := hcount o
    rw [if_neg (Ne.symm ho), add_zero] at hother
    rw [h, hother]

/-! ## Completion -/

theorem complete_pending (hf : t.foreign o = false) (hp : t.locate id = .ok (.pending p)) :
    t.complete id o = (.ok true,
      { t with
        targetIndex := t.targetIndex.drop p.target id
        pendingOwners := decrement t.pendingOwners p.owner
        deadlines := t.deadlines.erase (p.deadline, id.slot, id.generation)
        pending := t.pending - 1
        slots := t.slots.set id.slot (some (.terminal o.normalized)) }) := by
  simp only [complete, hf, hp, removePendingOwner_eq, removeTargetIndex, removeDeadline,
    Bool.false_eq_true, if_false]

theorem complete_locate (hf : t.foreign o = false) (hp : t.locate id = .ok (.pending p))
    (i : OperationId) (y : Entry) :
    (t.complete id o).2.locate i = .ok y ↔
      if i = id then .terminal o.normalized = y else t.locate i = .ok y := by
  rw [complete_pending hf hp]
  exact locate_of_set hp (by rfl) (by rfl) (by rfl) i y

/-- Dropping the key of one identity from a deadline set. -/
theorem mem_deadlines_erase {keep : Instant → Prop} (h : t.Indexes keep)
    (hp : t.locate id = .ok (.pending p)) (d : Instant) (s g : ℕ) :
    (d, s, g) ∈ t.deadlines.erase (p.deadline, id.slot, id.generation) ↔
      (⟨t.world, s, g⟩ : OperationId) ≠ id ∧
        ∃ q, t.locate ⟨t.world, s, g⟩ = .ok (.pending q) ∧ q.deadline = d ∧ keep d := by
  rw [h.deadlines_nodup.mem_erase_iff, h.deadlines_mem]
  obtain ⟨hw, -, -⟩ := locate_ok_iff.mp hp
  by_cases hi : (⟨t.world, s, g⟩ : OperationId) = id
  · subst hi
    simp only [hp, Except.ok.injEq, Entry.pending.injEq, exists_eq_left', ne_eq,
      not_true_eq_false, false_and, iff_false, not_and]
    rintro hne rfl
    simp at hne
  · have hne : (d, s, g) ≠ (p.deadline, id.slot, id.generation) := by
      rintro he
      apply hi
      cases id
      simp_all
    simp [hi, hne]

/-- Completing a pending operation keeps the indexes exact. -/
theorem Indexed.complete_pending {keep : Instant → Prop} (h : t.Indexed keep)
    (hf : t.foreign o = false) (hp : t.locate id = .ok (.pending p)) :
    (t.complete id o).2.Indexed keep := by
  have hloc := complete_locate hf hp
  rw [OperationTable.complete_pending hf hp] at hloc ⊢
  have hlive := h.columns.live_pos hp
  have hpending := h.columns.pending_pos hp
  have howner := h.columns.owner_of_locate hp
  refine ⟨h.columns.set (locate_getElem? hp) (h.columns.not_free hp)
    (some (.terminal o.normalized)) (some p.owner) rfl rfl rfl rfl rfl ?_ (by simp)
    (by simp; omega) rfl (by simp), ?_⟩
  · intro s
    split_ifs with hs
    · rw [hs]
      exact howner
    · rfl
  constructor
  case pendingOwners => exact decrement_pendingOwners h.indexes.pendingOwners hp (by simp)
  case ownerIndex =>
    refine h.indexes.ownerIndex.congr fun k i => and_congr_left fun _ => ?_
    simp only [hloc]
    split_ifs with hi
    · subst hi
      simp [hp]
    · rfl
  case targetIndex =>
    refine (h.indexes.targetIndex.drop p.target id).congr fun k i => ?_
    simp only [hloc]
    by_cases hi : i = id
    · subst hi
      simp [hp]
      tauto
    · simp [hi]
  case deadlines_nodup => exact h.indexes.deadlines_nodup.erase _
  case deadlines_mem =>
    intro d s g
    rw [mem_deadlines_erase h.indexes hp]
    simp only [hloc]
    by_cases hi : (⟨t.world, s, g⟩ : OperationId) = id <;> simp [hi]

/-! ## Retirement of a slot -/

/-- Emptying the slot of a located identity. -/
theorem Columns.clear (h : t.Columns) (he : t.locate id = .ok e) {t' : OperationTable}
    (hmax : t'.max = t.max) (hgen : t'.generations = t.generations) (hfree : t'.free = t.free)
    (hslots : t'.slots = t.slots.set id.slot none)
    (howners : t'.owners = t.owners.set id.slot none) (hlive : t'.live = t.live - 1)
    (hpending : t'.pending + (if slotPending (some e) then 1 else 0) = t.pending) :
    t'.Columns := by
  have hlt := locate_slot_lt he
  have := h.live_pos he
  refine h.set (locate_getElem? he) (h.not_free he) none none hmax hgen hfree hslots (by simp [howners])
    (ownerAt_set (by rwa [h.owners_length]) howners) ?_ (by simpa using hpending) rfl (by simp)
  simp only [hlive, Option.isSome_some, Option.isSome_none, Bool.false_eq_true, if_true,
    if_false, add_zero]
  omega

theorem retireGeneration_slots (s : ℕ) : (t.retireGeneration s).slots = t.slots := by
  unfold retireGeneration
  split_ifs <;> rfl

/-- The generation of an empty slot may change, and the slot may become free. -/
theorem retireGeneration_locate {s : ℕ} (hs : t.slots[s]? = some none) (i : OperationId)
    (y : Entry) : (t.retireGeneration s).locate i = .ok y ↔ t.locate i = .ok y := by
  by_cases hi : i.slot = s
  · have hn : ∀ t' : OperationTable, t'.slots = t.slots → t'.locate i ≠ .ok y := by
      intro t' ht' hl
      simp [locate_ok_iff, entryAt, ht', hi, hs] at hl
    exact iff_of_false (hn _ (retireGeneration_slots s)) (hn t rfl)
  · rw [locate_ok_iff, locate_ok_iff]
    unfold retireGeneration
    split_ifs
    · simp [generationAt, entryAt, Ne.symm hi]
    · rfl

theorem Indexed.retireGeneration {keep : Instant → Prop} (h : t.Indexed keep) {s : ℕ}
    (hs : t.slots[s]? = some none) (hfree : s ∉ t.free) :
    (t.retireGeneration s).Indexed keep := by
  have hloc := retireGeneration_locate hs
  unfold OperationTable.retireGeneration at hloc ⊢
  split_ifs at hloc ⊢
  · refine ⟨?_, ?_⟩
    · exact { h.columns with
        generations_length := by simpa using h.columns.generations_length
        free_nodup := List.nodup_cons.mpr ⟨hfree, h.columns.free_nodup⟩
        free_mem := by
          intro i hi
          rcases List.mem_cons.mp hi with rfl | hi
          · exact hs
          · exact h.columns.free_mem i hi }
    · exact {
        pendingOwners := h.indexes.pendingOwners
        ownerIndex := h.indexes.ownerIndex.congr fun k i =>
          and_congr_left fun _ => exists_congr fun y => (hloc i y).symm
        targetIndex := h.indexes.targetIndex.congr fun k i =>
          exists_congr fun q => and_congr_left fun _ => (hloc i _).symm
        deadlines_nodup := h.indexes.deadlines_nodup
        deadlines_mem := fun d s g => (h.indexes.deadlines_mem d s g).trans
          (exists_congr fun q => and_congr_left fun _ => (hloc _ _).symm) }
  · exact h

/-! ## Taking a terminal outcome -/

theorem take_terminal (h : t.Columns) {x : TerminalOutcome} (hx : t.locate id = .ok (.terminal x)) :
    ∃ owner, t.ownerAt id.slot = some owner ∧
      t.take id = (.ok (some x),
        { t with
          slots := t.slots.set id.slot none
          owners := t.owners.set id.slot none
          ownerIndex := t.ownerIndex.drop owner id
          live := t.live - 1 }.retireGeneration id.slot) := by
  obtain ⟨owner, ho⟩ := Option.isSome_iff_exists.mp (h.owner_isSome hx)
  refine ⟨owner, ho, ?_⟩
  unfold ownerAt at ho
  simp [take, hx, removeOwnerIndex, ho]

/-- The owner index after the slot of one identity has been emptied. -/
theorem Indexes.ownerIndex_clear {keep : Instant → Prop} (h : t.Indexes keep)
    (he : t.locate id = .ok e) {owner : ActorRef} (ho : t.ownerAt id.slot = some owner)
    {t' : OperationTable} (hloc : ∀ i y, t'.locate i = .ok y ↔ i ≠ id ∧ t.locate i = .ok y)
    (howner : ∀ s, s ≠ id.slot → t'.ownerAt s = t.ownerAt s) :
    (t.ownerIndex.drop owner id).Exact fun o i =>
      (∃ y, t'.locate i = .ok y) ∧ t'.ownerAt i.slot = some o := by
  refine (h.ownerIndex.drop owner id).congr fun k i => ?_
  simp only [hloc]
  constructor
  · rintro ⟨⟨⟨y, hy⟩, hk⟩, hne⟩
    have hi : i ≠ id := by
      rintro rfl
      rw [ho] at hk
      exact hne ⟨(Option.some_inj.mp hk).symm, rfl⟩
    refine ⟨⟨y, hi, hy⟩, ?_⟩
    rw [howner i.slot fun hs => hi (locate_slot_inj hy he hs)]
    exact hk
  · rintro ⟨⟨y, hi, hy⟩, hk⟩
    rw [howner i.slot fun hs => hi (locate_slot_inj hy he hs)] at hk
    exact ⟨⟨⟨y, hy⟩, hk⟩, fun hki => hi hki.2⟩

theorem slots_clear (he : t.locate id = .ok e) :
    (t.slots.set id.slot none)[id.slot]? = some none := by
  simp [locate_slot_lt he]

theorem ownerAt_clear (owners : List (Option ActorRef)) (s s' : ℕ) (hs : s' ≠ s) :
    ((owners.set s none)[s']?).join = (owners[s']?).join := by
  simp [List.getElem?_set_ne (Ne.symm hs)]

theorem Indexed.take_terminal {keep : Instant → Prop} (h : t.Indexed keep) {x : TerminalOutcome}
    (hx : t.locate id = .ok (.terminal x)) :
    (t.take id).2.Indexed keep ∧
      ∀ i y, (t.take id).2.locate i = .ok y ↔ i ≠ id ∧ t.locate i = .ok y := by
  obtain ⟨owner, ho, heq⟩ := OperationTable.take_terminal h.columns hx
  have hempty := slots_clear hx
  have hfree := h.columns.not_free hx
  rw [heq]
  generalize ht : ({ t with
    slots := t.slots.set id.slot none
    owners := t.owners.set id.slot none
    ownerIndex := t.ownerIndex.drop owner id
    live := t.live - 1 } : OperationTable) = t'
  have hloc : ∀ i y, t'.locate i = .ok y ↔ i ≠ id ∧ t.locate i = .ok y := by
    subst ht
    exact locate_of_clear hx rfl (fun _ _ => rfl) rfl
  have hcol : t'.Columns := by
    subst ht
    exact h.columns.clear hx rfl rfl rfl rfl rfl rfl rfl
  have hpend : ∀ i q, t'.locate i = .ok (.pending q) ↔ t.locate i = .ok (.pending q) := by
    intro i q
    rw [hloc]
    refine ⟨And.right, fun hq => ⟨?_, hq⟩⟩
    rintro rfl
    simp [hx] at hq
  have hidx : t'.Indexes keep := by
    have howner := h.indexes.ownerIndex_clear hx ho hloc
    subst ht
    constructor
    case pendingOwners =>
      intro o
      have hcount := countP_set_add (slotPendingFor o) none (locate_getElem? hx)
      simp only [slotPendingFor_terminal, slotPendingFor_none, Bool.false_eq_true, if_false,
        add_zero] at hcount
      rw [hcount]
      exact h.indexes.pendingOwners o
    case ownerIndex => exact howner (ownerAt_clear t.owners id.slot)
    case targetIndex =>
      refine h.indexes.targetIndex.congr fun k i => ?_
      simp only [hpend]
    case deadlines_nodup => exact h.indexes.deadlines_nodup
    case deadlines_mem =>
      intro d s g
      simp only [hpend]
      exact h.indexes.deadlines_mem d s g
  have hs : t'.slots[id.slot]? = some none := by
    subst ht
    exact hempty
  have hf : id.slot ∉ t'.free := by
    subst ht
    exact hfree
  exact ⟨Indexed.retireGeneration ⟨hcol, hidx⟩ hs hf, fun i y =>
    (retireGeneration_locate hs i y).trans (hloc i y)⟩

/-! ## Releasing an unsubmitted operation -/

theorem releaseUnsubmitted_pending (hp : t.locate id = .ok (.pending p)) :
    t.releaseUnsubmitted id = (.ok true,
      { t with
        slots := t.slots.set id.slot none
        owners := t.owners.set id.slot none
        pendingOwners := decrement t.pendingOwners p.owner
        ownerIndex := t.ownerIndex.drop p.owner id
        targetIndex := t.targetIndex.drop p.target id
        deadlines := t.deadlines.erase (p.deadline, id.slot, id.generation)
        pending := t.pending - 1
        live := t.live - 1 }.retireGeneration id.slot) := by
  simp [releaseUnsubmitted, hp, removeIndex, removePendingOwner_eq, removeTargetIndex,
    removeDeadline]

theorem Indexed.release_pending {keep : Instant → Prop} (h : t.Indexed keep)
    (hp : t.locate id = .ok (.pending p)) :
    (t.releaseUnsubmitted id).2.Indexed keep ∧
      ∀ i y, (t.releaseUnsubmitted id).2.locate i = .ok y ↔ i ≠ id ∧ t.locate i = .ok y := by
  have hempty := slots_clear hp
  have hfree := h.columns.not_free hp
  rw [releaseUnsubmitted_pending hp]
  generalize ht : ({ t with
    slots := t.slots.set id.slot none
    owners := t.owners.set id.slot none
    pendingOwners := decrement t.pendingOwners p.owner
    ownerIndex := t.ownerIndex.drop p.owner id
    targetIndex := t.targetIndex.drop p.target id
    deadlines := t.deadlines.erase (p.deadline, id.slot, id.generation)
    pending := t.pending - 1
    live := t.live - 1 } : OperationTable) = t'
  have hloc : ∀ i y, t'.locate i = .ok y ↔ i ≠ id ∧ t.locate i = .ok y := by
    subst ht
    exact locate_of_clear hp rfl (fun _ _ => rfl) rfl
  have hcol : t'.Columns := by
    have := h.columns.pending_pos hp
    subst ht
    exact h.columns.clear hp rfl rfl rfl rfl rfl rfl (by simp; omega)
  have hidx : t'.Indexes keep := by
    have howner := h.indexes.ownerIndex_clear hp (h.columns.owner_of_locate hp) hloc
    subst ht
    constructor
    case pendingOwners => exact decrement_pendingOwners h.indexes.pendingOwners hp (by simp)
    case ownerIndex => exact howner (ownerAt_clear t.owners id.slot)
    case targetIndex =>
      refine (h.indexes.targetIndex.drop p.target id).congr fun k i => ?_
      simp only [hloc]
      by_cases hi : i = id
      · subst hi
        simp [hp]
        tauto
      · simp [hi]
    case deadlines_nodup => exact h.indexes.deadlines_nodup.erase _
    case deadlines_mem =>
      intro d s g
      rw [mem_deadlines_erase h.indexes hp]
      simp only [hloc]
      by_cases hi : (⟨t.world, s, g⟩ : OperationId) = id <;> simp [hi]
  have hs : t'.slots[id.slot]? = some none := by
    subst ht
    exact hempty
  have hf : id.slot ∉ t'.free := by
    subst ht
    exact hfree
  exact ⟨Indexed.retireGeneration ⟨hcol, hidx⟩ hs hf, fun i y =>
    (retireGeneration_locate hs i y).trans (hloc i y)⟩

/-! ## Setting a context -/

theorem setContext_pending {context : HeldPayload} (hw : context.world = t.world)
    (hp : t.locate id = .ok (.pending p)) (hc : p.context = none) :
    t.setContext id context = (.ok (),
      { t with
        slots := t.slots.set id.slot (some (.pending { p with context := some context })) }) := by
  simp [setContext, hw, hp, hc]

/-- A context changes neither owner, target nor deadline of a pending operation. -/
theorem Indexed.setContext_pending {keep : Instant → Prop} (h : t.Indexed keep)
    {context : HeldPayload} (hw : context.world = t.world) (hp : t.locate id = .ok (.pending p))
    (hc : p.context = none) :
    (t.setContext id context).2.Indexed keep ∧
      ∀ i y, (t.setContext id context).2.locate i = .ok y ↔
        if i = id then .pending { p with context := some context } = y else t.locate i = .ok y := by
  rw [OperationTable.setContext_pending hw hp hc]
  generalize ht : ({ t with
    slots := t.slots.set id.slot (some (.pending { p with context := some context })) } :
      OperationTable) = t'
  have hslots : t'.slots = t.slots.set id.slot
      (some (.pending { p with context := some context })) := by
    subst ht
    rfl
  have hloc : ∀ i y, t'.locate i = .ok y ↔
      if i = id then .pending { p with context := some context } = y else t.locate i = .ok y := by
    subst ht
    exact locate_of_set hp rfl rfl rfl
  have hpend : ∀ i (P : PendingOperation → Prop),
      (P { p with context := some context } ↔ P p) →
      ((∃ q, t.locate i = .ok (.pending q) ∧ P q) ↔
        ∃ q, t'.locate i = .ok (.pending q) ∧ P q) := by
    intro i P hP
    simp only [hloc]
    by_cases hi : i = id
    · subst hi
      simp [hp, hP]
    · simp [hi]
  refine ⟨⟨?_, ?_⟩, hloc⟩
  · have howner := h.columns.owner_of_locate hp
    subst ht
    refine h.columns.set (locate_getElem? hp) (h.columns.not_free hp) _ (some p.owner) rfl rfl rfl
      rfl rfl ?_ (by simp) (by simp) rfl (by simp)
    intro s
    split_ifs with hs
    · rw [hs]
      exact howner
    · rfl
  · have hworld : t'.world = t.world := by
      subst ht
      rfl
    have hcount : ∀ o, t'.slots.countP (slotPendingFor o) = t.slots.countP (slotPendingFor o) := by
      intro o
      have := countP_set_add (slotPendingFor o)
        (some (.pending { p with context := some context })) (locate_getElem? hp)
      rw [hslots]
      simpa using this
    have hlive : ∀ i, (∃ y, t.locate i = .ok y) ↔ ∃ y, t'.locate i = .ok y := by
      intro i
      simp only [hloc]
      split_ifs with hi
      · subst hi
        simp [hp]
      · rfl
    have howner : t'.owners = t.owners ∧ t'.ownerIndex = t.ownerIndex ∧
        t'.targetIndex = t.targetIndex ∧ t'.deadlines = t.deadlines ∧
        t'.pendingOwners = t.pendingOwners := by
      subst ht
      exact ⟨rfl, rfl, rfl, rfl, rfl⟩
    obtain ⟨ho, hoi, hti, hd, hpo⟩ := howner
    constructor
    case pendingOwners => simpa only [hpo, hcount] using h.indexes.pendingOwners
    case ownerIndex =>
      rw [hoi]
      refine h.indexes.ownerIndex.congr fun k i => and_congr (hlive i) ?_
      rw [ownerAt, ownerAt, ho]
    case targetIndex =>
      rw [hti]
      exact h.indexes.targetIndex.congr fun k i => hpend i (fun q => q.target = k) Iff.rfl
    case deadlines_nodup =>
      rw [hd]
      exact h.indexes.deadlines_nodup
    case deadlines_mem =>
      intro d s g
      rw [hd, hworld, h.indexes.deadlines_mem]
      exact hpend _ (fun q => q.deadline = d ∧ keep d) Iff.rfl

/-! ## Reservation -/

/-- Taking a slot keeps every located identity and hands out an empty one. -/
theorem Indexed.takeSlot {keep : Instant → Prop} (h : t.Indexed keep)
    (hroom : t.free ≠ [] ∨ t.slots.length < t.max) :
    t.takeSlot.2.Indexed keep ∧ t.takeSlot.2.slots[t.takeSlot.1]? = some none ∧
      t.takeSlot.1 ∉ t.takeSlot.2.free ∧
      ∀ i y, t.takeSlot.2.locate i = .ok y ↔ t.locate i = .ok y := by
  unfold OperationTable.takeSlot
  cases hfree : t.free with
  | cons s free =>
    have hnodup := h.columns.free_nodup
    have hmem := h.columns.free_mem
    rw [hfree] at hnodup hmem
    refine ⟨⟨{ h.columns with
        free_nodup := hnodup.of_cons
        free_mem := fun i hi => hmem i (by simp [hi]) }, { h.indexes with }⟩,
      hmem s (by simp), (List.nodup_cons.mp hnodup).1, fun _ _ => Iff.rfl⟩
  | nil =>
    dsimp only
    have hgen := h.columns.generations_length
    have hown := h.columns.owners_length
    generalize ht : ({ t with
      slots := t.slots ++ [none]
      generations := t.generations ++ [1]
      owners := t.owners ++ [none]
      free := [] } : OperationTable) = t'
    have hent : ∀ s, t'.entryAt s = t.entryAt s := by
      intro s
      subst ht
      simp only [entryAt, List.getElem?_append]
      split_ifs with hs
      · rfl
      · rcases hk : s - t.slots.length with - | k <;>
          simp [List.getElem?_eq_none (Nat.le_of_not_lt hs)]
    have howner : ∀ s, t'.ownerAt s = t.ownerAt s := by
      intro s
      subst ht
      simp only [ownerAt, List.getElem?_append]
      split_ifs with hs
      · rfl
      · rcases hk : s - t.owners.length with - | k <;>
          simp [List.getElem?_eq_none (Nat.le_of_not_lt hs)]
    have hloc : ∀ i y, t'.locate i = .ok y ↔ t.locate i = .ok y := by
      intro i y
      rw [locate_ok_iff, locate_ok_iff, hent]
      refine ⟨fun ⟨hw, hg, he⟩ => ⟨?_, ?_, he⟩, fun ⟨hw, hg, he⟩ => ⟨?_, ?_, he⟩⟩
      all_goals
        have hlt : i.slot < t.generations.length := by
          rw [hgen]
          by_contra hlt
          simp [entryAt, List.getElem?_eq_none (Nat.le_of_not_lt hlt)] at he
        subst ht
      · exact hw
      · simpa [generationAt, List.getElem?_append_left hlt] using hg
      · exact hw
      · simpa [generationAt, List.getElem?_append_left hlt] using hg
    have hroom : t.slots.length < t.max := by simpa [hfree] using hroom
    have hcol : t'.Columns := by
      subst ht
      exact {
        generations_length := by simpa using hgen
        owners_length := by simpa using hown
        slots_le := by simpa using hroom
        free_nodup := List.nodup_nil
        free_mem := by simp
        live_eq := by simpa using h.columns.live_eq
        pending_eq := by simpa using h.columns.pending_eq
        owner_iff := fun s => by rw [howner, hent, h.columns.owner_iff]
        owner_pending := fun s p hp => by
          rw [hent] at hp
          rw [howner, h.columns.owner_pending s p hp] }
    have hidx : t'.Indexes keep := by
      subst ht
      exact {
        pendingOwners := by simpa using h.indexes.pendingOwners
        ownerIndex := h.indexes.ownerIndex.congr fun k i => by simp only [hloc, howner]
        targetIndex := h.indexes.targetIndex.congr fun k i => by simp only [hloc]
        deadlines_nodup := h.indexes.deadlines_nodup
        deadlines_mem := fun d s g => by
          simp only [hloc]
          exact h.indexes.deadlines_mem d s g }
    refine ⟨⟨hcol, hidx⟩, ?_, ?_, hloc⟩
    all_goals
      subst ht
      simp

/-- A pending entry is found under its identity, and everything else where it was. -/
theorem locate_place {p : PendingOperation} {t' : OperationTable}
    (hs : t.slots[id.slot]? = some none) (hw : t.world = id.world)
    (hg : t.generationAt id.slot = id.generation)
    (hslots : t'.slots = t.slots.set id.slot (some (.pending p))) (hworld : t'.world = t.world)
    (hgens : t'.generations = t.generations) (i : OperationId) (y : Entry) :
    t'.locate i = .ok y ↔ if i = id then .pending p = y else t.locate i = .ok y := by
  have hlt : id.slot < t.slots.length := (List.getElem?_eq_some_iff.mp hs).1
  rw [locate_ok_iff, entryAt_set hlt hslots, hworld]
  unfold generationAt at hg ⊢
  rw [hgens]
  by_cases hi : i = id
  · subst hi
    simp [hw, hg]
  · rw [if_neg hi]
    by_cases hsi : i.slot = id.slot
    · refine iff_of_false ?_ fun hy => ?_
      · rintro ⟨hw', hg', -⟩
        apply hi
        cases i
        cases id
        simp_all
      · simp [← hsi, locate_getElem? hy] at hs
    · rw [if_neg hsi, locate_ok_iff]
      rfl

/-- A reservation fills an empty slot with a pending operation. -/
theorem Indexed.place {keep : Instant → Prop} (h : t.Indexed keep) {s : ℕ}
    (hs : t.slots[s]? = some none) (hn : s ∉ t.free) (p : PendingOperation)
    (hkeep : keep p.deadline) {t' : OperationTable} (hid : t.id s = id)
    (ht : t' = { { t with slots := t.slots.set s (some (.pending p)) }.indexPending id p with
      live := t.live + 1
      pending := t.pending + 1 }) :
    t'.Indexed keep ∧ ∀ i y, t'.locate i = .ok y ↔
      if i = id then .pending p = y else t.locate i = .ok y := by
  obtain ⟨hiw, rfl, hig⟩ : t.world = id.world ∧ s = id.slot ∧ t.generationAt s = id.generation := by
    rw [← hid]
    exact ⟨rfl, rfl, rfl⟩
  have hlto : id.slot < t.owners.length := by
    rw [h.columns.owners_length]
    exact (List.getElem?_eq_some_iff.mp hs).1
  have hfresh : ∀ i y, t.locate i = .ok y → i.slot ≠ id.slot := by
    intro i y hi hslot
    simp [← hslot, locate_getElem? hi] at hs
  have hnone : ∀ y, t.locate id ≠ .ok y := fun y hy => hfresh id y hy rfl
  have hslots : t'.slots = t.slots.set id.slot (some (.pending p)) := by rw [ht]; rfl
  have hworld : t'.world = t.world := by rw [ht]; rfl
  have hgens : t'.generations = t.generations := by rw [ht]; rfl
  have howner : ∀ s', t'.ownerAt s' = if s' = id.slot then some p.owner else t.ownerAt s' :=
    ownerAt_set hlto (by rw [ht]; rfl)
  have hloc : ∀ i y, t'.locate i = .ok y ↔
      if i = id then .pending p = y else t.locate i = .ok y :=
    locate_place hs hiw hig hslots hworld hgens
  have hcount : ∀ o, t'.slots.countP (slotPendingFor o) =
      t.slots.countP (slotPendingFor o) + if p.owner = o then 1 else 0 := by
    intro o
    have := countP_set_add (slotPendingFor o) (some (.pending p)) hs
    rw [hslots]
    simpa using this
  refine ⟨⟨?_, ?_⟩, hloc⟩
  · refine h.columns.set hs hn (some (.pending p)) (some p.owner) ?_ hgens ?_ hslots ?_ howner
      ?_ ?_ rfl (by simp)
    all_goals simp [ht, indexPending]
  · have hidx : t'.ownerIndex = t.ownerIndex.add p.owner id ∧
        t'.targetIndex = t.targetIndex.add p.target id ∧
        t'.deadlines = (p.deadline, id.slot, id.generation) :: t.deadlines ∧
        t'.pendingOwners =
          AList.insert p.owner ((t.pendingOwners.lookup p.owner).getD 0 + 1) t.pendingOwners := by
      rw [ht]
      exact ⟨rfl, rfl, rfl, rfl⟩
    obtain ⟨hoi, hti, hd, hpo⟩ := hidx
    constructor
    case pendingOwners =>
      intro o
      rw [hcount, hpo, Assoc.lookup_insert_ite, h.indexes.pendingOwners, h.indexes.pendingOwners]
      by_cases ho : o = p.owner
      · subst ho
        rcases t.slots.countP (slotPendingFor p.owner) with - | n <;> simp [positive]
      · simp [ho, Ne.symm ho]
    case ownerIndex =>
      rw [hoi]
      refine (h.indexes.ownerIndex.add p.owner id).congr fun k i => ?_
      simp only [hloc, howner]
      by_cases hi : i = id
      · subst hi
        simp [hnone, eq_comm]
      · simp only [hi, and_false, false_or, if_false]
        refine and_congr_right fun ⟨y, hy⟩ => ?_
        rw [if_neg (hfresh i y hy)]
    case targetIndex =>
      rw [hti]
      refine (h.indexes.targetIndex.add p.target id).congr fun k i => ?_
      simp only [hloc]
      by_cases hi : i = id
      · subst hi
        simp [hnone, eq_comm]
      · simp [hi]
    case deadlines_nodup =>
      rw [hd]
      refine List.nodup_cons.mpr ⟨fun hmem => ?_, h.indexes.deadlines_nodup⟩
      obtain ⟨q, hq, -⟩ := (h.indexes.deadlines_mem _ _ _).mp hmem
      exact hfresh _ _ hq rfl
    case deadlines_mem =>
      intro d s g
      rw [hd, hworld, List.mem_cons, h.indexes.deadlines_mem]
      simp only [hloc]
      by_cases hi : (⟨t.world, s, g⟩ : OperationId) = id
      · subst hi
        simp only [hnone, if_true, Prod.mk.injEq, and_true, false_and, exists_false, or_false,
          Entry.pending.injEq, exists_eq_left']
        exact ⟨fun hdp => ⟨hdp.symm, hdp ▸ hkeep⟩, fun hdp => hdp.1.symm⟩
      · have hne : (d, s, g) ≠ (p.deadline, id.slot, id.generation) := by
          rintro he
          apply hi
          cases id
          simp_all
        simp [hi, hne]

end OperationTable

end Actorplane
