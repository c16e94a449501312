import Actorplane.Operations.Retirement

/-!
# Slots that can be used again

A vacant slot is on the free list until it has used its last generation, and a slot
off the list has used the generation it is at.
-/

namespace Actorplane

namespace OperationTable

variable {t t' t'' : OperationTable} {id : OperationId}

/-- A vacant slot can be used again as long as its generation can move on. -/
structure Steady (t : OperationTable) : Prop where
  bounded : ∀ s, t.generationAt s ≤ u64Max
  vacant : ∀ s, t.slots[s]? = some none → s ∈ t.free ∨ t.generationAt s = u64Max

theorem steady_new (world max : ℕ) : Steady (.new world max) := by
  refine ⟨fun s => ?_, fun s hs => ?_⟩
  · simp [new, generationAt]
  · simp [new] at hs

/-- Slots leave the free list only for a reservation. -/
structure Reuses (t t' : OperationTable) : Prop where
  length : t'.slots.length = t.slots.length
  kept : ∀ s, s ∉ t'.free → s ∉ t.free ∧ t'.generationAt s = t.generationAt s
  steady : t.Steady → t'.Steady

theorem Reuses.trans (h : Reuses t t') (h' : Reuses t' t'') : Reuses t t'' := by
  refine ⟨h'.length.trans h.length, fun s hs => ?_, fun ht => h'.steady (h.steady ht)⟩
  obtain ⟨hs', hg'⟩ := h'.kept s hs
  obtain ⟨hs₀, hg⟩ := h.kept s hs'
  exact ⟨hs₀, hg'.trans hg⟩

/-- An emptied slot is free again, unless it was in its last generation. -/
theorem reuses_clear {s : ℕ} (hs : s < t.generations.length)
    (hslots : t'.slots = t.slots.set s none) (hg : t'.generations = t.generations)
    (hf : t'.free = t.free) : Reuses t (t'.retireGeneration s) := by
  have hgens : ∀ i, t'.generationAt i = t.generationAt i := fun i => by
    rw [generationAt, generationAt, hg]
  have hgen := fun i => retireGeneration_generationAt (t := t') s i (hg ▸ hs)
  have hfree := fun i => mem_retireGeneration_free (t := t') s i
  simp only [hgens, hf] at hgen hfree
  refine ⟨by rw [retireGeneration_slots, hslots, List.length_set], fun i hi => ?_,
    fun ht => ⟨fun i => ?_, fun i hi => ?_⟩⟩
  · rw [hfree, not_or] at hi
    refine ⟨hi.1, ?_⟩
    rw [hgen, if_neg]
    rintro ⟨rfl, hmax⟩
    exact hi.2 ⟨rfl, hmax⟩
  · rw [hgen]
    split_ifs with hmax
    · exact hmax.2
    · exact ht.bounded i
  · rw [hfree, hgen]
    rw [retireGeneration_slots, hslots, List.getElem?_set] at hi
    by_cases his : i = s
    · subst his
      by_cases hmax : t.generationAt i < u64Max
      · exact .inl (.inr ⟨rfl, hmax⟩)
      · rw [if_neg fun h => hmax h.2]
        exact .inr (le_antisymm (ht.bounded i) (Nat.not_lt.mp hmax))
    · rw [if_neg (Ne.symm his)] at hi
      rw [if_neg fun h => his h.1]
      exact (ht.vacant i hi).imp_left .inl

theorem Edit.reuses (h : Edit t t') : Reuses t t' := by
  cases h with
  | keep hw hg hf hs =>
    refine ⟨by rw [hs], fun s hs => ?_, fun ht => ?_⟩
    · rw [generationAt, generationAt, hg]
      exact ⟨hf ▸ hs, rfl⟩
    · refine ⟨fun s => ?_, fun s hv => ?_⟩
      · rw [generationAt, hg]
        exact ht.bounded s
      · rw [hf, generationAt, hg]
        exact ht.vacant s (hs ▸ hv)
  | set x he hw hg hf hs =>
    refine ⟨by rw [hs, List.length_set], fun s hs => ?_, fun ht => ?_⟩
    · rw [generationAt, generationAt, hg]
      exact ⟨hf ▸ hs, rfl⟩
    · refine ⟨fun s => ?_, fun s hv => ?_⟩
      · rw [generationAt, hg]
        exact ht.bounded s
      · rw [hf, generationAt, hg]
        rw [hs, List.getElem?_set] at hv
        split_ifs at hv
        · cases hv
        · exact ht.vacant s hv
  | clear hcol he hw hg hf hs =>
    exact reuses_clear (hcol.generations_length ▸ locate_slot_lt he) hs hg hf

theorem Edits.reuses (h : Edits t t') : Reuses t t' := by
  induction h with
  | refl => exact ⟨rfl, fun s hs => ⟨hs, rfl⟩, fun ht => ht⟩
  | tail _ hedit ih => exact ih.trans hedit.reuses

/-- What a call does to the slots off the free list: they were off it before, at the same
generation, or hold an operation now. -/
structure Follows (t t' : OperationTable) : Prop where
  steady : t.Steady → t'.Steady
  used : ∀ s < t'.slots.length, s ∉ t'.free →
    s < t.slots.length ∧ s ∉ t.free ∧ t'.generationAt s = t.generationAt s ∨
      ∃ e, t'.locate (t'.id s) = .ok e

theorem Reuses.follows (h : Reuses t t') : Follows t t' := by
  refine ⟨h.steady, fun s hs hf => .inl ?_⟩
  obtain ⟨hf', hg⟩ := h.kept s hf
  exact ⟨h.length ▸ hs, hf', hg⟩

theorem locate_placed {s : ℕ} {e : Entry} (hs : t.slots[s]? = some (some e)) :
    t.locate (t.id s) = .ok e :=
  locate_ok_iff.mpr ⟨rfl, rfl, by rw [entryAt, OperationTable.id, hs]; rfl⟩

/-- A reservation takes the first slot off the list. -/
theorem follows_pop {s : ℕ} {free : List ℕ} (e : Entry) (hfree : t.free = s :: free)
    (hlt : s < t.slots.length) (hg : t'.generations = t.generations) (hf : t'.free = free)
    (hs : t'.slots = t.slots.set s (some e)) : Follows t t' := by
  have hgens : ∀ i, t'.generationAt i = t.generationAt i := fun i => by
    rw [generationAt, generationAt, hg]
  refine ⟨fun ht => ⟨fun i => ?_, fun i hi => ?_⟩, fun i hi hni => ?_⟩
  · rw [hgens]
    exact ht.bounded i
  · rw [hs, List.getElem?_set] at hi
    by_cases his : s = i
    · simp [his, his ▸ hlt] at hi
    · rw [if_neg his] at hi
      rw [hgens, hf]
      refine (ht.vacant i hi).imp_left fun hmem => ?_
      rw [hfree, List.mem_cons] at hmem
      exact hmem.resolve_left (Ne.symm his)
  · rw [hs, List.length_set] at hi
    by_cases his : i = s
    · subst his
      exact .inr ⟨e, locate_placed (by rw [hs, List.getElem?_set_self hlt])⟩
    · refine .inl ⟨hi, ?_, hgens i⟩
      rw [hfree, List.mem_cons, not_or]
      exact ⟨his, hf ▸ hni⟩

/-- With an empty list, a reservation adds a slot. -/
theorem follows_push (hcol : t.Columns) (e : Entry) (hfree : t.free = [])
    (hg : t'.generations = t.generations ++ [1]) (hf : t'.free = [])
    (hs : t'.slots = t.slots ++ [some e]) : Follows t t' := by
  have hlen := hcol.generations_length
  have hgens : ∀ i, i < t.slots.length → t'.generationAt i = t.generationAt i := by
    intro i hi
    rw [generationAt, generationAt, hg, List.getElem?_append_left (hlen ▸ hi)]
  refine ⟨fun ht => ⟨fun i => ?_, fun i hi => ?_⟩, fun i hi hni => ?_⟩
  · rcases lt_trichotomy i t.slots.length with hlt | rfl | hlt
    · rw [hgens i hlt]
      exact ht.bounded i
    · simp [generationAt, hg, ← hlen, u64Max]
    · rw [generationAt, hg, List.getElem?_eq_none (by simp; omega)]
      exact Nat.zero_le _
  · have hlt : i < t.slots.length := by
      by_contra hge
      rw [hs, List.getElem?_append_right (Nat.le_of_not_lt hge)] at hi
      rcases hk : i - t.slots.length with - | k <;> simp [hk] at hi
    rw [hs, List.getElem?_append_left hlt] at hi
    rw [hgens i hlt, hf, ← hfree]
    exact ht.vacant i hi
  · rw [hs, List.length_append, List.length_singleton] at hi
    rcases Nat.lt_succ_iff_lt_or_eq.mp hi with hlt | rfl
    · exact .inl ⟨hlt, by simp [hfree], hgens i hlt⟩
    · exact .inr ⟨e, locate_placed (by rw [hs, List.getElem?_concat_length])⟩

theorem follows_reserve (h : t.Indexed fun _ => True) (owner target : ActorRef)
    (deadline : Instant) : Follows t (t.reserve owner target deadline).2 := by
  by_cases hok : (owner.world = t.world ∧ target.world = t.world) ∧ t.live < t.max ∧
      (t.free ≠ [] ∨ t.slots.length < t.max)
  · obtain ⟨hw, hlive, hroom⟩ := hok
    rw [reserve_eq hw hroom hlive]
    set e : Entry := .pending ⟨owner, target, deadline, none⟩
    cases hfree : t.free with
    | cons s free =>
      have hlt := (List.getElem?_eq_some_iff.mp (h.columns.free_mem s (by simp [hfree]))).1
      exact follows_pop e hfree hlt (by simp [takeSlot, hfree, indexPending])
        (by simp [takeSlot, hfree, indexPending]) (by simp [takeSlot, hfree, indexPending, e])
    | nil =>
      exact follows_push h.columns e hfree (by simp [takeSlot, hfree, indexPending])
        (by simp [takeSlot, hfree, indexPending]) (by simp [takeSlot, hfree, indexPending, e])
  · rw [reserve_error deadline hok]
    exact (Edits.reuses .refl).follows

theorem call_follows (h : t.Indexed fun _ => True) (c : TableCall) : Follows t (t.call c).2 := by
  cases c with
  | reserve owner target deadline => exact follows_reserve h owner target deadline
  | _ => exact (call_edits h (by simp)).reuses.follows

end OperationTable

end Actorplane
