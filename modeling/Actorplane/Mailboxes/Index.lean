import Actorplane.Lib.Tally
import Actorplane.Model.Deadlines

/-!
# Deadline counts and the deadline index

The counts of one actor tally the deadlines of its entries, and their first key is the
earliest. The index keeps one entry for each actor in two columns that agree.
-/

namespace Actorplane

/-! ## Counts of one actor -/

namespace ActorDeadlines

variable {d : ActorDeadlines} {l l' : List Instant} {t : Instant}

/-- The counts are those of the deadlines in the list. -/
def Counts (d : ActorDeadlines) (l : List Instant) : Prop := d.counts.Tallies l

theorem counts_new : new.Counts [] := Assoc.Tallies.empty

theorem Counts.perm (h : d.Counts l) (hp : l.Perm l') : d.Counts l' := Assoc.Tallies.perm h hp

theorem Counts.add (h : d.Counts l) (deadline : Option Instant) :
    (d.add deadline).Counts (l ++ deadline.toList) := by
  cases deadline with
  | none => simpa [ActorDeadlines.add] using h
  | some t => exact Assoc.Tallies.append h t

/-- Every counted deadline can be removed. -/
theorem Counts.remove (h : d.Counts l) (ht : t ∈ l) :
    ∃ d', d.remove? (some t) = some d' ∧ d'.Counts (l.erase t) := by
  refine ⟨⟨d.counts.uncount t (l.count t)⟩, ?_, Assoc.Tallies.erase h ht⟩
  simp only [remove?, Assoc.Tallies.lookup h ht]
  rfl

theorem Counts.first (h : d.Counts l) : d.first = some t ↔ t ∈ l ∧ ∀ t' ∈ l, t ≤ t' :=
  Assoc.Tallies.first h

theorem Counts.first_none (h : d.Counts l) : d.first = none ↔ l = [] :=
  Assoc.Tallies.first_none h

/-- The earliest deadline has passed as soon as any has. -/
theorem Counts.due (h : d.Counts l) {now : Instant} :
    (∃ t, d.first = some t ∧ t ≤ now) ↔ ∃ t ∈ l, t ≤ now := by
  constructor
  · rintro ⟨t, first, due⟩
    exact ⟨t, (h.first.mp first).1, due⟩
  · rintro ⟨t, mem, due⟩
    cases first : d.first with
    | none =>
      rw [h.first_none.mp first] at mem
      exact absurd mem List.not_mem_nil
    | some t' => exact ⟨t', rfl, ((h.first.mp first).2 t mem).trans due⟩

end ActorDeadlines

/-! ## The index -/

namespace DeadlineIndex

variable {x : DeadlineIndex} {r q : ActorRef} {t : Instant} {now : Instant}

/-- The two columns hold the same entries. -/
structure Sound (x : DeadlineIndex) : Prop where
  nodup : x.ordered.Nodup
  mem : ∀ t r, (t, r) ∈ x.ordered ↔ x.actors.lookup r = some t

theorem sound_new : new.Sound :=
  ⟨List.nodup_nil, fun t r => by simp [new]⟩

theorem lookup_remove :
    (x.remove r).actors.lookup q = if q = r then none else x.actors.lookup q := by
  unfold remove
  cases found : x.actors.lookup r with
  | none =>
    by_cases same : q = r
    · subst same
      simpa using found
    · simp [same]
  | some t => exact Assoc.lookup_erase_ite _ _ _

theorem Sound.remove (h : x.Sound) : (x.remove r).Sound := by
  have lookups : ∀ q, (x.remove r).actors.lookup q = if q = r then none else x.actors.lookup q :=
    fun _ => lookup_remove
  cases found : x.actors.lookup r with
  | none =>
    have same : x.remove r = x := by
      unfold DeadlineIndex.remove
      rw [found]
    rw [same]
    exact h
  | some t =>
    have ordered : (x.remove r).ordered = x.ordered.erase (t, r) := by
      unfold DeadlineIndex.remove
      rw [found]
    constructor
    · rw [ordered]
      exact h.nodup.erase _
    · intro t' q
      rw [ordered, h.nodup.mem_erase_iff, h.mem, lookups]
      by_cases same : q = r
      · subst same
        simp only [found, if_true, ne_eq, Prod.mk.injEq, and_true, Option.some.injEq,
          reduceCtorEq, iff_false, not_and]
        exact fun other same => absurd same.symm other
      · simp [same]

theorem lookup_set (deadline : Option Instant) :
    (x.set r deadline).actors.lookup q = if q = r then deadline else x.actors.lookup q := by
  cases deadline with
  | none => exact lookup_remove
  | some t =>
    unfold set
    dsimp only
    split_ifs with kept same same
    · rw [same, kept]
    · rfl
    · simp [same]
    · simp [same, lookup_remove]

theorem Sound.set (h : x.Sound) (deadline : Option Instant) : (x.set r deadline).Sound := by
  cases deadline with
  | none => exact h.remove
  | some t =>
    have lookups : ∀ q, (x.set r (some t)).actors.lookup q =
        if q = r then some t else x.actors.lookup q := fun _ => lookup_set (some t)
    unfold DeadlineIndex.set at lookups ⊢
    dsimp only at lookups ⊢
    split_ifs at lookups ⊢ with kept
    · exact h
    · have removed : (x.remove r).Sound := h.remove
      constructor
      · refine List.nodup_cons.mpr ⟨?_, removed.nodup⟩
        rw [removed.mem, lookup_remove, if_pos rfl]
        simp
      · intro t' q
        rw [List.mem_cons, removed.mem, lookups, lookup_remove, Prod.mk.injEq]
        by_cases same : q = r
        · simp [same, eq_comm]
        · simp [same]

/-! ## Due entries -/

theorem lookup_foldl_erase (entries : List (Instant × ActorRef)) (m : Assoc ActorRef Instant) :
    (entries.foldl (fun m entry => m.erase entry.2) m).lookup q =
      if q ∈ entries.map Prod.snd then none else m.lookup q := by
  induction entries generalizing m with
  | nil => simp
  | cons entry entries ih =>
    rw [List.foldl_cons, ih, Assoc.lookup_erase_ite, List.map_cons]
    by_cases first : q = entry.2
    · simp [first]
    · by_cases later : q ∈ entries.map Prod.snd
      · simp [later]
      · simp only [List.mem_cons, first, later, or_self, if_false]

/-- Each actor whose entry is due is listed once. -/
theorem Sound.mem_takeDue (h : x.Sound) :
    r ∈ (x.takeDue now).1 ↔ ∃ t, x.actors.lookup r = some t ∧ t ≤ now := by
  unfold takeDue
  dsimp only
  rw [List.mem_insertionSort, List.mem_map]
  constructor
  · rintro ⟨⟨t, r⟩, mem, rfl⟩
    obtain ⟨entry, due⟩ := List.mem_filter.mp mem
    exact ⟨t, (h.mem t r).mp entry, of_decide_eq_true due⟩
  · rintro ⟨t, found, due⟩
    exact ⟨(t, r), List.mem_filter.mpr ⟨(h.mem t r).mpr found, decide_eq_true due⟩, rfl⟩

theorem Sound.nodup_takeDue (h : x.Sound) : (x.takeDue now).1.Nodup := by
  unfold takeDue
  dsimp only
  rw [(List.perm_insertionSort _ _).nodup_iff]
  apply (h.nodup.filter _).map_on
  rintro ⟨t, r⟩ mem ⟨t', r'⟩ mem' same
  have same : r = r' := same
  subst same
  have found := (h.mem t r).mp (List.mem_filter.mp mem).1
  have found' := (h.mem t' r).mp (List.mem_filter.mp mem').1
  rw [Option.some.inj (found.symm.trans found')]

theorem lookup_takeDue : (x.takeDue now).2.actors.lookup q =
    if q ∈ (x.takeDue now).1 then none else x.actors.lookup q := by
  have listed : q ∈ ((x.ordered.filter (·.1 ≤ now)).map Prod.snd) ↔ q ∈ (x.takeDue now).1 := by
    unfold takeDue
    dsimp only
    rw [List.mem_insertionSort]
  have erased := @lookup_foldl_erase q (x.ordered.filter (·.1 ≤ now)) x.actors
  simp only [listed] at erased
  exact erased

theorem Sound.takeDue (h : x.Sound) : (x.takeDue now).2.Sound := by
  constructor
  · exact h.nodup.filter _
  · intro t r
    rw [lookup_takeDue]
    have kept : (t, r) ∈ (x.takeDue now).2.ordered ↔ x.actors.lookup r = some t ∧ ¬t ≤ now := by
      show (t, r) ∈ x.ordered.filter _ ↔ _
      rw [List.mem_filter, h.mem, decide_eq_true_eq]
    rw [kept]
    by_cases due : r ∈ (x.takeDue now).1
    · obtain ⟨t', found, passed⟩ := h.mem_takeDue.mp due
      rw [if_pos due, found]
      simp only [Option.some.injEq, reduceCtorEq, iff_false, not_and, not_not]
      rintro rfl
      exact passed
    · rw [if_neg due]
      constructor
      · exact And.left
      · exact fun found => ⟨found, fun passed => due (h.mem_takeDue.mpr ⟨t, found, passed⟩)⟩

end DeadlineIndex

end Actorplane
