import Actorplane.Lib.Assoc

/-!
# Counted keys

A map from keys to counts tallies a list when it holds, for each key that occurs in the
list, how often it occurs, and no other key.
-/

namespace Actorplane

namespace Assoc

variable {κ : Type} [DecidableEq κ]

/-- The map holds how often each key occurs. -/
def Tallies (m : Assoc κ ℕ) (l : List κ) : Prop :=
  ∀ k, m.lookup k = if l.count k = 0 then none else some (l.count k)

/-- One more occurrence. -/
def count (k : κ) (m : Assoc κ ℕ) : Assoc κ ℕ := AList.insert k ((m.lookup k).getD 0 + 1) m

/-- One occurrence less of a key that occurs `n` times. -/
def uncount (k : κ) (n : ℕ) (m : Assoc κ ℕ) : Assoc κ ℕ :=
  if n - 1 = 0 then m.erase k else AList.insert k (n - 1) m

namespace Tallies

variable {m : Assoc κ ℕ} {l l' : List κ} {k : κ}

theorem empty : Tallies (∅ : Assoc κ ℕ) [] := by
  intro k
  simp

theorem perm (h : m.Tallies l) (hp : l.Perm l') : m.Tallies l' := by
  intro k
  rw [h k, hp.count_eq]

theorem lookup (h : m.Tallies l) (hk : k ∈ l) : m.lookup k = some (l.count k) := by
  rw [h k, if_neg (List.count_pos_iff.mpr hk).ne']

theorem mem_keys (h : m.Tallies l) : k ∈ m.keys ↔ k ∈ l := by
  rw [← AList.mem_keys, ← AList.lookup_isSome, h k]
  by_cases mem : k ∈ l
  · simp [mem, List.count_eq_zero]
  · simp [mem, List.count_eq_zero]

theorem cons (h : m.Tallies l) (k : κ) : (m.count k).Tallies (k :: l) := by
  intro k'
  unfold count
  rw [lookup_insert_ite, List.count_cons]
  by_cases same : k' = k
  · subst same
    rw [if_pos rfl, h k']
    by_cases absent : l.count k' = 0
    · simp [absent]
    · simp [absent]
  · have other : ¬(k == k') = true := by simpa using Ne.symm same
    rw [if_neg same, if_neg other, h k', Nat.add_zero]

theorem append (h : m.Tallies l) (k : κ) : (m.count k).Tallies (l ++ [k]) :=
  (h.cons k).perm (List.perm_append_singleton k l).symm

theorem erase (h : m.Tallies l) (hk : k ∈ l) : (m.uncount k (l.count k)).Tallies (l.erase k) := by
  have occurs : 0 < l.count k := List.count_pos_iff.mpr hk
  intro k'
  unfold uncount
  by_cases same : k' = k
  · subst same
    rw [List.count_erase_self]
    split_ifs
    · simp
    · simp
  · rw [List.count_erase_of_ne same, ← h k']
    split_ifs
    · simp [same]
    · simp [same]

/-- The first key in order is the least one that occurs. -/
theorem first [LinearOrder κ] (h : m.Tallies l) :
    (m.keys.insertionSort (· ≤ ·)).head? = some k ↔ k ∈ l ∧ ∀ k' ∈ l, k ≤ k' := by
  have sorted : (m.keys.insertionSort (· ≤ ·)).Pairwise (· ≤ ·) :=
    List.pairwise_insertionSort (· ≤ ·) m.keys
  have mem : ∀ k, k ∈ m.keys.insertionSort (· ≤ ·) ↔ k ∈ l := fun k =>
    (List.mem_insertionSort (· ≤ ·)).trans h.mem_keys
  generalize m.keys.insertionSort (· ≤ ·) = keys at sorted mem
  cases keys with
  | nil =>
    have none : l = [] := List.eq_nil_iff_forall_not_mem.mpr fun k hk => by
      simpa using (mem k).mpr hk
    simp [none]
  | cons k₀ keys =>
    have least : ∀ k' ∈ l, k₀ ≤ k' := by
      intro k' hk'
      rcases List.mem_cons.mp ((mem k').mpr hk') with rfl | later
      · exact le_rfl
      · exact (List.pairwise_cons.mp sorted).1 k' later
    rw [List.head?_cons, Option.some.injEq]
    constructor
    · rintro rfl
      exact ⟨(mem k₀).mp List.mem_cons_self, least⟩
    · rintro ⟨hk, lower⟩
      exact le_antisymm (least k hk) (lower k₀ ((mem k₀).mp List.mem_cons_self))

theorem first_none [LinearOrder κ] (h : m.Tallies l) :
    (m.keys.insertionSort (· ≤ ·)).head? = none ↔ l = [] := by
  rw [List.head?_eq_none_iff]
  constructor
  · intro none
    apply List.eq_nil_iff_forall_not_mem.mpr
    intro k hk
    have mem := (List.mem_insertionSort (· ≤ ·)).mpr (h.mem_keys.mpr hk)
    rw [none] at mem
    exact absurd mem List.not_mem_nil
  · rintro rfl
    apply List.eq_nil_iff_forall_not_mem.mpr
    intro k hk
    exact absurd (h.mem_keys.mp ((List.mem_insertionSort (· ≤ ·)).mp hk)) List.not_mem_nil

end Tallies

end Assoc

end Actorplane
