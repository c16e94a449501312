import Mathlib.Data.List.AList
import Mathlib.Data.List.Sort
import Mathlib.Tactic

/-!
# Finite maps and set-valued indexes

Maps are duplicate-free association lists. A set-valued index sends a key to a
duplicate-free, nonempty list of members; it is *exact* for a relation when it
lists precisely the related members of every key. Insertion and removal keep
exactness for the correspondingly updated relation.
-/

namespace Actorplane

abbrev Assoc (κ ν : Type) := AList (fun _ : κ => ν)

namespace Assoc

variable {κ ν : Type} [DecidableEq κ]

@[simp] theorem lookup_insert_ite (m : Assoc κ ν) (k k' : κ) (v : ν) :
    (AList.insert k v m).lookup k' = if k' = k then some v else m.lookup k' := by
  by_cases h : k' = k
  · subst h
    simp
  · simp [h, AList.lookup_insert_ne h]

@[simp] theorem lookup_erase_ite (m : Assoc κ ν) (k k' : κ) :
    (m.erase k).lookup k' = if k' = k then none else m.lookup k' := by
  by_cases h : k' = k
  · subst h
    simp
  · simp [h, AList.lookup_erase_ne h]

/-- Entries in the order in which an ordered map visits them. -/
def ordered (le : κ → κ → Prop) [DecidableRel le] (m : Assoc κ ν) : List ν :=
  (m.entries.insertionSort fun a b => le a.1 b.1).map Sigma.snd

/-! ## Totals -/

/-- The sum of a weight over the values. -/
def total (g : ν → ℕ) (m : Assoc κ ν) : ℕ := (m.entries.map fun e => g e.2).sum

omit [DecidableEq κ] in
@[simp] theorem total_empty (g : ν → ℕ) : total g (∅ : Assoc κ ν) = 0 := rfl

theorem entries_erase (m : Assoc κ ν) (k : κ) : (m.erase k).entries = m.entries.kerase k := rfl

theorem total_erase (g : ν → ℕ) {m : Assoc κ ν} {k : κ} {v : ν} (h : m.lookup k = some v) :
    total g (m.erase k) + g v = total g m := by
  obtain ⟨entries, hn⟩ := m
  have hk : k ∈ entries.keys := List.dlookup_isSome.mp (by
    have : List.dlookup k entries = some v := h
    simp [this])
  obtain ⟨w, l₁, l₂, hnot, rfl, he⟩ := List.exists_of_kerase hk
  have hw : w = v := by
    have hm : (⟨k, w⟩ : Sigma fun _ : κ => ν) ∈ l₁ ++ ⟨k, w⟩ :: l₂ := by simp
    exact (Option.some.inj (h.symm.trans (List.mem_dlookup hn hm))).symm
  subst hw
  simp only [total, entries_erase, he, List.map_append, List.sum_append, List.map_cons,
    List.sum_cons]
  omega

theorem total_insert (g : ν → ℕ) (m : Assoc κ ν) (k : κ) (v : ν) :
    total g (AList.insert k v m) = g v + total g (m.erase k) := by
  simp [total, AList.entries_insert, entries_erase]

/-- A new key adds its weight. -/
theorem total_fresh (g : ν → ℕ) {m : Assoc κ ν} {k : κ} (v : ν) (h : m.lookup k = none) :
    total g (AList.insert k v m) = total g m + g v := by
  rw [total, AList.entries_insert_of_notMem (AList.lookup_eq_none.mp h)]
  simp [total, add_comm]

/-- A replaced value trades its weight. -/
theorem total_replace (g : ν → ℕ) {m : Assoc κ ν} {k : κ} {v : ν} (v' : ν)
    (h : m.lookup k = some v) :
    total g (AList.insert k v' m) + g v = total g m + g v' := by
  have := total_erase g h
  rw [total_insert]
  omega

theorem le_total (g : ν → ℕ) {m : Assoc κ ν} {k : κ} {v : ν} (h : m.lookup k = some v) :
    g v ≤ total g m := by
  have := total_erase g h
  omega

/-- Distinct keys whose values all have weight are at most as many as the total weighs. -/
theorem length_le_total (g : ν → ℕ) {l : List κ} (hl : l.Nodup) {m : Assoc κ ν}
    (h : ∀ k ∈ l, ∃ v, m.lookup k = some v ∧ 0 < g v) : l.length ≤ total g m := by
  induction l generalizing m with
  | nil => exact Nat.zero_le _
  | cons k l ih =>
    obtain ⟨hk, hl⟩ := List.nodup_cons.mp hl
    obtain ⟨v, hv, hg⟩ := h k List.mem_cons_self
    have hrest : l.length ≤ total g (m.erase k) := by
      apply ih hl
      intro k' hk'
      obtain ⟨v', hv', hg'⟩ := h k' (List.mem_cons_of_mem k hk')
      have hne : k' ≠ k := fun he => hk (he ▸ hk')
      exact ⟨v', by simp [hne, hv'], hg'⟩
    have := total_erase g hv
    rw [List.length_cons]
    omega

/-- Maps with the same keys have the same size. -/
theorem keys_length_congr {m m' : Assoc κ ν}
    (h : ∀ k, (m.lookup k).isSome = (m'.lookup k).isSome) :
    m.keys.length = m'.keys.length := by
  refine ((List.perm_ext_iff_of_nodup m.keys_nodup m'.keys_nodup).mpr fun k => ?_).length_eq
  have := h k
  rw [← AList.mem_keys, ← AList.mem_keys, ← AList.lookup_isSome, ← AList.lookup_isSome, this]

end Assoc

/-- A map from keys to sets, each set a duplicate-free list. -/
abbrev Index (κ ι : Type) := Assoc κ (List ι)

namespace Index

variable {κ ι : Type} [DecidableEq κ]

def members (m : Index κ ι) (k : κ) : List ι := (m.lookup k).getD []

section Update

variable [DecidableEq ι]

/-- `entry(k).or_default().insert(i)` -/
def add (k : κ) (i : ι) (m : Index κ ι) : Index κ ι :=
  AList.insert k ((m.members k).insert i) m

/-- Remove one member, and the key with its last member. -/
def drop (k : κ) (i : ι) (m : Index κ ι) : Index κ ι :=
  match m.lookup k with
  | none => m
  | some l => if l.erase i = [] then m.erase k else AList.insert k (l.erase i) m

theorem members_add (m : Index κ ι) (k k' : κ) (i : ι) :
    (m.add k i).members k' = if k' = k then (m.members k).insert i else m.members k' := by
  by_cases h : k' = k <;> simp [members, add, h]

theorem members_drop (m : Index κ ι) (k k' : κ) (i : ι) :
    (m.drop k i).members k' = if k' = k then (m.members k).erase i else m.members k' := by
  unfold drop
  cases hk : m.lookup k with
  | none =>
    by_cases h : k' = k
    · subst h
      simp [members, hk]
    · simp [h]
  | some l =>
    by_cases hl : l.erase i = [] <;> by_cases h : k' = k <;> simp [members, hl, h, hk]

end Update

/-- The index lists exactly the related members, without repetition or empty sets. -/
structure Exact (m : Index κ ι) (R : κ → ι → Prop) : Prop where
  mem : ∀ k i, i ∈ m.members k ↔ R k i
  nodup : ∀ k, (m.members k).Nodup
  nonempty : ∀ k, m.lookup k ≠ some []

theorem exact_empty : Exact (∅ : Index κ ι) fun _ _ => False :=
  ⟨by simp [members], by simp [members], by simp⟩

theorem Exact.congr {m : Index κ ι} {R S : κ → ι → Prop} (h : m.Exact R)
    (hRS : ∀ k i, R k i ↔ S k i) : m.Exact S :=
  ⟨fun k i => (h.mem k i).trans (hRS k i), h.nodup, h.nonempty⟩

section Update

variable [DecidableEq ι]

theorem Exact.add {m : Index κ ι} {R : κ → ι → Prop} (h : m.Exact R) (k : κ) (i : ι) :
    (m.add k i).Exact fun k' i' => (k' = k ∧ i' = i) ∨ R k' i' := by
  refine ⟨fun k' i' => ?_, fun k' => ?_, fun k' => ?_⟩
  · rw [members_add]
    by_cases hk : k' = k
    · subst hk
      simp [List.mem_insert_iff, h.mem]
    · simp [hk, h.mem]
  · rw [members_add]
    split_ifs
    · exact (h.nodup k).insert
    · exact h.nodup k'
  · by_cases hk : k' = k
    · subst hk
      have hi : i ∈ (m.members k').insert i := by simp
      simp only [Index.add, Assoc.lookup_insert_ite, if_true, ne_eq, Option.some.injEq]
      intro he
      simp [he] at hi
    · simp [Index.add, hk, h.nonempty k']

theorem Exact.drop {m : Index κ ι} {R : κ → ι → Prop} (h : m.Exact R) (k : κ) (i : ι) :
    (m.drop k i).Exact fun k' i' => R k' i' ∧ ¬(k' = k ∧ i' = i) := by
  refine ⟨fun k' i' => ?_, fun k' => ?_, fun k' => ?_⟩
  · rw [members_drop]
    by_cases hk : k' = k
    · subst hk
      simp [(h.nodup k').mem_erase_iff, h.mem, and_comm]
    · simp [hk, h.mem]
  · rw [members_drop]
    split_ifs
    · exact (h.nodup k).erase i
    · exact h.nodup k'
  · unfold Index.drop
    cases hm : m.lookup k with
    | none => exact h.nonempty k'
    | some l =>
      by_cases hl : l.erase i = []
      · by_cases hk : k' = k <;> simp [hl, hk, h.nonempty k']
      · by_cases hk : k' = k <;> simp [hl, hk, h.nonempty k']

end Update

end Index

end Actorplane
