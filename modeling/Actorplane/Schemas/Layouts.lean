import Actorplane.Model.Registry

/-!
# One layout for a name and version

Collecting layouts succeeds exactly when no two of the records met have one name
and version and differ, and then the map lists just the records met. The order
in which schemas are collected does not matter.
-/

namespace Actorplane

mutual
theorem FieldType.normalizedClone_eq : ∀ t : FieldType, t.normalizedClone = t
  | .optional x => by rw [FieldType.normalizedClone, x.normalizedClone_eq]
  | .sequence item _ => by rw [FieldType.normalizedClone, item.normalizedClone_eq]
  | .record s => by rw [FieldType.normalizedClone, s.normalizedClone_eq]
  | .int _ _ | .uint _ _ | .float _ | .bool | .string _ | .bytes _ | .enum _ _ => by
    rw [FieldType.normalizedClone] <;> simp

/-- A normalized clone is the schema itself. -/
theorem Schema.normalizedClone_eq : ∀ s : Schema, s.normalizedClone = s
  | ⟨_, _, fields⟩ => by rw [Schema.normalizedClone, normalizedFields_eq fields]

theorem normalizedFields_eq : ∀ fields : List Field, normalizedFields fields = fields
  | [] => rfl
  | ⟨_, ty⟩ :: fields => by
    rw [normalizedFields, ty.normalizedClone_eq, normalizedFields_eq fields]
end

mutual
/-- The schema itself and every record nested in it. -/
def Schema.parts : Schema → List Schema
  | ⟨name, version, fields⟩ => ⟨name, version, fields⟩ :: fieldsParts fields

def fieldsParts : List Field → List Schema
  | [] => []
  | ⟨_, ty⟩ :: fields => ty.parts ++ fieldsParts fields

def FieldType.parts : FieldType → List Schema
  | .optional x => x.parts
  | .sequence x _ => x.parts
  | .record s => s.parts
  | _ => []
end

theorem Schema.mem_parts : ∀ s : Schema, s ∈ s.parts
  | ⟨_, _, _⟩ => List.mem_cons_self

/-- One layout for each name and version in the list. -/
def Consistent (l : List Schema) : Prop := ∀ a ∈ l, ∀ b ∈ l, a.key = b.key → a = b

theorem Consistent.subset {l l' : List Schema} (h : Consistent l) (hl : l' ⊆ l) : Consistent l' :=
  fun a ha b hb => h a (hl ha) b (hl hb)

/-- The map lists exactly the layouts in `l`. -/
def Records (seen : Seen) (l : List Schema) : Prop :=
  ∀ k s, seen.lookup k = some s ↔ s ∈ l ∧ s.key = k

theorem Records.consistent {seen : Seen} {l : List Schema} (h : Records seen l) : Consistent l := by
  intro a ha b hb same
  have first := (h a.key a).mpr ⟨ha, rfl⟩
  have second := (h a.key b).mpr ⟨hb, same.symm⟩
  rw [first] at second
  exact Option.some.inj second

theorem records_empty : Records ∅ [] := by
  intro k s
  simp

/-- `f` enters the layouts `ps`, and fails only on a collision. -/
def Gathers (f : Seen → Except SchemaError Seen) (ps : List Schema) : Prop :=
  ∀ seen l, Records seen l →
    (∀ seen', f seen = .ok seen' → Records seen' (l ++ ps)) ∧
    (Consistent (l ++ ps) → ∃ seen', f seen = .ok seen')

theorem Gathers.none : Gathers .ok [] := by
  intro seen l h
  rw [List.append_nil]
  refine ⟨?_, fun _ => ⟨seen, rfl⟩⟩
  intro seen' same
  cases same
  exact h

theorem Gathers.bind {f g : Seen → Except SchemaError Seen} {p q : List Schema} (hf : Gathers f p)
    (hg : Gathers g q) : Gathers (fun seen => f seen >>= g) (p ++ q) := by
  intro seen l h
  rw [← List.append_assoc]
  obtain ⟨records, succeeds⟩ := hf seen l h
  dsimp only
  constructor
  · intro seen' run
    cases hr : f seen with
    | error e =>
      rw [hr] at run
      cases run
    | ok mid =>
      rw [hr] at run
      exact (hg mid (l ++ p) (records mid hr)).1 seen' run
  · intro consistent
    obtain ⟨mid, hr⟩ := succeeds (consistent.subset (List.subset_append_left _ _))
    obtain ⟨seen', run⟩ := (hg mid (l ++ p) (records mid hr)).2 consistent
    refine ⟨seen', ?_⟩
    rw [hr]
    exact run

theorem Gathers.note (s : Schema) : Gathers (Seen.note s) [s] := by
  intro seen l h
  unfold Seen.note
  cases hk : seen.lookup s.key with
  | some old =>
    obtain ⟨hold, same⟩ := (h s.key old).mp hk
    by_cases differs : old = s
    · subst differs
      simp only [ne_eq, not_true, if_false]
      refine ⟨?_, fun _ => ⟨seen, rfl⟩⟩
      intro seen' run
      cases run
      intro k t
      rw [h k t, List.mem_append, List.mem_singleton]
      constructor
      · rintro ⟨ht, hkt⟩
        exact ⟨.inl ht, hkt⟩
      · rintro ⟨ht | rfl, hkt⟩
        · exact ⟨ht, hkt⟩
        · exact ⟨hold, hkt⟩
    · dsimp only
      rw [if_pos differs]
      constructor
      · intro _ run
        cases run
      intro consistent
      have hs : s ∈ l ++ [s] := by simp
      exact absurd (consistent old (List.mem_append_left _ hold) s hs same) differs
  | none =>
    refine ⟨?_, fun _ => ⟨_, rfl⟩⟩
    intro seen' run
    cases run
    intro k t
    rw [Assoc.lookup_insert_ite, List.mem_append, List.mem_singleton]
    by_cases here : k = s.key
    · subst here
      rw [if_pos rfl]
      constructor
      · intro same
        cases same
        exact ⟨.inr rfl, rfl⟩
      · rintro ⟨ht | rfl, hkt⟩
        · have found := (h s.key t).mpr ⟨ht, hkt⟩
          rw [hk] at found
          cases found
        · rfl
    · rw [if_neg here, h k t]
      constructor
      · rintro ⟨ht, hkt⟩
        exact ⟨.inl ht, hkt⟩
      · rintro ⟨ht | rfl, hkt⟩
        · exact ⟨ht, hkt⟩
        · exact absurd hkt.symm here

mutual
theorem collect_gathers : ∀ s : Schema, Gathers (collect s) s.parts
  | ⟨name, version, fields⟩ =>
    (Gathers.note ⟨name, version, fields⟩).bind (collectFields_gathers fields)

theorem collectFields_gathers : ∀ fields : List Field, Gathers (collectFields fields) (fieldsParts fields)
  | [] => Gathers.none
  | ⟨_, ty⟩ :: fields => (walk_gathers ty).bind (collectFields_gathers fields)

theorem walk_gathers : ∀ t : FieldType, Gathers (walk t) t.parts
  | .optional x => walk_gathers x
  | .sequence x _ => walk_gathers x
  | .record s => collect_gathers s
  | .int _ _ | .uint _ _ | .float _ | .bool | .string _ | .bytes _ | .enum _ _ => Gathers.none
end

theorem collectAll_gathers (schemas : List Schema) :
    Gathers (collectAll schemas) (schemas.flatMap Schema.parts) := by
  induction schemas with
  | nil => exact Gathers.none
  | cons s schemas ih => exact (collect_gathers s).bind ih

end Actorplane
