import Actorplane.Lib.Assoc
import Actorplane.Model.Schemas

/-!
# The schema registry

A batch of schemas is validated, checked against every record layout of the
batch and of the registry, and then staged on a copy of the map that replaces
it when the whole batch has gone through. The map's iteration order is fixed
here; the source iterates a hash map, where the outcome does not depend on it.
-/

namespace Actorplane

/-! ## Equality of schemas -/

mutual
def FieldType.beq : FieldType → FieldType → Bool
  | .int min max, .int min' max' => min == min' && max == max'
  | .uint min max, .uint min' max' => min == min' && max == max'
  | .float a, .float a' => a == a'
  | .bool, .bool => true
  | .string n, .string n' => n == n'
  | .bytes n, .bytes n' => n == n'
  | .enum name variants, .enum name' variants' => name == name' && variants == variants'
  | .optional x, .optional x' => x.beq x'
  | .sequence item n, .sequence item' n' => item.beq item' && n == n'
  | .record s, .record s' => s.beq s'
  | _, _ => false

def Schema.beq : Schema → Schema → Bool
  | ⟨name, version, fields⟩, ⟨name', version', fields'⟩ =>
    name == name' && version == version' && fieldsBeq fields fields'

def fieldsBeq : List Field → List Field → Bool
  | [], [] => true
  | ⟨name, ty⟩ :: fields, ⟨name', ty'⟩ :: fields' =>
    name == name' && ty.beq ty' && fieldsBeq fields fields'
  | _, _ => false
end

mutual
theorem FieldType.beq_iff : ∀ t t' : FieldType, t.beq t' = true ↔ t = t'
  | .optional x, t' => by
    cases t' with
    | optional x' => rw [FieldType.beq, x.beq_iff x', FieldType.optional.injEq]
    | _ => simp [FieldType.beq]
  | .sequence item n, t' => by
    cases t' with
    | sequence item' n' => simp [FieldType.beq, item.beq_iff item']
    | _ => simp [FieldType.beq]
  | .record s, t' => by
    cases t' with
    | record s' => rw [FieldType.beq, s.beq_iff s', FieldType.record.injEq]
    | _ => simp [FieldType.beq]
  | .int _ _, t' | .uint _ _, t' | .float _, t' | .bool, t' | .string _, t' | .bytes _, t'
  | .enum _ _, t' => by cases t' <;> simp [FieldType.beq]

theorem Schema.beq_iff : ∀ s s' : Schema, s.beq s' = true ↔ s = s'
  | ⟨name, version, fields⟩, ⟨name', version', fields'⟩ => by
    simp [Schema.beq, fieldsBeq_iff fields fields', and_assoc]

theorem fieldsBeq_iff : ∀ fields fields' : List Field,
    fieldsBeq fields fields' = true ↔ fields = fields'
  | [], [] => by simp [fieldsBeq]
  | [], _ :: _ => by simp [fieldsBeq]
  | ⟨_, _⟩ :: _, [] => by simp [fieldsBeq]
  | ⟨name, ty⟩ :: fields, ⟨name', ty'⟩ :: fields' => by
    simp [fieldsBeq, ty.beq_iff ty', fieldsBeq_iff fields fields', and_assoc]
end

instance : DecidableEq Schema := fun s s' => decidable_of_iff (s.beq s' = true) (s.beq_iff s')

/-! ## Copies -/

mutual
def FieldType.normalizedClone : FieldType → FieldType
  | .optional x => .optional x.normalizedClone
  | .sequence item maxLen => .sequence item.normalizedClone maxLen
  | .record s => .record s.normalizedClone
  | .enum name variants => .enum name variants
  | t => t

def Schema.normalizedClone : Schema → Schema
  | ⟨name, version, fields⟩ => ⟨name, version, normalizedFields fields⟩

def normalizedFields : List Field → List Field
  | [] => []
  | ⟨name, ty⟩ :: fields => ⟨name, ty.normalizedClone⟩ :: normalizedFields fields
end

/-! ## Collecting record layouts -/

abbrev SchemaKey := String × UInt32

def Schema.key (s : Schema) : SchemaKey := (s.name, s.version)

abbrev Seen := Assoc SchemaKey Schema

/-- Enter one layout, or compare it with the one already seen. -/
def Seen.note (s : Schema) (seen : Seen) : Except SchemaError Seen :=
  match seen.lookup s.key with
  | some old => if old ≠ s then .error (err "nested schema identity collision") else .ok seen
  | none => .ok (AList.insert s.key s seen)

mutual
def collect : Schema → Seen → Except SchemaError Seen
  | ⟨name, version, fields⟩, seen => do
    let seen ← seen.note ⟨name, version, fields⟩
    collectFields fields seen

def collectFields : List Field → Seen → Except SchemaError Seen
  | [], seen => .ok seen
  | ⟨_, ty⟩ :: fields, seen => do
    let seen ← walk ty seen
    collectFields fields seen

def walk : FieldType → Seen → Except SchemaError Seen
  | .optional x, seen => walk x seen
  | .sequence x _, seen => walk x seen
  | .record s, seen => collect s seen
  | _, seen => .ok seen
end

def collectAll : List Schema → Seen → Except SchemaError Seen
  | [], seen => .ok seen
  | s :: schemas, seen => do
    let seen ← collect s seen
    collectAll schemas seen

/-! ## Registration -/

abbrev SchemaItems := Assoc SchemaKey (UInt32 × Schema)

structure SchemaRegistry where
  max : ℕ
  next : UInt32
  items : SchemaItems

namespace SchemaRegistry

def new (max : ℕ) : Except SchemaError SchemaRegistry :=
  if max = 0 ∨ 65536 < max then .error (err "schema registry limit")
  else .ok { max := Min.min max 65536, next := 1, items := ∅ }

def len (r : SchemaRegistry) : ℕ := r.items.keys.length

/-- The registered schemas. -/
def schemas (items : SchemaItems) : List Schema := items.entries.map fun e => e.2.2

def validateAll : List Schema → Except SchemaError Unit
  | [] => .ok ()
  | s :: schemas => do
    s.validate
    validateAll schemas

/-- `next.checked_add(1)`. -/
def checkedNext (next : UInt32) : Except SchemaError UInt32 :=
  if next.toNat + 1 < 2 ^ 32 then .ok (next + 1) else .error (err "schema id limit")

/-- One schema of the batch on the staged map: its id, the map and the next id. -/
def stageOne (max : ℕ) (s : Schema) (staged : SchemaItems) (next : UInt32) :
    Except SchemaError (UInt32 × SchemaItems × UInt32) :=
  match staged.lookup s.key with
  | some (id, old) =>
    if old = s then .ok (id, staged, next) else .error (err "schema identity collision")
  | none => do
    if max ≤ staged.keys.length then .error (err "schema registry limit")
    else do
      let next' ← checkedNext next
      .ok (next, AList.insert s.key (next, s.normalizedClone) staged, next')

def stage (max : ℕ) : List Schema → SchemaItems → UInt32 →
    Except SchemaError (List UInt32 × SchemaItems × UInt32)
  | [], staged, next => .ok ([], staged, next)
  | s :: schemas, staged, next => do
    let (id, staged, next) ← stageOne max s staged next
    let (ids, staged, next) ← stage max schemas staged next
    .ok (id :: ids, staged, next)

/-- Everything `register_batch` checks and computes before it writes to the registry. -/
def prepare (batch : List Schema) (r : SchemaRegistry) :
    Except SchemaError (List UInt32 × SchemaItems × UInt32) := do
  if r.max < batch.length then .error (err "schema registration batch exceeds limit")
  else do
    validateAll batch
    let nested ← collectAll batch ∅
    let _ ← collectAll (schemas r.items) nested
    stage r.max batch r.items r.next

def registerBatch (batch : List Schema) (r : SchemaRegistry) :
    Except SchemaError (List UInt32) × SchemaRegistry :=
  match r.prepare batch with
  | .ok (ids, staged, next) => (.ok ids, { r with items := staged, next := next })
  | .error e => (.error e, r)

/-- `remove(0)` of the ids of a batch of one. -/
def register (s : Schema) (r : SchemaRegistry) : Except SchemaError (Option UInt32) × SchemaRegistry :=
  ((r.registerBatch [s]).1.map List.head?, (r.registerBatch [s]).2)

def schema (r : SchemaRegistry) (id : UInt32) : Except SchemaError Schema :=
  match r.items.entries.find? fun e => e.2.1 == id with
  | some e => .ok e.2.2
  | none => .error (err "unknown schema")

/-- A sequence of `register_batch` calls. -/
def registerAll : List (List Schema) → SchemaRegistry → SchemaRegistry
  | [], r => r
  | batch :: batches, r => registerAll batches (r.registerBatch batch).2

end SchemaRegistry
end Actorplane
