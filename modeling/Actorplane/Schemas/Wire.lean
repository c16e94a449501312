import Actorplane.Model.Schemas

/-!
# What a schema admits, and how it is written

A value fits a field type when its shape and every bound agree. Its canonical
bytes, the number of its nodes and the depth it reaches depend on the value
alone. The codec is later shown to accept exactly the fitting values within the
node and byte limits, as exactly these bytes.
-/

namespace Actorplane

namespace F64

/-- The float that is written for `x`. -/
def canon (x : F64) : F64 := if x.isNan then canonicalNan else x

theorem canonicalNan_isNan : canonicalNan.isNan = true := by decide

theorem canonicalNan_not_finite : canonicalNan.isFinite = false := by decide

theorem isFinite_of_canon {x : F64} (h : x.isNan = true) : x.isFinite = false := by
  unfold isNan at h
  unfold isFinite
  rw [Bool.and_eq_true] at h
  have hx : x.exponent = 0x7ff := by simpa using h.1
  simp [hx]

@[simp] theorem canon_isFinite (x : F64) : x.canon.isFinite = x.isFinite := by
  unfold canon
  split
  next h => rw [canonicalNan_not_finite, isFinite_of_canon h]
  next => rfl

@[simp] theorem canon_canon (x : F64) : x.canon.canon = x.canon := by
  unfold canon
  split
  next => rw [if_pos canonicalNan_isNan]
  next h => rfl

theorem canon_eq_self {x : F64} : x.canon = x ↔ (x.isNan = true → x = canonicalNan) := by
  unfold canon
  split
  next h => simp [h, eq_comm]
  next h => simp [h]

end F64

namespace Value

mutual
/-- The value with every NaN replaced by the canonical one. -/
def canon : Value → Value
  | .float x => .float x.canon
  | .optional none => .optional none
  | .optional (some x) => .optional (some x.canon)
  | .sequence xs => .sequence (canons xs)
  | .record xs => .record (canons xs)
  | x => x

def canons : List Value → List Value
  | [] => []
  | x :: xs => x.canon :: canons xs
end

mutual
/-- The number of nodes of a value. -/
def weight : Value → ℕ
  | .optional (some x) => 1 + x.weight
  | .sequence xs => 1 + weights xs
  | .record xs => 1 + weights xs
  | _ => 1

def weights : List Value → ℕ
  | [] => 0
  | x :: xs => x.weight + weights xs
end

mutual
/-- The greatest depth among the nodes of a value entered at depth `d`. -/
def reach : Value → ℕ → ℕ
  | .optional (some x), d => max d (x.reach (d + 1))
  | .sequence xs, d => max d (reaches xs (d + 1))
  | .record xs, d => max d (reaches xs (d + 1))
  | _, d => d

def reaches : List Value → ℕ → ℕ
  | [], _ => 0
  | x :: xs, d => max (x.reach d) (reaches xs d)
end

def sized (b : List UInt8) : List UInt8 := Bytes.little 4 b.length ++ b

mutual
/-- The bytes of a value whose floats are canonical. -/
def wire : Value → List UInt8
  | .int x => Bytes.little 8 x.toUInt64.toNat
  | .uint x => Bytes.little 8 x.toNat
  | .float x => Bytes.little 8 x.bits.toNat
  | .bool x => [if x then 1 else 0]
  | .string x => sized x.toByteArray.data.toList
  | .bytes x => sized x
  | .enum x => Bytes.little 4 x.toNat
  | .optional none => [0]
  | .optional (some x) => 1 :: x.wire
  | .sequence xs => Bytes.little 4 xs.length ++ wires xs
  | .record xs => wires xs

def wires : List Value → List UInt8
  | [] => []
  | x :: xs => x.wire ++ wires xs
end

mutual
theorem weight_canon : ∀ v : Value, v.canon.weight = v.weight
  | .optional (some x) => by rw [canon, weight, weight, weight_canon x]
  | .sequence xs => by rw [canon, weight, weight, weights_canons xs]
  | .record xs => by rw [canon, weight, weight, weights_canons xs]
  | .int _ | .uint _ | .float _ | .bool _ | .string _ | .bytes _ | .enum _ | .optional none => rfl

theorem weights_canons : ∀ xs : List Value, weights (canons xs) = weights xs
  | [] => rfl
  | x :: xs => by rw [canons, weights, weights, weight_canon x, weights_canons xs]
end

mutual
theorem canon_canon : ∀ v : Value, v.canon.canon = v.canon
  | .float x => by simp only [canon, F64.canon_canon]
  | .optional (some x) => by rw [canon, canon, canon_canon x]
  | .sequence xs => by rw [canon, canon, canons_canons xs]
  | .record xs => by rw [canon, canon, canons_canons xs]
  | .int _ | .uint _ | .bool _ | .string _ | .bytes _ | .enum _ | .optional none => rfl

theorem canons_canons : ∀ xs : List Value, canons (canons xs) = canons xs
  | [] => rfl
  | x :: xs => by rw [canons, canons, canon_canon x, canons_canons xs]
end

@[simp] theorem canons_length (xs : List Value) : (canons xs).length = xs.length := by
  induction xs with
  | nil => rfl
  | cons x xs ih => rw [canons, List.length_cons, List.length_cons, ih]

theorem weight_pos (v : Value) : 0 < v.weight := by
  cases v with
  | optional x =>
    cases x with
    | none => exact Nat.one_pos
    | some x => exact Nat.add_pos_left Nat.one_pos x.weight
  | sequence xs => exact Nat.add_pos_left Nat.one_pos (weights xs)
  | record xs => exact Nat.add_pos_left Nat.one_pos (weights xs)
  | _ => exact Nat.one_pos

theorem length_le_weights (xs : List Value) : xs.length ≤ weights xs := by
  induction xs with
  | nil => exact Nat.le_refl 0
  | cons x xs ih =>
    have hx := x.weight_pos
    rw [weights, List.length_cons]
    omega

theorem mem_canons {xs : List Value} {y : Value} : y ∈ canons xs ↔ ∃ x ∈ xs, x.canon = y := by
  induction xs with
  | nil => simp [canons]
  | cons x xs ih => simp [canons, ih, eq_comm]

end Value

/-! ## Fitting a type -/

mutual
/-- A value of the type, within its bounds. -/
def FieldType.Fits : FieldType → Value → Prop
  | .int min max, .int x => min ≤ x ∧ x ≤ max
  | .uint min max, .uint x => min ≤ x ∧ x ≤ max
  | .float allowNonFinite, .float x => allowNonFinite = true ∨ x.isFinite = true
  | .bool, .bool _ => True
  | .string maxBytes, .string x => x.utf8ByteSize ≤ maxBytes
  | .bytes maxBytes, .bytes x => x.length ≤ maxBytes
  | .enum _ variants, .enum x => x.toNat < variants.length
  | .optional _, .optional none => True
  | .optional t, .optional (some x) => t.Fits x
  | .sequence t maxLen, .sequence xs => xs.length ≤ maxLen ∧ ∀ x ∈ xs, t.Fits x
  | .record s, x => s.Fits x
  | _, _ => False

def Schema.Fits : Schema → Value → Prop
  | ⟨_, _, fields⟩, .record xs => FieldsFit fields xs
  | _, _ => False

def FieldsFit : List Field → List Value → Prop
  | [], [] => True
  | ⟨_, ty⟩ :: fields, x :: xs => ty.Fits x ∧ FieldsFit fields xs
  | _, _ => False
end

mutual
theorem FieldType.fits_canon : ∀ (t : FieldType) (v : Value), t.Fits v.canon ↔ t.Fits v
  | .record s, v => by
    rw [FieldType.Fits, FieldType.Fits]
    exact s.fits_canon v
  | .optional t, v => by
    cases v with
    | optional x =>
      cases x with
      | none => exact Iff.rfl
      | some x =>
        rw [Value.canon, FieldType.Fits, FieldType.Fits]
        exact t.fits_canon x
    | _ => exact Iff.rfl
  | .sequence t maxLen, v => by
    cases v with
    | sequence xs =>
      rw [Value.canon, FieldType.Fits, FieldType.Fits, Value.canons_length]
      simp only [Value.mem_canons, forall_exists_index, and_imp, forall_apply_eq_imp_iff₂,
        t.fits_canon]
    | optional x => cases x <;> exact Iff.rfl
    | _ => exact Iff.rfl
  | .float allowNonFinite, v => by
    cases v with
    | float x => simp only [Value.canon, FieldType.Fits, F64.canon_isFinite]
    | optional x => cases x <;> exact Iff.rfl
    | _ => exact Iff.rfl
  | .int _ _, v | .uint _ _, v | .bool, v | .string _, v | .bytes _, v | .enum _ _, v => by
    cases v with
    | optional x => cases x <;> exact Iff.rfl
    | _ => exact Iff.rfl

theorem Schema.fits_canon : ∀ (s : Schema) (v : Value), s.Fits v.canon ↔ s.Fits v
  | ⟨_, _, fields⟩, v => by
    cases v with
    | record xs =>
      rw [Value.canon, Schema.Fits, Schema.Fits]
      exact fieldsFit_canons fields xs
    | optional x => cases x <;> exact Iff.rfl
    | _ => exact Iff.rfl

theorem fieldsFit_canons : ∀ (fields : List Field) (xs : List Value),
    FieldsFit fields (Value.canons xs) ↔ FieldsFit fields xs
  | [], xs => by cases xs <;> exact Iff.rfl
  | ⟨_, ty⟩ :: fields, xs => by
    cases xs with
    | nil => exact Iff.rfl
    | cons x xs =>
      rw [Value.canons, FieldsFit, FieldsFit, ty.fits_canon x, fieldsFit_canons fields xs]
end

theorem FieldsFit.length_eq : ∀ {fields : List Field} {xs : List Value},
    FieldsFit fields xs → xs.length = fields.length
  | [], [], _ => rfl
  | ⟨_, _⟩ :: _, _ :: _, h => congrArg Nat.succ (FieldsFit.length_eq h.2)

/-! ## Bounds a validated schema has -/

mutual
/-- The type at depth `d` keeps within the limits the codec relies on. -/
def FieldType.Bounded : FieldType → ℕ → Prop
  | .string maxBytes, d => d ≤ 16 ∧ maxBytes ≤ 2 ^ 20
  | .bytes maxBytes, d => d ≤ 16 ∧ maxBytes ≤ 2 ^ 20
  | .enum _ variants, d => d ≤ 16 ∧ variants.length ≤ 256
  | .optional x, d => d ≤ 16 ∧ x.Bounded (d + 1)
  | .sequence item maxLen, d => d ≤ 16 ∧ maxLen ≤ 4096 ∧ item.Bounded (d + 1)
  | .record s, d => s.Bounded d
  | _, d => d ≤ 16

def Schema.Bounded : Schema → ℕ → Prop
  | ⟨_, _, fields⟩, d => d ≤ 16 ∧ FieldsBounded fields d

def FieldsBounded : List Field → ℕ → Prop
  | [], _ => True
  | ⟨_, ty⟩ :: fields, d => ty.Bounded (d + 1) ∧ FieldsBounded fields d
end

open Stateful

theorem tyNode_ok {d n n' : ℕ} {u : Unit} (h : tyNode d n = .ok u n') : d ≤ 16 := by
  obtain ⟨_, _, _, h⟩ := bind_returns.mp h
  obtain ⟨_, _, _, h⟩ := bind_returns.mp h
  have fine := (refuse_returns.mp h).1
  omega

mutual
theorem validTy_bounded : ∀ (t : FieldType) (d : ℕ) {n n' : ℕ} {u : Unit},
    validTy t d n = .ok u n' → t.Bounded d
  | .int _ _, d, _, _, _, h => by
    obtain ⟨_, _, h, _⟩ := bind_returns.mp h
    exact tyNode_ok h
  | .uint _ _, d, _, _, _, h => by
    obtain ⟨_, _, h, _⟩ := bind_returns.mp h
    exact tyNode_ok h
  | .float _, d, _, _, _, h => tyNode_ok h
  | .bool, d, _, _, _, h => tyNode_ok h
  | .string maxBytes, d, _, _, _, h => by
    obtain ⟨_, _, hd, h⟩ := bind_returns.mp h
    have fine := (refuse_returns.mp h).1
    exact ⟨tyNode_ok hd, by omega⟩
  | .bytes maxBytes, d, _, _, _, h => by
    obtain ⟨_, _, hd, h⟩ := bind_returns.mp h
    have fine := (refuse_returns.mp h).1
    exact ⟨tyNode_ok hd, by omega⟩
  | .enum _ variants, d, _, _, _, h => by
    obtain ⟨_, _, hd, h⟩ := bind_returns.mp h
    have fine := (refuse_returns.mp h).1
    refine ⟨tyNode_ok hd, ?_⟩
    by_contra many
    apply fine
    exact .inr (.inr (.inr (.inl (by omega))))
  | .optional x, d, _, _, _, h => by
    obtain ⟨_, _, hd, h⟩ := bind_returns.mp h
    exact ⟨tyNode_ok hd, validTy_bounded x (d + 1) h⟩
  | .sequence item maxLen, d, _, _, _, h => by
    obtain ⟨_, _, hd, h⟩ := bind_returns.mp h
    obtain ⟨_, _, hlen, h⟩ := bind_returns.mp h
    have fine := (refuse_returns.mp hlen).1
    exact ⟨tyNode_ok hd, by omega, validTy_bounded item (d + 1) h⟩
  | .record s, d, _, _, _, h => validateSchema_bounded s d h

theorem validateSchema_bounded : ∀ (s : Schema) (d : ℕ) {n n' : ℕ} {u : Unit},
    validateSchema s d n = .ok u n' → s.Bounded d
  | ⟨_, _, fields⟩, d, _, _, _, h => by
    obtain ⟨_, _, hd, h⟩ := bind_returns.mp h
    obtain ⟨_, _, _, h⟩ := bind_returns.mp h
    obtain ⟨_, _, _, h⟩ := bind_returns.mp h
    obtain ⟨_, _, _, h⟩ := bind_returns.mp h
    have fine := (refuse_returns.mp hd).1
    exact ⟨by omega, validateFields_bounded fields [] d h⟩

theorem validateFields_bounded : ∀ (fields : List Field) (names : List String) (d : ℕ) {n n' : ℕ}
    {u : Unit}, validateFields fields names d n = .ok u n' → FieldsBounded fields d
  | [], _, _, _, _, _, _ => trivial
  | ⟨name, ty⟩ :: fields, names, d, _, _, _, h => by
    obtain ⟨_, _, _, h⟩ := bind_returns.mp h
    obtain ⟨_, _, _, h⟩ := bind_returns.mp h
    obtain ⟨_, _, hty, h⟩ := bind_returns.mp h
    exact ⟨validTy_bounded ty (d + 1) (mapError_returns.mp hty),
      validateFields_bounded fields (name :: names) d h⟩
end

theorem Schema.validate_bounded {s : Schema} (h : s.validate = .ok ()) : s.Bounded 0 := by
  unfold Schema.validate at h
  split at h
  next u n run => exact validateSchema_bounded s 0 run
  next => cases h

end Actorplane
