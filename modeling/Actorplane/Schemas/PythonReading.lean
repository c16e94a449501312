import Actorplane.Model.PythonCodec
import Actorplane.Schemas.Compiled
import Actorplane.Schemas.Reading

/-!
# What the Python reader accepts

Along a good node `_get` succeeds exactly on the canonical bytes of a value
that fits the node's field type, and returns the Python value that stands for it.
-/

namespace Actorplane
namespace Python

open Stateful

mutual
/-- The Python value that stands for a native value at a node. -/
def lift : Node → Value → PyValue
  | .int _ _, .int x => .int x.toInt
  | .uint _ _, .uint x => .int x.toNat
  | .bool, .bool b => .bool b
  | .float _, .float x => .float x
  | .string _, .string s => .str (Str.of s)
  | .bytes _, .bytes b => .bytes b
  | .enum typ _ names, .enum i => .enum typ (some (Str.of (names.getD i.toNat "")))
  | .optional _, .optional none => .none
  | .optional child, .optional (some v) => lift child v
  | .sequence child _, .sequence xs => .tuple (xs.map (lift child))
  | .record typ _ _ args, .record xs => .event typ (liftFields args xs)
  | _, _ => .none

def liftFields : List NodeField → List Value → List Attribute
  | ⟨name, node⟩ :: args, x :: xs => ⟨name, lift node x⟩ :: liftFields args xs
  | _, _ => []
end

/-! ## Declared classes -/

mutual
/-- The event classes along the tree store their arguments, and each symbol of an enum names its
member. -/
def Node.Plain (classes : Classes) : Node → Prop
  | .enum typ _ enumNames =>
    ∀ name ∈ enumNames, classes.member typ name = .ok (.enum typ (some (Str.of name)))
  | .optional child => child.Plain classes
  | .sequence child _ => child.Plain classes
  | .record typ _ _ args =>
    (∀ attributes : List Attribute, attributes.map Attribute.name = args.map NodeField.name →
      classes.construct typ attributes = .ok (.event typ attributes)) ∧ FieldsPlain classes args
  | _ => True

def FieldsPlain (classes : Classes) : List NodeField → Prop
  | [] => True
  | ⟨_, node⟩ :: args => node.Plain classes ∧ FieldsPlain classes args
end

/-- The classes that `dataclass` and `Enum` generate. -/
def Classes.generated : Classes where
  construct typ attributes := .ok (.event typ attributes)
  member typ name := .ok (.enum typ (some (Str.of name)))

mutual
theorem Node.plain_generated : ∀ n : Node, n.Plain Classes.generated
  | .enum _ _ _ => fun _ _ => rfl
  | .optional child => child.plain_generated
  | .sequence child _ => child.plain_generated
  | .record _ _ _ args => ⟨fun _ _ => rfl, fields_plain_generated args⟩
  | .int _ _ => trivial
  | .uint _ _ => trivial
  | .bool => trivial
  | .float _ => trivial
  | .string _ => trivial
  | .bytes _ => trivial

theorem fields_plain_generated : ∀ args : List NodeField, FieldsPlain Classes.generated args
  | [] => trivial
  | ⟨_, node⟩ :: args => ⟨node.plain_generated, fields_plain_generated args⟩
end

theorem liftFields_names {args : List NodeField} {xs : List Value}
    (fits : FieldsFit (fieldTypes args) xs) :
    (liftFields args xs).map Attribute.name = args.map NodeField.name := by
  induction args generalizing xs with
  | nil => cases xs <;> rfl
  | cons field args ih =>
    obtain ⟨name, node⟩ := field
    cases xs with
    | nil => exact fits.elim
    | cons x xs => rw [liftFields, List.map_cons, List.map_cons, ih fits.2]

theorem call_returns {x : Except PyError PyValue} {pv : PyValue} {r r' : PyReader} :
    call x r = .ok pv r' ↔ x = .ok pv ∧ r' = r := by
  cases x with
  | error e =>
    rw [call, throw_returns]
    simp
  | ok value =>
    rw [call, pure_returns, Except.ok.injEq]
    simp [eq_comm]

/-! ## Words -/

theorem int64_of_word {raw : List UInt8} (len : raw.length = 8) :
    (UInt64.ofNat (Bytes.value raw)).toInt64.toInt = unpackSigned raw := by
  have below := Bytes.value_lt raw
  rw [len] at below
  have small : Bytes.value raw < 2 ^ 64 := below
  have word : (UInt64.ofNat (Bytes.value raw)).toBitVec.toNat = Bytes.value raw :=
    UInt64.toNat_ofNat_of_lt' small
  change (UInt64.ofNat (Bytes.value raw)).toBitVec.toInt = _
  rw [BitVec.toInt_eq_toNat_cond, word]
  unfold unpackSigned
  by_cases low : Bytes.value raw < 2 ^ 63
  · rw [if_pos low, if_pos (by omega)]
  · rw [if_neg low, if_neg (by omega)]
    norm_num

theorem word_of_int64 (x : Int64) :
    unpackSigned (Bytes.little 8 x.toUInt64.toNat) = x.toInt := by
  rw [← int64_of_word (Bytes.little_length 8 _), Bytes.value_little x.toUInt64.toNat_lt,
    UInt64.ofNat_toNat, Int64.toInt64_toUInt64]

/-- Packing a signed number writes its 64-bit word. -/
theorem packSigned_eq {z : ℤ} (low : -2 ^ 63 ≤ z) (high : z < 2 ^ 63) :
    packSigned z = some (Bytes.little 8 (Int64.ofInt z).toUInt64.toNat) := by
  have word : (Int64.ofInt z).toUInt64.toNat = (z % 2 ^ 64).toNat := by
    change (BitVec.ofInt 64 z).toNat = _
    rw [BitVec.toNat_ofInt]
    norm_num
  unfold packSigned
  rw [if_pos ⟨low, high⟩, word]

theorem packUnsigned_eq {z : ℤ} (low : 0 ≤ z) (high : z < 2 ^ 64) :
    packUnsigned z = some (Bytes.little 8 (UInt64.ofNat z.toNat).toNat) := by
  have word : (UInt64.ofNat z.toNat).toNat = z.toNat :=
    UInt64.toNat_ofNat_of_lt' (by
      change z.toNat < 2 ^ 64
      omega)
  unfold packUnsigned
  rw [if_pos ⟨low, high⟩, word]

theorem int_fits {minimum maximum : ℤ} (good : (Node.int minimum maximum).Good) (x : Int64) :
    (Node.int minimum maximum).ty.Fits (.int x) ↔ minimum ≤ x.toInt ∧ x.toInt ≤ maximum := by
  obtain ⟨low, ordered, high⟩ := good
  change Int64.ofInt minimum ≤ x ∧ x ≤ Int64.ofInt maximum ↔ _
  rw [Int64.le_iff_toInt_le, Int64.le_iff_toInt_le, Int64.toInt_ofInt_of_le low (by omega),
    Int64.toInt_ofInt_of_le (by omega) high]

theorem uint_fits {minimum maximum : ℤ} (good : (Node.uint minimum maximum).Good) (x : UInt64) :
    (Node.uint minimum maximum).ty.Fits (.uint x) ↔ minimum ≤ x.toNat ∧ x.toNat ≤ maximum := by
  obtain ⟨low, ordered, high⟩ := good
  change UInt64.ofNat minimum.toNat ≤ x ∧ x ≤ UInt64.ofNat maximum.toNat ↔ _
  rw [UInt64.le_iff_toNat_le, UInt64.le_iff_toNat_le,
    UInt64.toNat_ofNat_of_lt' (by change minimum.toNat < 2 ^ 64; omega),
    UInt64.toNat_ofNat_of_lt' (by change maximum.toNat < 2 ^ 64; omega)]
  omega

namespace PyReader

/-- The bytes not read yet. -/
def rest (r : PyReader) : List UInt8 := r.data.drop r.position

def skip (r : PyReader) (n : ℕ) : PyReader := { r with position := r.position + n }

def counted (r : PyReader) : PyReader := { r with nodes := r.nodes + 1 }

/-- The reader after a value. -/
def past (r : PyReader) (v : Value) : PyReader :=
  ⟨r.data, r.position + v.wire.length, r.nodes + v.weight⟩

/-- The reader after a list of values. -/
def pastAll (r : PyReader) (xs : List Value) : PyReader :=
  ⟨r.data, r.position + (Value.wires xs).length, r.nodes + Value.weights xs⟩

def Inside (r : PyReader) : Prop := r.position ≤ r.data.length

/-- What a successful read of one value comes to. -/
def Takes (fits : Prop) (r : PyReader) (v : Value) (r' : PyReader) : Prop :=
  fits ∧ v.canon = v ∧ v.wire <+: r.rest ∧ r.nodes + v.weight ≤ 4096 ∧ r' = r.past v

/-- What a successful read of several values comes to. -/
def TakesAll (fits : Prop) (r : PyReader) (xs : List Value) (r' : PyReader) : Prop :=
  fits ∧ Value.canons xs = xs ∧ Value.wires xs <+: r.rest ∧
    r.nodes + Value.weights xs ≤ 4096 ∧ r' = r.pastAll xs

variable {r r' : PyReader} {path : Str}

theorem rest_length (r : PyReader) : r.rest.length = r.data.length - r.position := List.length_drop

@[simp] theorem rest_skip (r : PyReader) (n : ℕ) : (r.skip n).rest = r.rest.drop n := by
  simp only [rest, skip, List.drop_drop]

@[simp] theorem rest_counted (r : PyReader) : r.counted.rest = r.rest := rfl

@[simp] theorem nodes_skip (r : PyReader) (n : ℕ) : (r.skip n).nodes = r.nodes := rfl

@[simp] theorem nodes_counted (r : PyReader) : r.counted.nodes = r.nodes + 1 := rfl

@[simp] theorem skip_skip (r : PyReader) (m n : ℕ) : (r.skip m).skip n = r.skip (m + n) := by
  simp only [skip, Nat.add_assoc]

theorem Inside.counted (h : r.Inside) : r.counted.Inside := h

theorem Inside.skip {x : List UInt8} (h : r.Inside) (hx : x <+: r.rest) :
    (r.skip x.length).Inside := by
  have fits := hx.length_le
  rw [rest_length] at fits
  unfold Inside at h
  change r.position + x.length ≤ r.data.length
  omega

theorem Inside.past {v : Value} (h : r.Inside) (hv : v.wire <+: r.rest) : (r.past v).Inside :=
  h.skip hv

theorem rest_past (r : PyReader) (v : Value) : (r.past v).rest = r.rest.drop v.wire.length :=
  rest_skip r v.wire.length

theorem pastAll_nil (r : PyReader) : r.pastAll [] = r := by
  simp [pastAll, Value.wires, Value.weights]

theorem pastAll_cons (r : PyReader) (x : Value) (xs : List Value) :
    r.pastAll (x :: xs) = (r.past x).pastAll xs := by
  simp only [pastAll, past, Value.wires, Value.weights, List.length_append, Nat.add_assoc]

theorem takesAll_nil {fits : Prop} (few : r.nodes ≤ 4096) :
    TakesAll fits r [] r' ↔ fits ∧ r' = r := by
  unfold TakesAll
  rw [pastAll_nil]
  simp [Value.canons, Value.wires, Value.weights, few]

theorem takesAll_cons {p q : Prop} {x : Value} {xs : List Value} :
    TakesAll (p ∧ q) r (x :: xs) r' ↔ Takes p r x (r.past x) ∧ TakesAll q (r.past x) xs r' := by
  have nodes : (r.past x).nodes = r.nodes + x.weight := rfl
  unfold TakesAll Takes
  rw [pastAll_cons, Value.canons, Value.wires, Value.weights, append_isPrefix, rest_past, nodes,
    List.cons.injEq]
  constructor
  · rintro ⟨⟨hp, hq⟩, ⟨hx, hxs⟩, ⟨wx, wxs⟩, few, rfl⟩
    exact ⟨⟨hp, hx, wx, by omega, rfl⟩, hq, hxs, wxs, by omega, rfl⟩
  · rintro ⟨⟨hp, hx, wx, _, _⟩, hq, hxs, wxs, few, rfl⟩
    exact ⟨⟨hp, hq⟩, ⟨hx, hxs⟩, ⟨wx, wxs⟩, by omega, rfl⟩

/-! ## Primitive reads -/

theorem take_ok {n : ℕ} {x : List UInt8} (h : r.Inside) :
    take n path r = .ok x r' ↔ x.length = n ∧ x <+: r.rest ∧ r' = r.skip n := by
  have inside : r.position ≤ r.data.length := h
  simp only [take, bind_returns, get_returns, refuse_returns, modify_returns, pure_returns]
  constructor
  · rintro ⟨_, _, ⟨rfl, rfl⟩, _, _, ⟨enough, rfl⟩, _, _, rfl, rfl, rfl⟩
    refine ⟨?_, List.take_prefix n _, rfl⟩
    rw [List.length_take, List.length_drop]
    omega
  · rintro ⟨rfl, hx, rfl⟩
    have fits := hx.length_le
    rw [rest_length] at fits
    have same : (r.data.drop r.position).take x.length = x :=
      (List.prefix_iff_eq_take.mp hx).symm
    exact ⟨r, r, ⟨rfl, rfl⟩, (), r, ⟨by omega, rfl⟩, ⟨⟩, _, rfl, same.symm, rfl⟩

theorem node_ok {u : Unit} : node path r = .ok u r' ↔ r.nodes + 1 ≤ 4096 ∧ r' = r.counted := by
  simp only [node, bind_returns, get_returns, modify_returns, refuse_returns]
  constructor
  · rintro ⟨_, _, rfl, _, _, ⟨rfl, rfl⟩, few, rfl⟩
    exact ⟨Nat.not_lt.mp few, rfl⟩
  · rintro ⟨few, rfl⟩
    exact ⟨⟨⟩, _, rfl, _, _, ⟨rfl, rfl⟩, Nat.not_lt.mpr few, rfl⟩

theorem noded_ok {α : Type} {f : Get α} {a : α} :
    (do
      node path
      f) r = .ok a r' ↔ r.nodes + 1 ≤ 4096 ∧ f r.counted = .ok a r' := by
  simp only [bind_returns, node_ok]
  constructor
  · rintro ⟨_, _, ⟨few, rfl⟩, hf⟩
    exact ⟨few, hf⟩
  · rintro ⟨few, hf⟩
    exact ⟨(), _, ⟨few, rfl⟩, hf⟩

theorem byte_ok {x : UInt8} (h : r.Inside) :
    byte path r = .ok x r' ↔ [x] <+: r.rest ∧ r' = r.skip 1 := by
  simp only [byte, bind_returns, take_ok h, pure_returns]
  constructor
  · rintro ⟨bs, _, ⟨len, hbs, rfl⟩, rfl, rfl⟩
    obtain ⟨y, rfl⟩ := List.length_eq_one_iff.mp len
    exact ⟨hbs, rfl⟩
  · rintro ⟨hx, rfl⟩
    exact ⟨[x], _, ⟨rfl, hx, rfl⟩, rfl, rfl⟩

theorem size_ok {n : ℕ} (h : r.Inside) :
    size path r = .ok n r' ↔ n < 2 ^ 32 ∧ Bytes.little 4 n <+: r.rest ∧ r' = r.skip 4 := by
  simp only [size, bind_returns, take_ok h, pure_returns]
  constructor
  · rintro ⟨bs, _, ⟨len, hbs, rfl⟩, rfl, rfl⟩
    have below := Bytes.value_lt bs
    rw [len] at below
    rw [Bytes.little_of_length len]
    exact ⟨below, hbs, rfl⟩
  · rintro ⟨small, hn, rfl⟩
    refine ⟨_, _, ⟨Bytes.little_length 4 n, hn, rfl⟩, ?_, rfl⟩
    rw [Bytes.value_little small]

end PyReader

/-! ## One kind at a time -/

open PyReader

variable {r r' : PyReader} {path : Str} {pv : PyValue}

theorem getInt_ok {minimum maximum : ℤ} (good : (Node.int minimum maximum).Good) (h : r.Inside)
    (few : r.nodes + 1 ≤ 4096) :
    getInt minimum maximum unpackSigned path r.counted = .ok pv r' ↔
      ∃ v, pv = lift (.int minimum maximum) v ∧ Takes ((Node.int minimum maximum).ty.Fits v) r v r' := by
  simp only [getInt, bind_returns, take_ok h.counted, refuse_returns, pure_returns, not_not]
  constructor
  · rintro ⟨raw, _, ⟨len, hraw, rfl⟩, _, _, ⟨range, rfl⟩, rfl, rfl⟩
    have word := int64_of_word len
    refine ⟨.int (UInt64.ofNat (Bytes.value raw)).toInt64, ?_, ?_, rfl, ?_, few, rfl⟩
    · rw [lift, word]
    · rw [int_fits good, word]
      exact range
    · have below := Bytes.value_lt raw
      rw [len] at below
      rw [Value.wire, UInt64.toUInt64_toInt64, UInt64.toNat_ofNat_of_lt' below,
        Bytes.little_of_length len]
      exact hraw
  · rintro ⟨v, rfl, fits, _, wire, _, rfl⟩
    cases v with
    | int x =>
      rw [int_fits good] at fits
      have word := word_of_int64 x
      refine ⟨_, _, ⟨Bytes.little_length 8 _, wire, rfl⟩, (), _, ⟨?_, rfl⟩, ?_, rfl⟩
      · rw [word]
        exact fits
      · rw [lift, word]
    | _ => exact fits.elim

theorem getUint_ok {minimum maximum : ℤ} (good : (Node.uint minimum maximum).Good) (h : r.Inside)
    (few : r.nodes + 1 ≤ 4096) :
    getInt minimum maximum (fun raw => Bytes.value raw) path r.counted = .ok pv r' ↔
      ∃ v, pv = lift (.uint minimum maximum) v ∧
        Takes ((Node.uint minimum maximum).ty.Fits v) r v r' := by
  simp only [getInt, bind_returns, take_ok h.counted, refuse_returns, pure_returns, not_not]
  constructor
  · rintro ⟨raw, _, ⟨len, hraw, rfl⟩, _, _, ⟨range, rfl⟩, rfl, rfl⟩
    have below := Bytes.value_lt raw
    rw [len] at below
    have word : (UInt64.ofNat (Bytes.value raw)).toNat = Bytes.value raw :=
      UInt64.toNat_ofNat_of_lt' below
    refine ⟨.uint (UInt64.ofNat (Bytes.value raw)), ?_, ?_, rfl, ?_, few, rfl⟩
    · rw [lift, word]
    · rw [uint_fits good, word]
      exact range
    · rw [Value.wire, word, Bytes.little_of_length len]
      exact hraw
  · rintro ⟨v, rfl, fits, _, wire, _, rfl⟩
    cases v with
    | uint x =>
      rw [uint_fits good] at fits
      have word := @Bytes.value_little 8 _ x.toNat_lt
      refine ⟨_, _, ⟨Bytes.little_length 8 _, wire, rfl⟩, (), _, ⟨?_, rfl⟩, ?_, rfl⟩
      · rw [word]
        exact fits
      · rw [lift, word]
    | _ => exact fits.elim

theorem getBool_ok (h : r.Inside) (few : r.nodes + 1 ≤ 4096) :
    getBool path r.counted = .ok pv r' ↔
      ∃ v, pv = lift .bool v ∧ Takes (Node.bool.ty.Fits v) r v r' := by
  simp only [getBool, bind_returns, byte_ok h.counted, refuse_returns, pure_returns]
  constructor
  · rintro ⟨x, _, ⟨hx, rfl⟩, _, _, ⟨tag, rfl⟩, rfl, rfl⟩
    rw [UInt8.not_lt, UInt8.le_iff_toNat_le] at tag
    have cases : x = 0 ∨ x = 1 := by
      rcases Nat.le_one_iff_eq_zero_or_eq_one.mp tag with zero | one
      · exact .inl (UInt8.toNat_inj.mp zero)
      · exact .inr (UInt8.toNat_inj.mp one)
    rcases cases with rfl | rfl
    · exact ⟨.bool false, rfl, trivial, rfl, hx, few, rfl⟩
    · exact ⟨.bool true, rfl, trivial, rfl, hx, few, rfl⟩
  · rintro ⟨v, rfl, fits, _, wire, _, rfl⟩
    cases v with
    | bool x =>
      cases x with
      | false => exact ⟨0, _, ⟨wire, rfl⟩, (), _, ⟨by decide, rfl⟩, rfl, rfl⟩
      | true => exact ⟨1, _, ⟨wire, rfl⟩, (), _, ⟨by decide, rfl⟩, rfl, rfl⟩
    | _ => exact fits.elim

theorem getFloat_ok {allow : Bool} (h : r.Inside) (few : r.nodes + 1 ≤ 4096) :
    getFloat allow path r.counted = .ok pv r' ↔
      ∃ v, pv = lift (.float allow) v ∧ Takes ((Node.float allow).ty.Fits v) r v r' := by
  simp only [getFloat, bind_returns, take_ok h.counted, refuse_returns, pure_returns]
  constructor
  · rintro ⟨raw, _, ⟨len, hraw, rfl⟩, _, _, ⟨finite, rfl⟩, _, _, ⟨canonical, rfl⟩, rfl, rfl⟩
    have below := Bytes.value_lt raw
    rw [len] at below
    have word : (unpackFloat raw).bits.toNat = Bytes.value raw := UInt64.toNat_ofNat_of_lt' below
    refine ⟨.float (unpackFloat raw), rfl, ?_, ?_, ?_, few, rfl⟩
    · change allow = true ∨ (unpackFloat raw).isFinite = true
      cases allow <;> simp_all
    · rw [Value.canon]
      apply congrArg Value.float
      apply F64.canon_eq_self.mpr
      intro nan
      by_contra other
      apply canonical
      refine ⟨nan, ?_⟩
      intro same
      apply other
      rw [← word] at same
      exact congrArg F64.mk (UInt64.toNat_inj.mp same)
    · rw [Value.wire, word, Bytes.little_of_length len]
      exact hraw
  · rintro ⟨v, rfl, fits, canonical, wire, _, rfl⟩
    cases v with
    | float x =>
      rw [Value.canon, Value.float.injEq, F64.canon_eq_self] at canonical
      have word := @Bytes.value_little 8 _ x.bits.toNat_lt
      have same : unpackFloat (Bytes.little 8 x.bits.toNat) = x := by
        unfold unpackFloat
        rw [word, UInt64.ofNat_toNat]
      refine ⟨_, _, ⟨Bytes.little_length 8 _, wire, rfl⟩, (), _, ⟨?_, rfl⟩, (), _, ⟨?_, rfl⟩, ?_, rfl⟩
      · rw [same]
        rintro ⟨strict, infinite⟩
        have fits : allow = true ∨ x.isFinite = true := fits
        rw [strict, infinite] at fits
        simp at fits
      · rw [same, word]
        rintro ⟨nan, other⟩
        apply other
        rw [canonical nan]
      · rw [same, lift]
    | _ => exact fits.elim

theorem getRaw_ok {limit : ℕ} {b : List UInt8} (small : limit ≤ 2 ^ 20) (h : r.Inside) :
    getRaw limit path r = .ok b r' ↔
      b.length ≤ limit ∧ Value.sized b <+: r.rest ∧ r' = r.skip (Value.sized b).length := by
  simp only [getRaw, bind_returns, size_ok h, refuse_returns, Value.sized, append_isPrefix,
    List.length_append, Bytes.little_length]
  constructor
  · rintro ⟨n, _, ⟨_, hn, rfl⟩, _, _, ⟨few, rfl⟩, read⟩
    have inside : (r.skip 4).Inside := by
      simpa using h.skip hn
    obtain ⟨len, hb, rfl⟩ := (take_ok inside).mp read
    rw [rest_skip] at hb
    subst len
    exact ⟨Nat.not_lt.mp few, ⟨hn, hb⟩, skip_skip r 4 b.length⟩
  · rintro ⟨few, ⟨hn, hb⟩, rfl⟩
    have inside : (r.skip 4).Inside := by
      simpa using h.skip hn
    have measured : b.length < 2 ^ 32 := by omega
    refine ⟨b.length, r.skip 4, ⟨measured, hn, rfl⟩, (), r.skip 4, ⟨Nat.not_lt.mpr few, rfl⟩, ?_⟩
    apply (take_ok inside).mpr
    exact ⟨rfl, by rw [rest_skip]; exact hb, (skip_skip r 4 b.length).symm⟩

theorem getString_ok {limit : ℕ} (good : (Node.string limit).Good) (h : r.Inside)
    (few : r.nodes + 1 ≤ 4096) :
    getString limit path r.counted = .ok pv r' ↔
      ∃ v, pv = lift (.string limit) v ∧ Takes ((Node.string limit).ty.Fits v) r v r' := by
  simp only [getString, bind_returns, getRaw_ok good h.counted]
  constructor
  · rintro ⟨b, _, ⟨short, wire, rfl⟩, last⟩
    cases text : fromUtf8 b with
    | none =>
      rw [text] at last
      exact (throw_returns.mp last).elim
    | some t =>
      rw [text] at last
      obtain ⟨rfl, rfl⟩ := pure_returns.mp last
      have bytes := Reader.fromUtf8_eq_some.mp text
      subst bytes
      exact ⟨.string t, rfl, short, rfl, wire, few, rfl⟩
  · rintro ⟨v, rfl, fits, _, wire, _, rfl⟩
    cases v with
    | string t =>
      refine ⟨_, _, ⟨fits, wire, rfl⟩, ?_⟩
      rw [Reader.fromUtf8_eq_some.mpr rfl]
      exact pure_returns.mpr ⟨rfl, rfl⟩
    | _ => exact fits.elim

theorem getBytes_ok {limit : ℕ} (good : (Node.bytes limit).Good) (h : r.Inside)
    (few : r.nodes + 1 ≤ 4096) :
    getBytes limit path r.counted = .ok pv r' ↔
      ∃ v, pv = lift (.bytes limit) v ∧ Takes ((Node.bytes limit).ty.Fits v) r v r' := by
  simp only [getBytes, bind_returns, getRaw_ok good h.counted, pure_returns]
  constructor
  · rintro ⟨b, _, ⟨short, wire, rfl⟩, rfl, rfl⟩
    exact ⟨.bytes b, rfl, short, rfl, wire, few, rfl⟩
  · rintro ⟨v, rfl, fits, _, wire, _, rfl⟩
    cases v with
    | bytes b => exact ⟨b, _, ⟨fits, wire, rfl⟩, rfl, rfl⟩
    | _ => exact fits.elim

theorem getEnum_ok {classes : Classes} {typ : EnumClass} {name : String} {names : List String}
    (good : (Node.enum typ name names).Good) (plain : (Node.enum typ name names).Plain classes)
    (h : r.Inside) (few : r.nodes + 1 ≤ 4096) :
    getEnum classes typ names path r.counted = .ok pv r' ↔
      ∃ v, pv = lift (.enum typ name names) v ∧ Takes ((Node.enum typ name names).ty.Fits v) r v r' := by
  have count : names.length ≤ 256 := good.2.2.1
  simp only [getEnum, bind_returns, size_ok h.counted]
  constructor
  · rintro ⟨n, _, ⟨small, hn, rfl⟩, last⟩
    cases symbol : names[n]? with
    | none =>
      rw [symbol] at last
      exact (throw_returns.mp last).elim
    | some name' =>
      rw [symbol] at last
      obtain ⟨made, rfl⟩ := call_returns.mp last
      rw [plain name' (List.mem_of_getElem? symbol)] at made
      obtain rfl := Except.ok.inj made
      have word : (UInt32.ofNat n).toNat = n := UInt32.toNat_ofNat_of_lt' small
      obtain ⟨inRange, same⟩ := List.getElem?_eq_some_iff.mp symbol
      refine ⟨.enum (UInt32.ofNat n), ?_, ?_, rfl, ?_, few, rfl⟩
      · rw [lift, word, List.getD_eq_getElem?_getD, symbol]
        rfl
      · change (UInt32.ofNat n).toNat < names.length
        rw [word]
        exact inRange
      · rw [Value.wire, word]
        exact hn
  · rintro ⟨v, rfl, fits, _, wire, _, rfl⟩
    cases v with
    | enum x =>
      have inRange : x.toNat < names.length := fits
      refine ⟨x.toNat, _, ⟨x.toNat_lt, wire, rfl⟩, ?_⟩
      rw [List.getElem?_eq_getElem inRange]
      apply call_returns.mpr
      refine ⟨?_, rfl⟩
      rw [plain _ (List.getElem_mem inRange), lift, List.getD_eq_getElem?_getD, List.getElem?_eq_getElem inRange]
      rfl
    | _ => exact fits.elim

/-- The rounds of a sequence, by induction on their number. -/
theorem items_ok {item : ℕ → Get PyValue} {child : Node}
    (step : ∀ (i : ℕ) (r : PyReader) (pv : PyValue) (r' : PyReader), r.Inside →
      (item i r = .ok pv r' ↔ ∃ v, pv = lift child v ∧ Takes (child.ty.Fits v) r v r'))
    (n index : ℕ) {r r' : PyReader} {pvs : List PyValue} (h : r.Inside) (few : r.nodes ≤ 4096) :
    times item n index r = .ok pvs r' ↔
      ∃ xs, pvs = xs.map (lift child) ∧ xs.length = n ∧
        TakesAll (∀ x ∈ xs, child.ty.Fits x) r xs r' := by
  induction n generalizing index r pvs with
  | zero =>
    simp only [times, pure_returns]
    constructor
    · rintro ⟨rfl, rfl⟩
      refine ⟨[], rfl, rfl, (takesAll_nil few).mpr ⟨?_, rfl⟩⟩
      simp
    · rintro ⟨xs, rfl, len, taken⟩
      cases List.length_eq_zero_iff.mp len
      exact ⟨rfl, ((takesAll_nil few).mp taken).2⟩
  | succ n ih =>
    simp only [times, bind_returns, pure_returns]
    constructor
    · rintro ⟨pv, _, hx, pvs', _, hxs, rfl, rfl⟩
      obtain ⟨x, rfl, taken⟩ := (step index r pv _ h).mp hx
      have here := taken.2.2.2.2
      subst here
      obtain ⟨xs, rfl, len, all⟩ :=
        (ih (index + 1) (h.past taken.2.2.1) taken.2.2.2.1).mp hxs
      refine ⟨x :: xs, rfl, by rw [List.length_cons, len], ?_⟩
      rw [List.forall_mem_cons]
      exact takesAll_cons.mpr ⟨taken, all⟩
    · rintro ⟨xs, rfl, len, all⟩
      cases xs with
      | nil => cases len
      | cons x xs =>
        rw [List.forall_mem_cons] at all
        obtain ⟨hx, hxs⟩ := takesAll_cons.mp all
        have len' : xs.length = n := by
          rw [List.length_cons] at len
          omega
        exact ⟨lift child x, _, (step index r _ _ h).mpr ⟨x, rfl, hx⟩, xs.map (lift child), r',
          (ih (index + 1) (h.past hx.2.2.1) hx.2.2.2.1).mpr ⟨xs, rfl, len', hxs⟩, rfl, rfl⟩

theorem getOptional_ok {child : Node} {get : Get PyValue}
    (step : ∀ (r : PyReader) (pv : PyValue) (r' : PyReader), r.Inside →
      (get r = .ok pv r' ↔ ∃ v, pv = lift child v ∧ Takes (child.ty.Fits v) r v r'))
    (h : r.Inside) (few : r.nodes + 1 ≤ 4096) :
    getOptional get path r.counted = .ok pv r' ↔
      ∃ v, pv = lift (.optional child) v ∧ Takes ((Node.optional child).ty.Fits v) r v r' := by
  simp only [getOptional, bind_returns, byte_ok h.counted, refuse_returns]
  constructor
  · rintro ⟨tag, _, ⟨htag, rfl⟩, _, _, ⟨low, rfl⟩, last⟩
    split at last
    next zero =>
      obtain ⟨rfl, rfl⟩ := pure_returns.mp last
      subst zero
      exact ⟨.optional none, rfl, trivial, rfl, htag, few, rfl⟩
    next nonzero =>
      have one : tag = 1 := by
        rw [UInt8.not_lt, UInt8.le_iff_toNat_le] at low
        rcases Nat.le_one_iff_eq_zero_or_eq_one.mp low with zero | one
        · exact absurd (UInt8.toNat_inj.mp zero) nonzero
        · exact UInt8.toNat_inj.mp one
      subst one
      have inside : (r.counted.skip 1).Inside := h.counted.skip htag
      obtain ⟨x, rfl, fits, canonical, wire, room, rfl⟩ := (step _ _ _ inside).mp last
      rw [rest_skip, rest_counted] at wire
      rw [nodes_skip, nodes_counted] at room
      refine ⟨.optional (some x), by rw [lift], fits, by rw [Value.canon, canonical],
        append_isPrefix.mpr ⟨htag, wire⟩, ?_, ?_⟩
      · rw [Value.weight]
        omega
      · simp only [PyReader.past, PyReader.skip, counted, Value.wire, Value.weight,
          List.length_cons, PyReader.mk.injEq, true_and]
        omega
  · rintro ⟨v, rfl, fits, canonical, wire, room, rfl⟩
    cases v with
    | optional x =>
      cases x with
      | none =>
        refine ⟨0, _, ⟨wire, rfl⟩, (), _, ⟨by decide, rfl⟩, ?_⟩
        rw [if_pos rfl]
        exact pure_returns.mpr ⟨rfl, rfl⟩
      | some x =>
        have split : [1] ++ x.wire <+: r.rest := wire
        obtain ⟨htag, wire⟩ := append_isPrefix.mp split
        have inside : (r.counted.skip 1).Inside := h.counted.skip htag
        rw [Value.canon, Value.optional.injEq, Option.some.injEq] at canonical
        rw [Value.weight] at room
        refine ⟨1, _, ⟨htag, rfl⟩, (), _, ⟨by decide, rfl⟩, ?_⟩
        rw [if_neg (by decide)]
        apply (step _ _ _ inside).mpr
        refine ⟨x, by rw [lift], fits, canonical, ?_, ?_, ?_⟩
        · rw [rest_skip, rest_counted]
          exact wire
        · rw [nodes_skip, nodes_counted]
          omega
        · simp only [PyReader.past, PyReader.skip, counted, Value.wire, Value.weight,
            List.length_cons, PyReader.mk.injEq, true_and]
          omega
    | _ => exact fits.elim

theorem getSequence_ok {child : Node} {limit : ℕ} {item : Str → Get PyValue} (small : limit ≤ 4096)
    (step : ∀ (path : Str) (r : PyReader) (pv : PyValue) (r' : PyReader), r.Inside →
      (item path r = .ok pv r' ↔ ∃ v, pv = lift child v ∧ Takes (child.ty.Fits v) r v r'))
    (h : r.Inside) (few : r.nodes + 1 ≤ 4096) :
    getSequence limit item path r.counted = .ok pv r' ↔
      ∃ v, pv = lift (.sequence child limit) v ∧
        Takes ((Node.sequence child limit).ty.Fits v) r v r' := by
  have round := fun i => step (path ++ Str.of (indexName i))
  simp only [getSequence, bind_returns, size_ok h.counted, get_returns, refuse_returns,
    pure_returns]
  constructor
  · rintro ⟨n, _, ⟨_, hn, rfl⟩, _, _, ⟨rfl, rfl⟩, _, _, ⟨range, rfl⟩, pvs, _, items, rfl, rfl⟩
    have inside : (r.counted.skip 4).Inside := by
      simpa using h.counted.skip hn
    obtain ⟨xs, rfl, len, fits, canonical, wire, room, rfl⟩ :=
      (items_ok round n 0 inside few).mp items
    rw [not_or, Nat.not_lt] at range
    rw [rest_skip, rest_counted] at wire
    rw [nodes_skip, nodes_counted] at room
    subst len
    refine ⟨.sequence xs, by rw [lift], ⟨range.1, fits⟩, by rw [Value.canon, canonical], ?_, ?_, ?_⟩
    · apply append_isPrefix.mpr
      rw [Bytes.little_length]
      exact ⟨hn, wire⟩
    · rw [Value.weight]
      omega
    · simp only [PyReader.past, pastAll, PyReader.skip, counted, Value.wire, Value.weight,
        List.length_append, Bytes.little_length, PyReader.mk.injEq, true_and]
      omega
  · rintro ⟨v, rfl, fits, canonical, wire, room, rfl⟩
    cases v with
    | sequence xs =>
      have fits : xs.length ≤ limit ∧ ∀ x ∈ xs, child.ty.Fits x := fits
      have many := Value.length_le_weights xs
      obtain ⟨hn, wire⟩ := append_isPrefix.mp wire
      have inside : (r.counted.skip 4).Inside := by
        simpa using h.counted.skip hn
      have measured : xs.length < 2 ^ 32 := by omega
      rw [Value.canon, Value.sequence.injEq] at canonical
      rw [Value.weight] at room
      rw [Bytes.little_length] at wire
      refine ⟨xs.length, _, ⟨measured, hn, rfl⟩, _, _, ⟨rfl, rfl⟩, (), _, ⟨?_, rfl⟩,
        xs.map (lift child), (r.counted.skip 4).pastAll xs, ?_, by rw [lift], ?_⟩
      · rw [nodes_skip, nodes_counted]
        omega
      · apply (items_ok round xs.length 0 inside (by
          rw [nodes_skip, nodes_counted]
          omega)).mpr
        refine ⟨xs, rfl, rfl, fits.2, canonical, ?_, ?_, rfl⟩
        · rw [rest_skip, rest_counted]
          exact wire
        · rw [nodes_skip, nodes_counted]
          omega
      · simp only [PyReader.past, pastAll, PyReader.skip, counted, Value.wire, Value.weight,
          List.length_append, Bytes.little_length, PyReader.mk.injEq, true_and]
        omega
    | _ => exact fits.elim

/-! ## Along the tree -/

/-- Every node counts itself first, and every value has a node. -/
theorem counted_iff {n : Node} {run : Prop}
    (h : r.nodes + 1 ≤ 4096 → (run ↔ ∃ v, pv = lift n v ∧ Takes (n.ty.Fits v) r v r')) :
    (r.nodes + 1 ≤ 4096 ∧ run) ↔ ∃ v, pv = lift n v ∧ Takes (n.ty.Fits v) r v r' := by
  constructor
  · rintro ⟨few, hrun⟩
    exact (h few).mp hrun
  · rintro ⟨v, lifted, taken⟩
    have one := v.weight_pos
    have room := taken.2.2.2.1
    have few : r.nodes + 1 ≤ 4096 := by omega
    exact ⟨few, (h few).mpr ⟨v, lifted, taken⟩⟩

variable {classes : Classes}

mutual
/-- `_get` takes exactly the canonical bytes of the values that fit the node. -/
theorem getNode_ok : ∀ (n : Node) (path : Str) {r r' : PyReader} {pv : PyValue}, n.Good →
    n.Plain classes → r.Inside →
    (getNode classes n path r = .ok pv r' ↔ ∃ v, pv = lift n v ∧ Takes (n.ty.Fits v) r v r')
  | .int minimum maximum, path, r, r', pv, good, plain, h => by
    rw [getNode, noded_ok]
    exact counted_iff fun few => getInt_ok good h few
  | .uint minimum maximum, path, r, r', pv, good, plain, h => by
    rw [getNode, noded_ok]
    exact counted_iff fun few => getUint_ok good h few
  | .bool, path, r, r', pv, good, plain, h => by
    rw [getNode, noded_ok]
    exact counted_iff fun few => getBool_ok h few
  | .float allow, path, r, r', pv, good, plain, h => by
    rw [getNode, noded_ok]
    exact counted_iff fun few => getFloat_ok h few
  | .string limit, path, r, r', pv, good, plain, h => by
    rw [getNode, noded_ok]
    exact counted_iff fun few => getString_ok good h few
  | .bytes limit, path, r, r', pv, good, plain, h => by
    rw [getNode, noded_ok]
    exact counted_iff fun few => getBytes_ok good h few
  | .enum typ name names, path, r, r', pv, good, plain, h => by
    rw [getNode, noded_ok]
    exact counted_iff fun few => getEnum_ok good plain h few
  | .optional child, path, r, r', pv, good, plain, h => by
    rw [getNode, noded_ok]
    exact counted_iff fun few =>
      getOptional_ok (fun r pv r' inside => getNode_ok child path good.2 plain inside) h few
  | .sequence child limit, path, r, r', pv, good, plain, h => by
    rw [getNode, noded_ok]
    exact counted_iff fun few =>
      getSequence_ok good.1 (fun path r pv r' inside => getNode_ok child path good.2 plain inside) h few
  | .record typ name version args, path, r, r', pv, good, plain, h => by
    rw [getNode, noded_ok]
    apply counted_iff
    intro few
    simp only [bind_returns, call_returns]
    constructor
    · rintro ⟨attributes, _, hargs, made, rfl⟩
      obtain ⟨xs, rfl, fits, canonical, wire, room, rfl⟩ :=
        (getFields_ok args path good.2.2.2.2.2 plain.2 h.counted few).mp hargs
      rw [plain.1 _ (liftFields_names fits)] at made
      obtain rfl := Except.ok.inj made
      rw [nodes_counted] at room
      refine ⟨.record xs, by rw [lift], fits, by rw [Value.canon, canonical], wire, ?_, ?_⟩
      · rw [Value.weight]
        omega
      · simp only [PyReader.past, pastAll, counted, Value.wire, Value.weight, PyReader.mk.injEq,
          true_and]
        omega
    · rintro ⟨v, rfl, fits, canonical, wire, room, rfl⟩
      cases v with
      | record xs =>
        rw [Value.canon, Value.record.injEq] at canonical
        rw [Value.weight] at room
        have made := plain.1 _ (liftFields_names fits)
        refine ⟨liftFields args xs, r.counted.pastAll xs, ?_, by rw [made, lift], ?_⟩
        · apply (getFields_ok args path good.2.2.2.2.2 plain.2 h.counted few).mpr
          exact ⟨xs, rfl, fits, canonical, wire, by rw [nodes_counted]; omega, rfl⟩
        · simp only [PyReader.past, pastAll, counted, Value.wire, Value.weight, PyReader.mk.injEq,
            true_and]
          omega
      | _ => exact fits.elim

theorem getFields_ok : ∀ (args : List NodeField) (path : Str) {r r' : PyReader}
    {attributes : List Attribute}, FieldsGood args → FieldsPlain classes args → r.Inside →
    r.nodes ≤ 4096 →
    (getFields classes args path r = .ok attributes r' ↔
      ∃ xs, attributes = liftFields args xs ∧ TakesAll (FieldsFit (fieldTypes args) xs) r xs r')
  | [], path, r, r', attributes, _, _, h, few => by
    rw [getFields, pure_returns]
    constructor
    · rintro ⟨rfl, rfl⟩
      exact ⟨[], rfl, (takesAll_nil few).mpr ⟨trivial, rfl⟩⟩
    · rintro ⟨xs, rfl, taken⟩
      cases xs with
      | nil => exact ⟨rfl, ((takesAll_nil few).mp taken).2⟩
      | cons x xs => exact taken.1.elim
  | ⟨name, node⟩ :: args, path, r, r', attributes, good, plain, h, few => by
    rw [getFields]
    simp only [bind_returns, pure_returns]
    constructor
    · rintro ⟨pv, _, hx, rest, _, hxs, rfl, rfl⟩
      obtain ⟨x, rfl, taken⟩ := (getNode_ok node _ good.2.1 plain.1 h).mp hx
      have here := taken.2.2.2.2
      subst here
      obtain ⟨xs, rfl, all⟩ :=
        (getFields_ok args path good.2.2 plain.2 (h.past taken.2.2.1) taken.2.2.2.1).mp hxs
      exact ⟨x :: xs, by rw [liftFields], takesAll_cons.mpr ⟨taken, all⟩⟩
    · rintro ⟨xs, rfl, all⟩
      cases xs with
      | nil => exact all.1.elim
      | cons x xs =>
        obtain ⟨hx, hxs⟩ := takesAll_cons.mp all
        exact ⟨lift node x, _, (getNode_ok node _ good.2.1 plain.1 h).mpr ⟨x, rfl, hx⟩, liftFields args xs,
          r', (getFields_ok args path good.2.2 plain.2 (h.past hx.2.2.1) hx.2.2.2.1).mpr ⟨xs, rfl, hxs⟩,
          by rw [liftFields], rfl⟩
end

end Python
end Actorplane
