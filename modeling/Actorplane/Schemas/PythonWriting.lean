import Actorplane.Schemas.PythonReading

/-!
# What the Python writer accepts

Along a good node `_put` succeeds exactly on the Python values that stand for a
fitting native value, within the byte and node limits, and appends the
canonical bytes of that value.
-/

namespace Actorplane
namespace Python

open Stateful

/-! ## The native value of a Python value -/

def nativeInt : PyValue → Option Value
  | .int z => if -2 ^ 63 ≤ z ∧ z < 2 ^ 63 then some (.int (Int64.ofInt z)) else none
  | _ => none

def nativeUint : PyValue → Option Value
  | .int z => if 0 ≤ z ∧ z < 2 ^ 64 then some (.uint (UInt64.ofNat z.toNat)) else none
  | _ => none

def nativeBool : PyValue → Option Value
  | .bool b => some (.bool b)
  | _ => none

def nativeFloat : PyValue → Option Value
  | .float x => some (.float x)
  | _ => none

def nativeString : PyValue → Option Value
  | .str s => s.text.map .string
  | _ => none

def nativeBytes : PyValue → Option Value
  | .bytes b => some (.bytes b)
  | .bytearray b => some (.bytes b)
  | .memoryview b false => some (.bytes b)
  | _ => none

/-- A symbol stands for its index among the sorted symbols. -/
def nativeEnum (typ : EnumClass) (names : List String) : PyValue → Option Value
  | .enum typ' name =>
    if typ' = typ then (symbolIndex names name).map fun i => .enum (UInt32.ofNat i) else none
  | _ => none

def nativeOptional (child : PyValue → Option Value) : PyValue → Option Value
  | .none => some (.optional none)
  | value => (child value).map fun v => .optional (some v)

def nativeSequence (child : PyValue → Option Value) (value : PyValue) : Option Value :=
  match members value with
  | some xs => (xs.mapM child).map .sequence
  | none => none

def nativeRecord (typ : EventClass) (fields : List Attribute → Option (List Value)) :
    PyValue → Option Value
  | .event typ' attributes => if typ' = typ then (fields attributes).map .record else none
  | _ => none

mutual
/-- The native value a Python value stands for at a node, if there is one. -/
def native : Node → PyValue → Option Value
  | .int _ _, value => nativeInt value
  | .uint _ _, value => nativeUint value
  | .bool, value => nativeBool value
  | .float _, value => nativeFloat value
  | .string _, value => nativeString value
  | .bytes _, value => nativeBytes value
  | .enum typ _ names, value => nativeEnum typ names value
  | .optional child, value => nativeOptional (native child) value
  | .sequence child _, value => nativeSequence (native child) value
  | .record typ _ _ args, value => nativeRecord typ (nativeFields args) value

def nativeFields : List NodeField → List Attribute → Option (List Value)
  | [], _ => some []
  | ⟨name, node⟩ :: args, attributes =>
    (getattr name attributes).bind fun value => (native node value).bind fun v =>
      (nativeFields args attributes).map fun vs => v :: vs
end

theorem length_le_utf8Encode (l : List Char) : l.length ≤ l.utf8Encode.size := by
  induction l with
  | nil => exact Nat.zero_le _
  | cons c l ih =>
    have one : [c].utf8Encode.size = c.utf8Size := by
      rw [List.utf8Encode_singleton, List.size_toByteArray, String.length_utf8EncodeChar]
    have pos := c.utf8Size_pos
    rw [List.utf8Encode_cons, ByteArray.size_append, List.length_cons, one]
    omega

/-- A string has at least as many bytes as code points. -/
theorem Str.of_length_le (t : String) : (Str.of t).length ≤ t.utf8ByteSize := by
  have encoded := length_le_utf8Encode t.toList
  rw [String.utf8Encode_toList] at encoded
  rw [Str.of, List.length_map]
  exact encoded

namespace Writer

def adding (w : Writer) (b : List UInt8) : Writer := { w with data := w.data ++ b }

def counted (w : Writer) : Writer := { w with nodes := w.nodes + 1 }

/-- The writer after a value. -/
def past (w : Writer) (v : Value) : Writer :=
  ⟨w.data ++ v.canon.wire, w.limit, w.nodes + v.weight⟩

/-- The writer after a list of values. -/
def pastAll (w : Writer) (xs : List Value) : Writer :=
  ⟨w.data ++ Value.wires (Value.canons xs), w.limit, w.nodes + Value.weights xs⟩

/-- What has been written is within the limit, and the limit within 1 MiB. -/
def Within (w : Writer) : Prop := w.data.length ≤ w.limit ∧ w.limit ≤ 2 ^ 20

/-- What a successful write of one value comes to. -/
def Puts (fits : Prop) (w : Writer) (v : Value) (w' : Writer) : Prop :=
  fits ∧ w.nodes + v.weight ≤ 4096 ∧ w.data.length + v.canon.wire.length ≤ w.limit ∧ w' = w.past v

/-- What a successful write of several values comes to. -/
def PutsAll (fits : Prop) (w : Writer) (xs : List Value) (w' : Writer) : Prop :=
  fits ∧ w.nodes + Value.weights xs ≤ 4096 ∧
    w.data.length + (Value.wires (Value.canons xs)).length ≤ w.limit ∧ w' = w.pastAll xs

variable {w w' : Writer} {path : Str} {u : Unit}

@[simp] theorem adding_length (w : Writer) (b : List UInt8) :
    (w.adding b).data.length = w.data.length + b.length := List.length_append

@[simp] theorem adding_limit (w : Writer) (b : List UInt8) : (w.adding b).limit = w.limit := rfl

@[simp] theorem adding_nodes (w : Writer) (b : List UInt8) : (w.adding b).nodes = w.nodes := rfl

@[simp] theorem counted_data (w : Writer) : w.counted.data = w.data := rfl

@[simp] theorem counted_limit (w : Writer) : w.counted.limit = w.limit := rfl

@[simp] theorem counted_nodes (w : Writer) : w.counted.nodes = w.nodes + 1 := rfl

theorem Within.counted (h : w.Within) : w.counted.Within := h

theorem Within.adding {b : List UInt8} (h : w.Within) (room : w.data.length + b.length ≤ w.limit) :
    (w.adding b).Within := by
  refine ⟨?_, h.2⟩
  rw [adding_length]
  exact room

theorem Within.past {v : Value} (h : w.Within)
    (room : w.data.length + v.canon.wire.length ≤ w.limit) : (w.past v).Within := h.adding room

theorem pastAll_nil (w : Writer) : w.pastAll [] = w := by
  simp [pastAll, Value.canons, Value.wires, Value.weights]

theorem pastAll_cons (w : Writer) (x : Value) (xs : List Value) :
    w.pastAll (x :: xs) = (w.past x).pastAll xs := by
  simp only [pastAll, past, Value.canons, Value.wires, Value.weights, List.append_assoc,
    Nat.add_assoc]

theorem putsAll_nil {fits : Prop} (few : w.nodes ≤ 4096) (h : w.Within) :
    PutsAll fits w [] w' ↔ fits ∧ w' = w := by
  unfold PutsAll
  rw [pastAll_nil]
  simp [Value.canons, Value.wires, Value.weights, few, h.1]

theorem putsAll_cons {p q : Prop} {x : Value} {xs : List Value} :
    PutsAll (p ∧ q) w (x :: xs) w' ↔
      Puts p w x (w.past x) ∧ PutsAll q (w.past x) xs w' := by
  have nodes : (w.past x).nodes = w.nodes + x.weight := rfl
  have data : (w.past x).data.length = w.data.length + x.canon.wire.length := List.length_append
  have limit : (w.past x).limit = w.limit := rfl
  unfold PutsAll Puts
  rw [pastAll_cons, Value.canons, Value.wires, Value.weights, List.length_append, nodes, data, limit]
  constructor
  · rintro ⟨⟨hp, hq⟩, few, room, rfl⟩
    exact ⟨⟨hp, by omega, by omega, rfl⟩, hq, by omega, by omega, rfl⟩
  · rintro ⟨⟨hp, _, _, _⟩, hq, few, room, rfl⟩
    exact ⟨⟨hp, hq⟩, by omega, by omega, rfl⟩

/-! ## Primitive writes -/

theorem require_ok {size : ℕ} :
    require size path w = .ok u w' ↔ w.data.length + size ≤ w.limit ∧ w' = w := by
  simp only [require, bind_returns, get_returns, refuse_returns]
  constructor
  · rintro ⟨_, _, ⟨rfl, rfl⟩, room, rfl⟩
    exact ⟨by omega, rfl⟩
  · rintro ⟨room, rfl⟩
    exact ⟨w', w', ⟨rfl, rfl⟩, by omega, rfl⟩

theorem add_ok {b : List UInt8} :
    add b path w = .ok u w' ↔ w.data.length + b.length ≤ w.limit ∧ w' = w.adding b := by
  simp only [add, bind_returns, require_ok, modify_returns]
  constructor
  · rintro ⟨_, _, ⟨room, rfl⟩, rfl⟩
    exact ⟨room, rfl⟩
  · rintro ⟨room, rfl⟩
    exact ⟨(), w, ⟨room, rfl⟩, rfl⟩

theorem addSize_ok {n : ℕ} :
    addPacked (packSize n) path w = .ok u w' ↔
      n < 2 ^ 32 ∧ w.data.length + 4 ≤ w.limit ∧ w' = w.adding (Bytes.little 4 n) := by
  unfold packSize
  split
  next small =>
    rw [addPacked, add_ok, Bytes.little_length]
    exact (and_iff_right small).symm
  next large =>
    constructor
    · intro written
      exact (throw_returns.mp written).elim
    · rintro ⟨small, _⟩
      exact absurd small large

theorem node_ok : node path w = .ok u w' ↔ w.nodes + 1 ≤ 4096 ∧ w' = w.counted := by
  simp only [node, bind_returns, get_returns, modify_returns, refuse_returns, Nat.not_lt]
  constructor
  · rintro ⟨_, _, rfl, _, _, ⟨rfl, rfl⟩, few, rfl⟩
    exact ⟨few, rfl⟩
  · rintro ⟨few, rfl⟩
    exact ⟨⟨⟩, _, rfl, _, _, ⟨rfl, rfl⟩, few, rfl⟩

theorem noded_ok {f : Put} :
    (do
      node path
      f) w = .ok u w' ↔ w.nodes + 1 ≤ 4096 ∧ f w.counted = .ok u w' := by
  simp only [bind_returns, node_ok]
  constructor
  · rintro ⟨_, _, ⟨few, rfl⟩, hf⟩
    exact ⟨few, hf⟩
  · rintro ⟨few, hf⟩
    exact ⟨(), _, ⟨few, rfl⟩, hf⟩

theorem refused_ok {bad : Prop} [Decidable bad] {e : PyError} {f : Put} :
    (do
      refuse bad e
      f) w = .ok u w' ↔ ¬bad ∧ f w = .ok u w' := by
  simp only [bind_returns, refuse_returns]
  constructor
  · rintro ⟨_, _, ⟨fine, rfl⟩, hf⟩
    exact ⟨fine, hf⟩
  · rintro ⟨fine, hf⟩
    exact ⟨(), w, ⟨fine, rfl⟩, hf⟩

/-- A value of one node whose bytes are `b`. -/
theorem leaf_puts {fits : Prop} {v : Value} {b : List UInt8} (one : v.weight = 1)
    (bytes : v.canon.wire = b) :
    (w.nodes + 1 ≤ 4096 ∧ fits ∧ add b path w.counted = .ok u w') ↔ Puts fits w v w' := by
  rw [add_ok]
  unfold Puts past
  rw [one, bytes]
  constructor
  · rintro ⟨few, fit, room, rfl⟩
    exact ⟨fit, few, room, rfl⟩
  · rintro ⟨fit, few, room, rfl⟩
    exact ⟨few, fit, room, rfl⟩

/-- What a successful write of a Python value at a node comes to. -/
def Stands (n : Node) (value : PyValue) (w w' : Writer) : Prop :=
  ∃ v, native n value = some v ∧ Puts (n.ty.Fits v) w v w'

/-- Nothing is written for a value without a native one. -/
theorem refuses {n : Node} {value : PyValue} {e : PyError} (missing : native n value = none) :
    (w.nodes + 1 ≤ 4096 ∧ (throw e : Put) w.counted = .ok u w') ↔ Stands n value w w' := by
  unfold Stands
  rw [missing]
  simp only [throw_returns, and_false, reduceCtorEq, false_and, exists_false]

/-- The value at hand has exactly one native value. -/
theorem stands_iff {n : Node} {value : PyValue} {v : Value} (found : native n value = some v) :
    Stands n value w w' ↔ Puts (n.ty.Fits v) w v w' := by
  unfold Stands
  rw [found]
  simp only [Option.some.injEq, exists_eq_left']

/-! ## Numbers, symbols, strings and buffers -/

theorem putInt_ok {minimum maximum : ℤ} (good : (Node.int minimum maximum).Good)
    (value : PyValue) :
    (w.nodes + 1 ≤ 4096 ∧ putInt minimum maximum packSigned value path w.counted = .ok u w') ↔
      Stands (.int minimum maximum) value w w' := by
  obtain ⟨low, ordered, high⟩ := id good
  cases value with
  | int z =>
    rw [putInt, refused_ok, not_not]
    by_cases range : -2 ^ 63 ≤ z ∧ z < 2 ^ 63
    · have found : native (.int minimum maximum) (.int z) = some (.int (Int64.ofInt z)) :=
        if_pos range
      have exact64 : (Int64.ofInt z).toInt = z := Int64.toInt_ofInt_of_le range.1 range.2
      rw [stands_iff found, int_fits good, exact64, packSigned_eq range.1 range.2]
      exact leaf_puts rfl rfl
    · have missing : native (.int minimum maximum) (.int z) = none := if_neg range
      rw [← @refuses w w' u _ _ PyError.struct missing, throw_returns]
      constructor
      · rintro ⟨_, fits, _⟩
        omega
      · rintro ⟨_, impossible⟩
        exact impossible.elim
  | _ => exact refuses rfl

theorem putUint_ok {minimum maximum : ℤ} (good : (Node.uint minimum maximum).Good)
    (value : PyValue) :
    (w.nodes + 1 ≤ 4096 ∧ putInt minimum maximum packUnsigned value path w.counted = .ok u w') ↔
      Stands (.uint minimum maximum) value w w' := by
  obtain ⟨low, ordered, high⟩ := id good
  cases value with
  | int z =>
    rw [putInt, refused_ok, not_not]
    by_cases range : 0 ≤ z ∧ z < 2 ^ 64
    · have found : native (.uint minimum maximum) (.int z) = some (.uint (UInt64.ofNat z.toNat)) :=
        if_pos range
      have word : (UInt64.ofNat z.toNat).toNat = z.toNat :=
        UInt64.toNat_ofNat_of_lt' (by
          change z.toNat < 2 ^ 64
          omega)
      have exact64 : ((UInt64.ofNat z.toNat).toNat : ℤ) = z := by
        rw [word]
        omega
      rw [stands_iff found, uint_fits good, exact64, packUnsigned_eq range.1 range.2]
      exact leaf_puts rfl rfl
    · have missing : native (.uint minimum maximum) (.int z) = none := if_neg range
      rw [← @refuses w w' u _ _ PyError.struct missing, throw_returns]
      constructor
      · rintro ⟨_, fits, _⟩
        omega
      · rintro ⟨_, impossible⟩
        exact impossible.elim
  | _ => exact refuses rfl

theorem putBool_ok (value : PyValue) :
    (w.nodes + 1 ≤ 4096 ∧ putBool value path w.counted = .ok u w') ↔ Stands .bool value w w' := by
  cases value with
  | bool b =>
    have found : native .bool (.bool b) = some (.bool b) := rfl
    rw [putBool, stands_iff found, ← @leaf_puts w w' path u _ _ _ rfl rfl]
    exact and_congr_right fun _ => (and_iff_right trivial).symm
  | _ => exact refuses rfl

theorem putFloat_ok {allow : Bool} (value : PyValue) :
    (w.nodes + 1 ≤ 4096 ∧ putFloat allow value path w.counted = .ok u w') ↔
      Stands (.float allow) value w w' := by
  cases value with
  | float x =>
    have found : native (.float allow) (.float x) = some (.float x) := rfl
    have fits : ¬(allow = false ∧ x.isFinite = false) ↔ (Node.float allow).ty.Fits (.float x) := by
      change _ ↔ allow = true ∨ x.isFinite = true
      cases allow <;> simp
    have bits : (if x.isNan then F64.canonicalNan.bits else x.bits) = x.canon.bits := by
      unfold F64.canon
      split <;> rfl
    simp only [putFloat, refused_ok, bits, fits]
    rw [stands_iff found]
    exact leaf_puts rfl rfl
  | _ => exact refuses rfl

theorem putEnum_ok {typ : EnumClass} {name : String} {names : List String}
    (good : (Node.enum typ name names).Good) (value : PyValue) :
    (w.nodes + 1 ≤ 4096 ∧ putEnum typ names value path w.counted = .ok u w') ↔
      Stands (.enum typ name names) value w w' := by
  have few : names.length ≤ 256 := good.2.2.1
  cases value with
  | enum typ' symbol =>
    rw [putEnum]
    by_cases same : typ' = typ
    · rw [if_pos same]
      cases index : symbolIndex names symbol with
      | none =>
        have missing : native (.enum typ name names) (.enum typ' symbol) = none := by
          rw [native, nativeEnum, if_pos same, index]
          rfl
        exact refuses missing
      | some i =>
        have found : native (.enum typ name names) (.enum typ' symbol) =
            some (.enum (UInt32.ofNat i)) := by
          rw [native, nativeEnum, if_pos same, index]
          rfl
        have inRange : i < names.length := by
          unfold symbolIndex at index
          split at index
          next => exact (List.findIdx?_eq_some_iff_getElem.mp index).1
          next => cases index
        have small : i < 2 ^ 32 := by omega
        have word : (UInt32.ofNat i).toNat = i := UInt32.toNat_ofNat_of_lt' small
        have fits : (Node.enum typ name names).ty.Fits (.enum (UInt32.ofNat i)) := by
          change (UInt32.ofNat i).toNat < names.length
          rw [word]
          exact inRange
        have bytes : (Value.enum (UInt32.ofNat i)).canon.wire = Bytes.little 4 i := by
          change Bytes.little 4 (UInt32.ofNat i).toNat = _
          rw [word]
        have packed := @addSize_ok w.counted w' path u i
        have added := @add_ok w.counted w' path u (Bytes.little 4 i)
        rw [Bytes.little_length] at added
        dsimp only
        rw [stands_iff found, ← @leaf_puts w w' path u _ _ _ rfl bytes, packed, ← added,
          and_iff_right small]
        exact and_congr_right fun _ => (and_iff_right fits).symm
    · rw [if_neg same]
      have missing : native (.enum typ name names) (.enum typ' symbol) = none := by
        rw [native, nativeEnum, if_neg same]
      exact refuses missing
  | _ => exact refuses rfl

/-- A length and that many bytes. -/
theorem putRaw_ok {limit : ℤ} {b : List UInt8} (h : w.Within) :
    putRaw limit b path w = .ok u w' ↔
      b.length ≤ limit ∧ w.data.length + (Value.sized b).length ≤ w.limit ∧
        w' = w.adding (Value.sized b) := by
  have most := h.2
  rw [putRaw, refused_ok, Int.not_lt, bind_returns, Value.sized, List.length_append,
    Bytes.little_length]
  apply and_congr_right
  intro _
  constructor
  · rintro ⟨_, _, first, last⟩
    obtain ⟨_, _, rfl⟩ := addSize_ok.mp first
    obtain ⟨room, rfl⟩ := add_ok.mp last
    rw [adding_length, adding_limit, Bytes.little_length] at room
    refine ⟨by omega, ?_⟩
    simp only [adding, List.append_assoc]
  · rintro ⟨room, rfl⟩
    have measured : b.length < 2 ^ 32 := by omega
    have first : w.data.length + 4 ≤ w.limit := by omega
    refine ⟨(), _, addSize_ok.mpr ⟨measured, first, rfl⟩, ?_⟩
    apply add_ok.mpr
    rw [adding_length, adding_limit, Bytes.little_length]
    refine ⟨by omega, ?_⟩
    simp only [adding, List.append_assoc]

/-- The limit at hand is never below zero: the room for the length has been required. -/
theorem fieldLimit_ok {limit : ℕ} {f : ℤ → Put} :
    fieldLimit limit path f w = .ok u w' ↔
      w.data.length + 4 ≤ w.limit ∧
        f (min (limit : ℤ) ((w.limit : ℤ) - w.data.length - 4)) w = .ok u w' := by
  simp only [fieldLimit, bind_returns, require_ok, get_returns]
  constructor
  · rintro ⟨_, _, ⟨room, rfl⟩, _, _, ⟨rfl, rfl⟩, hf⟩
    exact ⟨room, hf⟩
  · rintro ⟨room, hf⟩
    exact ⟨(), w, ⟨room, rfl⟩, w, w, ⟨rfl, rfl⟩, hf⟩

/-- A value of one node whose bytes are `b` under their length; a stricter test of the same
limit, made before, changes nothing. -/
theorem sized_puts {limit : ℕ} {v : Value} {b : List UInt8} {early : ℤ → Prop} (h : w.Within)
    (one : v.weight = 1) (bytes : v.canon.wire = Value.sized b)
    (weaker : ∀ limit : ℤ, b.length ≤ limit → early limit) :
    (w.nodes + 1 ≤ 4096 ∧ w.counted.data.length + 4 ≤ w.counted.limit ∧
      early (min (limit : ℤ) ((w.counted.limit : ℤ) - w.counted.data.length - 4)) ∧
      putRaw (min (limit : ℤ) ((w.counted.limit : ℤ) - w.counted.data.length - 4)) b path
        w.counted = .ok u w') ↔ Puts (b.length ≤ limit) w v w' := by
  have size : (Value.sized b).length = 4 + b.length := by
    rw [Value.sized, List.length_append, Bytes.little_length]
  rw [putRaw_ok h.counted]
  unfold Puts past
  rw [one, bytes, size]
  simp only [counted_data, counted_limit]
  constructor
  · rintro ⟨few, _, _, short, room, rfl⟩
    exact ⟨by omega, few, room, rfl⟩
  · rintro ⟨short, few, room, rfl⟩
    have least : (b.length : ℤ) ≤ min (limit : ℤ) ((w.limit : ℤ) - w.data.length - 4) := by
      omega
    exact ⟨few, by omega, weaker _ least, least, room, rfl⟩

theorem putString_ok {limit : ℕ} (h : w.Within) (value : PyValue) :
    (w.nodes + 1 ≤ 4096 ∧ putString limit value path w.counted = .ok u w') ↔
      Stands (.string limit) value w w' := by
  rw [putString, fieldLimit_ok]
  cases value with
  | str s =>
    dsimp only
    rw [refused_ok, Int.not_lt]
    cases valid : s.text with
    | none =>
      have missing : native (.string limit) (.str s) = none := by
        rw [native, nativeString, valid]
        rfl
      rw [← @refuses w w' u _ _ PyError.struct missing]
      simp only [throw_returns, and_false]
    | some t =>
      have found : native (.string limit) (.str s) = some (.string t) := by
        rw [native, nativeString, valid]
        rfl
      have whole := Str.text_eq_some.mp valid
      have shorter := Str.of_length_le t
      rw [stands_iff found]
      dsimp only
      apply sized_puts h rfl rfl
      intro limit small
      rw [whole]
      have same : t.toByteArray.data.toList.length = t.utf8ByteSize := rfl
      omega
  | _ =>
    rw [← @refuses w w' u _ _ PyError.struct rfl]
    simp only [throw_returns, and_false]

/-- The buffers are written like the bytes they hold. -/
theorem putBuffer_ok {limit : ℕ} {b : List UInt8} (h : w.Within) :
    (w.nodes + 1 ≤ 4096 ∧ w.counted.data.length + 4 ≤ w.counted.limit ∧
      putBuffer (min (limit : ℤ) ((w.counted.limit : ℤ) - w.counted.data.length - 4)) b path
        w.counted = .ok u w') ↔ Puts ((Node.bytes limit).ty.Fits (.bytes b)) w (.bytes b) w' := by
  rw [putBuffer, refused_ok, Int.not_lt]
  apply sized_puts h rfl rfl
  intro limit small
  exact small

theorem putBytes_ok {limit : ℕ} (h : w.Within) (value : PyValue) :
    (w.nodes + 1 ≤ 4096 ∧ putBytes limit value path w.counted = .ok u w') ↔
      Stands (.bytes limit) value w w' := by
  rw [putBytes, fieldLimit_ok]
  cases value with
  | bytes b =>
    have found : native (.bytes limit) (.bytes b) = some (.bytes b) := rfl
    rw [stands_iff found]
    exact putBuffer_ok h
  | bytearray b =>
    have found : native (.bytes limit) (.bytearray b) = some (.bytes b) := rfl
    rw [stands_iff found]
    exact putBuffer_ok h
  | memoryview b released =>
    dsimp only
    rw [refused_ok]
    cases released with
    | false =>
      have found : native (.bytes limit) (.memoryview b false) = some (.bytes b) := rfl
      rw [stands_iff found, and_iff_right Bool.false_ne_true]
      exact putBuffer_ok h
    | true =>
      rw [← @refuses w w' u _ _ PyError.struct rfl]
      simp only [not_true_eq_false, false_and, and_false, throw_returns]
  | _ =>
    rw [← @refuses w w' u _ _ PyError.struct rfl]
    simp only [throw_returns, and_false]

/-! ## Along the tree -/

theorem putOptional_ok {child : Node} {write : PyValue → Put}
    (step : ∀ (value : PyValue) (w w' : Writer), w.Within →
      (write value w = .ok u w' ↔ Stands child value w w'))
    (h : w.Within) (value : PyValue) :
    (w.nodes + 1 ≤ 4096 ∧ putOptional write value path w.counted = .ok u w') ↔
      Stands (.optional child) value w w' := by
  by_cases absent : value = .none
  · subst absent
    have found : native (.optional child) .none = some (.optional none) := rfl
    rw [putOptional, stands_iff found, ← @leaf_puts w w' path u _ _ _ rfl rfl]
    exact and_congr_right fun _ => (and_iff_right trivial).symm
  · have tagged : putOptional write value path = (do
        add [1] path
        write value) := by
      cases value with
      | none => exact absurd rfl absent
      | _ => rfl
    have natives : native (.optional child) value =
        (native child value).map fun v => .optional (some v) := by
      cases value with
      | none => exact absurd rfl absent
      | _ => rfl
    rw [tagged, bind_returns]
    unfold Stands
    rw [natives]
    simp only [add_ok, Option.map_eq_some_iff]
    constructor
    · rintro ⟨_, _, _, ⟨room, rfl⟩, written⟩
      obtain ⟨v, found, fits, few, last, rfl⟩ := (step value _ _ (h.counted.adding room)).mp written
      rw [adding_nodes, counted_nodes] at few
      rw [adding_length, adding_limit, counted_data, counted_limit, List.length_singleton] at last
      refine ⟨.optional (some v), ⟨v, found, rfl⟩, fits, ?_, ?_, ?_⟩
      · rw [Value.weight]
        omega
      · rw [Value.canon, Value.wire, List.length_cons]
        omega
      · simp only [past, adding, counted, Value.canon, Value.wire, Value.weight, List.append_assoc,
          List.singleton_append, Nat.add_assoc]
    · rintro ⟨_, ⟨v, found, rfl⟩, fits, few, room, rfl⟩
      rw [Value.weight] at few
      rw [Value.canon, Value.wire, List.length_cons] at room
      have pos := v.weight_pos
      have tag : w.counted.data.length + [(1 : UInt8)].length ≤ w.counted.limit := by
        rw [counted_data, counted_limit, List.length_singleton]
        omega
      refine ⟨by omega, (), _, ⟨tag, rfl⟩, ?_⟩
      apply (step value _ _ (h.counted.adding tag)).mpr
      refine ⟨v, found, fits, ?_, ?_, ?_⟩
      · rw [adding_nodes, counted_nodes]
        omega
      · rw [adding_length, adding_limit, counted_data, counted_limit, List.length_singleton]
        omega
      · simp only [past, adding, counted, Value.canon, Value.wire, Value.weight, List.append_assoc,
          List.singleton_append, Nat.add_assoc]

/-- The members of a sequence, by induction on the list. -/
theorem each_ok {item : ℕ → PyValue → Put} {child : Node}
    (step : ∀ (i : ℕ) (value : PyValue) (w w' : Writer), w.Within →
      (item i value w = .ok u w' ↔ Stands child value w w'))
    (pvs : List PyValue) (index : ℕ) {w w' : Writer} (h : w.Within) (few : w.nodes ≤ 4096) :
    each item pvs index w = .ok u w' ↔
      ∃ xs, pvs.mapM (native child) = some xs ∧ PutsAll (∀ x ∈ xs, child.ty.Fits x) w xs w' := by
  induction pvs generalizing index w with
  | nil =>
    rw [each, pure_returns, List.mapM_nil]
    constructor
    · rintro ⟨_, rfl⟩
      exact ⟨[], rfl, (putsAll_nil few h).mpr ⟨by simp, rfl⟩⟩
    · rintro ⟨xs, found, written⟩
      cases found
      exact ⟨rfl, ((putsAll_nil few h).mp written).2⟩
  | cons pv pvs ih =>
    rw [each, bind_returns, List.mapM_cons]
    constructor
    · rintro ⟨⟨⟩, _, first, last⟩
      obtain ⟨x, found, put⟩ := (step index pv w _ h).mp first
      have here := put.2.2.2
      subst here
      obtain ⟨xs, founds, puts⟩ := (ih (index + 1) (h.past put.2.2.1) put.2.1).mp last
      refine ⟨x :: xs, by rw [found, founds]; rfl, ?_⟩
      rw [List.forall_mem_cons]
      exact putsAll_cons.mpr ⟨put, puts⟩
    · rintro ⟨_, founds, puts⟩
      simp only [Option.bind_eq_bind, Option.bind_eq_some_iff, Option.pure_def,
        Option.some.injEq] at founds
      obtain ⟨x, found, xs, others, rfl⟩ := founds
      rw [List.forall_mem_cons] at puts
      obtain ⟨put, rest⟩ := putsAll_cons.mp puts
      exact ⟨(), _, (step index pv w _ h).mpr ⟨x, found, put⟩,
        (ih (index + 1) (h.past put.2.2.1) put.2.1).mpr ⟨xs, others, rest⟩⟩

theorem past_sequence {xs : List Value} :
    w.past (.sequence xs) = (w.counted.adding (Bytes.little 4 xs.length)).pastAll xs := by
  simp only [past, pastAll, adding, counted, Value.canon, Value.wire, Value.weight,
    Value.canons_length, List.append_assoc, Nat.add_assoc]

theorem mapM_length {child : PyValue → Option Value} {pvs : List PyValue} {xs : List Value}
    (h : pvs.mapM child = some xs) : xs.length = pvs.length := by
  induction pvs generalizing xs with
  | nil =>
    rw [List.mapM_nil] at h
    cases h
    rfl
  | cons pv pvs ih =>
    rw [List.mapM_cons] at h
    simp only [Option.bind_eq_bind, Option.bind_eq_some_iff, Option.pure_def,
      Option.some.injEq] at h
    obtain ⟨_, _, ys, others, rfl⟩ := h
    rw [List.length_cons, List.length_cons, ih others]

theorem putSequence_ok {child : Node} {limit : ℕ} {item : Str → PyValue → Put} (small : limit ≤ 4096)
    (step : ∀ (path : Str) (value : PyValue) (w w' : Writer), w.Within →
      (item path value w = .ok u w' ↔ Stands child value w w'))
    (h : w.Within) (value : PyValue) :
    (w.nodes + 1 ≤ 4096 ∧ putSequence limit item value path w.counted = .ok u w') ↔
      Stands (.sequence child limit) value w w' := by
  have round := fun i => step (path ++ Str.of (indexName i))
  rw [putSequence]
  cases listed : members value with
  | none =>
    have missing : native (.sequence child limit) value = none := by
      rw [native, nativeSequence, listed]
    exact refuses missing
  | some pvs =>
    have natives : native (.sequence child limit) value =
        (pvs.mapM (native child)).map .sequence := by
      rw [native, nativeSequence, listed]
    dsimp only
    unfold Stands
    rw [natives, refused_ok]
    simp only [bind_returns, get_returns, refuse_returns, addSize_ok, Option.map_eq_some_iff,
      Nat.not_lt]
    constructor
    · rintro ⟨few, short, _, _, ⟨rfl, rfl⟩, _, _, ⟨left, rfl⟩, _, _, ⟨_, room, rfl⟩, items⟩
      have within : (w.counted.adding (Bytes.little 4 pvs.length)).Within :=
        h.counted.adding (by rw [Bytes.little_length]; exact room)
      obtain ⟨xs, found, fits, few, last, rfl⟩ := (each_ok round pvs 0 within few).mp items
      have len := mapM_length found
      rw [adding_nodes, counted_nodes] at few
      rw [adding_length, adding_limit, counted_data, counted_limit, Bytes.little_length] at last
      refine ⟨.sequence xs, ⟨xs, found, rfl⟩, ⟨by rw [len]; exact short, fits⟩, ?_, ?_, ?_⟩
      · rw [Value.weight]
        omega
      · rw [Value.canon, Value.wire, Value.canons_length, List.length_append, Bytes.little_length]
        omega
      · rw [past_sequence, len]
    · rintro ⟨_, ⟨xs, found, rfl⟩, ⟨short, fits⟩, few, room, rfl⟩
      have len := mapM_length found
      have many := Value.length_le_weights xs
      rw [len] at short
      rw [Value.weight] at few
      rw [Value.canon, Value.wire, Value.canons_length, List.length_append, Bytes.little_length]
        at room
      have tag : w.counted.data.length + 4 ≤ w.counted.limit := by
        rw [counted_data, counted_limit]
        omega
      have within : (w.counted.adding (Bytes.little 4 pvs.length)).Within :=
        h.counted.adding (by rw [Bytes.little_length]; exact tag)
      refine ⟨by omega, short, _, _, ⟨rfl, rfl⟩, (), _, ⟨?_, rfl⟩, (), _, ⟨by omega, tag, rfl⟩, ?_⟩
      · rw [counted_nodes]
        omega
      · apply (each_ok round pvs 0 within (by
          rw [adding_nodes, counted_nodes]
          omega)).mpr
        refine ⟨xs, found, fits, ?_, ?_, ?_⟩
        · rw [adding_nodes, counted_nodes]
          omega
        · rw [adding_length, adding_limit, counted_data, counted_limit, Bytes.little_length]
          omega
        · rw [past_sequence, len]

theorem past_record {xs : List Value} : w.past (.record xs) = w.counted.pastAll xs := by
  simp only [past, pastAll, counted, Value.canon, Value.wire, Value.weight, Nat.add_assoc]

theorem putRecord_ok {typ : EventClass} {name : String} {version : ℕ} {args : List NodeField}
    {write : List Attribute → Put}
    (step : ∀ (attributes : List Attribute) (w w' : Writer), w.Within → w.nodes ≤ 4096 →
      (write attributes w = .ok u w' ↔ ∃ xs, nativeFields args attributes = some xs ∧
        PutsAll (FieldsFit (fieldTypes args) xs) w xs w'))
    (h : w.Within) (value : PyValue) :
    (w.nodes + 1 ≤ 4096 ∧ putRecord typ write value path w.counted = .ok u w') ↔
      Stands (.record typ name version args) value w w' := by
  cases value with
  | event typ' attributes =>
    rw [putRecord]
    by_cases same : typ' = typ
    · have natives : native (.record typ name version args) (.event typ' attributes) =
          (nativeFields args attributes).map .record := by
        rw [native, nativeRecord, if_pos same]
      rw [if_pos same]
      unfold Stands
      rw [natives]
      simp only [Option.map_eq_some_iff]
      constructor
      · rintro ⟨few, written⟩
        obtain ⟨xs, found, fits, few, room, rfl⟩ := (step attributes _ _ h.counted few).mp written
        rw [counted_nodes] at few
        refine ⟨.record xs, ⟨xs, found, rfl⟩, fits, ?_, room, past_record.symm⟩
        rw [Value.weight]
        omega
      · rintro ⟨_, ⟨xs, found, rfl⟩, fits, few, room, rfl⟩
        rw [Value.weight] at few
        have first : w.nodes + 1 ≤ 4096 := by omega
        refine ⟨first, (step attributes _ _ h.counted first).mpr ?_⟩
        refine ⟨xs, found, fits, ?_, room, past_record⟩
        rw [counted_nodes]
        omega
    · rw [if_neg same]
      have missing : native (.record typ name version args) (.event typ' attributes) = none := by
        rw [native, nativeRecord, if_neg same]
      exact refuses missing
  | _ => exact refuses (by rw [native, nativeRecord]; simp)

theorem putAttribute_ok {name : String} {attributes : List Attribute} {write : PyValue → Put} :
    putAttribute name attributes write w = .ok u w' ↔
      ∃ value, getattr name attributes = some value ∧ write value w = .ok u w' := by
  unfold putAttribute
  cases getattr name attributes with
  | none =>
    dsimp only
    rw [throw_returns]
    simp
  | some value => simp

mutual
/-- `_put` writes exactly the values that stand for a fitting native value, as its bytes. -/
theorem put_ok : ∀ (n : Node) (value : PyValue) (path : Str) {w w' : Writer} {u : Unit}, n.Good →
    w.Within → (put n value path w = .ok u w' ↔ Stands n value w w')
  | .int minimum maximum, value, path, w, w', u, good, h => by
    rw [put, noded_ok]
    exact putInt_ok good value
  | .uint minimum maximum, value, path, w, w', u, good, h => by
    rw [put, noded_ok]
    exact putUint_ok good value
  | .bool, value, path, w, w', u, good, h => by
    rw [put, noded_ok]
    exact putBool_ok value
  | .float allow, value, path, w, w', u, good, h => by
    rw [put, noded_ok]
    exact putFloat_ok value
  | .string limit, value, path, w, w', u, good, h => by
    rw [put, noded_ok]
    exact putString_ok h value
  | .bytes limit, value, path, w, w', u, good, h => by
    rw [put, noded_ok]
    exact putBytes_ok h value
  | .enum typ name names, value, path, w, w', u, good, h => by
    rw [put, noded_ok]
    exact putEnum_ok good value
  | .optional child, value, path, w, w', u, good, h => by
    rw [put, noded_ok]
    exact putOptional_ok (fun value w w' h => put_ok child value path good.2 h) h value
  | .sequence child limit, value, path, w, w', u, good, h => by
    rw [put, noded_ok]
    exact putSequence_ok good.1 (fun path value w w' h => put_ok child value path good.2 h) h value
  | .record typ name version args, value, path, w, w', u, good, h => by
    rw [put, noded_ok]
    exact putRecord_ok
      (fun attributes w w' h few => putFields_ok args attributes path good.2.2.2.2.2 h few) h value

theorem putFields_ok : ∀ (args : List NodeField) (attributes : List Attribute) (path : Str)
    {w w' : Writer} {u : Unit}, FieldsGood args → w.Within → w.nodes ≤ 4096 →
    (putFields args attributes path w = .ok u w' ↔ ∃ xs, nativeFields args attributes = some xs ∧
      PutsAll (FieldsFit (fieldTypes args) xs) w xs w')
  | [], attributes, path, w, w', u, _, h, few => by
    rw [putFields, pure_returns, nativeFields]
    constructor
    · rintro ⟨_, rfl⟩
      exact ⟨[], rfl, (putsAll_nil few h).mpr ⟨trivial, rfl⟩⟩
    · rintro ⟨xs, found, written⟩
      cases found
      exact ⟨rfl, ((putsAll_nil few h).mp written).2⟩
  | ⟨name, node⟩ :: args, attributes, path, w, w', u, good, h, few => by
    rw [putFields, bind_returns, nativeFields]
    simp only [putAttribute_ok, Option.bind_eq_some_iff, Option.map_eq_some_iff]
    constructor
    · rintro ⟨⟨⟩, _, ⟨value, present, first⟩, last⟩
      obtain ⟨x, found, put⟩ := (put_ok node value _ good.2.1 h).mp first
      have here := put.2.2.2
      subst here
      obtain ⟨xs, founds, puts⟩ :=
        (putFields_ok args attributes path good.2.2 (h.past put.2.2.1) put.2.1).mp last
      refine ⟨x :: xs, ⟨value, present, x, found, xs, founds, rfl⟩, ?_⟩
      exact putsAll_cons.mpr ⟨put, puts⟩
    · rintro ⟨_, ⟨value, present, x, found, xs, founds, rfl⟩, puts⟩
      obtain ⟨put, rest⟩ := putsAll_cons.mp puts
      exact ⟨(), _, ⟨value, present, (put_ok node value _ good.2.1 h).mpr ⟨x, found, put⟩⟩,
        (putFields_ok args attributes path good.2.2 (h.past put.2.2.1) put.2.1).mpr
          ⟨xs, founds, rest⟩⟩
end

end Writer

end Python
end Actorplane
