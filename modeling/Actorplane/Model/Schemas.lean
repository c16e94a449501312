import Actorplane.Lib.Bytes
import Actorplane.Lib.Stateful

/-!
# Schemas and their canonical codec

A schema is a tree of field types; `validate` bounds its depth and size. The
reader walks a byte string along a schema and, when `build` is set, returns the
value; the World only checks bytes and runs it with `build` off. `encode` writes
a value under a byte limit. Slicing, indexing and `usize` subtraction panic out
of range. `deepest` is a ghost field of both machines: the greatest depth at
which a node has been entered.
-/

namespace Actorplane

open Stateful

mutual
inductive FieldType
  | int (min max : Int64)
  | uint (min max : UInt64)
  | float (allowNonFinite : Bool)
  | bool
  | string (maxBytes : ℕ)
  | bytes (maxBytes : ℕ)
  | enum (name : String) (variants : List String)
  | optional (x : FieldType)
  | sequence (item : FieldType) (maxLen : ℕ)
  | record (schema : Schema)

structure Schema where
  name : String
  version : UInt32
  fields : List Field

structure Field where
  name : String
  ty : FieldType
end

/-- An IEEE 754 double, by its bits. -/
structure F64 where
  bits : UInt64
  deriving DecidableEq, Repr

namespace F64

def exponent (x : F64) : UInt64 := (x.bits >>> 52) &&& 0x7ff

def mantissa (x : F64) : UInt64 := x.bits &&& 0xfffffffffffff

def isFinite (x : F64) : Bool := x.exponent != 0x7ff

def isNan (x : F64) : Bool := x.exponent == 0x7ff && x.mantissa != 0

def canonicalNan : F64 := ⟨0x7ff8000000000000⟩

end F64

inductive Value
  | int (x : Int64)
  | uint (x : UInt64)
  | float (x : F64)
  | bool (x : Bool)
  | string (x : String)
  | bytes (x : List UInt8)
  | enum (x : UInt32)
  | optional (x : Option Value)
  | sequence (xs : List Value)
  | record (xs : List Value)

structure SchemaError where
  message : String
  deriving DecidableEq, Repr

/-- Messages are cut after 256 characters. -/
def err (s : String) : SchemaError := ⟨String.ofList (s.toList.take 256)⟩

/-- The error placed under a field: `at` in the source. -/
def SchemaError.atField (field : String) (e : SchemaError) : SchemaError :=
  err (field ++ "." ++ e.message)

/-! ## Validation -/

/-- The node counter of `validate` is its state. -/
abbrev Validation := EStateM SchemaError ℕ Unit

def countNode : Validation := modify (· + 1)

def nodesExceed (limit : ℕ) (e : SchemaError) : Validation := do
  let nodes ← get
  refuse (limit < nodes) e

/-- What `valid_ty` checks of every node that is not a record. -/
def tyNode (d : ℕ) : Validation := do
  countNode
  nodesExceed 1024 (err "schema node limit 1024")
  refuse (16 < d) (err "schema depth limit")

/-- `w[0] >= w[1]` for some window of two variants. -/
def unsortedVariants (variants : List String) : Prop :=
  ∃ w ∈ variants.zip variants.tail, ¬w.1 < w.2

instance (variants : List String) : Decidable (unsortedVariants variants) :=
  inferInstanceAs (Decidable (∃ w ∈ variants.zip variants.tail, ¬w.1 < w.2))

def enumLimit (name : String) (variants : List String) : Prop :=
  name = "" ∨ 256 < name.utf8ByteSize ∨ variants = [] ∨ 256 < variants.length ∨
    (∃ v ∈ variants, v = "" ∨ 256 < v.utf8ByteSize) ∨ unsortedVariants variants

instance (name : String) (variants : List String) : Decidable (enumLimit name variants) :=
  inferInstanceAs (Decidable (_ ∨ _ ∨ _ ∨ _ ∨ (∃ v ∈ variants, _) ∨ _))

mutual
def validateSchema : Schema → ℕ → Validation
  | ⟨name, version, fields⟩, d => do
    refuse (16 < d) (err "schema depth limit")
    countNode
    nodesExceed 1024 (err "schema node limit")
    refuse (name = "" ∨ 256 < name.utf8ByteSize ∨ version = 0 ∨ 256 < fields.length)
      (err "invalid schema metadata")
    validateFields fields [] d

/-- The loop over the fields; `names` are the names already seen. -/
def validateFields : List Field → (names : List String) → ℕ → Validation
  | [], _, _ => pure ()
  | ⟨name, ty⟩ :: fields, names, d => do
    refuse (name = "" ∨ 128 < name.utf8ByteSize) (err "invalid field metadata")
    refuse (name ∈ names) (err "duplicate field name")
    mapError (SchemaError.atField name) (validTy ty (d + 1))
    validateFields fields (name :: names) d

def validTy : FieldType → ℕ → Validation
  | .record schema, d => validateSchema schema d
  | .int min max, d => do
    tyNode d
    refuse (max < min) (err "invalid integer range")
  | .uint min max, d => do
    tyNode d
    refuse (max < min) (err "invalid unsigned range")
  | .float _, d => tyNode d
  | .bool, d => tyNode d
  | .string maxBytes, d => do
    tyNode d
    refuse (2 ^ 20 < maxBytes) (err "byte limit")
  | .bytes maxBytes, d => do
    tyNode d
    refuse (2 ^ 20 < maxBytes) (err "byte limit")
  | .enum name variants, d => do
    tyNode d
    refuse (enumLimit name variants) (err "enum limit")
  | .optional x, d => do
    tyNode d
    validTy x (d + 1)
  | .sequence item maxLen, d => do
    tyNode d
    refuse (4096 < maxLen) (err "sequence limit")
    validTy item (d + 1)
end

def Schema.validate (s : Schema) : Except SchemaError Unit :=
  match validateSchema s 0 0 with
  | .ok _ _ => .ok ()
  | .error e _ => .error e

/-! ## Reading -/

inductive Fault
  | error (e : SchemaError)
  | panic
  deriving DecidableEq, Repr

def Fault.atField (field : String) : Fault → Fault
  | .error e => .error (e.atField field)
  | .panic => .panic

def fail (s : String) : Fault := .error (err s)

/-- `a - b` at type `usize`. -/
def usizeSub {σ : Type} (a b : ℕ) : EStateM Fault σ ℕ := do
  refuse (a < b) Fault.panic
  pure (a - b)

/-- `b[i..j]`. -/
def slice {σ : Type} (b : List UInt8) (i j : ℕ) : EStateM Fault σ (List UInt8) := do
  refuse (j < i ∨ b.length < j) Fault.panic
  pure ((b.drop i).take (j - i))

/-- `try_into().unwrap()` to an array of `n` bytes. -/
def toArray {σ : Type} (n : ℕ) (b : List UInt8) : EStateM Fault σ (List UInt8) := do
  refuse (b.length ≠ n) Fault.panic
  pure b

/-- `b[0]`. -/
def firstByte {σ : Type} : List UInt8 → EStateM Fault σ UInt8
  | [] => throw Fault.panic
  | x :: _ => pure x

structure Reader where
  b : List UInt8
  p : ℕ
  nodes : ℕ
  deepest : ℕ

/-- `std::str::from_utf8`. -/
def fromUtf8 (b : List UInt8) : Option String :=
  String.fromUTF8? ⟨b.toArray⟩

def indexName (index : ℕ) : String := "[" ++ toString index ++ "]"

namespace Reader

abbrev Read (α : Type) := EStateM Fault Reader α

def take (n : ℕ) : Read (List UInt8) := do
  let r ← get
  let left ← usizeSub r.b.length r.p
  refuse (left < n) (fail "truncated value")
  let x ← slice r.b r.p (r.p + n)
  modify fun r => { r with p := r.p + n }
  pure x

def u32 : Read UInt32 := do
  let x ← take 4
  let x ← toArray 4 x
  pure (UInt32.ofNat (Bytes.value x))

def u64 : Read UInt64 := do
  let x ← take 8
  let x ← toArray 8 x
  pure (UInt64.ofNat (Bytes.value x))

def byte : Read UInt8 := do
  let x ← take 1
  firstByte x

/-- A node is entered at depth `d`. -/
def enter (d : ℕ) : Read Unit :=
  modify fun r => { r with nodes := r.nodes + 1, deepest := max r.deepest d }

/-- The two limits every node that is not a record is held to. -/
def node (d : ℕ) : Read Unit := do
  enter d
  let r ← get
  refuse (4096 < r.nodes) (fail "value node limit")
  refuse (16 < d) (fail "value depth limit")

/-- The float whose bits were read, unless the field does not take it. -/
def acceptFloat (allowNonFinite : Bool) (x : F64) : Read Value := do
  refuse (allowNonFinite = false ∧ x.isFinite = false) (fail "non-finite float")
  refuse (allowNonFinite = true ∧ x.isNan = true ∧ x ≠ F64.canonicalNan) (fail "non-canonical NaN")
  pure (.float x)

def acceptBool (x : UInt8) : Read Value :=
  if x = 0 then pure (.bool false)
  else if x = 1 then pure (.bool true)
  else throw (fail "invalid bool")

def acceptText (build : Bool) (x : List UInt8) : Read Value :=
  match fromUtf8 x with
  | some text => pure (.string (if build then text else ""))
  | none => throw (fail "expected valid UTF-8 string")

/-- `value` reads what follows the tag of an optional. -/
def acceptOptional (build : Bool) (value : Read Value) (tag : UInt8) : Read Value :=
  if tag = 0 then pure (.optional none)
  else if tag = 1 then do
    let value ← value
    pure (.optional (if build then some value else none))
  else throw (fail "invalid option")

mutual
def val (build : Bool) : FieldType → ℕ → Read Value
  | .record schema, d => record build schema d
  | .int min max, d => do
    node d
    let x ← u64
    let v := x.toInt64
    refuse (v < min ∨ max < v) (fail "integer range")
    pure (.int v)
  | .uint min max, d => do
    node d
    let v ← u64
    refuse (v < min ∨ max < v) (fail "unsigned range")
    pure (.uint v)
  | .float allowNonFinite, d => do
    node d
    let x ← u64
    acceptFloat allowNonFinite ⟨x⟩
  | .bool, d => do
    node d
    let x ← byte
    acceptBool x
  | .string maxBytes, d => do
    node d
    let n ← u32
    refuse (maxBytes < n.toNat) (fail "string limit")
    let text ← take n.toNat
    acceptText build text
  | .bytes maxBytes, d => do
    node d
    let n ← u32
    refuse (maxBytes < n.toNat) (fail "bytes limit")
    let bytes ← take n.toNat
    pure (.bytes (if build then bytes else []))
  | .enum _ variants, d => do
    node d
    let n ← u32
    refuse (variants.length ≤ n.toNat) (fail "enum index")
    pure (.enum n)
  | .optional x, d => do
    node d
    let tag ← byte
    acceptOptional build (val build x (d + 1)) tag
  | .sequence item maxLen, d => do
    node d
    let n ← u32
    let r ← get
    let left ← usizeSub 4096 r.nodes
    refuse (maxLen < n.toNat ∨ left < n.toNat) (fail "sequence length")
    let v ← times (fun index => mapError (Fault.atField (indexName index)) (val build item (d + 1)))
      n.toNat 0
    pure (.sequence (if build then v else []))

def record (build : Bool) : Schema → ℕ → Read Value
  | ⟨_, _, fields⟩, d => do
    enter d
    let r ← get
    refuse (4096 < r.nodes ∨ 16 < d) (fail "value node limit")
    let out ← recordFields build fields d
    pure (.record (if build then out else []))

def recordFields (build : Bool) : List Field → ℕ → Read (List Value)
  | [], _ => pure []
  | ⟨name, ty⟩ :: fields, d => do
    let value ← mapError (Fault.atField name) (val build ty (d + 1))
    let out ← recordFields build fields d
    pure (value :: out)
end

end Reader

/-- A run of the reader over the whole byte string, with its last state. -/
def Schema.reading (build : Bool) (s : Schema) : Reader.Read Value := do
  let r ← get
  refuse (2 ^ 20 < r.b.length) (fail "event exceeds 1048576 bytes")
  let out ← mapError (Fault.atField s.name) (Reader.record build s 0)
  let r ← get
  refuse (r.p ≠ r.b.length) (fail "trailing bytes")
  pure out

/-- The outcome of a run, without its last state. -/
def outcomeOf {σ α : Type} : EStateM.Result Fault σ α → Except Fault α
  | .ok a _ => .ok a
  | .error e _ => .error e

def Schema.read (build : Bool) (s : Schema) (b : List UInt8) : Except Fault Value :=
  outcomeOf (s.reading build ⟨b, 0, 0, 0⟩)

def Schema.checked (s : Schema) : Except Fault Unit :=
  s.validate.mapError Fault.error

def Schema.decode (s : Schema) (b : List UInt8) : Except Fault Value := do
  s.checked
  s.read true b

def Schema.validateRegisteredBytes (s : Schema) (b : List UInt8) : Except Fault Unit :=
  (s.read false b).map fun _ => ()

/-! ## Writing -/

structure W where
  out : List UInt8
  max : ℕ
  nodes : ℕ
  deepest : ℕ

namespace W

abbrev Write := EStateM Fault W Unit

/-- `checked_add` at type `usize`. -/
def checkedAdd (a b : ℕ) : Option ℕ := if a + b < 2 ^ 64 then some (a + b) else none

/-- The sum overflows or is above the limit; either way the error is the same. -/
def tooLarge (w : W) (b : List UInt8) : Bool :=
  match checkedAdd w.out.length b.length with
  | none => true
  | some size => w.max < size

def add (b : List UInt8) : Write := do
  let w ← get
  refuse (w.tooLarge b = true) (fail "event size")
  modify fun w => { w with out := w.out ++ b }

def node (d : ℕ) : Write := do
  modify fun w => { w with nodes := w.nodes + 1, deepest := Max.max w.deepest d }
  let w ← get
  refuse (4096 < w.nodes ∨ 16 < d) (fail "value node/depth limit")

/-- A `u32` length and the bytes themselves. -/
def addSized (b : List UInt8) : Write := do
  add (Bytes.little 4 (UInt32.ofNat b.length).toNat)
  add b

def mismatch : Fault := fail "value does not match schema"

/-! The arms of the `match (t, v)`, by field type. -/

def int (min max : Int64) : Value → Write
  | .int x => do
    refuse (¬(min ≤ x ∧ x ≤ max)) mismatch
    add (Bytes.little 8 x.toUInt64.toNat)
  | _ => throw mismatch

def uint (min max : UInt64) : Value → Write
  | .uint x => do
    refuse (¬(min ≤ x ∧ x ≤ max)) mismatch
    add (Bytes.little 8 x.toNat)
  | _ => throw mismatch

def float (allowNonFinite : Bool) : Value → Write
  | .float x => do
    refuse (allowNonFinite = false ∧ x.isFinite = false) (fail "invalid float")
    let bits := if x.isNan then F64.canonicalNan.bits else x.bits
    add (Bytes.little 8 bits.toNat)
  | _ => throw mismatch

def bool : Value → Write
  | .bool x => add [if x then 1 else 0]
  | _ => throw mismatch

def string (maxBytes : ℕ) : Value → Write
  | .string x => do
    let b := x.toByteArray.data.toList
    refuse (maxBytes < b.length) (fail "string limit")
    addSized b
  | _ => throw mismatch

def bytes (maxBytes : ℕ) : Value → Write
  | .bytes b => do
    refuse (maxBytes < b.length) (fail "bytes limit")
    addSized b
  | _ => throw mismatch

def enum (variants : List String) : Value → Write
  | .enum x => do
    refuse (variants.length ≤ x.toNat) mismatch
    add (Bytes.little 4 x.toNat)
  | _ => throw mismatch

/-- `value` writes the contents. -/
def optional (value : Value → Write) : Value → Write
  | .optional none => add [0]
  | .optional (some v) => do
    add [1]
    value v
  | _ => throw mismatch

/-- `item` writes one member. -/
def sequence (maxLen : ℕ) (item : ℕ → Value → Write) : Value → Write
  | .sequence v => do
    refuse (maxLen < v.length) mismatch
    let w ← get
    let left ← usizeSub 4096 w.nodes
    refuse (left < v.length) (fail "remaining value node limit")
    add (Bytes.little 4 (UInt32.ofNat v.length).toNat)
    each item v 0
  | _ => throw mismatch

/-- `members` writes the values of `count` fields. -/
def asRecord (count : ℕ) (members : List Value → Write) : Value → Write
  | .record vals => do
    refuse (vals.length ≠ count) (fail "record field count")
    members vals
  | _ => throw (fail "expected record")

mutual
def val : FieldType → Value → ℕ → Write
  | .record schema, v, d => record schema v d
  | .int min max, v, d => do
    node d
    int min max v
  | .uint min max, v, d => do
    node d
    uint min max v
  | .float allowNonFinite, v, d => do
    node d
    float allowNonFinite v
  | .bool, v, d => do
    node d
    bool v
  | .string maxBytes, v, d => do
    node d
    string maxBytes v
  | .bytes maxBytes, v, d => do
    node d
    bytes maxBytes v
  | .enum _ variants, v, d => do
    node d
    enum variants v
  | .optional x, v, d => do
    node d
    optional (fun v => val x v (d + 1)) v
  | .sequence item maxLen, v, d => do
    node d
    sequence maxLen
      (fun index x => mapError (Fault.atField (indexName index)) (val item x (d + 1))) v

def record : Schema → Value → ℕ → Write
  | ⟨_, _, fields⟩, v, d => do
    node d
    asRecord fields.length (fun vals => recordFields fields vals d) v

/-- The loop over `fields.iter().zip(vals)`. -/
def recordFields : List Field → List Value → ℕ → Write
  | ⟨name, ty⟩ :: fields, x :: vals, d => do
    mapError (Fault.atField name) (val ty x (d + 1))
    recordFields fields vals d
  | _, _, _ => pure ()
end

end W

/-- A run of the writer from an empty buffer, with its last state. -/
def Schema.writing (s : Schema) (value : Value) : W.Write :=
  mapError (Fault.atField s.name) (W.record s value 0)

/-- What has been written when the run succeeds. -/
def writtenOf : EStateM.Result Fault W Unit → Except Fault (List UInt8)
  | .ok _ w => .ok w.out
  | .error e _ => .error e

def Schema.encode (s : Schema) (value : Value) (maxBytes : ℕ) : Except Fault (List UInt8) := do
  s.checked
  if 2 ^ 20 < maxBytes then throw (fail "event byte limit")
  writtenOf (s.writing value ⟨[], maxBytes, 0, 0⟩)

end Actorplane
