import Actorplane.Model.PythonSchemas

/-!
# The Python codec

`_put` and `_get` along a node tree. `struct` packs and unpacks little-endian
words and refuses numbers out of range; buffers are their bytes. Reading runs
code of the declared classes: `Classes` is what that code returns or raises.
-/

namespace Actorplane
namespace Python

open Stateful

mutual
inductive PyValue
  | none
  | bool (b : Bool)
  | int (z : ℤ)
  | float (x : F64)
  | str (s : Str)
  | bytes (b : List UInt8)
  | bytearray (b : List UInt8)
  | memoryview (b : List UInt8) (released : Bool)
  | enum (typ : EnumClass) (name : Option Str)
  | tuple (xs : List PyValue)
  | list (xs : List PyValue)
  | event (typ : EventClass) (attributes : List Attribute)
  | other (typeName : Str)

structure Attribute where
  name : String
  value : PyValue
end

/-- The code of the declared classes: `typ(**arguments)` of an event class, and `typ[name]` of
an enum. -/
structure Classes where
  construct : EventClass → List Attribute → Except PyError PyValue
  member : EnumClass → String → Except PyError PyValue

/-- `type(value).__name__[:128]` -/
def PyValue.actual : PyValue → Str
  | .none => Str.of "NoneType"
  | .bool _ => Str.of "bool"
  | .int _ => Str.of "int"
  | .float _ => Str.of "float"
  | .str _ => Str.of "str"
  | .bytes _ => Str.of "bytes"
  | .bytearray _ => Str.of "bytearray"
  | .memoryview _ _ => Str.of "memoryview"
  | .enum typ _ => typ.name.take 128
  | .tuple _ => Str.of "tuple"
  | .list _ => Str.of "list"
  | .event typ _ => typ.name.take 128
  | .other name => name.take 128

/-- `getattr(value, name)` -/
def getattr (name : String) : List Attribute → Option PyValue
  | [] => none
  | a :: rest => if a.name = name then some a.value else getattr name rest

/-! ## Packing -/

/-- `struct.pack("<q", z)` -/
def packSigned (z : ℤ) : Option (List UInt8) :=
  if -2 ^ 63 ≤ z ∧ z < 2 ^ 63 then some (Bytes.little 8 (z % 2 ^ 64).toNat) else none

/-- `struct.pack("<Q", z)` -/
def packUnsigned (z : ℤ) : Option (List UInt8) :=
  if 0 ≤ z ∧ z < 2 ^ 64 then some (Bytes.little 8 z.toNat) else none

/-- `struct.pack("<I", n)` -/
def packSize (n : ℕ) : Option (List UInt8) :=
  if n < 2 ^ 32 then some (Bytes.little 4 n) else none

/-- `struct.unpack("<q", raw)` -/
def unpackSigned (raw : List UInt8) : ℤ :=
  if Bytes.value raw < 2 ^ 63 then Bytes.value raw else Bytes.value raw - 2 ^ 64

/-- `struct.unpack("<d", raw)` -/
def unpackFloat (raw : List UInt8) : F64 := ⟨UInt64.ofNat (Bytes.value raw)⟩

/-! ## Writing -/

structure Writer where
  data : List UInt8
  limit : ℕ
  nodes : ℕ

abbrev Put := EStateM PyError Writer Unit

namespace Writer

def exceeded (limit : ℕ) : Str := Str.of ("encoded event exceeds " ++ natStr limit ++ " bytes")

/-- `size > self.limit - len(self.data)`, over the integers. -/
def require (size : ℕ) (path : Str) : Put := do
  let w ← get
  refuse ((w.limit : ℤ) - w.data.length < size) (codecError path (exceeded w.limit))

def add (data : List UInt8) (path : Str) : Put := do
  require data.length path
  modify fun w => { w with data := w.data ++ data }

/-- Add packed bytes; packing may have failed. -/
def addPacked (packed : Option (List UInt8)) (path : Str) : Put :=
  match packed with
  | some data => add data path
  | none => throw PyError.struct

def node (path : Str) : Put := do
  modify fun w => { w with nodes := w.nodes + 1 }
  let w ← get
  refuse (4096 < w.nodes) (codecError path (Str.of "value exceeds 4096 nodes"))

end Writer

def gotActual (expected : String) (value : PyValue) (path : Str) : PyError :=
  codecError path (Str.of expected ++ Str.of "; got " ++ value.actual)

def rangeText (minimum maximum : ℤ) : String :=
  "expected integer in " ++ intStr minimum ++ ".." ++ intStr maximum

def putInt (minimum maximum : ℤ) (pack : ℤ → Option (List UInt8)) (value : PyValue) (path : Str) :
    Put :=
  match value with
  | .int z => do
    refuse (¬(minimum ≤ z ∧ z ≤ maximum)) (gotActual (rangeText minimum maximum) value path)
    Writer.addPacked (pack z) path
  | _ => throw (gotActual (rangeText minimum maximum) value path)

def putBool (value : PyValue) (path : Str) : Put :=
  match value with
  | .bool b => Writer.add [if b then 1 else 0] path
  | _ => throw (gotActual "expected bool" value path)

def putFloat (allowNonFinite : Bool) (value : PyValue) (path : Str) : Put :=
  match value with
  | .float x => do
    refuse (allowNonFinite = false ∧ x.isFinite = false)
      (codecError path (Str.of "expected finite float64"))
    let bits := if x.isNan then F64.canonicalNan.bits else x.bits
    Writer.add (Bytes.little 8 bits.toNat) path
  | _ => throw (gotActual "expected float64" value path)

def fieldExceeds (what : String) (limit : ℤ) : Str :=
  Str.of (what ++ " exceeds " ++ intStr limit ++ " bytes")

/-- A length and that many bytes, once they are within the limit. -/
def putRaw (limit : ℤ) (raw : List UInt8) (path : Str) : Put := do
  refuse (limit < raw.length) (codecError path (fieldExceeds "field" limit))
  Writer.addPacked (packSize raw.length) path
  Writer.add raw path

/-- `min(node.limit, writer.limit - len(writer.data) - 4)` after room for the length is required. -/
def fieldLimit (limit : ℕ) (path : Str) (f : ℤ → Put) : Put := do
  Writer.require 4 path
  let w ← get
  f (min (limit : ℤ) ((w.limit : ℤ) - w.data.length - 4))

def putString (limit : ℕ) (value : PyValue) (path : Str) : Put :=
  fieldLimit limit path fun limit =>
    match value with
    | .str s => do
      refuse (limit < s.length) (codecError path (Str.of ("string exceeds " ++ intStr limit ++ " UTF-8 bytes")))
      match s.text with
      | some text => putRaw limit text.toByteArray.data.toList path
      | none => throw (codecError path (Str.of "expected valid UTF-8 string"))
    | _ => throw (gotActual "expected UTF-8 string" value path)

def putBuffer (limit : ℤ) (b : List UInt8) (path : Str) : Put := do
  refuse (limit < b.length) (codecError path (fieldExceeds "buffer" limit))
  putRaw limit b path

def putBytes (limit : ℕ) (value : PyValue) (path : Str) : Put :=
  fieldLimit limit path fun limit =>
    match value with
    | .bytes b => putBuffer limit b path
    | .bytearray b => putBuffer limit b path
    | .memoryview b released => do
      refuse (released = true) (codecError path (Str.of "expected readable byte buffer"))
      putBuffer limit b path
    | _ => throw (gotActual "expected bytes or a byte buffer" value path)

/-- `enum_names.index(name)` of a declared symbol. -/
def symbolIndex (enumNames : List String) (name : Option Str) : Option ℕ :=
  match name with
  | some name => enumNames.findIdx? fun n => Str.of n = name
  | none => none

def putEnum (typ : EnumClass) (enumNames : List String) (value : PyValue) (path : Str) : Put :=
  match value with
  | .enum typ' name =>
    if typ' = typ then
      match symbolIndex enumNames name with
      | some index => Writer.addPacked (packSize index) path
      | none => throw (codecError path (Str.of "expected a declared enum symbol"))
    else
      throw (codecError path (Str.of "expected enum " ++ typ.name.take 128 ++ Str.of "; got " ++
        value.actual))
  | _ => throw (codecError path (Str.of "expected enum " ++ typ.name.take 128 ++ Str.of "; got " ++
      value.actual))

/-- `child` writes the value that is there. -/
def putOptional (child : PyValue → Put) (value : PyValue) (path : Str) : Put :=
  match value with
  | .none => Writer.add [0] path
  | value => do
    Writer.add [1] path
    child value

/-- The members of a tuple or a list. -/
def members : PyValue → Option (List PyValue)
  | .tuple xs => some xs
  | .list xs => some xs
  | _ => none

def notSequence (limit : ℕ) (value : PyValue) (path : Str) : PyError :=
  gotActual ("expected sequence of at most " ++ natStr limit ++ " items") value path

/-- `item` writes one member under its path. -/
def putSequence (limit : ℕ) (item : Str → PyValue → Put) (value : PyValue) (path : Str) : Put :=
  match members value with
  | some xs => do
    refuse (limit < xs.length) (notSequence limit value path)
    let w ← get
    refuse ((4096 : ℤ) - w.nodes < xs.length)
      (codecError path (Str.of "sequence exceeds remaining value-node budget"))
    Writer.addPacked (packSize xs.length) path
    each (fun index x => item (path ++ Str.of (indexName index)) x) xs 0
  | none => throw (notSequence limit value path)

/-- `fields` writes the attributes of an instance of the class. -/
def putRecord (typ : EventClass) (fields : List Attribute → Put) (value : PyValue) (path : Str) :
    Put :=
  match value with
  | .event typ' attributes =>
    if typ' = typ then fields attributes
    else
      throw (codecError path (Str.of "expected event " ++ typ.name.take 128 ++ Str.of "; got " ++
        value.actual))
  | _ => throw (codecError path (Str.of "expected event " ++ typ.name.take 128 ++ Str.of "; got " ++
      value.actual))

/-- Write one attribute, if the instance has it. -/
def putAttribute (name : String) (attributes : List Attribute) (write : PyValue → Put) : Put :=
  match getattr name attributes with
  | some x => write x
  | none => throw (PyError.attribute (Str.of name))

mutual
def put : Node → PyValue → Str → Put
  | .int minimum maximum, value, path => do
    Writer.node path
    putInt minimum maximum packSigned value path
  | .uint minimum maximum, value, path => do
    Writer.node path
    putInt minimum maximum packUnsigned value path
  | .bool, value, path => do
    Writer.node path
    putBool value path
  | .float allowNonFinite, value, path => do
    Writer.node path
    putFloat allowNonFinite value path
  | .string limit, value, path => do
    Writer.node path
    putString limit value path
  | .bytes limit, value, path => do
    Writer.node path
    putBytes limit value path
  | .enum typ _ enumNames, value, path => do
    Writer.node path
    putEnum typ enumNames value path
  | .optional child, value, path => do
    Writer.node path
    putOptional (fun value => put child value path) value path
  | .sequence child limit, value, path => do
    Writer.node path
    putSequence limit (fun path x => put child x path) value path
  | .record typ _ _ args, value, path => do
    Writer.node path
    putRecord typ (fun attributes => putFields args attributes path) value path

def putFields : List NodeField → List Attribute → Str → Put
  | [], _, _ => pure ()
  | ⟨name, node⟩ :: args, attributes, path => do
    putAttribute name attributes (fun x => put node x (path ++ Str.of "." ++ Str.of name))
    putFields args attributes path
end

/-! ## Reading -/

structure PyReader where
  data : List UInt8
  position : ℕ
  nodes : ℕ

abbrev Get (α : Type) := EStateM PyError PyReader α

namespace PyReader

/-- `self.data[start:self.position]` -/
def take (count : ℕ) (path : Str) : Get (List UInt8) := do
  let r ← get
  refuse ((r.data.length : ℤ) - r.position < count)
    (codecError path (Str.of "truncated canonical value"))
  modify fun r => { r with position := r.position + count }
  pure ((r.data.drop r.position).take count)

def node (path : Str) : Get Unit := do
  modify fun r => { r with nodes := r.nodes + 1 }
  let r ← get
  refuse (4096 < r.nodes) (codecError path (Str.of "value exceeds 4096 nodes"))

/-- `take(1, path)[0]` -/
def byte (path : Str) : Get UInt8 := do
  let raw ← take 1 path
  pure (raw.headD 0)

/-- `struct.unpack("<I", take(4, path))[0]` -/
def size (path : Str) : Get ℕ := do
  let raw ← take 4 path
  pure (Bytes.value raw)

end PyReader

/-- Code of a class returns, or raises through the read. -/
def call : Except PyError PyValue → Get PyValue
  | .ok value => pure value
  | .error e => throw e

def getInt (minimum maximum : ℤ) (unpack : List UInt8 → ℤ) (path : Str) : Get PyValue := do
  let raw ← PyReader.take 8 path
  let value := unpack raw
  refuse (¬(minimum ≤ value ∧ value ≤ maximum))
    (codecError path (Str.of (rangeText minimum maximum)))
  pure (.int value)

def getBool (path : Str) : Get PyValue := do
  let value ← PyReader.byte path
  refuse (1 < value) (codecError path (Str.of "expected canonical bool tag 0 or 1"))
  pure (.bool (value != 0))

def getFloat (allowNonFinite : Bool) (path : Str) : Get PyValue := do
  let raw ← PyReader.take 8 path
  let value := unpackFloat raw
  refuse (allowNonFinite = false ∧ value.isFinite = false)
    (codecError path (Str.of "expected finite float64"))
  refuse (value.isNan = true ∧ Bytes.value raw ≠ F64.canonicalNan.bits.toNat)
    (codecError path (Str.of "expected canonical NaN"))
  pure (.float value)

/-- The length of a field within its limit, and its bytes. -/
def getRaw (limit : ℕ) (path : Str) : Get (List UInt8) := do
  let size ← PyReader.size path
  refuse (limit < size) (codecError path (fieldExceeds "field" limit))
  PyReader.take size path

def getString (limit : ℕ) (path : Str) : Get PyValue := do
  let raw ← getRaw limit path
  match fromUtf8 raw with
  | some text => pure (.str (Str.of text))
  | none => throw (codecError path (Str.of "expected valid UTF-8 string"))

def getBytes (limit : ℕ) (path : Str) : Get PyValue := do
  let raw ← getRaw limit path
  pure (.bytes raw)

def getEnum (classes : Classes) (typ : EnumClass) (enumNames : List String) (path : Str) :
    Get PyValue := do
  let index ← PyReader.size path
  match enumNames[index]? with
  | some name => call (classes.member typ name)
  | none => throw (codecError path (Str.of "expected registered enum symbol index"))

def getOptional (child : Get PyValue) (path : Str) : Get PyValue := do
  let present ← PyReader.byte path
  refuse (1 < present) (codecError path (Str.of "expected optional tag 0 or 1"))
  if present = 0 then pure .none else child

def getSequence (limit : ℕ) (item : Str → Get PyValue) (path : Str) : Get PyValue := do
  let size ← PyReader.size path
  let r ← get
  refuse (limit < size ∨ (4096 : ℤ) - r.nodes < size)
    (codecError path (Str.of "sequence exceeds field or remaining value-node limit"))
  let xs ← times (fun i => item (path ++ Str.of (indexName i))) size 0
  pure (.tuple xs)

section

variable (classes : Classes)

mutual
def getNode : Node → Str → Get PyValue
  | .int minimum maximum, path => do
    PyReader.node path
    getInt minimum maximum unpackSigned path
  | .uint minimum maximum, path => do
    PyReader.node path
    getInt minimum maximum (fun raw => Bytes.value raw) path
  | .bool, path => do
    PyReader.node path
    getBool path
  | .float allowNonFinite, path => do
    PyReader.node path
    getFloat allowNonFinite path
  | .string limit, path => do
    PyReader.node path
    getString limit path
  | .bytes limit, path => do
    PyReader.node path
    getBytes limit path
  | .enum typ _ enumNames, path => do
    PyReader.node path
    getEnum classes typ enumNames path
  | .optional child, path => do
    PyReader.node path
    getOptional (getNode child path) path
  | .sequence child limit, path => do
    PyReader.node path
    getSequence limit (fun path => getNode child path) path
  | .record typ _ _ args, path => do
    PyReader.node path
    let attributes ← getFields args path
    call (classes.construct typ attributes)

def getFields : List NodeField → Str → Get (List Attribute)
  | [], _ => pure []
  | ⟨name, node⟩ :: args, path => do
    let value ← getNode node (path ++ Str.of "." ++ Str.of name)
    let attributes ← getFields args path
    pure (⟨name, value⟩ :: attributes)
end

end

/-! ## Plans -/

/-- `descriptor[1]` of a record. -/
def SchemaPlan.path (plan : SchemaPlan) : Str :=
  match plan.root with
  | .record _ name _ _ => Str.of name
  | _ => []

def dataOf : EStateM.Result PyError Writer Unit → Except PyError (List UInt8)
  | .ok _ w => .ok w.data
  | .error e _ => .error e

def SchemaPlan.encode (plan : SchemaPlan) (value : PyValue) (maxBytes : ℤ) :
    Except PyError (List UInt8) :=
  if 0 ≤ maxBytes ∧ maxBytes ≤ 2 ^ 20 then
    dataOf (put plan.root value plan.path ⟨[], maxBytes.toNat, 0⟩)
  else .error (.value (Str.of "max_bytes must be in 0..1048576"))

/-- A read of the whole byte string. -/
def SchemaPlan.reading (plan : SchemaPlan) (classes : Classes) : Get PyValue := do
  let value ← getNode classes plan.root plan.path
  let r ← get
  refuse (r.position ≠ r.data.length)
    (codecError plan.path (Str.of "unexpected trailing encoded fields"))
  pure value

def valueOf : EStateM.Result PyError PyReader PyValue → Except PyError PyValue
  | .ok value _ => .ok value
  | .error e _ => .error e

def SchemaPlan.decode (plan : SchemaPlan) (classes : Classes) (data : List UInt8) :
    Except PyError PyValue :=
  if 2 ^ 20 < data.length then
    .error (codecError plan.path (Str.of "expected canonical bytes within 1048576-byte limit"))
  else valueOf (plan.reading classes ⟨data, 0, 0⟩)

end Python
end Actorplane
