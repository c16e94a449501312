import Actorplane.Model.PythonSchemas

/-!
# Descriptors on the native side

The parser of the Python binding turns a descriptor into a schema: it counts
nodes and depth, checks the arity of every tuple, and extracts numbers at their
native widths.
-/

namespace Actorplane
namespace Python

open Stateful

inductive ParseError
  | invalid (message : String)
  | conversion
  deriving DecidableEq, Repr

/-- The node counter of the parser is its state. -/
abbrev Parse (α : Type) := EStateM ParseError ℕ α

namespace Parser

/-- `text` -/
def text (value : Descriptor) (limit : ℕ) : Parse String :=
  match value with
  | .str s => do
    refuse (s = "" ∨ limit < s.utf8ByteSize)
      (.invalid "schema name exceeds its UTF-8 byte limit")
    pure s
  | _ => throw .conversion

def texts (limit : ℕ) : List Descriptor → Parse (List String)
  | [] => pure []
  | value :: rest => do
    let s ← text value limit
    let others ← texts limit rest
    pure (s :: others)

/-- `number(index)?.extract()?` at a type that holds `low..=high`. -/
def number (low high : ℤ) (value : Descriptor) : Parse ℤ :=
  match value with
  | .bool _ => throw (.invalid "schema bound must be an integer, not bool")
  | .int z => do
    refuse (z < low ∨ high < z) .conversion
    pure z
  | _ => throw .conversion

def signed : Descriptor → Parse ℤ := number (-2 ^ 63) (2 ^ 63 - 1)

def unsigned : Descriptor → Parse ℤ := number 0 (2 ^ 64 - 1)

def half : Descriptor → Parse ℤ := number 0 (2 ^ 32 - 1)

def policy (value : Descriptor) : Parse Bool :=
  match value with
  | .bool b => pure b
  | _ => throw (.invalid "float policy requires bool")

def enter (depth : ℕ) : Parse Unit := do
  modify (· + 1)
  let nodes ← get
  refuse (1024 < nodes ∨ 16 < depth) (.invalid "schema exceeds node or depth limit")

/-- The number of items of the tuple a tag opens. -/
def expected : Kind → ℕ
  | .bool => 1
  | .float | .string | .bytes | .optional => 2
  | .int | .uint | .enum | .sequence => 3
  | .record => 4

/-- What is wrong with a tuple that no case below takes. -/
def malformed : List Descriptor → ParseError
  | [] => .invalid "schema node requires a type tag"
  | .kind k :: rest =>
    if rest.length + 1 ≠ expected k then .invalid "schema descriptor has wrong arity"
    else .conversion
  | .str _ :: _ => .invalid "unsupported native schema type"
  | _ => .conversion

mutual
def node : Descriptor → ℕ → Parse FieldType
  | .tuple [.kind .int, min, max], depth => do
    enter depth
    let min ← signed min
    let max ← signed max
    pure (.int (Int64.ofInt min) (Int64.ofInt max))
  | .tuple [.kind .uint, min, max], depth => do
    enter depth
    let min ← unsigned min
    let max ← unsigned max
    pure (.uint (UInt64.ofNat min.toNat) (UInt64.ofNat max.toNat))
  | .tuple [.kind .bool], depth => do
    enter depth
    pure .bool
  | .tuple [.kind .float, allow], depth => do
    enter depth
    let allow ← policy allow
    pure (.float allow)
  | .tuple [.kind .string, limit], depth => do
    enter depth
    let limit ← unsigned limit
    pure (.string limit.toNat)
  | .tuple [.kind .bytes, limit], depth => do
    enter depth
    let limit ← unsigned limit
    pure (.bytes limit.toNat)
  | .tuple [.kind .enum, name, .tuple variants], depth => do
    enter depth
    refuse (256 < variants.length) (.invalid "enum exceeds 256 symbols")
    let name ← text name 256
    let variants ← texts 256 variants
    pure (.enum name variants)
  | .tuple [.kind .optional, x], depth => do
    enter depth
    let x ← node x (depth + 1)
    pure (.optional x)
  | .tuple [.kind .sequence, item, limit], depth => do
    enter depth
    let item ← node item (depth + 1)
    let limit ← unsigned limit
    pure (.sequence item limit.toNat)
  | .tuple [.kind .record, name, version, .tuple raw], depth => do
    enter depth
    refuse (256 < raw.length) (.invalid "record exceeds 256 fields")
    let fields ← recordFields raw depth
    let name ← text name 256
    let version ← half version
    pure (.record ⟨name, UInt32.ofNat version.toNat, fields⟩)
  | .tuple items, depth => do
    enter depth
    throw (malformed items)
  | _, depth => do
    enter depth
    throw .conversion

def recordFields : List Descriptor → ℕ → Parse (List Field)
  | [], _ => pure []
  | .tuple [name, ty] :: rest, depth => do
    let name ← text name 128
    let ty ← node ty (depth + 1)
    let fields ← recordFields rest depth
    pure (⟨name, ty⟩ :: fields)
  | .tuple _ :: _, _ => throw (.invalid "field requires name and type")
  | _ :: _, _ => throw .conversion
end

end Parser

/-- `parse`: the schema of a record descriptor that validates. -/
def parse (value : Descriptor) : Except ParseError Schema :=
  match Parser.node value 0 0 with
  | .ok (.record schema) _ =>
    match schema.validate with
    | .ok () => .ok schema
    | .error e => .error (.invalid e.message)
  | .ok _ _ => .error (.invalid "event schema must be a record")
  | .error e _ => .error e

end Python
end Actorplane
