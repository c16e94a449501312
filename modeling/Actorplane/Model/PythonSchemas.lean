import Actorplane.Lib.Assoc
import Actorplane.Model.Schemas

/-!
# The Python schema compiler and codec

`event` compiles the annotations of a dataclass to a tree of nodes, and a plan
encodes and decodes values along that tree. Classes are compared by identity.
Descriptors are the nested tuples handed to the native side. A `str` is a list
of code points, surrogates included.
-/

namespace Actorplane
namespace Python

open Stateful

/-! ## Strings and errors -/

inductive CodePoint
  | scalar (c : Char)
  | surrogate (n : Fin 2048)
  deriving DecidableEq, Repr

abbrev Str := List CodePoint

namespace Str

def of (s : String) : Str := s.toList.map .scalar

def scalars : Str → Option (List Char)
  | [] => some []
  | .scalar c :: rest => (scalars rest).map (c :: ·)
  | .surrogate _ :: _ => none

/-- The text `encode("utf-8")` encodes; a surrogate makes it fail. -/
def text (s : Str) : Option String := (scalars s).map String.ofList

end Str

inductive PyError
  | codec (message : Str)
  | value (message : Str)
  | type (message : Str)
  | attribute (name : Str)
  | struct
  deriving DecidableEq, Repr

/-- `_error` -/
def codecError (path reason : Str) : PyError :=
  .codec (path.take 256 ++ Str.of ": " ++ reason.take 256)

def natStr (n : ℕ) : String := toString n

def intStr (z : ℤ) : String := toString z

/-- `_name`; `none` is a value that is no `str`. -/
def checkName (value : Option Str) (limit : ℕ) (path : Str) : Except PyError String :=
  match value with
  | none => .error (codecError path (Str.of ("expected name of 1.." ++ natStr limit ++ " UTF-8 bytes")))
  | some value =>
    if value = [] ∨ limit < value.length then
      .error (codecError path (Str.of ("expected name of 1.." ++ natStr limit ++ " UTF-8 bytes")))
    else
      match value.text with
      | none => .error (codecError path (Str.of "expected valid UTF-8 name"))
      | some text =>
        if limit < text.utf8ByteSize then
          .error (codecError path (Str.of ("name exceeds " ++ natStr limit ++ " UTF-8 bytes")))
        else .ok text

/-! ## Classes, annotations and nodes -/

/-- What annotation metadata may carry: its class is tested. -/
inductive Object
  | int (z : ℤ)
  | bool (b : Bool)
  | other
  deriving DecidableEq, Repr

inductive Metadata
  | intRange (min max : Object)
  | floatPolicy (allowNonFinite : Object)
  | length (maxLength : Object)
  | other
  deriving DecidableEq, Repr

/-- `members` are the keys of `__members__`, and `size` is `len(typ)`. -/
structure EnumClass where
  id : ℕ
  qualified : Str
  name : Str
  members : List Str
  size : ℕ
  distinct : members.Nodup
  deriving DecidableEq

structure EventClass where
  id : ℕ
  name : Str
  deriving DecidableEq, Repr

mutual
inductive Node
  | int (minimum maximum : ℤ)
  | uint (minimum maximum : ℤ)
  | bool
  | float (allowNonFinite : Bool)
  | string (limit : ℕ)
  | bytes (limit : ℕ)
  | enum (typ : EnumClass) (name : String) (enumNames : List String)
  | optional (child : Node)
  | sequence (child : Node) (limit : ℕ)
  | record (typ : EventClass) (name : String) (version : ℕ) (args : List NodeField)

structure NodeField where
  name : String
  node : Node
end

/-- The tags that open a descriptor tuple. -/
inductive Kind
  | int | uint | bool | float | string | bytes | enum | optional | sequence | record
  deriving DecidableEq, Repr

/-- A descriptor: nested tuples of plain values. -/
inductive Descriptor
  | kind (k : Kind)
  | int (z : ℤ)
  | bool (b : Bool)
  | str (s : String)
  | tuple (items : List Descriptor)

mutual
def Descriptor.beq : Descriptor → Descriptor → Bool
  | .kind k, .kind k' => k == k'
  | .int z, .int z' => z == z'
  | .bool b, .bool b' => b == b'
  | .str s, .str s' => s == s'
  | .tuple items, .tuple items' => itemsBeq items items'
  | _, _ => false

def itemsBeq : List Descriptor → List Descriptor → Bool
  | [], [] => true
  | x :: xs, y :: ys => x.beq y && itemsBeq xs ys
  | _, _ => false
end

mutual
def Node.descriptor : Node → Descriptor
  | .int lower upper => .tuple [.kind .int, .int lower, .int upper]
  | .uint lower upper => .tuple [.kind .uint, .int lower, .int upper]
  | .bool => .tuple [.kind .bool]
  | .float allow => .tuple [.kind .float, .bool allow]
  | .string limit => .tuple [.kind .string, .int limit]
  | .bytes limit => .tuple [.kind .bytes, .int limit]
  | .enum _ name names => .tuple [.kind .enum, .str name, .tuple (names.map .str)]
  | .optional child => .tuple [.kind .optional, child.descriptor]
  | .sequence child limit => .tuple [.kind .sequence, child.descriptor, .int limit]
  | .record _ name version args =>
    .tuple [.kind .record, .str name, .int version, .tuple (layoutDescriptors args)]

def layoutDescriptors : List NodeField → List Descriptor
  | [] => []
  | ⟨name, node⟩ :: args => .tuple [.str name, node.descriptor] :: layoutDescriptors args
end

structure SchemaPlan where
  typ : EventClass
  root : Node

/-- A resolved annotation; a class decorated with `event`, or inheriting from one, carries a plan. -/
inductive Annotation
  | annotated (base : Annotation) (extra : List Metadata)
  | union (args : List Annotation)
  | tuple (args : List Annotation)
  | ellipsis
  | noneType
  | bool
  | int
  | float
  | str
  | bytes
  | enum (typ : EnumClass)
  | event (typ : EventClass) (plan : SchemaPlan)
  | other

/-! ## `_compile` -/

def unexpectedMetadata (path : Str) : PyError :=
  codecError path (Str.of "unsupported, duplicate, or inapplicable annotation metadata")

/-- At most one item of metadata, of the class the annotation allows. -/
def checkMetadata (allowed : Metadata → Bool) (metadata : List Metadata) (path : Str) :
    Except PyError Unit :=
  if 1 < metadata.length ∨ metadata.any (fun item => !allowed item) then
    .error (unexpectedMetadata path)
  else .ok ()

def noMetadata : Metadata → Bool := fun _ => false

def isIntRange : Metadata → Bool
  | .intRange _ _ => true
  | _ => false

def isFloatPolicy : Metadata → Bool
  | .floatPolicy _ => true
  | _ => false

def isLength : Metadata → Bool
  | .length _ => true
  | _ => false

/-- `meta.max_length if meta else 4096` -/
def lengthOf : List Metadata → Object
  | .length maxLength :: _ => maxLength
  | _ => .int 4096

/-- A length limit in `0..most`. -/
def lengthLimit (metadata : List Metadata) (most : ℕ) (e : PyError) : Except PyError ℕ :=
  match lengthOf metadata with
  | .int z => if 0 ≤ z ∧ z ≤ most then .ok z.toNat else .error e
  | _ => .error e

/-- `meta or IntRange(-(1 << 63), (1 << 63) - 1)` -/
def boundsOf : List Metadata → Object × Object
  | .intRange min max :: _ => (min, max)
  | _ => (.int (-2 ^ 63), .int (2 ^ 63 - 1))

def compileInt (metadata : List Metadata) (path : Str) : Except PyError Node :=
  match boundsOf metadata with
  | (.int lower, .int upper) =>
    if upper < lower ∨ lower < -2 ^ 63 ∨ 2 ^ 64 ≤ upper ∨ (lower < 0 ∧ 2 ^ 63 ≤ upper) then
      .error (codecError path (Str.of "integer range must fit signed or unsigned 64-bit storage"))
    else if 2 ^ 63 ≤ upper then .ok (.uint lower upper)
    else .ok (.int lower upper)
  | _ => .error (codecError path (Str.of "integer range must fit signed or unsigned 64-bit storage"))

/-- `meta.allow_non_finite if meta else False` -/
def policyOf : List Metadata → Object
  | .floatPolicy allow :: _ => allow
  | _ => .bool false

def compileFloat (metadata : List Metadata) (path : Str) : Except PyError Node :=
  match policyOf metadata with
  | .bool allow => .ok (.float allow)
  | _ => .error (codecError path (Str.of "float policy must be bool"))

def byteLimit : PyError → List Metadata → Except PyError ℕ :=
  fun e metadata => lengthLimit metadata (2 ^ 20) e

def checkNames (path : Str) : List Str → Except PyError (List String)
  | [] => .ok []
  | name :: names => do
    let name ← checkName (some name) 256 path
    let names ← checkNames path names
    .ok (name :: names)

/-- `sorted` -/
def sortNames (names : List String) : List String := names.mergeSort fun a b => decide (a ≤ b)

def compileEnum (typ : EnumClass) (path : Str) : Except PyError Node := do
  if typ.members.length < 1 ∨ 256 < typ.members.length ∨ typ.members.length ≠ typ.size then
    .error (codecError path (Str.of "enum requires 1..256 distinct symbols without aliases"))
  else do
    let name ← checkName (some typ.qualified) 256 path
    let names ← checkNames path typ.members
    .ok (.enum typ name (sortNames names))

def isNoneType : Annotation → Bool
  | .noneType => true
  | _ => false

def depthExceeded (path : Str) : PyError := codecError path (Str.of "schema depth exceeds 16")

def notOptional (path : Str) : PyError :=
  codecError path (Str.of "expected Optional[T]; general unions are unsupported")

def unsupported (path : Str) : PyError :=
  codecError path (Str.of "unsupported annotation; expected a declared native field type")

/-- A child is compiled unless it lies too deep. -/
def within (depth : ℕ) (path : Str) (child : Except PyError Node) : Except PyError Node :=
  if 16 < depth then .error (depthExceeded path) else child

def notVariable (path : Str) : PyError :=
  codecError path (Str.of "expected variable tuple[T, ...]")

def isEllipsis : Annotation → Bool
  | .ellipsis => true
  | _ => false

def optionalOf (child : Except PyError Node) : Except PyError Node := do
  let child ← child
  .ok (.optional child)

/-- `_compile` with the metadata gathered from enclosing `Annotated` forms. -/
def compileAt : Annotation → List Metadata → Str → ℕ → Except PyError Node
  | .annotated base extra, metadata, path, depth => compileAt base (metadata ++ extra) path depth
  | .union [a, b], metadata, path, depth => do
    checkMetadata noMetadata metadata path
    if isNoneType a = isNoneType b then .error (notOptional path)
    else
      optionalOf (if isNoneType a then within (depth + 1) path (compileAt b [] path (depth + 1))
        else within (depth + 1) path (compileAt a [] path (depth + 1)))
  | .union _, metadata, path, _ => do
    checkMetadata noMetadata metadata path
    .error (notOptional path)
  | .tuple [item, last], metadata, path, depth => do
    checkMetadata isLength metadata path
    if isEllipsis last = false then .error (notVariable path)
    else do
      let limit ← lengthLimit metadata 4096
        (codecError path (Str.of "sequence length must be in 0..4096"))
      let child ← within (depth + 1) (path ++ Str.of "[]")
        (compileAt item [] (path ++ Str.of "[]") (depth + 1))
      .ok (.sequence child limit)
  | .tuple _, metadata, path, _ => do
    checkMetadata isLength metadata path
    .error (notVariable path)
  | .bool, metadata, path, _ => do
    checkMetadata noMetadata metadata path
    .ok .bool
  | .int, metadata, path, _ => do
    checkMetadata isIntRange metadata path
    compileInt metadata path
  | .float, metadata, path, _ => do
    checkMetadata isFloatPolicy metadata path
    compileFloat metadata path
  | .str, metadata, path, _ => do
    checkMetadata isLength metadata path
    let limit ← byteLimit (codecError path (Str.of "field byte limit must be in 0..1048576")) metadata
    .ok (.string limit)
  | .bytes, metadata, path, _ => do
    checkMetadata isLength metadata path
    let limit ← byteLimit (codecError path (Str.of "field byte limit must be in 0..1048576")) metadata
    .ok (.bytes limit)
  | .enum typ, metadata, path, _ => do
    checkMetadata noMetadata metadata path
    compileEnum typ path
  | .event typ plan, metadata, path, _ => do
    checkMetadata noMetadata metadata path
    if plan.typ = typ then .ok plan.root else .error (unsupported path)
  | .ellipsis, metadata, path, _ => do
    checkMetadata noMetadata metadata path
    .error (unsupported path)
  | .noneType, metadata, path, _ => do
    checkMetadata noMetadata metadata path
    .error (unsupported path)
  | .other, metadata, path, _ => do
    checkMetadata noMetadata metadata path
    .error (unsupported path)

def compile (typ : Annotation) (path : Str) (depth : ℕ) : Except PyError Node :=
  within depth path (compileAt typ [] path depth)

/-! ## `_validate_tree` -/

structure TreeWalk where
  nodes : ℕ
  identities : Assoc (String × ℕ) Descriptor

abbrev Visit := EStateM PyError TreeWalk Unit

def countVisit (depth : ℕ) (path : Str) : Visit := do
  modify fun t => { t with nodes := t.nodes + 1 }
  let t ← get
  refuse (1024 < t.nodes ∨ 16 < depth)
    (codecError path (Str.of "schema exceeds 1024 nodes or depth 16"))

/-- The identity of a record has another descriptor already. -/
def collides (t : TreeWalk) (key : String × ℕ) (descriptor : Descriptor) : Bool :=
  match t.identities.lookup key with
  | some old => !old.beq descriptor
  | none => false

def noteIdentity (key : String × ℕ) (descriptor : Descriptor) (path : Str) : Visit := do
  let t ← get
  refuse (collides t key descriptor = true)
    (codecError path (Str.of "nested schema identity collision"))
  modify fun t => { t with identities := AList.insert key descriptor t.identities }

mutual
def visit : Node → ℕ → Str → Visit
  | .record typ name version args, depth, path => do
    countVisit depth path
    noteIdentity (name, version) (Node.record typ name version args).descriptor path
    visitFields args depth path
  | .optional child, depth, path => do
    countVisit depth path
    visit child (depth + 1) (path ++ Str.of "[]")
  | .sequence child _, depth, path => do
    countVisit depth path
    visit child (depth + 1) (path ++ Str.of "[]")
  | _, depth, path => countVisit depth path

def visitFields : List NodeField → ℕ → Str → Visit
  | [], _, _ => pure ()
  | ⟨name, node⟩ :: args, depth, path => do
    visit node (depth + 1) (path ++ Str.of "." ++ Str.of name)
    visitFields args depth path
end

def validateTree (root : Node) (path : Str) : Except PyError Unit :=
  match visit root 0 path ⟨0, ∅⟩ with
  | .ok _ _ => .ok ()
  | .error e _ => .error e

/-! ## `event` -/

structure FieldDeclaration where
  name : Str
  init : Bool
  hint : Annotation

/-- A class given to `event`: `frozen` unless it is a dataclass that is not, `resolved` when its
annotations resolve, `initVar` when one of them is an `InitVar`. -/
structure EventDeclaration where
  cls : EventClass
  name : Option Str
  version : Object
  frozen : Bool
  resolved : Bool
  initVar : Bool
  fields : List FieldDeclaration
  distinct : (fields.map FieldDeclaration.name).Nodup

def compileFields (name : Str) : List FieldDeclaration → Except PyError (List NodeField)
  | [] => .ok []
  | field :: fields => do
    let path := name ++ Str.of "." ++ field.name
    let key ← checkName (some field.name) 128 path
    if field.init = false then
      .error (codecError path (Str.of "event field must participate in construction"))
    else do
      let node ← compile field.hint path 1
      let layout ← compileFields name fields
      .ok (⟨key, node⟩ :: layout)

/-- A version that is an `int` in `1..4294967295`. -/
def versionOf (name : Str) (version : Object) : Except PyError ℕ :=
  match version with
  | .int z =>
    if 1 ≤ z ∧ z < 2 ^ 32 then .ok z.toNat
    else .error (codecError name (Str.of "version must be an integer in 1..4294967295"))
  | _ => .error (codecError name (Str.of "version must be an integer in 1..4294967295"))

def checkThat (holds : Bool) (e : PyError) : Except PyError Unit :=
  if holds = true then .ok () else .error e

def event (declaration : EventDeclaration) : Except PyError SchemaPlan := do
  let name ← checkName declaration.name 256 (Str.of "event")
  let path := Str.of name
  let version ← versionOf path declaration.version
  checkThat declaration.frozen (codecError path (Str.of "event dataclass must be frozen"))
  checkThat declaration.resolved
    (codecError path (Str.of "unresolved or recursive field annotation"))
  checkThat (!declaration.initVar)
    (codecError path (Str.of "InitVar fields are not part of a reconstructible event schema"))
  checkThat (declaration.fields.length ≤ 256) (codecError path (Str.of "event exceeds 256 fields"))
  let layout ← compileFields path declaration.fields
  let root := Node.record declaration.cls name version layout
  validateTree root path
  .ok ⟨declaration.cls, root⟩

end Python
end Actorplane
