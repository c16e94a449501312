import Mathlib.Data.Nat.Notation
import Mathlib.Tactic.Common

/-!
# Component declarations of a Python class

The declarations of a class are the component descriptors among the members it
collects along its method resolution order. They are sorted depth first: a
component comes after the components it depends on, and every interface it
requires is implemented by one of them. Event classes are compared by identity,
and so are descriptors. The `depth` of the sort is the room left on the
interpreter's stack.
-/

namespace Actorplane
namespace Python.Components

/-- What a declaration raises. -/
inductive DeclarationError
  | value (message : String)
  | type (message : String)
  | key (name : String)
  | recursion
  deriving DecidableEq, Repr

inductive Direction
  | input | output
  deriving DecidableEq, Repr

structure Interface where
  name : String
  version : ℕ
  inputs : List (String × ℕ)
  outputs : List (String × ℕ)
  deriving DecidableEq, Repr

/-- The attributes of a component class that its interfaces are checked against. `implements`
is `none` for anything but a tuple of interfaces, and `nativePorts` is `none` for a class
without a native kind. -/
structure Factory where
  implements : Option (List Interface)
  handlers : List (ℕ × String)
  outputs : List (String × ℕ)
  nativePorts : Option (List (String × Direction × ℕ))
  deriving DecidableEq, Repr

/-- The interfaces a factory lists. -/
def Factory.contracts (f : Factory) : List Interface := f.implements.getD []

structure ComponentDescriptor where
  identity : ℕ
  factory : Factory
  dependsOn : List String
  requires : List Interface
  deriving DecidableEq, Repr

inductive Member
  | component (descriptor : ComponentDescriptor)
  | other
  deriving DecidableEq, Repr

/-- A class, as the namespaces of the classes in its resolution order. -/
structure Class where
  mro : List (List (String × Member))
  deriving Repr

/-! ## Members -/

/-- Assignment to a key of a dictionary, which keeps the place of a key it has. -/
def put {α : Type} (d : List (String × α)) (item : String × α) : List (String × α) :=
  if item.1 ∈ d.map Prod.fst then d.map fun e => if e.1 = item.1 then item else e
  else d ++ [item]

/-- `_members` -/
def members (cls : Class) : List (String × Member) :=
  cls.mro.reverse.foldl (fun d base => base.foldl put d) []

def Member.descriptor : Member → Option ComponentDescriptor
  | .component d => some d
  | .other => none

/-- The declared components, in the order of the members. -/
def found (cls : Class) : List (String × ComponentDescriptor) :=
  (members cls).filterMap fun e => e.2.descriptor.map (e.1, ·)

/-! ## Interfaces -/

def portDeclarations (f : Factory) : Except DeclarationError (List (String × Direction × ℕ)) :=
  match f.nativePorts with
  | some ports => .ok ports
  | none =>
    let ports := f.handlers.map (fun h => (h.2, Direction.input, h.1)) ++
      f.outputs.map (fun o => (o.1, Direction.output, o.2))
    if 64 < ports.length ∨ ¬(ports.map Prod.fst).Nodup then
      .error (.value "ports require unique names and at most 64 entries")
    else .ok ports

/-- The ports an interface asks for, with their directions. -/
def Interface.ports (i : Interface) : List (String × Direction × ℕ) :=
  i.inputs.map (fun p => (p.1, .input, p.2)) ++ i.outputs.map (fun p => (p.1, .output, p.2))

def checkContract (ports : List (String × Direction × ℕ)) (contract : Interface) :
    Except DeclarationError Unit :=
  match contract.ports.find? (· ∉ ports) with
  | some port =>
    .error (.value ("interface " ++ contract.name ++ " requires matching port " ++ port.1))
  | none => .ok ()

def interfaces (f : Factory) : Except DeclarationError (List Interface) :=
  match f.implements with
  | none => .error (.type "implements must be a bounded tuple of Interface contracts")
  | some contracts =>
    if 16 < contracts.length then
      .error (.type "implements must be a bounded tuple of Interface contracts")
    else if ¬(contracts.map fun i => (i.name, i.version)).Nodup then
      .error (.value "duplicate implemented interface")
    else do
      let ports ← portDeclarations f
      contracts.forM (checkContract ports)
      return contracts

/-! ## The sort -/

structure Visit where
  visiting : List String
  done : List String
  ordered : List (String × ComponentDescriptor)
  deriving Repr

def missingDependency (dependency : String) : DeclarationError :=
  .value ("missing component dependency " ++ dependency)

/-- The loop that looks for each required interface among those available. -/
def checkRequired (available requires : List Interface) : Except DeclarationError Unit :=
  match requires.find? (· ∉ available) with
  | some required => .error (.value
      ("missing required interface " ++ required.name ++ " v" ++ toString required.version))
  | none => .ok ()

/-- One dependency of a component: its visit, then the interfaces it makes available. -/
def resolve (found : List (String × ComponentDescriptor))
    (visit : Visit → String → Except DeclarationError Visit) (s : Visit × List Interface)
    (dependency : String) : Except DeclarationError (Visit × List Interface) :=
  match found.lookup dependency with
  | none => .error (missingDependency dependency)
  | some target => do
    let v ← visit s.1 dependency
    let contracts ← interfaces target.factory
    return (v, s.2 ++ contracts)

def visit (found : List (String × ComponentDescriptor)) :
    ℕ → Visit → String → Except DeclarationError Visit
  | 0, _, _ => .error .recursion
  | depth + 1, v, name =>
    if name ∈ v.visiting then .error (.value "component dependency cycle")
    else if name ∈ v.done then .ok v
    else
      let v := { v with visiting := name :: v.visiting }
      match found.lookup name with
      | none => .error (.key name)
      | some descriptor => do
        let _ ← interfaces descriptor.factory
        let (v, available) ← descriptor.dependsOn.foldlM (resolve found (visit found depth)) (v, [])
        checkRequired available descriptor.requires
        return { visiting := v.visiting.erase name
                 done := v.done ++ [name]
                 ordered := v.ordered ++ [(name, descriptor)] }

def declarations (depth : ℕ) (cls : Class) :
    Except DeclarationError (List (String × ComponentDescriptor)) :=
  let found := found cls
  if 64 < found.length ∨ ¬(found.map fun e => e.2.identity).Nodup then
    .error (.value "at most 64 distinct component declarations")
  else do
    let v ← (found.map Prod.fst).foldlM (visit found depth)
      { visiting := [], done := [], ordered := [] }
    return v.ordered

end Python.Components
end Actorplane
