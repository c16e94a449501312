import Mathlib.Data.String.Basic
import Actorplane.Model.Descriptors
import Actorplane.Schemas.Wire

/-!
# What the Python compiler accepts

A compiled node has its names, ranges and limits within the bounds of the
native schema, and the tree walk bounds its depth and its number of nodes. So
the native parser turns its descriptor into the corresponding field type, and
`validate` accepts that.
-/

namespace Actorplane
namespace Python

open Stateful

/-! ## Strings -/

theorem Str.scalars_of (l : List Char) : Str.scalars (l.map .scalar) = some l := by
  induction l with
  | nil => rfl
  | cons c l ih =>
    rw [List.map_cons, Str.scalars, ih]
    rfl

theorem Str.scalars_eq_some {s : Str} {l : List Char} (h : s.scalars = some l) :
    s = l.map .scalar := by
  induction s generalizing l with
  | nil =>
    cases h
    rfl
  | cons p s ih =>
    cases p with
    | surrogate n => cases h
    | scalar c =>
      rw [Str.scalars, Option.map_eq_some_iff] at h
      obtain ⟨l', hl, rfl⟩ := h
      rw [ih hl, List.map_cons]

@[simp] theorem Str.text_of (s : String) : (Str.of s).text = some s := by
  unfold Str.text Str.of
  rw [Str.scalars_of, Option.map_some, String.ofList_toList]

theorem Str.text_eq_some {s : Str} {t : String} : s.text = some t ↔ s = Str.of t := by
  constructor
  · intro h
    unfold Str.text at h
    rw [Option.map_eq_some_iff] at h
    obtain ⟨l, hl, rfl⟩ := h
    rw [Str.scalars_eq_some hl, Str.of, String.toList_ofList]
  · rintro rfl
    exact Str.text_of t

theorem Str.of_injective {s t : String} (h : Str.of s = Str.of t) : s = t := by
  have texts := congrArg Str.text h
  rw [Str.text_of, Str.text_of] at texts
  exact Option.some.inj texts

/-- A name within its limit. -/
def Named (limit : ℕ) (s : String) : Prop := s ≠ "" ∧ s.utf8ByteSize ≤ limit

theorem checkName_ok {value : Option Str} {limit : ℕ} {path : Str} {text : String}
    (h : checkName value limit path = .ok text) : value = some (Str.of text) ∧ Named limit text := by
  unfold checkName at h
  cases value with
  | none => cases h
  | some value =>
    dsimp only at h
    split at h
    next => cases h
    next plain =>
      rw [not_or] at plain
      cases ht : value.text with
      | none =>
        rw [ht] at h
        cases h
      | some t =>
        rw [ht] at h
        dsimp only at h
        split at h
        next => cases h
        next small =>
          cases h
          have whole := Str.text_eq_some.mp ht
          refine ⟨congrArg some whole, ?_, Nat.not_lt.mp small⟩
          rintro rfl
          exact plain.1 whole

/-! ## Nodes and field types -/

mutual
/-- The field type a node stands for. -/
def Node.ty : Node → FieldType
  | .int minimum maximum => .int (Int64.ofInt minimum) (Int64.ofInt maximum)
  | .uint minimum maximum => .uint (UInt64.ofNat minimum.toNat) (UInt64.ofNat maximum.toNat)
  | .bool => .bool
  | .float allowNonFinite => .float allowNonFinite
  | .string limit => .string limit
  | .bytes limit => .bytes limit
  | .enum _ name enumNames => .enum name enumNames
  | .optional child => .optional child.ty
  | .sequence child limit => .sequence child.ty limit
  | .record _ name version args => .record ⟨name, UInt32.ofNat version, fieldTypes args⟩

def fieldTypes : List NodeField → List Field
  | [] => []
  | ⟨name, node⟩ :: args => ⟨name, node.ty⟩ :: fieldTypes args
end

def Node.isOptional : Node → Bool
  | .optional _ => true
  | _ => false

/-- The symbols of an enum: named, distinct and in order. -/
def GoodSymbols (names : List String) : Prop :=
  names ≠ [] ∧ names.length ≤ 256 ∧ (∀ v ∈ names, Named 256 v) ∧ names.Pairwise (· < ·)

mutual
/-- Names, ranges and limits within the bounds of the native schema. -/
def Node.Good : Node → Prop
  | .int minimum maximum => -2 ^ 63 ≤ minimum ∧ minimum ≤ maximum ∧ maximum < 2 ^ 63
  | .uint minimum maximum => 0 ≤ minimum ∧ minimum ≤ maximum ∧ maximum < 2 ^ 64
  | .bool => True
  | .float _ => True
  | .string limit => limit ≤ 2 ^ 20
  | .bytes limit => limit ≤ 2 ^ 20
  | .enum _ name enumNames => Named 256 name ∧ GoodSymbols enumNames
  | .optional child => child.isOptional = false ∧ child.Good
  | .sequence child limit => limit ≤ 4096 ∧ child.Good
  | .record _ name version args =>
    Named 256 name ∧ 1 ≤ version ∧ version < 2 ^ 32 ∧ args.length ≤ 256 ∧
      (args.map NodeField.name).Nodup ∧ FieldsGood args

def FieldsGood : List NodeField → Prop
  | [] => True
  | ⟨name, node⟩ :: args => Named 128 name ∧ node.Good ∧ FieldsGood args
end

mutual
def Node.count : Node → ℕ
  | .optional child => 1 + child.count
  | .sequence child _ => 1 + child.count
  | .record _ _ _ args => 1 + fieldsCount args
  | _ => 1

def fieldsCount : List NodeField → ℕ
  | [] => 0
  | ⟨_, node⟩ :: args => node.count + fieldsCount args
end

mutual
/-- Every node of the tree lies at depth 16 at most when the root lies at `d`. -/
def Node.Shallow : Node → ℕ → Prop
  | .optional child, d => d ≤ 16 ∧ child.Shallow (d + 1)
  | .sequence child _, d => d ≤ 16 ∧ child.Shallow (d + 1)
  | .record _ _ _ args, d => d ≤ 16 ∧ FieldsShallow args d
  | _, d => d ≤ 16

def FieldsShallow : List NodeField → ℕ → Prop
  | [], _ => True
  | ⟨_, node⟩ :: args, d => node.Shallow (d + 1) ∧ FieldsShallow args d
end

/-! ## The tree walk -/

theorem countVisit_ok {d : ℕ} {path : Str} {t t' : TreeWalk} {u : Unit}
    (h : countVisit d path t = .ok u t') :
    t'.nodes ≤ 1024 ∧ d ≤ 16 ∧ t'.nodes = t.nodes + 1 := by
  obtain ⟨_, _, first, tail⟩ := bind_returns.mp h
  have counted := modify_returns.mp first
  obtain ⟨_, _, got, last⟩ := bind_returns.mp tail
  obtain ⟨rfl, rfl⟩ := get_returns.mp got
  obtain ⟨fine, rfl⟩ := refuse_returns.mp last
  rw [not_or] at fine
  subst counted
  exact ⟨Nat.not_lt.mp fine.1, Nat.not_lt.mp fine.2, rfl⟩

theorem noteIdentity_ok {key : String × ℕ} {descriptor : Descriptor} {path : Str}
    {t t' : TreeWalk} {u : Unit} (h : noteIdentity key descriptor path t = .ok u t') :
    t'.nodes = t.nodes := by
  obtain ⟨_, _, got, tail⟩ := bind_returns.mp h
  obtain ⟨rfl, rfl⟩ := get_returns.mp got
  obtain ⟨_, _, fine, last⟩ := bind_returns.mp tail
  obtain ⟨_, rfl⟩ := refuse_returns.mp fine
  have entered := modify_returns.mp last
  subst entered
  rfl

mutual
theorem visit_ok : ∀ (n : Node) (d : ℕ) (path : Str) {t t' : TreeWalk} {u : Unit},
    visit n d path t = .ok u t' →
    t'.nodes ≤ 1024 ∧ n.Shallow d ∧ t'.nodes = t.nodes + n.count
  | .record typ name version args, d, path, t, t', u, h => by
    obtain ⟨_, _, first, h⟩ := bind_returns.mp h
    obtain ⟨_, _, noted, h⟩ := bind_returns.mp h
    obtain ⟨few, shallow, counted⟩ := countVisit_ok first
    have same := noteIdentity_ok noted
    obtain ⟨few, below, rest⟩ := visitFields_ok args d path (same ▸ few) h
    refine ⟨few, ⟨shallow, below⟩, ?_⟩
    rw [rest, same, counted, Node.count, Nat.add_assoc]
  | .optional child, d, path, t, t', u, h => by
    obtain ⟨_, _, first, h⟩ := bind_returns.mp h
    obtain ⟨_, shallow, counted⟩ := countVisit_ok first
    obtain ⟨few, below, rest⟩ := visit_ok child (d + 1) _ h
    refine ⟨few, ⟨shallow, below⟩, ?_⟩
    rw [rest, counted, Node.count, Nat.add_assoc]
  | .sequence child _, d, path, t, t', u, h => by
    obtain ⟨_, _, first, h⟩ := bind_returns.mp h
    obtain ⟨_, shallow, counted⟩ := countVisit_ok first
    obtain ⟨few, below, rest⟩ := visit_ok child (d + 1) _ h
    refine ⟨few, ⟨shallow, below⟩, ?_⟩
    rw [rest, counted, Node.count, Nat.add_assoc]
  | .int _ _, d, path, _, _, _, h | .uint _ _, d, path, _, _, _, h | .bool, d, path, _, _, _, h
  | .float _, d, path, _, _, _, h | .string _, d, path, _, _, _, h
  | .bytes _, d, path, _, _, _, h | .enum _ _ _, d, path, _, _, _, h => countVisit_ok h

theorem visitFields_ok : ∀ (args : List NodeField) (d : ℕ) (path : Str) {t t' : TreeWalk}
    {u : Unit}, t.nodes ≤ 1024 → visitFields args d path t = .ok u t' →
    t'.nodes ≤ 1024 ∧ FieldsShallow args d ∧ t'.nodes = t.nodes + fieldsCount args
  | [], d, path, t, t', u, few, h => by
    obtain ⟨_, rfl⟩ := pure_returns.mp h
    exact ⟨few, trivial, rfl⟩
  | ⟨name, node⟩ :: args, d, path, t, t', u, _, h => by
    obtain ⟨_, _, first, h⟩ := bind_returns.mp h
    obtain ⟨few, below, counted⟩ := visit_ok node (d + 1) _ first
    obtain ⟨few, others, rest⟩ := visitFields_ok args d path few h
    refine ⟨few, ⟨below, others⟩, ?_⟩
    rw [rest, counted, fieldsCount, Nat.add_assoc]
end

/-! ## The compiler -/

mutual
/-- The plans an annotation refers to. -/
def Annotation.plans : Annotation → List SchemaPlan
  | .annotated base _ => base.plans
  | .union args => argumentPlans args
  | .tuple args => argumentPlans args
  | .event _ plan => [plan]
  | _ => []

def argumentPlans : List Annotation → List SchemaPlan
  | [] => []
  | a :: args => a.plans ++ argumentPlans args
end

def Annotation.isUnion : Annotation → Bool
  | .union _ => true
  | _ => false

mutual
/-- As `typing` builds annotations: `Annotated` carries metadata, and unions are flat. -/
def Annotation.Formed : Annotation → Prop
  | .annotated base extra => extra ≠ [] ∧ base.Formed
  | .union args => (∀ a ∈ args, a.isUnion = false) ∧ ArgumentsFormed args
  | .tuple args => ArgumentsFormed args
  | _ => True

def ArgumentsFormed : List Annotation → Prop
  | [] => True
  | a :: args => a.Formed ∧ ArgumentsFormed args
end

/-- Plans that `event` returns, for classes whose fields refer to such plans only. -/
inductive Compiled : SchemaPlan → Prop
  | intro (declaration : EventDeclaration) (plan : SchemaPlan) (h : event declaration = .ok plan)
      (formed : ∀ f ∈ declaration.fields, f.hint.Formed)
      (nested : ∀ f ∈ declaration.fields, ∀ p ∈ f.hint.plans, Compiled p) : Compiled plan

theorem lengthLimit_ok {metadata : List Metadata} {most n : ℕ} {e : PyError}
    (h : lengthLimit metadata most e = .ok n) : n ≤ most := by
  unfold lengthLimit at h
  split at h
  next z _ =>
    split at h
    next fine =>
      cases h
      omega
    next => cases h
  next => cases h

theorem compileInt_good {metadata : List Metadata} {path : Str} {n : Node}
    (h : compileInt metadata path = .ok n) : n.Good ∧ n.isOptional = false := by
  unfold compileInt at h
  split at h
  next lower upper _ =>
    split at h
    next => cases h
    next fine =>
      simp only [not_or, not_and, not_lt, not_le] at fine
      obtain ⟨ordered, low, high, signs⟩ := fine
      split at h
      next large =>
        cases h
        refine ⟨⟨?_, ordered, high⟩, rfl⟩
        by_contra negative
        have contradicts := signs (not_le.mp negative)
        omega
      next small =>
        cases h
        exact ⟨⟨low, ordered, not_le.mp small⟩, rfl⟩
  next => cases h

theorem compileFloat_good {metadata : List Metadata} {path : Str} {n : Node}
    (h : compileFloat metadata path = .ok n) : n.Good ∧ n.isOptional = false := by
  unfold compileFloat at h
  split at h
  next allow _ =>
    cases h
    exact ⟨trivial, rfl⟩
  next => cases h

theorem checkNames_ok {path : Str} {members : List Str} {names : List String}
    (h : checkNames path members = .ok names) :
    members = names.map Str.of ∧ ∀ v ∈ names, Named 256 v := by
  induction members generalizing names with
  | nil =>
    cases h
    exact ⟨rfl, by simp⟩
  | cons m members ih =>
    obtain ⟨name, hname, rest⟩ := except_returns.mp h
    obtain ⟨names', hnames, last⟩ := except_returns.mp rest
    cases last
    obtain ⟨same, named⟩ := checkName_ok hname
    obtain ⟨sames, nameds⟩ := ih hnames
    rw [Option.some.inj same, sames]
    exact ⟨rfl, List.forall_mem_cons.mpr ⟨named, nameds⟩⟩

theorem sortNames_perm (names : List String) : (sortNames names).Perm names :=
  List.mergeSort_perm names _

/-- Sorting distinct symbols puts them in strict order. -/
theorem sortNames_strict {names : List String} (distinct : names.Nodup) :
    (sortNames names).Pairwise (· < ·) := by
  have sorted : (sortNames names).Pairwise fun a b => decide (a ≤ b) = true := by
    apply List.pairwise_mergeSort
    · intro a b c hab hbc
      rw [decide_eq_true_eq] at hab hbc ⊢
      exact le_trans hab hbc
    · intro a b
      rw [Bool.or_eq_true, decide_eq_true_eq, decide_eq_true_eq]
      exact le_total a b
  have apart : (sortNames names).Nodup := (sortNames_perm names).nodup_iff.mpr distinct
  apply List.Pairwise.imp _ (sorted.and apart)
  rintro a b ⟨le, ne⟩
  rw [decide_eq_true_eq] at le
  exact lt_of_le_of_ne le ne

theorem compileEnum_good {typ : EnumClass} {path : Str} {n : Node}
    (h : compileEnum typ path = .ok n) : n.Good ∧ n.isOptional = false := by
  unfold compileEnum at h
  split at h
  next => cases h
  next fine =>
    simp only [not_or, not_lt] at fine
    obtain ⟨name, hname, rest⟩ := except_returns.mp h
    obtain ⟨names, hnames, last⟩ := except_returns.mp rest
    cases last
    obtain ⟨same, named⟩ := checkNames_ok hnames
    have count : names.length = typ.members.length := by rw [same, List.length_map]
    have distinct : names.Nodup := by
      have members := typ.distinct
      rw [same] at members
      exact members.of_map Str.of
    have perm := sortNames_perm names
    refine ⟨⟨(checkName_ok hname).2, ?_, ?_, ?_, sortNames_strict distinct⟩, rfl⟩
    · intro none
      have size := perm.length_eq
      rw [none, List.length_nil] at size
      omega
    · rw [perm.length_eq, count]
      exact fine.2.1
    · intro v hv
      exact named v (perm.mem_iff.mp hv)

theorem within_ok {depth : ℕ} {path : Str} {child : Except PyError Node} {n : Node}
    (h : within depth path child = .ok n) : child = .ok n := by
  unfold within at h
  split at h
  next => cases h
  next => exact h

theorem checkMetadata_none {metadata : List Metadata} {path : Str} {u : Unit}
    (h : checkMetadata noMetadata metadata path = .ok u) : metadata = [] := by
  unfold checkMetadata at h
  split at h
  next => cases h
  next fine =>
    cases metadata with
    | nil => rfl
    | cons m metadata =>
      exfalso
      apply fine
      exact .inr rfl

/-- A compiled root: good, and a record. -/
def GoodPlan (plan : SchemaPlan) : Prop := plan.root.Good ∧ plan.root.isOptional = false

theorem plain_good {n : Node} {bare : Prop} (h : n.Good ∧ n.isOptional = false) :
    n.Good ∧ (n.isOptional = true → bare) := by
  refine ⟨h.1, ?_⟩
  rw [h.2]
  exact nofun

/-- An optional of what is no union has no optional below it. -/
theorem optional_good {t : Annotation} {child : Node} {bare : Prop} (flat : t.isUnion = false)
    (good : child.Good) (optional : child.isOptional = true → t.isUnion = true ∧ bare) :
    (Node.optional child).Good := by
  refine ⟨?_, good⟩
  cases is : child.isOptional with
  | false => rfl
  | true =>
    have union := (optional is).1
    rw [flat] at union
    cases union

theorem compileUnion_good {a b : Annotation} {metadata : List Metadata} {path : Str} {depth : ℕ}
    {n : Node} (h : compileAt (.union [a, b]) metadata path depth = .ok n)
    (flat : ∀ t ∈ [a, b], t.isUnion = false)
    (children : ∀ t ∈ [a, b], ∀ child, compileAt t [] path (depth + 1) = .ok child →
      child.Good ∧ (child.isOptional = true → t.isUnion = true ∧ ([] : List Metadata) = [])) :
    n.Good ∧ metadata = [] := by
  rw [compileAt] at h
  obtain ⟨_, checked, rest⟩ := except_returns.mp h
  refine ⟨?_, checkMetadata_none checked⟩
  split at rest
  next => cases rest
  next =>
    unfold optionalOf at rest
    obtain ⟨child, hchild, last⟩ := except_returns.mp rest
    cases last
    split at hchild
    next =>
      obtain ⟨good, optional⟩ := children b (by simp) child (within_ok hchild)
      exact optional_good (flat b (by simp)) good optional
    next =>
      obtain ⟨good, optional⟩ := children a (by simp) child (within_ok hchild)
      exact optional_good (flat a (by simp)) good optional

theorem compileTuple_good {item last : Annotation} {metadata : List Metadata} {path : Str}
    {depth : ℕ} {n : Node} (h : compileAt (.tuple [item, last]) metadata path depth = .ok n)
    (children : ∀ path child, compileAt item [] path (depth + 1) = .ok child → child.Good) :
    n.Good ∧ n.isOptional = false := by
  rw [compileAt] at h
  obtain ⟨_, _, rest⟩ := except_returns.mp h
  split at rest
  next => cases rest
  next =>
    obtain ⟨limit, hlimit, rest⟩ := except_returns.mp rest
    obtain ⟨child, hchild, last⟩ := except_returns.mp rest
    cases last
    exact ⟨⟨lengthLimit_ok hlimit, children _ child (within_ok hchild)⟩, rfl⟩

/-- What `_compile` returns is good; it is an optional only for a bare union. -/
theorem compileAt_good : ∀ (t : Annotation) (metadata : List Metadata) (path : Str) (depth : ℕ)
    {n : Node}, compileAt t metadata path depth = .ok n → t.Formed →
    (∀ p ∈ t.plans, GoodPlan p) →
    n.Good ∧ (n.isOptional = true → t.isUnion = true ∧ metadata = [])
  | .annotated base extra, metadata, path, depth, n, h, formed, plans => by
    rw [compileAt] at h
    obtain ⟨good, optional⟩ :=
      compileAt_good base (metadata ++ extra) path depth h formed.2 plans
    refine ⟨good, ?_⟩
    intro is
    have empty := (optional is).2
    rw [List.append_eq_nil_iff] at empty
    exact absurd empty.2 formed.1
  | .union [a, b], metadata, path, depth, n, h, formed, plans => by
    have good := compileUnion_good h formed.1 (fun t ht child hchild => ?_)
    · exact ⟨good.1, fun _ => ⟨rfl, good.2⟩⟩
    · rw [List.mem_pair] at ht
      rcases ht with rfl | rfl
      · exact compileAt_good t [] path (depth + 1) hchild formed.2.1 fun p hp =>
          plans p (List.mem_append_left _ hp)
      · exact compileAt_good t [] path (depth + 1) hchild formed.2.2.1 fun p hp =>
          plans p (List.mem_append_right _ (List.mem_append_left _ hp))
  | .union [], metadata, path, depth, n, h, _, _ | .union [_], metadata, path, depth, n, h, _, _
  | .union (_ :: _ :: _ :: _), metadata, path, depth, n, h, _, _ => by
    rw [compileAt] at h
    · obtain ⟨_, _, rest⟩ := except_returns.mp h
      cases rest
    all_goals simp
  | .tuple [item, last], metadata, path, depth, n, h, formed, plans =>
    plain_good <| compileTuple_good h fun path child hchild =>
      (compileAt_good item [] path (depth + 1) hchild formed.1 fun p hp =>
        plans p (List.mem_append_left _ hp)).1
  | .tuple [], metadata, path, depth, n, h, _, _ | .tuple [_], metadata, path, depth, n, h, _, _
  | .tuple (_ :: _ :: _ :: _), metadata, path, depth, n, h, _, _ => by
    rw [compileAt] at h
    · obtain ⟨_, _, rest⟩ := except_returns.mp h
      cases rest
    all_goals simp
  | .bool, metadata, path, depth, n, h, _, _ => by
    obtain ⟨_, _, last⟩ := except_returns.mp h
    cases last
    exact ⟨trivial, nofun⟩
  | .int, metadata, path, depth, n, h, _, _ => by
    obtain ⟨_, _, last⟩ := except_returns.mp h
    exact plain_good (compileInt_good last)
  | .float, metadata, path, depth, n, h, _, _ => by
    obtain ⟨_, _, last⟩ := except_returns.mp h
    exact plain_good (compileFloat_good last)
  | .str, metadata, path, depth, n, h, _, _ => by
    obtain ⟨_, _, rest⟩ := except_returns.mp h
    obtain ⟨limit, hlimit, last⟩ := except_returns.mp rest
    cases last
    exact ⟨lengthLimit_ok hlimit, nofun⟩
  | .bytes, metadata, path, depth, n, h, _, _ => by
    obtain ⟨_, _, rest⟩ := except_returns.mp h
    obtain ⟨limit, hlimit, last⟩ := except_returns.mp rest
    cases last
    exact ⟨lengthLimit_ok hlimit, nofun⟩
  | .enum typ, metadata, path, depth, n, h, _, _ => by
    obtain ⟨_, _, last⟩ := except_returns.mp h
    exact plain_good (compileEnum_good last)
  | .event typ plan, metadata, path, depth, n, h, _, plans => by
    obtain ⟨_, _, last⟩ := except_returns.mp h
    split at last
    next =>
      cases last
      exact plain_good (plans plan (List.mem_singleton_self plan))
    next => cases last
  | .ellipsis, metadata, path, depth, n, h, _, _ | .noneType, metadata, path, depth, n, h, _, _
  | .other, metadata, path, depth, n, h, _, _ => by
    obtain ⟨_, _, last⟩ := except_returns.mp h
    cases last

theorem compileFields_ok {path : Str} {fields : List FieldDeclaration} {layout : List NodeField}
    (h : compileFields path fields = .ok layout) (formed : ∀ f ∈ fields, f.hint.Formed)
    (nested : ∀ f ∈ fields, ∀ p ∈ f.hint.plans, GoodPlan p) :
    FieldsGood layout ∧ fields.map FieldDeclaration.name = layout.map fun a => Str.of a.name := by
  induction fields generalizing layout with
  | nil =>
    cases h
    exact ⟨trivial, rfl⟩
  | cons f fields ih =>
    rw [compileFields] at h
    obtain ⟨key, hkey, rest⟩ := except_returns.mp h
    split at rest
    next => cases rest
    next =>
      obtain ⟨node, hnode, rest⟩ := except_returns.mp rest
      obtain ⟨tail, htail, last⟩ := except_returns.mp rest
      cases last
      rw [List.forall_mem_cons] at formed nested
      obtain ⟨good, names⟩ := ih htail formed.2 nested.2
      obtain ⟨same, named⟩ := checkName_ok hkey
      have here := (compileAt_good f.hint [] _ 1 (within_ok hnode) formed.1 nested.1).1
      refine ⟨⟨named, here, good⟩, ?_⟩
      rw [List.map_cons, List.map_cons, names, Option.some.inj same]

theorem versionOf_ok {name : Str} {version : Object} {n : ℕ} (h : versionOf name version = .ok n) :
    1 ≤ n ∧ n < 2 ^ 32 := by
  unfold versionOf at h
  split at h
  next z =>
    split at h
    next fine =>
      cases h
      omega
    next => cases h
  next => cases h

theorem checkThat_ok {holds : Bool} {e : PyError} {u : Unit} (h : checkThat holds e = .ok u) :
    holds = true := by
  unfold checkThat at h
  split at h
  next fine => exact fine
  next => cases h

theorem validateTree_ok {root : Node} {path : Str} {u : Unit} (h : validateTree root path = .ok u) :
    root.Shallow 0 ∧ root.count ≤ 1024 := by
  unfold validateTree at h
  cases hv : visit root 0 path ⟨0, ∅⟩ with
  | error e t =>
    rw [hv] at h
    cases h
  | ok u t =>
    obtain ⟨few, shallow, counted⟩ := visit_ok root 0 path hv
    refine ⟨shallow, ?_⟩
    rw [counted] at few
    have few : 0 + root.count ≤ 1024 := few
    omega

/-- What `event` guarantees of the root of a plan. -/
structure Accepted (plan : SchemaPlan) : Prop where
  good : plan.root.Good
  shallow : plan.root.Shallow 0
  few : plan.root.count ≤ 1024
  record : ∃ name version args, plan.root = .record plan.typ name version args

theorem Accepted.goodPlan {plan : SchemaPlan} (h : Accepted plan) : GoodPlan plan := by
  refine ⟨h.good, ?_⟩
  obtain ⟨name, version, args, root⟩ := h.record
  rw [root]
  rfl

theorem event_ok {declaration : EventDeclaration} {plan : SchemaPlan}
    (h : event declaration = .ok plan) (formed : ∀ f ∈ declaration.fields, f.hint.Formed)
    (nested : ∀ f ∈ declaration.fields, ∀ p ∈ f.hint.plans, GoodPlan p) : Accepted plan := by
  unfold event at h
  obtain ⟨name, hname, h⟩ := except_returns.mp h
  obtain ⟨version, hversion, h⟩ := except_returns.mp h
  obtain ⟨_, _, h⟩ := except_returns.mp h
  obtain ⟨_, _, h⟩ := except_returns.mp h
  obtain ⟨_, _, h⟩ := except_returns.mp h
  obtain ⟨_, hfew, h⟩ := except_returns.mp h
  obtain ⟨layout, hlayout, h⟩ := except_returns.mp h
  obtain ⟨_, htree, h⟩ := except_returns.mp h
  cases h
  obtain ⟨good, names⟩ := compileFields_ok hlayout formed nested
  obtain ⟨shallow, few⟩ := validateTree_ok htree
  obtain ⟨low, high⟩ := versionOf_ok hversion
  have count : declaration.fields.length ≤ 256 := by
    simpa using checkThat_ok hfew
  have size : layout.length = declaration.fields.length := by
    have sizes := congrArg List.length names
    rw [List.length_map, List.length_map] at sizes
    exact sizes.symm
  have distinct : (layout.map NodeField.name).Nodup := by
    have apart := declaration.distinct
    rw [names] at apart
    have composed : layout.map (fun a => Str.of a.name) =
        (layout.map NodeField.name).map Str.of := by
      rw [List.map_map]
      rfl
    rw [composed] at apart
    exact apart.of_map Str.of
  refine ⟨⟨(checkName_ok hname).2, low, high, ?_, distinct, good⟩, shallow, few,
    name, version, layout, rfl⟩
  omega

theorem Compiled.accepted {plan : SchemaPlan} (h : Compiled plan) : Accepted plan := by
  induction h with
  | intro declaration plan h formed _ ih =>
    exact event_ok h formed fun f hf p hp => (ih f hf p hp).goodPlan

/-! ## The native parser -/

namespace Parser

theorem entered {d n : ℕ} (shallow : d ≤ 16) (few : n + 1 ≤ 1024) :
    enter d n = .ok () (n + 1) := by
  have fine : ¬(1024 < n + 1 ∨ 16 < d) := by omega
  apply bind_returns.mpr
  refine ⟨⟨⟩, n + 1, modify_returns.mpr rfl, ?_⟩
  apply bind_returns.mpr
  exact ⟨n + 1, n + 1, get_returns.mpr ⟨rfl, rfl⟩, refuse_returns.mpr ⟨fine, rfl⟩⟩

theorem text_named {s : String} {limit n : ℕ} (h : Named limit s) :
    text (.str s) limit n = .ok s n := by
  have fine : ¬(s = "" ∨ limit < s.utf8ByteSize) := by
    rw [not_or]
    exact ⟨h.1, Nat.not_lt.mpr h.2⟩
  apply bind_returns.mpr
  exact ⟨(), n, refuse_returns.mpr ⟨fine, rfl⟩, pure_returns.mpr ⟨rfl, rfl⟩⟩

theorem texts_named {names : List String} {limit n : ℕ} (h : ∀ v ∈ names, Named limit v) :
    texts limit (names.map .str) n = .ok names n := by
  induction names with
  | nil => rfl
  | cons v names ih =>
    rw [List.forall_mem_cons] at h
    rw [List.map_cons]
    apply bind_returns.mpr
    refine ⟨v, n, text_named h.1, ?_⟩
    apply bind_returns.mpr
    exact ⟨names, n, ih h.2, pure_returns.mpr ⟨rfl, rfl⟩⟩

theorem number_inside {low high z : ℤ} {n : ℕ} (hlow : low ≤ z) (hhigh : z ≤ high) :
    number low high (.int z) n = .ok z n := by
  have fine : ¬(z < low ∨ high < z) := by omega
  apply bind_returns.mpr
  exact ⟨(), n, refuse_returns.mpr ⟨fine, rfl⟩, pure_returns.mpr ⟨rfl, rfl⟩⟩

/-- One node of its own: enter it, then the rest. -/
theorem entering {α : Type} {d n n' : ℕ} {f : Parse α} {a : α} (shallow : d ≤ 16)
    (few : n + 1 ≤ 1024) (h : f (n + 1) = .ok a n') :
    (do
      enter d
      f) n = .ok a n' :=
  bind_returns.mpr ⟨(), n + 1, entered shallow few, h⟩

theorem layout_length (args : List NodeField) : (layoutDescriptors args).length = args.length := by
  induction args with
  | nil => rfl
  | cons a args ih =>
    obtain ⟨name, node⟩ := a
    rw [layoutDescriptors, List.length_cons, List.length_cons, ih]

mutual
/-- The parser takes the descriptor of a good node to the field type of the node. -/
theorem node_ok : ∀ (t : Node) (d n : ℕ), t.Good → t.Shallow d → n + t.count ≤ 1024 →
    node t.descriptor d n = .ok t.ty (n + t.count)
  | .int minimum maximum, d, n, good, shallow, few => by
    rw [Node.descriptor, node]
    apply entering shallow few
    apply bind_returns.mpr
    obtain ⟨low, ordered, high⟩ := good
    refine ⟨minimum, n + 1, number_inside low (by omega), ?_⟩
    apply bind_returns.mpr
    exact ⟨maximum, n + 1, number_inside (by omega) (by omega), pure_returns.mpr ⟨rfl, rfl⟩⟩
  | .uint minimum maximum, d, n, good, shallow, few => by
    rw [Node.descriptor, node]
    apply entering shallow few
    apply bind_returns.mpr
    obtain ⟨low, ordered, high⟩ := good
    refine ⟨minimum, n + 1, number_inside low (by omega), ?_⟩
    apply bind_returns.mpr
    exact ⟨maximum, n + 1, number_inside (by omega) (by omega), pure_returns.mpr ⟨rfl, rfl⟩⟩
  | .bool, d, n, good, shallow, few => by
    rw [Node.descriptor, node]
    exact entering shallow few (pure_returns.mpr ⟨rfl, rfl⟩)
  | .float allow, d, n, good, shallow, few => by
    rw [Node.descriptor, node]
    apply entering shallow few
    apply bind_returns.mpr
    exact ⟨allow, n + 1, pure_returns.mpr ⟨rfl, rfl⟩, pure_returns.mpr ⟨rfl, rfl⟩⟩
  | .string limit, d, n, good, shallow, few => by
    have small : limit ≤ 2 ^ 20 := good
    rw [Node.descriptor, node]
    apply entering shallow few
    apply bind_returns.mpr
    exact ⟨limit, n + 1, number_inside (by omega) (by omega), pure_returns.mpr ⟨rfl, rfl⟩⟩
  | .bytes limit, d, n, good, shallow, few => by
    have small : limit ≤ 2 ^ 20 := good
    rw [Node.descriptor, node]
    apply entering shallow few
    apply bind_returns.mpr
    exact ⟨limit, n + 1, number_inside (by omega) (by omega), pure_returns.mpr ⟨rfl, rfl⟩⟩
  | .enum typ name names, d, n, good, shallow, few => by
    rw [Node.descriptor, node]
    apply entering shallow few
    apply bind_returns.mpr
    obtain ⟨named, _, count, nameds, _⟩ := good
    refine ⟨(), n + 1, refuse_returns.mpr ⟨?_, rfl⟩, ?_⟩
    · rw [List.length_map]
      exact Nat.not_lt.mpr count
    apply bind_returns.mpr
    refine ⟨name, n + 1, text_named named, ?_⟩
    apply bind_returns.mpr
    exact ⟨names, n + 1, texts_named nameds, pure_returns.mpr ⟨rfl, rfl⟩⟩
  | .optional child, d, n, good, shallow, few => by
    rw [Node.count] at few
    rw [Node.descriptor, node]
    apply entering shallow.1 (by omega)
    apply bind_returns.mpr
    refine ⟨child.ty, _, node_ok child (d + 1) (n + 1) good.2 shallow.2 (by omega), ?_⟩
    apply pure_returns.mpr
    refine ⟨rfl, ?_⟩
    rw [Node.count, Nat.add_assoc]
  | .sequence child limit, d, n, good, shallow, few => by
    have small : limit ≤ 4096 := good.1
    rw [Node.count] at few
    rw [Node.descriptor, node]
    apply entering shallow.1 (by omega)
    apply bind_returns.mpr
    refine ⟨child.ty, _, node_ok child (d + 1) (n + 1) good.2 shallow.2 (by omega), ?_⟩
    apply bind_returns.mpr
    refine ⟨limit, _, number_inside (by omega) (by omega), ?_⟩
    apply pure_returns.mpr
    refine ⟨rfl, ?_⟩
    rw [Node.count, Nat.add_assoc]
  | .record typ name version args, d, n, good, shallow, few => by
    obtain ⟨named, low, high, count, _, goods⟩ := good
    rw [Node.count] at few
    rw [Node.descriptor, node]
    apply entering shallow.1 (by omega)
    apply bind_returns.mpr
    refine ⟨(), n + 1, refuse_returns.mpr ⟨?_, rfl⟩, ?_⟩
    · rw [layout_length]
      exact Nat.not_lt.mpr count
    apply bind_returns.mpr
    refine ⟨fieldTypes args, _, recordFields_ok args d (n + 1) goods shallow.2 (by omega), ?_⟩
    apply bind_returns.mpr
    refine ⟨name, _, text_named named, ?_⟩
    apply bind_returns.mpr
    refine ⟨version, _, number_inside (by omega) (by omega), ?_⟩
    apply pure_returns.mpr
    refine ⟨rfl, ?_⟩
    rw [Node.count, Nat.add_assoc]

theorem recordFields_ok : ∀ (args : List NodeField) (d n : ℕ), FieldsGood args →
    FieldsShallow args d → n + fieldsCount args ≤ 1024 →
    recordFields (layoutDescriptors args) d n = .ok (fieldTypes args) (n + fieldsCount args)
  | [], d, n, _, _, _ => rfl
  | ⟨name, t⟩ :: args, d, n, good, shallow, few => by
    rw [fieldsCount] at few
    rw [layoutDescriptors, recordFields]
    apply bind_returns.mpr
    refine ⟨name, n, text_named good.1, ?_⟩
    apply bind_returns.mpr
    refine ⟨t.ty, _, node_ok t (d + 1) n good.2.1 shallow.1 (by omega), ?_⟩
    apply bind_returns.mpr
    refine ⟨fieldTypes args, _, recordFields_ok args d (n + t.count) good.2.2 shallow.2 (by omega), ?_⟩
    apply pure_returns.mpr
    refine ⟨rfl, ?_⟩
    rw [fieldsCount, Nat.add_assoc]
end

end Parser

/-! ## `validate` -/

theorem tyNode_counts {d n : ℕ} (shallow : d ≤ 16) (few : n + 1 ≤ 1024) :
    tyNode d n = .ok () (n + 1) := by
  apply bind_returns.mpr
  refine ⟨⟨⟩, n + 1, modify_returns.mpr rfl, ?_⟩
  apply bind_returns.mpr
  refine ⟨(), n + 1, ?_, refuse_returns.mpr ⟨by omega, rfl⟩⟩
  apply bind_returns.mpr
  exact ⟨n + 1, n + 1, get_returns.mpr ⟨rfl, rfl⟩, refuse_returns.mpr ⟨by omega, rfl⟩⟩

theorem checkedTy {d n : ℕ} {bad : Prop} [Decidable bad] {e : SchemaError} (shallow : d ≤ 16)
    (few : n + 1 ≤ 1024) (fine : ¬bad) :
    (do
      tyNode d
      refuse bad e) n = .ok () (n + 1) :=
  bind_returns.mpr ⟨(), n + 1, tyNode_counts shallow few, refuse_returns.mpr ⟨fine, rfl⟩⟩

theorem strict_sorted {names : List String} (h : names.Pairwise (· < ·)) :
    ¬unsortedVariants names := by
  rintro ⟨w, hw, unsorted⟩
  apply unsorted
  induction names with
  | nil => cases hw
  | cons a names ih =>
    cases names with
    | nil => cases hw
    | cons b names =>
      rw [List.pairwise_cons] at h
      rw [List.tail_cons, List.zip_cons_cons, List.mem_cons] at hw
      rcases hw with rfl | hw
      · exact h.1 b List.mem_cons_self
      · exact ih h.2 hw

theorem int64_lt_iff {a b : ℤ} (ha : -2 ^ 63 ≤ a) (ha' : a < 2 ^ 63) (hb : -2 ^ 63 ≤ b)
    (hb' : b < 2 ^ 63) : Int64.ofInt a < Int64.ofInt b ↔ a < b := by
  rw [Int64.lt_iff_toInt_lt, Int64.toInt_ofInt_of_le ha ha', Int64.toInt_ofInt_of_le hb hb']

theorem uint64_lt_iff {a b : ℤ} (ha : 0 ≤ a) (ha' : a < 2 ^ 64) (hb : 0 ≤ b) (hb' : b < 2 ^ 64) :
    UInt64.ofNat a.toNat < UInt64.ofNat b.toNat ↔ a < b := by
  rw [UInt64.lt_iff_toNat_lt, UInt64.toNat_ofNat_of_lt' (by change a.toNat < 2 ^ 64; omega),
    UInt64.toNat_ofNat_of_lt' (by change b.toNat < 2 ^ 64; omega)]
  omega

theorem fieldTypes_length (args : List NodeField) : (fieldTypes args).length = args.length := by
  induction args with
  | nil => rfl
  | cons a args ih =>
    obtain ⟨name, node⟩ := a
    rw [fieldTypes, List.length_cons, List.length_cons, ih]

mutual
/-- `validate` accepts the field type of a good node, and counts its nodes. -/
theorem validTy_ok : ∀ (t : Node) (d n : ℕ), t.Good → t.Shallow d → n + t.count ≤ 1024 →
    validTy t.ty d n = .ok () (n + t.count)
  | .int minimum maximum, d, n, good, shallow, few => by
    obtain ⟨low, ordered, high⟩ := good
    apply checkedTy shallow few
    rw [int64_lt_iff (by omega) high low (by omega)]
    omega
  | .uint minimum maximum, d, n, good, shallow, few => by
    obtain ⟨low, ordered, high⟩ := good
    apply checkedTy shallow few
    rw [uint64_lt_iff (by omega) high low (by omega)]
    omega
  | .bool, d, n, good, shallow, few => tyNode_counts shallow few
  | .float allow, d, n, good, shallow, few => tyNode_counts shallow few
  | .string limit, d, n, good, shallow, few => checkedTy shallow few (Nat.not_lt.mpr good)
  | .bytes limit, d, n, good, shallow, few => checkedTy shallow few (Nat.not_lt.mpr good)
  | .enum typ name names, d, n, good, shallow, few => by
    obtain ⟨named, nonempty, count, nameds, strict⟩ := good
    apply checkedTy shallow few
    rintro (empty | long | none | many | ⟨v, hv, bad⟩ | unsorted)
    · exact named.1 empty
    · exact absurd named.2 (Nat.not_le.mpr long)
    · exact nonempty none
    · omega
    · rcases bad with empty | long
      · exact (nameds v hv).1 empty
      · exact absurd (nameds v hv).2 (Nat.not_le.mpr long)
    · exact strict_sorted strict unsorted
  | .optional child, d, n, good, shallow, few => by
    rw [Node.count] at few ⊢
    apply bind_returns.mpr
    refine ⟨(), n + 1, tyNode_counts shallow.1 (by omega), ?_⟩
    rw [← Nat.add_assoc]
    exact validTy_ok child (d + 1) (n + 1) good.2 shallow.2 (by omega)
  | .sequence child limit, d, n, good, shallow, few => by
    rw [Node.count] at few ⊢
    apply bind_returns.mpr
    refine ⟨(), n + 1, tyNode_counts shallow.1 (by omega), ?_⟩
    apply bind_returns.mpr
    refine ⟨(), n + 1, refuse_returns.mpr ⟨Nat.not_lt.mpr good.1, rfl⟩, ?_⟩
    rw [← Nat.add_assoc]
    exact validTy_ok child (d + 1) (n + 1) good.2 shallow.2 (by omega)
  | .record typ name version args, d, n, good, shallow, few => by
    obtain ⟨named, low, high, count, distinct, goods⟩ := good
    rw [Node.count] at few ⊢
    have present : ¬UInt32.ofNat version = 0 := by
      intro zero
      have same := congrArg UInt32.toNat zero
      rw [UInt32.toNat_ofNat_of_lt' high] at same
      have same : version = 0 := same
      omega
    apply bind_returns.mpr
    refine ⟨(), n, refuse_returns.mpr ⟨Nat.not_lt.mpr shallow.1, rfl⟩, ?_⟩
    apply bind_returns.mpr
    refine ⟨⟨⟩, n + 1, modify_returns.mpr rfl, ?_⟩
    apply bind_returns.mpr
    refine ⟨(), n + 1, ?_, ?_⟩
    · apply bind_returns.mpr
      exact ⟨n + 1, n + 1, get_returns.mpr ⟨rfl, rfl⟩, refuse_returns.mpr ⟨by omega, rfl⟩⟩
    apply bind_returns.mpr
    refine ⟨(), n + 1, refuse_returns.mpr ⟨?_, rfl⟩, ?_⟩
    · rw [fieldTypes_length]
      rintro (empty | long | zero | many)
      · exact named.1 empty
      · exact absurd named.2 (Nat.not_le.mpr long)
      · exact present zero
      · omega
    rw [← Nat.add_assoc]
    exact validateFields_ok args [] d (n + 1) goods shallow.2 (by omega) distinct (by simp)

theorem validateFields_ok : ∀ (args : List NodeField) (seen : List String) (d n : ℕ),
    FieldsGood args → FieldsShallow args d → n + fieldsCount args ≤ 1024 →
    (args.map NodeField.name).Nodup → (∀ a ∈ args, a.name ∉ seen) →
    validateFields (fieldTypes args) seen d n = .ok () (n + fieldsCount args)
  | [], seen, d, n, _, _, _, _, _ => rfl
  | ⟨name, t⟩ :: args, seen, d, n, good, shallow, few, distinct, fresh => by
    rw [fieldsCount] at few ⊢
    rw [List.map_cons, List.nodup_cons] at distinct
    rw [List.forall_mem_cons] at fresh
    apply bind_returns.mpr
    refine ⟨(), n, refuse_returns.mpr ⟨?_, rfl⟩, ?_⟩
    · rintro (empty | long)
      · exact good.1.1 empty
      · exact absurd good.1.2 (Nat.not_le.mpr long)
    apply bind_returns.mpr
    refine ⟨(), n, refuse_returns.mpr ⟨fresh.1, rfl⟩, ?_⟩
    apply bind_returns.mpr
    refine ⟨(), n + t.count, ?_, ?_⟩
    · rw [mapError_returns]
      exact validTy_ok t (d + 1) n good.2.1 shallow.1 (by omega)
    rw [← Nat.add_assoc]
    apply validateFields_ok args (name :: seen) d (n + t.count) good.2.2 shallow.2 (by omega)
      distinct.2
    intro a ha
    rw [List.mem_cons, not_or]
    refine ⟨?_, fresh.2 a ha⟩
    rintro rfl
    exact distinct.1 (List.mem_map.mpr ⟨a, ha, rfl⟩)
end

/-- The native schema of a plan. -/
def SchemaPlan.schema (plan : SchemaPlan) : Schema :=
  match plan.root with
  | .record _ name version args => ⟨name, UInt32.ofNat version, fieldTypes args⟩
  | _ => ⟨"", 0, []⟩

theorem Accepted.ty_eq {plan : SchemaPlan} (h : Accepted plan) :
    plan.root.ty = .record plan.schema := by
  obtain ⟨name, version, args, root⟩ := h.record
  unfold SchemaPlan.schema
  rw [root]
  rfl

/-- The native side validates the schema of a plan. -/
theorem Accepted.valid {plan : SchemaPlan} (h : Accepted plan) : plan.schema.validate = .ok () := by
  have few := h.few
  have run := validTy_ok plan.root 0 0 h.good h.shallow (by omega)
  rw [h.ty_eq, validTy] at run
  unfold Schema.validate
  rw [run]

theorem Accepted.parse_descriptor {plan : SchemaPlan} (h : Accepted plan) :
    parse plan.root.descriptor = .ok plan.schema := by
  have few := h.few
  have run := Parser.node_ok plan.root 0 0 h.good h.shallow (by omega)
  rw [h.ty_eq] at run
  unfold parse
  rw [run]
  dsimp only
  rw [h.valid]

end Python
end Actorplane
