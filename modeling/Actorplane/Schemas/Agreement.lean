import Actorplane.Schemas.Codec
import Actorplane.Schemas.PythonWriting

/-!
# The two codecs agree

A plan of the Python compiler and the native schema built from its descriptor
accept the same byte strings and write the same bytes, for values that stand
for one another.
-/

namespace Actorplane
namespace Python

open Stateful

/-! ## From a native value and back -/

/-- A fitting value is nothing but the absent optional when its node is no optional. -/
theorem lift_ne_none {n : Node} {v : Value} (plain : n.isOptional = false) (fits : n.ty.Fits v) :
    lift n v ≠ .none := by
  cases n with
  | optional child => cases plain
  | _ =>
    cases v <;> first
      | exact False.elim fits
      | simp only [lift, ne_eq, reduceCtorEq, not_false_eq_true]

theorem symbolIndex_getD {names : List String} {i : ℕ} (inRange : i < names.length)
    (strict : names.Pairwise (· < ·)) :
    symbolIndex names (some (Str.of (names.getD i ""))) = some i := by
  have here : names.getD i "" = names[i] := by
    rw [List.getD_eq_getElem?_getD, List.getElem?_eq_getElem inRange]
    rfl
  rw [here]
  apply List.findIdx?_eq_some_iff_getElem.mpr
  refine ⟨inRange, by simp, ?_⟩
  intro j before
  have ordered := List.pairwise_iff_getElem.mp strict j i (by omega) inRange before
  rw [decide_eq_true_eq]
  intro same
  exact absurd (Str.of_injective same) (ne_of_lt ordered)

/-- An attribute no field asks for changes nothing. -/
theorem nativeFields_skip {args : List NodeField} {a : Attribute} {attributes : List Attribute}
    (fresh : a.name ∉ args.map NodeField.name) :
    nativeFields args (a :: attributes) = nativeFields args attributes := by
  induction args with
  | nil => rfl
  | cons field args ih =>
    obtain ⟨name, node⟩ := field
    rw [List.map_cons, List.mem_cons, not_or] at fresh
    have other : getattr name (a :: attributes) = getattr name attributes := by
      rw [getattr, if_neg fresh.1]
    rw [nativeFields, nativeFields, other, ih fresh.2]

theorem mapM_lift {child : Node} {xs : List Value}
    (each : ∀ x ∈ xs, native child (lift child x) = some x) :
    (xs.map (lift child)).mapM (native child) = some xs := by
  induction xs with
  | nil => rfl
  | cons x xs ih =>
    rw [List.forall_mem_cons] at each
    rw [List.map_cons, List.mapM_cons, each.1, ih each.2]
    rfl

mutual
/-- The Python value of a fitting native value stands for that value. -/
theorem native_lift : ∀ (n : Node) (v : Value), n.Good → n.ty.Fits v → native n (lift n v) = some v
  | .int minimum maximum, v, good, fits => by
    cases v with
    | int x =>
      have range : -2 ^ 63 ≤ x.toInt ∧ x.toInt < 2 ^ 63 := ⟨x.le_toInt, x.toInt_lt⟩
      rw [lift, native, nativeInt, if_pos range, Int64.ofInt_toInt]
    | _ => exact fits.elim
  | .uint minimum maximum, v, good, fits => by
    cases v with
    | uint x =>
      have below : x.toNat < 2 ^ 64 := x.toNat_lt
      have range : (0 : ℤ) ≤ x.toNat ∧ (x.toNat : ℤ) < 2 ^ 64 := by omega
      rw [lift, native, nativeUint, if_pos range, Int.toNat_natCast, UInt64.ofNat_toNat]
    | _ => exact fits.elim
  | .bool, v, good, fits => by
    cases v with
    | bool x => rfl
    | _ => exact fits.elim
  | .float allow, v, good, fits => by
    cases v with
    | float x => rfl
    | _ => exact fits.elim
  | .string limit, v, good, fits => by
    cases v with
    | string x => rw [lift, native, nativeString, Str.text_of, Option.map_some]
    | _ => exact fits.elim
  | .bytes limit, v, good, fits => by
    cases v with
    | bytes x => rfl
    | _ => exact fits.elim
  | .enum typ name names, v, good, fits => by
    cases v with
    | enum x =>
      have index := symbolIndex_getD fits good.2.2.2.2
      rw [lift, native, nativeEnum, if_pos rfl, index, Option.map_some, UInt32.ofNat_toNat]
    | _ => exact fits.elim
  | .optional child, v, good, fits => by
    cases v with
    | optional x =>
      cases x with
      | none => rfl
      | some x =>
        have present := lift_ne_none good.1 fits
        have below := native_lift child x good.2 fits
        rw [lift, native]
        cases lifted : lift child x with
        | none => exact absurd lifted present
        | _ =>
          rw [lifted] at below
          rw [nativeOptional, below]
          · rfl
          · exact PyValue.noConfusion
    | _ => exact fits.elim
  | .sequence child limit, v, good, fits => by
    cases v with
    | sequence xs =>
      have members := mapM_lift fun x hx => native_lift child x good.2 (fits.2 x hx)
      rw [lift, native, nativeSequence, Python.members]
      dsimp only
      rw [members, Option.map_some]
    | _ => exact fits.elim
  | .record typ name version args, v, good, fits => by
    cases v with
    | record xs =>
      rw [lift, native, nativeRecord, if_pos rfl,
        nativeFields_lift args xs good.2.2.2.2.2 good.2.2.2.2.1 fits, Option.map_some]
    | _ => exact fits.elim

theorem nativeFields_lift : ∀ (args : List NodeField) (xs : List Value), FieldsGood args →
    (args.map NodeField.name).Nodup → FieldsFit (fieldTypes args) xs →
    nativeFields args (liftFields args xs) = some xs
  | [], [], _, _, _ => rfl
  | ⟨name, node⟩ :: args, x :: xs, good, distinct, fits => by
    rw [List.map_cons, List.nodup_cons] at distinct
    have rest := nativeFields_lift args xs good.2.2 distinct.2 fits.2
    rw [liftFields, nativeFields, getattr, if_pos rfl, Option.bind_some,
      native_lift node x good.2.1 fits.1, Option.bind_some, nativeFields_skip distinct.1, rest,
      Option.map_some]
end

/-! ## Plans -/

/-- A plan the Python compiler returns for an event class. -/
structure EventPlan where
  plan : SchemaPlan
  compiled : Compiled plan

namespace EventPlan

variable (p : EventPlan)

theorem accepted : Accepted p.plan := p.compiled.accepted

/-- The schema the native side builds from the descriptor. -/
def native : ValidSchema := ⟨p.plan.schema, p.accepted.valid⟩

theorem fits_iff {v : Value} : p.plan.root.ty.Fits v ↔ p.native.schema.Fits v := by
  rw [p.accepted.ty_eq, FieldType.Fits]
  rfl

theorem reading_ok {classes : Classes} (plain : p.plan.root.Plain classes) {b : List UInt8}
    {pv : PyValue} {r : PyReader} :
    p.plan.reading classes ⟨b, 0, 0⟩ = .ok pv r ↔
      ∃ v, pv = lift p.plan.root v ∧ p.native.Carries b v ∧ v.canon = v ∧
        r = PyReader.past ⟨b, 0, 0⟩ v := by
  have start : PyReader.Inside ⟨b, 0, 0⟩ := Nat.zero_le _
  have all : PyReader.rest ⟨b, 0, 0⟩ = b := rfl
  simp only [SchemaPlan.reading, bind_returns, get_returns, refuse_returns, pure_returns,
    getNode_ok p.plan.root _ p.accepted.good plain start, not_not]
  constructor
  · rintro ⟨_, _, ⟨v, rfl, fits, canonical, wire, few, rfl⟩, _, _, ⟨rfl, rfl⟩, _, _, ⟨ended, rfl⟩,
      rfl, rfl⟩
    rw [all] at wire
    have ended : 0 + v.wire.length = b.length := ended
    have few : 0 + v.weight ≤ 4096 := few
    refine ⟨v, rfl, ⟨p.fits_iff.mp fits, by omega, ?_⟩, canonical, rfl⟩
    rw [canonical]
    exact wire.eq_of_length (by omega)
  · rintro ⟨v, rfl, ⟨fits, few, wire⟩, canonical, rfl⟩
    rw [canonical] at wire
    refine ⟨_, PyReader.past ⟨b, 0, 0⟩ v, ⟨v, rfl, p.fits_iff.mpr fits, canonical, ?_, ?_, rfl⟩, _,
      _, ⟨rfl, rfl⟩, (), _, ⟨?_, rfl⟩, rfl, rfl⟩
    · rw [all, wire]
    · change 0 + v.weight ≤ 4096
      omega
    · change 0 + v.wire.length = b.length
      rw [wire]
      omega

/-- Both sides decode the same byte strings, to values that stand for one another. -/
theorem decode_eq_ok {classes : Classes} (plain : p.plan.root.Plain classes) {b : List UInt8}
    {pv : PyValue} :
    p.plan.decode classes b = .ok pv ↔
      ∃ v, p.native.schema.decode b = .ok v ∧ pv = lift p.plan.root v := by
  simp only [p.native.decode_eq_ok]
  unfold SchemaPlan.decode
  by_cases long : 2 ^ 20 < b.length
  · rw [if_pos long]
    constructor
    · intro h
      cases h
    · rintro ⟨_, ⟨short, _⟩, _⟩
      omega
  · rw [if_neg long]
    constructor
    · intro h
      cases run : p.plan.reading classes ⟨b, 0, 0⟩ with
      | ok a r =>
        rw [run] at h
        cases h
        obtain ⟨v, lifted, carries, canonical, _⟩ := (p.reading_ok plain).mp run
        exact ⟨v, ⟨Nat.not_lt.mp long, carries, canonical⟩, lifted⟩
      | error e r =>
        rw [run] at h
        cases h
    · rintro ⟨v, ⟨_, carries, canonical⟩, lifted⟩
      rw [(p.reading_ok plain).mpr ⟨v, lifted, carries, canonical, rfl⟩]
      rfl

/-- Both sides encode the same values to the same bytes under the same limit. -/
theorem encode_eq_ok {pv : PyValue} {maxBytes : ℤ} {b : List UInt8} :
    p.plan.encode pv maxBytes = .ok b ↔
      ∃ (v : Value) (limit : ℕ), Python.native p.plan.root pv = some v ∧ (limit : ℤ) = maxBytes ∧
        p.native.schema.encode v limit = .ok b := by
  simp only [p.native.encode_eq_ok]
  unfold SchemaPlan.encode
  by_cases range : 0 ≤ maxBytes ∧ maxBytes ≤ 2 ^ 20
  · obtain ⟨limit, rfl⟩ := Int.eq_ofNat_of_zero_le range.1
    have within : Writer.Within ⟨[], limit, 0⟩ := ⟨Nat.zero_le _, by exact_mod_cast range.2⟩
    have written := fun w => @Writer.put_ok p.plan.root pv p.plan.path ⟨[], limit, 0⟩ w ()
      p.accepted.good within
    rw [if_pos range, Int.toNat_natCast]
    constructor
    · intro h
      cases run : put p.plan.root pv p.plan.path ⟨[], limit, 0⟩ with
      | ok u w =>
        rw [run] at h
        cases h
        obtain ⟨v, found, fits, few, room, rfl⟩ := (written w).mp run
        have few : 0 + v.weight ≤ 4096 := few
        have room : 0 + v.canon.wire.length ≤ limit := room
        refine ⟨v, limit, found, rfl, within.2, ⟨p.fits_iff.mp fits, by omega, rfl⟩, ?_⟩
        change v.canon.wire.length ≤ limit
        omega
      | error e w =>
        rw [run] at h
        cases h
    · rintro ⟨v, limit', found, same, _, ⟨fits, few, rfl⟩, room⟩
      have same : limit' = limit := by exact_mod_cast same
      subst same
      have put : Writer.Stands p.plan.root pv ⟨[], limit', 0⟩ (Writer.past ⟨[], limit', 0⟩ v) := by
        refine ⟨v, found, p.fits_iff.mpr fits, ?_, ?_, rfl⟩
        · change 0 + v.weight ≤ 4096
          omega
        · change 0 + v.canon.wire.length ≤ limit'
          omega
      rw [(written _).mpr put]
      rfl
  · rw [if_neg range]
    constructor
    · intro h
      cases h
    · rintro ⟨_, limit, _, rfl, small, _⟩
      omega

/-- The native side accepts the descriptor of a plan, and the two codecs then agree: each decodes
what the other decodes and encodes what the other encodes, to corresponding values and the same
bytes. -/
theorem codecs_agree {classes : Classes} (plain : p.plan.root.Plain classes) : ∃ schema : Schema,
    parse p.plan.root.descriptor = .ok schema ∧ schema.validate = .ok () ∧
      (∀ (b : List UInt8) (pv : PyValue), p.plan.decode classes b = .ok pv ↔
        ∃ v, schema.decode b = .ok v ∧ pv = lift p.plan.root v) ∧
      (∀ (b : List UInt8) (v : Value), schema.decode b = .ok v →
        Python.native p.plan.root (lift p.plan.root v) = some v) ∧
      ∀ (pv : PyValue) (maxBytes : ℤ) (b : List UInt8), p.plan.encode pv maxBytes = .ok b ↔
        ∃ (v : Value) (limit : ℕ), Python.native p.plan.root pv = some v ∧
          (limit : ℤ) = maxBytes ∧ schema.encode v limit = .ok b := by
  refine ⟨p.plan.schema, p.accepted.parse_descriptor, p.accepted.valid, ?_, ?_, ?_⟩
  · intro b pv
    exact p.decode_eq_ok plain
  · intro b v decoded
    have fits := (p.native.decode_eq_ok.mp decoded).2.1.1
    exact native_lift p.plan.root v p.accepted.good (p.fits_iff.mpr fits)
  · intro pv maxBytes b
    exact p.encode_eq_ok

/-- A frozen dataclass with a number and an optional note. -/
def tickDeclaration : EventDeclaration where
  cls := ⟨0, Str.of "Tick"⟩
  name := some (Str.of "Tick")
  version := .int 1
  frozen := true
  resolved := true
  initVar := false
  fields := [⟨Str.of "count", true, .int⟩, ⟨Str.of "note", true, .union [.str, .noneType]⟩]
  distinct := by decide

def tick : EventPlan where
  plan := ⟨⟨0, Str.of "Tick"⟩, .record ⟨0, Str.of "Tick"⟩ "Tick" 1
    [⟨"count", .int (-2 ^ 63) (2 ^ 63 - 1)⟩, ⟨"note", .optional (.string 4096)⟩]⟩
  compiled := by
    refine .intro tickDeclaration _ rfl ?_ ?_
    · simp [tickDeclaration, Annotation.Formed, ArgumentsFormed, Annotation.isUnion]
    · simp [tickDeclaration, Annotation.plans, argumentPlans]

/-- What Python reads from nine bytes, the native side reads too. -/
theorem codecs_agree_tick : ∃ schema : Schema,
    parse tick.plan.root.descriptor = .ok schema ∧ schema.validate = .ok () ∧
      ∃ v, schema.decode [7, 0, 0, 0, 0, 0, 0, 0, 0] = .ok v ∧
        PyValue.event ⟨0, Str.of "Tick"⟩ [⟨"count", .int 7⟩, ⟨"note", .none⟩] =
          lift tick.plan.root v := by
  obtain ⟨schema, parsed, valid, decode, -⟩ := tick.codecs_agree (Node.plain_generated _)
  exact ⟨schema, parsed, valid, (decode _ _).mp rfl⟩

/-- A dataclass with `init=False` is accepted, but its constructor takes no arguments: Python then
decodes nothing. -/
theorem constructor_refuses : ¬∀ (p : EventPlan) (classes : Classes) (b : List UInt8),
    (∃ pv, p.plan.decode classes b = .ok pv) ↔ ∃ v, p.native.schema.decode b = .ok v := by
  intro h
  obtain ⟨pv, decoded⟩ := (h tick
    ⟨fun _ _ => .error (.type (Str.of "X() takes no arguments")),
      fun typ name => .ok (.enum typ (some (Str.of name)))⟩
    [7, 0, 0, 0, 0, 0, 0, 0, 0]).mpr ⟨.record [.int 7, .optional none], rfl⟩
  cases decoded

end EventPlan

end Python
end Actorplane
