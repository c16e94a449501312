import Actorplane.Schemas.Wire

/-!
# What the writer accepts

Within its byte limit, `W.val` succeeds exactly on the fitting values that leave
room for their canonical bytes, and appends those bytes.
-/

namespace Actorplane

open Stateful

namespace W

def adding (w : W) (b : List UInt8) : W := { w with out := w.out ++ b }

def entered (w : W) (d : ℕ) : W :=
  { w with nodes := w.nodes + 1, deepest := Max.max w.deepest d }

/-- The writer after a value entered at depth `d`. -/
def past (w : W) (v : Value) (d : ℕ) : W :=
  ⟨w.out ++ v.canon.wire, w.max, w.nodes + v.weight, Max.max w.deepest (v.reach d)⟩

/-- The writer after a list of values, each entered at depth `d`. -/
def pastAll (w : W) (xs : List Value) (d : ℕ) : W :=
  ⟨w.out ++ Value.wires (Value.canons xs), w.max, w.nodes + Value.weights xs,
    Max.max w.deepest (Value.reaches xs d)⟩

/-- What has been written is within the limit, and the limit within 1 MiB. -/
def Within (w : W) : Prop := w.out.length ≤ w.max ∧ w.max ≤ 2 ^ 20

/-- What a successful write of one value entered at depth `d` comes to. -/
def Puts (fits : Prop) (w : W) (v : Value) (d : ℕ) (w' : W) : Prop :=
  fits ∧ w.nodes + v.weight ≤ 4096 ∧ w.out.length + v.canon.wire.length ≤ w.max ∧ w' = w.past v d

/-- What a successful write of several values entered at depth `d` comes to. -/
def PutsAll (fits : Prop) (w : W) (xs : List Value) (d : ℕ) (w' : W) : Prop :=
  fits ∧ w.nodes + Value.weights xs ≤ 4096 ∧
    w.out.length + (Value.wires (Value.canons xs)).length ≤ w.max ∧ w' = w.pastAll xs d

theorem pastAll_nil (w : W) (d : ℕ) : w.pastAll [] d = w := by
  simp [pastAll, Value.canons, Value.wires, Value.weights, Value.reaches]

theorem pastAll_cons (w : W) (x : Value) (xs : List Value) (d : ℕ) :
    w.pastAll (x :: xs) d = (w.past x d).pastAll xs d := by
  simp only [pastAll, past, Value.canons, Value.wires, Value.weights, Value.reaches,
    List.append_assoc, Nat.add_assoc, max_assoc]

variable {w w' : W} {d : ℕ} {u : Unit}

theorem Within.past {v : Value} (h : w.Within) (room : w.out.length + v.canon.wire.length ≤ w.max) :
    (w.past v d).Within := by
  refine ⟨?_, h.2⟩
  change (w.out ++ v.canon.wire).length ≤ w.max
  rw [List.length_append]
  exact room

theorem Within.adding {b : List UInt8} (h : w.Within) (room : w.out.length + b.length ≤ w.max) :
    (w.adding b).Within := by
  refine ⟨?_, h.2⟩
  change (w.out ++ b).length ≤ w.max
  rw [List.length_append]
  exact room

theorem Within.entered (h : w.Within) (d : ℕ) : (w.entered d).Within := h

theorem putsAll_nil {fits : Prop} (few : w.nodes ≤ 4096) (h : w.Within) :
    PutsAll fits w [] d w' ↔ fits ∧ w' = w := by
  unfold PutsAll
  rw [pastAll_nil]
  simp [Value.canons, Value.wires, Value.weights, few, h.1]

theorem putsAll_cons {p q : Prop} {x : Value} {xs : List Value} :
    PutsAll (p ∧ q) w (x :: xs) d w' ↔
      Puts p w x d (w.past x d) ∧ PutsAll q (w.past x d) xs d w' := by
  have nodes : (w.past x d).nodes = w.nodes + x.weight := rfl
  have out : (w.past x d).out.length = w.out.length + x.canon.wire.length := List.length_append
  have limit : (w.past x d).max = w.max := rfl
  unfold PutsAll Puts
  rw [pastAll_cons, Value.canons, Value.wires, Value.weights, List.length_append, nodes, out, limit]
  constructor
  · rintro ⟨⟨hp, hq⟩, few, room, rfl⟩
    exact ⟨⟨hp, by omega, by omega, rfl⟩, hq, by omega, by omega, rfl⟩
  · rintro ⟨⟨hp, _, _, _⟩, hq, few, room, rfl⟩
    exact ⟨⟨hp, hq⟩, by omega, by omega, rfl⟩

/-! ## Primitive writes -/

theorem add_ok {b : List UInt8} (h : w.Within) :
    add b w = .ok u w' ↔ w.out.length + b.length ≤ w.max ∧ w' = w.adding b := by
  have limit : w.max ≤ 2 ^ 20 := h.2
  have large : w.tooLarge b = true ↔ w.max < w.out.length + b.length := by
    unfold tooLarge checkedAdd
    by_cases fits : w.out.length + b.length < 2 ^ 64
    · rw [if_pos fits]
      exact decide_eq_true_iff
    · rw [if_neg fits]
      simp only [true_iff]
      omega
  simp only [add, bind_returns, get_returns, refuse_returns, modify_returns]
  constructor
  · rintro ⟨_, _, ⟨rfl, rfl⟩, _, _, ⟨room, rfl⟩, rfl⟩
    rw [large, Nat.not_lt] at room
    exact ⟨room, rfl⟩
  · rintro ⟨room, rfl⟩
    refine ⟨w, w, ⟨rfl, rfl⟩, (), w, ⟨?_, rfl⟩, rfl⟩
    rw [large, Nat.not_lt]
    exact room

theorem node_ok : node d w = .ok u w' ↔ w.nodes + 1 ≤ 4096 ∧ d ≤ 16 ∧ w' = w.entered d := by
  simp only [node, bind_returns, get_returns, modify_returns, refuse_returns]
  constructor
  · rintro ⟨_, _, rfl, _, _, ⟨rfl, rfl⟩, limits, rfl⟩
    rw [not_or, Nat.not_lt, Nat.not_lt] at limits
    exact ⟨limits.1, limits.2, rfl⟩
  · rintro ⟨few, shallow, rfl⟩
    refine ⟨⟨⟩, _, rfl, _, _, ⟨rfl, rfl⟩, ?_, rfl⟩
    rw [not_or, Nat.not_lt, Nat.not_lt]
    exact ⟨few, shallow⟩

theorem noded_ok {f : Write} (shallow : d ≤ 16) :
    (do
      node d
      f) w = .ok u w' ↔ w.nodes + 1 ≤ 4096 ∧ f (w.entered d) = .ok u w' := by
  simp only [bind_returns, node_ok]
  constructor
  · rintro ⟨_, _, ⟨few, _, rfl⟩, hf⟩
    exact ⟨few, hf⟩
  · rintro ⟨few, hf⟩
    exact ⟨(), _, ⟨few, shallow, rfl⟩, hf⟩

/-- A length and that many bytes, for a string a `u32` can measure. -/
theorem addSized_ok {b : List UInt8} (h : w.Within) (small : b.length < 2 ^ 32) :
    addSized b w = .ok u w' ↔
      w.out.length + (Value.sized b).length ≤ w.max ∧ w' = w.adding (Value.sized b) := by
  have exact32 : (UInt32.ofNat b.length).toNat = b.length := UInt32.toNat_ofNat_of_lt' small
  have size : (Value.sized b).length = 4 + b.length := by
    rw [Value.sized, List.length_append, Bytes.little_length]
  rw [addSized, exact32, bind_returns, size]
  constructor
  · rintro ⟨_, _, first, second⟩
    obtain ⟨room, rfl⟩ := (add_ok h).mp first
    obtain ⟨room', rfl⟩ := (add_ok (h.adding room)).mp second
    simp only [adding, List.length_append, Bytes.little_length] at room'
    refine ⟨by omega, ?_⟩
    simp only [adding, Value.sized, List.append_assoc]
  · rintro ⟨room, rfl⟩
    have first : w.out.length + (Bytes.little 4 b.length).length ≤ w.max := by
      rw [Bytes.little_length]
      omega
    refine ⟨(), w.adding (Bytes.little 4 b.length), (add_ok h).mpr ⟨first, rfl⟩, ?_⟩
    apply (add_ok (h.adding first)).mpr
    simp only [adding, List.length_append, Bytes.little_length, Value.sized, List.append_assoc,
      and_true]
    omega

/-- The members of a sequence, by induction on the list. -/
theorem each_ok {step : ℕ → Value → Write} {t : FieldType}
    (h : ∀ (i : ℕ) (w : W) (v : Value) (w' : W), w.Within →
      (step i v w = .ok u w' ↔ Puts (t.Fits v) w v d w'))
    (xs : List Value) (index : ℕ) {w w' : W} (within : w.Within) (few : w.nodes ≤ 4096) :
    each step xs index w = .ok u w' ↔ PutsAll (∀ x ∈ xs, t.Fits x) w xs d w' := by
  induction xs generalizing index w with
  | nil =>
    rw [each, pure_returns, putsAll_nil few within]
    simp
  | cons x xs ih =>
    rw [each, bind_returns, List.forall_mem_cons, putsAll_cons]
    constructor
    · rintro ⟨⟨⟩, _, hx, hxs⟩
      have hx := (h index w x _ within).mp hx
      have wx := hx.2.2.2
      subst wx
      exact ⟨hx, (ih (index + 1) (within.past hx.2.2.1) hx.2.1).mp hxs⟩
    · rintro ⟨hx, hxs⟩
      exact ⟨(), _, (h index w x _ within).mpr hx,
        (ih (index + 1) (within.past hx.2.2.1) hx.2.1).mpr hxs⟩

theorem past_some {x : Value} :
    w.past (.optional (some x)) d = ((w.entered d).adding [1]).past x (d + 1) := by
  simp only [past, adding, entered, Value.canon, Value.wire, Value.weight, Value.reach,
    List.append_assoc, List.singleton_append, max_assoc, Nat.add_assoc]

theorem past_sequence {xs : List Value} :
    w.past (.sequence xs) d =
      ((w.entered d).adding (Bytes.little 4 xs.length)).pastAll xs (d + 1) := by
  simp only [past, pastAll, adding, entered, Value.canon, Value.wire, Value.weight, Value.reach,
    Value.canons_length, List.append_assoc, max_assoc, Nat.add_assoc]

theorem past_record {xs : List Value} :
    w.past (.record xs) d = (w.entered d).pastAll xs (d + 1) := by
  simp only [past, pastAll, entered, Value.canon, Value.wire, Value.weight, Value.reach, max_assoc,
    Nat.add_assoc]

/-- A value of one node whose bytes are `b`. -/
theorem leaf_puts {fits : Prop} {v : Value} {b : List UInt8} (within : w.Within)
    (one : v.weight = 1) (here : v.reach d = d) (bytes : v.canon.wire = b) :
    (w.nodes + 1 ≤ 4096 ∧ fits ∧ add b (w.entered d) = .ok u w') ↔ Puts fits w v d w' := by
  rw [add_ok (within.entered d)]
  unfold Puts past
  rw [one, here, bytes]
  constructor
  · rintro ⟨few, fit, room, rfl⟩
    exact ⟨fit, few, room, rfl⟩
  · rintro ⟨fit, few, room, rfl⟩
    exact ⟨few, fit, room, rfl⟩

theorem refused_ok {bad : Prop} [Decidable bad] {e : Fault} {f : Write} :
    (do
      refuse bad e
      f) w = .ok u w' ↔ ¬bad ∧ f w = .ok u w' := by
  simp only [bind_returns, refuse_returns]
  constructor
  · rintro ⟨_, _, ⟨fine, rfl⟩, hf⟩
    exact ⟨fine, hf⟩
  · rintro ⟨fine, hf⟩
    exact ⟨(), w, ⟨fine, rfl⟩, hf⟩

/-- A value of one node whose bytes are `b` under their length. -/
theorem sized_puts {maxBytes : ℕ} {v : Value} {b : List UInt8} (within : w.Within)
    (small : maxBytes ≤ 2 ^ 20) (one : v.weight = 1) (here : v.reach d = d)
    (bytes : v.canon.wire = Value.sized b) :
    (w.nodes + 1 ≤ 4096 ∧ b.length ≤ maxBytes ∧ addSized b (w.entered d) = .ok u w') ↔
      Puts (b.length ≤ maxBytes) w v d w' := by
  rw [← leaf_puts (u := u) within one here bytes]
  apply and_congr_right
  intro _
  apply and_congr_right
  intro short
  have measured : b.length < 2 ^ 32 := by omega
  rw [addSized_ok (within.entered d) measured, add_ok (within.entered d)]

theorem sequence_put {t : FieldType} {maxLen : ℕ} {xs : List Value} (len : xs.length ≤ maxLen)
    (items : PutsAll (∀ x ∈ xs, t.Fits x) ((w.entered d).adding (Bytes.little 4 xs.length)) xs
      (d + 1) w') :
    Puts ((FieldType.sequence t maxLen).Fits (.sequence xs)) w (.sequence xs) d w' := by
  obtain ⟨fits, few, room, rfl⟩ := items
  have nodes : ((w.entered d).adding (Bytes.little 4 xs.length)).nodes = w.nodes + 1 := rfl
  have limit : ((w.entered d).adding (Bytes.little 4 xs.length)).max = w.max := rfl
  have size : ((w.entered d).adding (Bytes.little 4 xs.length)).out.length = w.out.length + 4 := by
    change (w.out ++ Bytes.little 4 xs.length).length = _
    rw [List.length_append, Bytes.little_length]
  refine ⟨⟨len, fits⟩, ?_, ?_, past_sequence.symm⟩
  · rw [Value.weight]
    omega
  · rw [Value.canon, Value.wire, Value.canons_length, List.length_append, Bytes.little_length]
    omega

theorem mismatched {fits : Prop} {v : Value} {e : Fault} (h : ¬fits) :
    (w.nodes + 1 ≤ 4096 ∧ (throw e : Write) (w.entered d) = .ok u w') ↔ Puts fits w v d w' := by
  simp only [throw_returns, and_false, false_iff]
  intro puts
  exact h puts.1

/-! ### One kind of field at a time -/

theorem float_ok {allowNonFinite : Bool} {v : Value}
    (bounded : (FieldType.float allowNonFinite).Bounded d) (within : w.Within) :
    val (.float allowNonFinite) v d w = .ok u w' ↔
      Puts ((FieldType.float allowNonFinite).Fits v) w v d w' := by
  rw [val, noded_ok bounded]
  cases v with
  | float x =>
    have fits : ¬(allowNonFinite = false ∧ x.isFinite = false) ↔
        (FieldType.float allowNonFinite).Fits (.float x) := by
      rw [FieldType.Fits]
      cases allowNonFinite <;> simp
    have bits : (if x.isNan then F64.canonicalNan.bits else x.bits) = x.canon.bits := by
      unfold F64.canon
      split <;> rfl
    simp only [float, refused_ok, bits, fits]
    exact leaf_puts within rfl rfl rfl
  | _ => exact mismatched id

theorem optional_ok {t : FieldType} {v : Value} (bounded : (FieldType.optional t).Bounded d)
    (within : w.Within)
    (child : ∀ {w w' : W} (x : Value), w.Within →
      (val t x (d + 1) w = .ok u w' ↔ Puts (t.Fits x) w x (d + 1) w')) :
    val (.optional t) v d w = .ok u w' ↔ Puts ((FieldType.optional t).Fits v) w v d w' := by
  rw [val, noded_ok bounded.1]
  cases v with
  | optional x =>
    cases x with
    | none =>
      rw [← leaf_puts (u := u) within rfl rfl rfl]
      exact and_congr_right fun _ => (and_iff_right trivial).symm
    | some x =>
      simp only [optional, bind_returns]
      unfold Puts
      rw [Value.canon, Value.wire, Value.weight, List.length_cons, past_some]
      constructor
      · rintro ⟨_, ⟨⟩, _, tag, hx⟩
        obtain ⟨room, rfl⟩ := (add_ok (within.entered d)).mp tag
        have within' : ((w.entered d).adding [1]).Within := (within.entered d).adding room
        obtain ⟨fits, few, room, rfl⟩ := (child x within').mp hx
        have nodes : ((w.entered d).adding [1]).nodes = w.nodes + 1 := rfl
        have size : ((w.entered d).adding [1]).out.length = w.out.length + 1 := List.length_append
        have limit : ((w.entered d).adding [1]).max = w.max := rfl
        exact ⟨fits, by omega, by omega, rfl⟩
      · rintro ⟨fits, few, room, rfl⟩
        have pos := x.weight_pos
        have tag : (w.entered d).out.length + [(1 : UInt8)].length ≤ (w.entered d).max := by
          change w.out.length + 1 ≤ w.max
          omega
        have within' : ((w.entered d).adding [1]).Within := (within.entered d).adding tag
        have nodes : ((w.entered d).adding [1]).nodes = w.nodes + 1 := rfl
        have size : ((w.entered d).adding [1]).out.length = w.out.length + 1 := List.length_append
        have limit : ((w.entered d).adding [1]).max = w.max := rfl
        refine ⟨by omega, (), _, (add_ok (within.entered d)).mpr ⟨tag, rfl⟩, ?_⟩
        apply (child x within').mpr
        exact ⟨fits, by omega, by omega, rfl⟩
  | _ => exact mismatched id

theorem sequence_ok {t : FieldType} {maxLen : ℕ} {v : Value}
    (bounded : (FieldType.sequence t maxLen).Bounded d) (within : w.Within)
    (child : ∀ {w w' : W} (x : Value), w.Within →
      (val t x (d + 1) w = .ok u w' ↔ Puts (t.Fits x) w x (d + 1) w')) :
    val (.sequence t maxLen) v d w = .ok u w' ↔
      Puts ((FieldType.sequence t maxLen).Fits v) w v d w' := by
  rw [val, noded_ok bounded.1]
  cases v with
  | sequence xs =>
    have step : ∀ (i : ℕ) (w : W) (v : Value) (w' : W), w.Within →
        (mapError (Fault.atField (indexName i)) (val t v (d + 1)) w = .ok u w' ↔
          Puts (t.Fits v) w v (d + 1) w') := by
      intro i w v w' within
      rw [mapError_returns]
      exact child v within
    have many := Value.length_le_weights xs
    have limit : maxLen ≤ 4096 := bounded.2.1
    simp only [sequence, refused_ok, Nat.not_lt]
    constructor
    · rintro ⟨few, len, written⟩
      have exact32 : (UInt32.ofNat xs.length).toNat = xs.length :=
        UInt32.toNat_ofNat_of_lt' (by
          change xs.length < 4294967296
          omega)
      simp only [bind_returns, get_returns, usizeSub, refuse_returns, pure_returns, exact32] at written
      obtain ⟨_, _, ⟨rfl, rfl⟩, _, _, ⟨_, _, ⟨_, rfl⟩, rfl, rfl⟩, _, _, ⟨_, rfl⟩, _, _, tag, items⟩ :=
        written
      obtain ⟨room, rfl⟩ := (add_ok (within.entered d)).mp tag
      have within' := (within.entered d).adding room
      have items := (each_ok step xs 0 within' few).mp items
      exact sequence_put len items
    · rintro ⟨⟨len, fits⟩, few, room, rfl⟩
      have exact32 : (UInt32.ofNat xs.length).toNat = xs.length :=
        UInt32.toNat_ofNat_of_lt' (by
          change xs.length < 4294967296
          omega)
      rw [Value.weight] at few
      rw [Value.canon, Value.wire, Value.canons_length, List.length_append, Bytes.little_length]
        at room
      have tag : (w.entered d).out.length + (Bytes.little 4 xs.length).length ≤
          (w.entered d).max := by
        rw [Bytes.little_length]
        change w.out.length + 4 ≤ w.max
        omega
      have within' : ((w.entered d).adding (Bytes.little 4 xs.length)).Within :=
        (within.entered d).adding tag
      have nodes : (w.entered d).nodes = w.nodes + 1 := rfl
      refine ⟨by omega, len, ?_⟩
      simp only [bind_returns, get_returns, usizeSub, refuse_returns, pure_returns, exact32]
      refine ⟨_, _, ⟨rfl, rfl⟩, _, _, ⟨(), _, ⟨by omega, rfl⟩, rfl, rfl⟩, (), _, ⟨by omega, rfl⟩,
        (), _, (add_ok (within.entered d)).mpr ⟨tag, rfl⟩, ?_⟩
      apply (each_ok step xs 0 within' (by
        change w.nodes + 1 ≤ 4096
        omega)).mpr
      refine ⟨fits, ?_, ?_, past_sequence⟩
      · change w.nodes + 1 + Value.weights xs ≤ 4096
        omega
      · change (w.out ++ Bytes.little 4 xs.length).length + _ ≤ w.max
        rw [List.length_append, Bytes.little_length]
        omega
  | _ => exact mismatched id

mutual
/-- The writer puts exactly the fitting values, as their canonical bytes. -/
theorem val_ok : ∀ (t : FieldType) (v : Value) (d : ℕ) {w w' : W}, t.Bounded d → w.Within →
    (val t v d w = .ok u w' ↔ Puts (t.Fits v) w v d w')
  | .record s, v, d, w, w', bounded, within => by
    rw [val, FieldType.Fits]
    exact record_ok s v d bounded within
  | .int min max, v, d, w, w', bounded, within => by
    rw [val, noded_ok bounded]
    cases v with
    | int x =>
      simp only [int, refused_ok, not_not]
      exact leaf_puts within rfl rfl rfl
    | _ => exact mismatched id
  | .uint min max, v, d, w, w', bounded, within => by
    rw [val, noded_ok bounded]
    cases v with
    | uint x =>
      simp only [uint, refused_ok, not_not]
      exact leaf_puts within rfl rfl rfl
    | _ => exact mismatched id
  | .float _, _, _, _, _, bounded, within => float_ok bounded within
  | .bool, v, d, w, w', bounded, within => by
    rw [val, noded_ok bounded]
    cases v with
    | bool x =>
      rw [← leaf_puts (u := u) within rfl rfl rfl]
      exact and_congr_right fun _ => (and_iff_right trivial).symm
    | _ => exact mismatched id
  | .string maxBytes, v, d, w, w', bounded, within => by
    rw [val, noded_ok bounded.1]
    cases v with
    | string x =>
      simp only [string, refused_ok, Nat.not_lt]
      exact sized_puts within bounded.2 rfl rfl rfl
    | _ => exact mismatched id
  | .bytes maxBytes, v, d, w, w', bounded, within => by
    rw [val, noded_ok bounded.1]
    cases v with
    | bytes x =>
      simp only [bytes, refused_ok, Nat.not_lt]
      exact sized_puts within bounded.2 rfl rfl rfl
    | _ => exact mismatched id
  | .enum _ variants, v, d, w, w', bounded, within => by
    rw [val, noded_ok bounded.1]
    cases v with
    | enum x =>
      simp only [enum, refused_ok, Nat.not_le]
      exact leaf_puts within rfl rfl rfl
    | _ => exact mismatched id
  | .optional t, _, d, _, _, bounded, within =>
    optional_ok bounded within fun x within => val_ok t x (d + 1) bounded.2 within
  | .sequence t _, _, d, _, _, bounded, within =>
    sequence_ok bounded within fun x within => val_ok t x (d + 1) bounded.2.2 within

theorem record_ok : ∀ (s : Schema) (v : Value) (d : ℕ) {w w' : W}, s.Bounded d → w.Within →
    (record s v d w = .ok u w' ↔ Puts (s.Fits v) w v d w')
  | ⟨_, _, fields⟩, v, d, w, w', bounded, within => by
    rw [record, noded_ok bounded.1]
    cases v with
    | record xs =>
      simp only [asRecord, refused_ok, ne_eq, not_not]
      constructor
      · rintro ⟨few, len, written⟩
        obtain ⟨fits, few, room, rfl⟩ :=
          (recordFields_ok fields xs d bounded.2 (within.entered d) few len).mp written
        have nodes : (w.entered d).nodes = w.nodes + 1 := rfl
        refine ⟨fits, ?_, room, past_record.symm⟩
        rw [Value.weight]
        omega
      · rintro ⟨fits, few, room, rfl⟩
        have fits : FieldsFit fields xs := fits
        rw [Value.weight] at few
        have nodes : (w.entered d).nodes = w.nodes + 1 := rfl
        refine ⟨by omega, fits.length_eq, ?_⟩
        apply (recordFields_ok fields xs d bounded.2 (within.entered d) (by omega) fits.length_eq).mpr
        exact ⟨fits, by omega, room, past_record⟩
    | _ => exact mismatched id

theorem recordFields_ok : ∀ (fields : List Field) (xs : List Value) (d : ℕ) {w w' : W},
    FieldsBounded fields d → w.Within → w.nodes ≤ 4096 → xs.length = fields.length →
    (recordFields fields xs d w = .ok u w' ↔ PutsAll (FieldsFit fields xs) w xs (d + 1) w')
  | [], [], d, w, w', _, within, few, _ => by
    rw [recordFields, pure_returns, putsAll_nil few within]
    · exact and_congr_left fun _ => iff_of_true rfl trivial
    · intro name ty fields x vals h
      cases h
  | ⟨_, ty⟩ :: fields, x :: xs, d, w, w', bounded, within, few, len => by
    have len : xs.length = fields.length := by simpa using len
    rw [recordFields, bind_returns]
    simp only [mapError_returns]
    rw [FieldsFit, putsAll_cons]
    constructor
    · rintro ⟨⟨⟩, _, hx, hxs⟩
      have hx := (val_ok ty x (d + 1) bounded.1 within).mp hx
      have wx := hx.2.2.2
      subst wx
      exact ⟨hx, (recordFields_ok fields xs d bounded.2 (within.past hx.2.2.1) hx.2.1 len).mp hxs⟩
    · rintro ⟨hx, hxs⟩
      exact ⟨(), _, (val_ok ty x (d + 1) bounded.1 within).mpr hx,
        (recordFields_ok fields xs d bounded.2 (within.past hx.2.2.1) hx.2.1 len).mpr hxs⟩
end

end W
end Actorplane
