import Actorplane.Schemas.Wire

/-!
# What the building reader accepts

On a reader inside its byte string, `val` succeeds exactly on the canonical
bytes of a fitting value, and returns that value. Each primitive read gets one
equivalence; the equivalences of the recursive readers are assembled from them
along the schema.
-/

namespace Actorplane

open Stateful

namespace Reader

/-- The bytes not read yet. -/
def rest (r : Reader) : List UInt8 := r.b.drop r.p

def skip (r : Reader) (n : ℕ) : Reader := { r with p := r.p + n }

def entered (r : Reader) (d : ℕ) : Reader :=
  { r with nodes := r.nodes + 1, deepest := max r.deepest d }

/-- The reader after a value entered at depth `d`. -/
def past (r : Reader) (v : Value) (d : ℕ) : Reader :=
  ⟨r.b, r.p + v.wire.length, r.nodes + v.weight, max r.deepest (v.reach d)⟩

/-- The reader after a list of values, each entered at depth `d`. -/
def pastAll (r : Reader) (xs : List Value) (d : ℕ) : Reader :=
  ⟨r.b, r.p + (Value.wires xs).length, r.nodes + Value.weights xs,
    max r.deepest (Value.reaches xs d)⟩

/-- The reader is inside its byte string. -/
def Inside (r : Reader) : Prop := r.p ≤ r.b.length

theorem rest_length (r : Reader) : r.rest.length = r.b.length - r.p := List.length_drop

@[simp] theorem rest_skip (r : Reader) (n : ℕ) : (r.skip n).rest = r.rest.drop n := by
  simp only [rest, skip, List.drop_drop]

@[simp] theorem rest_entered (r : Reader) (d : ℕ) : (r.entered d).rest = r.rest := rfl

@[simp] theorem nodes_skip (r : Reader) (n : ℕ) : (r.skip n).nodes = r.nodes := rfl

@[simp] theorem nodes_entered (r : Reader) (d : ℕ) : (r.entered d).nodes = r.nodes + 1 := rfl

@[simp] theorem skip_skip (r : Reader) (m n : ℕ) : (r.skip m).skip n = r.skip (m + n) := by
  simp only [skip, Nat.add_assoc]

theorem Inside.entered {r : Reader} (h : r.Inside) (d : ℕ) : (r.entered d).Inside := h

theorem Inside.skip {r : Reader} {x : List UInt8} (h : r.Inside) (hx : x <+: r.rest) :
    (r.skip x.length).Inside := by
  have fits := hx.length_le
  rw [rest_length] at fits
  unfold Inside at h
  change r.p + x.length ≤ r.b.length
  omega

theorem Inside.past {r : Reader} {v : Value} (h : r.Inside) (hv : v.wire <+: r.rest) (d : ℕ) :
    (r.past v d).Inside :=
  h.skip hv

theorem rest_past (r : Reader) (v : Value) (d : ℕ) : (r.past v d).rest = r.rest.drop v.wire.length :=
  rest_skip r v.wire.length

theorem pastAll_nil (r : Reader) (d : ℕ) : r.pastAll [] d = r := by
  simp [pastAll, Value.wires, Value.weights, Value.reaches]

theorem pastAll_cons (r : Reader) (x : Value) (xs : List Value) (d : ℕ) :
    r.pastAll (x :: xs) d = (r.past x d).pastAll xs d := by
  simp only [pastAll, past, Value.wires, Value.weights, Value.reaches, List.length_append,
    Nat.add_assoc, max_assoc]

end Reader

/-- Reading `a` and then `b` is reading both. -/
theorem append_isPrefix {a b l : List UInt8} :
    a ++ b <+: l ↔ a <+: l ∧ b <+: l.drop a.length := by
  constructor
  · rintro ⟨t, rfl⟩
    rw [List.append_assoc, List.drop_left]
    exact ⟨List.prefix_append a _, List.prefix_append b t⟩
  · rintro ⟨⟨t, rfl⟩, h⟩
    rw [List.drop_left] at h
    obtain ⟨t, rfl⟩ := h
    rw [← List.append_assoc]
    exact List.prefix_append _ t

/-! ## Primitive reads -/

namespace Reader

variable {r r' : Reader} {d : ℕ}

theorem take_ok {n : ℕ} {x : List UInt8} (h : r.Inside) :
    take n r = .ok x r' ↔ x.length = n ∧ x <+: r.rest ∧ r' = r.skip n := by
  have inside : ¬r.b.length < r.p := Nat.not_lt.mpr h
  simp only [take, bind_returns, get_returns, usizeSub, slice, refuse_returns, pure_returns, modify_returns]
  constructor
  · rintro ⟨_, _, ⟨rfl, rfl⟩, _, _, ⟨_, _, ⟨_, rfl⟩, rfl, rfl⟩, _, _, ⟨enough, rfl⟩, _, _,
      ⟨_, _, ⟨_, rfl⟩, rfl, rfl⟩, _, _, rfl, rfl, rfl⟩
    rw [Nat.add_sub_cancel_left]
    refine ⟨?_, List.take_prefix n _, rfl⟩
    rw [List.length_take, List.length_drop]
    omega
  · rintro ⟨rfl, hx, rfl⟩
    have fits := hx.length_le
    rw [rest_length] at fits
    have same : (r.b.drop r.p).take x.length = x := (List.prefix_iff_eq_take.mp hx).symm
    refine ⟨r, r, ⟨rfl, rfl⟩, _, r, ⟨(), r, ⟨inside, rfl⟩, rfl, rfl⟩, (), r, ⟨by omega, rfl⟩, x, r,
      ⟨(), r, ⟨?_, rfl⟩, ?_, rfl⟩, ⟨⟩, _, rfl, rfl, rfl⟩
    · unfold Inside at h
      omega
    · rw [Nat.add_sub_cancel_left]
      exact same.symm

theorem u64_ok {x : UInt64} (h : r.Inside) :
    u64 r = .ok x r' ↔ Bytes.little 8 x.toNat <+: r.rest ∧ r' = r.skip 8 := by
  simp only [u64, bind_returns, take_ok h, toArray, refuse_returns, pure_returns]
  constructor
  · rintro ⟨_, _, ⟨len, hbs, rfl⟩, bs, _, ⟨_, _, ⟨_, rfl⟩, rfl, rfl⟩, rfl, rfl⟩
    have below := Bytes.value_lt bs
    rw [len] at below
    rw [UInt64.toNat_ofNat_of_lt' below, Bytes.little_of_length len]
    exact ⟨hbs, rfl⟩
  · rintro ⟨hx, rfl⟩
    have len : (Bytes.little 8 x.toNat).length = 8 := Bytes.little_length 8 x.toNat
    refine ⟨_, _, ⟨len, hx, rfl⟩, _, _, ⟨(), _, ⟨fun bad => bad len, rfl⟩, rfl, rfl⟩, ?_, rfl⟩
    rw [Bytes.value_little x.toNat_lt, UInt64.ofNat_toNat]

theorem u32_ok {x : UInt32} (h : r.Inside) :
    u32 r = .ok x r' ↔ Bytes.little 4 x.toNat <+: r.rest ∧ r' = r.skip 4 := by
  simp only [u32, bind_returns, take_ok h, toArray, refuse_returns, pure_returns]
  constructor
  · rintro ⟨_, _, ⟨len, hbs, rfl⟩, bs, _, ⟨_, _, ⟨_, rfl⟩, rfl, rfl⟩, rfl, rfl⟩
    have below := Bytes.value_lt bs
    rw [len] at below
    rw [UInt32.toNat_ofNat_of_lt' below, Bytes.little_of_length len]
    exact ⟨hbs, rfl⟩
  · rintro ⟨hx, rfl⟩
    have len : (Bytes.little 4 x.toNat).length = 4 := Bytes.little_length 4 x.toNat
    refine ⟨_, _, ⟨len, hx, rfl⟩, _, _, ⟨(), _, ⟨fun bad => bad len, rfl⟩, rfl, rfl⟩, ?_, rfl⟩
    rw [Bytes.value_little x.toNat_lt, UInt32.ofNat_toNat]

theorem byte_ok {x : UInt8} (h : r.Inside) :
    byte r = .ok x r' ↔ [x] <+: r.rest ∧ r' = r.skip 1 := by
  simp only [byte, bind_returns, take_ok h]
  constructor
  · rintro ⟨bs, _, ⟨len, hbs, rfl⟩, first⟩
    obtain ⟨y, rfl⟩ := List.length_eq_one_iff.mp len
    obtain ⟨rfl, rfl⟩ := pure_returns.mp first
    exact ⟨hbs, rfl⟩
  · rintro ⟨hx, rfl⟩
    exact ⟨[x], _, ⟨rfl, hx, rfl⟩, pure_returns.mpr ⟨rfl, rfl⟩⟩

theorem node_ok {u : Unit} :
    node d r = .ok u r' ↔ r.nodes + 1 ≤ 4096 ∧ d ≤ 16 ∧ r' = r.entered d := by
  simp only [node, enter, bind_returns, get_returns, modify_returns, refuse_returns]
  constructor
  · rintro ⟨_, _, rfl, _, _, ⟨rfl, rfl⟩, _, _, ⟨few, rfl⟩, shallow, rfl⟩
    exact ⟨Nat.not_lt.mp few, Nat.not_lt.mp shallow, rfl⟩
  · rintro ⟨few, shallow, rfl⟩
    exact ⟨⟨⟩, _, rfl, _, _, ⟨rfl, rfl⟩, (), _, ⟨Nat.not_lt.mpr few, rfl⟩, Nat.not_lt.mpr shallow, rfl⟩

theorem fromUtf8_eq_some {b : List UInt8} {s : String} :
    fromUtf8 b = some s ↔ b = s.toByteArray.data.toList := by
  unfold fromUtf8 String.fromUTF8?
  constructor
  · intro h
    split at h
    next => cases h; rfl
    next => cases h
  · rintro rfl
    have valid : ByteArray.IsValidUTF8 ⟨s.toByteArray.data.toList.toArray⟩ := by
      simpa using s.isValidUTF8
    rw [dif_pos valid]
    apply congrArg some
    apply String.toByteArray_inj.mp
    simp [String.fromUTF8]

theorem acceptText_ok {b : List UInt8} {v : Value} :
    acceptText true b r = .ok v r' ↔
      ∃ s : String, v = .string s ∧ b = s.toByteArray.data.toList ∧ r' = r := by
  unfold acceptText
  cases h : fromUtf8 b with
  | some s =>
    simp only [pure_returns, if_true]
    constructor
    · rintro ⟨rfl, rfl⟩
      exact ⟨s, rfl, fromUtf8_eq_some.mp h, rfl⟩
    · rintro ⟨s', rfl, hb, rfl⟩
      have same := fromUtf8_eq_some.mpr hb
      rw [h] at same
      cases same
      exact ⟨rfl, rfl⟩
  | none =>
    simp only [throw_returns, false_iff]
    rintro ⟨s, rfl, hb, rfl⟩
    rw [fromUtf8_eq_some.mpr hb] at h
    cases h

/-- A length within a small limit and that many bytes. -/
theorem sized_ok {maxBytes : ℕ} (small : maxBytes ≤ 2 ^ 20) (h : r.Inside) {e : SchemaError}
    {f : List UInt8 → Read Value} {v : Value} :
    (do
      let n ← u32
      refuse (maxBytes < n.toNat) (Fault.error e)
      let b ← take n.toNat
      f b) r = .ok v r' ↔
      ∃ b, b.length ≤ maxBytes ∧ Value.sized b <+: r.rest ∧
        f b (r.skip (Value.sized b).length) = .ok v r' := by
  simp only [bind_returns, u32_ok h, refuse_returns, Value.sized, append_isPrefix]
  constructor
  · rintro ⟨n, _, ⟨hn, rfl⟩, _, _, ⟨few, rfl⟩, b, _, read, hf⟩
    have inside : (r.skip 4).Inside := by
      simpa using h.skip hn
    obtain ⟨len, hb, rfl⟩ := (take_ok inside).mp read
    rw [rest_skip] at hb
    rw [skip_skip, ← len] at hf
    refine ⟨b, by omega, ⟨?_, ?_⟩, ?_⟩
    · rw [len]
      exact hn
    · rw [Bytes.little_length]
      exact hb
    · rw [List.length_append, Bytes.little_length]
      exact hf
  · rintro ⟨b, few, ⟨hn, hb⟩, hf⟩
    have exact32 : (UInt32.ofNat b.length).toNat = b.length :=
      UInt32.toNat_ofNat_of_lt' (by
        change b.length < 4294967296
        omega)
    have inside : (r.skip 4).Inside := by
      simpa using h.skip hn
    rw [Bytes.little_length] at hb
    rw [List.length_append, Bytes.little_length, ← skip_skip] at hf
    refine ⟨UInt32.ofNat b.length, r.skip 4, ⟨by rw [exact32]; exact hn, rfl⟩, (), r.skip 4,
      ⟨by omega, rfl⟩, b, (r.skip 4).skip b.length, ?_, hf⟩
    apply (take_ok inside).mpr
    exact ⟨exact32.symm, by rw [rest_skip]; exact hb, by rw [exact32]⟩

/-! ## Values -/

/-- What a successful read of one value entered at depth `d` comes to. -/
def Takes (fits : Prop) (r : Reader) (v : Value) (d : ℕ) (r' : Reader) : Prop :=
  fits ∧ v.canon = v ∧ v.wire <+: r.rest ∧ r.nodes + v.weight ≤ 4096 ∧ r' = r.past v d

/-- What a successful read of several values entered at depth `d` comes to. -/
def TakesAll (fits : Prop) (r : Reader) (xs : List Value) (d : ℕ) (r' : Reader) : Prop :=
  fits ∧ Value.canons xs = xs ∧ Value.wires xs <+: r.rest ∧ r.nodes + Value.weights xs ≤ 4096 ∧
    r' = r.pastAll xs d

theorem noded_ok {f : Read Value} {v : Value} (shallow : d ≤ 16) :
    (do
      node d
      f) r = .ok v r' ↔ r.nodes + 1 ≤ 4096 ∧ f (r.entered d) = .ok v r' := by
  simp only [bind_returns, node_ok]
  constructor
  · rintro ⟨_, _, ⟨few, _, rfl⟩, hf⟩
    exact ⟨few, hf⟩
  · rintro ⟨few, hf⟩
    exact ⟨(), _, ⟨few, shallow, rfl⟩, hf⟩

theorem takesAll_nil {fits : Prop} (few : r.nodes ≤ 4096) :
    TakesAll fits r [] d r' ↔ fits ∧ r' = r := by
  unfold TakesAll
  rw [pastAll_nil]
  simp [Value.canons, Value.wires, Value.weights, few]

theorem takesAll_cons {p q : Prop} {x : Value} {xs : List Value} :
    TakesAll (p ∧ q) r (x :: xs) d r' ↔
      Takes p r x d (r.past x d) ∧ TakesAll q (r.past x d) xs d r' := by
  unfold TakesAll Takes
  rw [pastAll_cons, Value.canons, Value.wires, Value.weights, append_isPrefix, rest_past]
  have nodes : (r.past x d).nodes = r.nodes + x.weight := rfl
  rw [nodes, List.cons.injEq]
  constructor
  · rintro ⟨⟨hp, hq⟩, ⟨hx, hxs⟩, ⟨wx, wxs⟩, few, rfl⟩
    exact ⟨⟨hp, hx, wx, by omega, rfl⟩, hq, hxs, wxs, by omega, rfl⟩
  · rintro ⟨⟨hp, hx, wx, _, _⟩, hq, hxs, wxs, few, rfl⟩
    exact ⟨⟨hp, hq⟩, ⟨hx, hxs⟩, ⟨wx, wxs⟩, by omega, rfl⟩

/-- The rounds of a sequence, by induction on their number. -/
theorem times_ok {step : ℕ → Read Value} {t : FieldType}
    (h : ∀ (i : ℕ) (r : Reader) (v : Value) (r' : Reader), r.Inside →
      (step i r = .ok v r' ↔ Takes (t.Fits v) r v d r'))
    (n index : ℕ) {r r' : Reader} {xs : List Value} (inside : r.Inside) (few : r.nodes ≤ 4096) :
    times step n index r = .ok xs r' ↔
      xs.length = n ∧ TakesAll (∀ x ∈ xs, t.Fits x) r xs d r' := by
  induction n generalizing index r xs with
  | zero =>
    simp only [times, pure_returns]
    constructor
    · rintro ⟨rfl, rfl⟩
      refine ⟨rfl, (takesAll_nil few).mpr ⟨?_, rfl⟩⟩
      simp
    · rintro ⟨len, taken⟩
      cases List.length_eq_zero_iff.mp len
      exact ⟨rfl, ((takesAll_nil few).mp taken).2⟩
  | succ n ih =>
    simp only [times, bind_returns, pure_returns]
    constructor
    · rintro ⟨x, _, hx, ys, _, hys, rfl, rfl⟩
      have hx := (h index r x _ inside).mp hx
      have rx := hx.2.2.2.2
      subst rx
      have inside' := inside.past hx.2.2.1 d
      obtain ⟨len, taken⟩ := (ih (index + 1) inside' hx.2.2.2.1).mp hys
      refine ⟨by rw [List.length_cons, len], ?_⟩
      rw [List.forall_mem_cons]
      exact takesAll_cons.mpr ⟨hx, taken⟩
    · rintro ⟨len, taken⟩
      cases xs with
      | nil => cases len
      | cons x ys =>
        rw [List.forall_mem_cons] at taken
        obtain ⟨hx, hys⟩ := takesAll_cons.mp taken
        have inside' := inside.past hx.2.2.1 d
        have len' : ys.length = n := by
          rw [List.length_cons] at len
          omega
        exact ⟨x, _, (h index r x _ inside).mpr hx, ys, r',
          (ih (index + 1) inside' hx.2.2.2.1).mpr ⟨len', hys⟩, rfl, rfl⟩

theorem past_some {x : Value} :
    r.past (.optional (some x)) d = ((r.entered d).skip 1).past x (d + 1) := by
  simp only [past, skip, entered, Value.wire, Value.weight, Value.reach, List.length_cons,
    Reader.mk.injEq, max_assoc, true_and, and_true]
  omega

theorem past_sequence {xs : List Value} :
    r.past (.sequence xs) d = ((r.entered d).skip 4).pastAll xs (d + 1) := by
  simp only [past, pastAll, skip, entered, Value.wire, Value.weight, Value.reach,
    List.length_append, Bytes.little_length, Reader.mk.injEq, max_assoc, true_and, and_true]
  omega

theorem past_record {xs : List Value} :
    r.past (.record xs) d = (r.entered d).pastAll xs (d + 1) := by
  simp only [past, pastAll, entered, Value.wire, Value.weight, Value.reach, Reader.mk.injEq,
    max_assoc, true_and, and_true]
  omega

theorem optional_some {t : FieldType} {x : Value} (fits : t.Fits x) (canonical : x.canon = x)
    (tag : [1] <+: r.rest) (wire : x.wire <+: ((r.entered d).skip 1).rest)
    (few : ((r.entered d).skip 1).nodes + x.weight ≤ 4096) :
    Takes ((FieldType.optional t).Fits (.optional (some x))) r (.optional (some x)) d
      (((r.entered d).skip 1).past x (d + 1)) := by
  rw [nodes_skip, nodes_entered] at few
  rw [rest_skip, rest_entered] at wire
  refine ⟨fits, by rw [Value.canon, canonical], append_isPrefix.mpr ⟨tag, wire⟩, ?_, past_some.symm⟩
  rw [Value.weight]
  omega

theorem sequence_taken {t : FieldType} {maxLen : ℕ} {xs : List Value} (len : xs.length ≤ maxLen)
    (tag : Bytes.little 4 xs.length <+: r.rest)
    (taken : TakesAll (∀ x ∈ xs, t.Fits x) ((r.entered d).skip 4) xs (d + 1) r') :
    Takes ((FieldType.sequence t maxLen).Fits (.sequence xs)) r (.sequence xs) d r' := by
  obtain ⟨fits, canonical, wire, few, rfl⟩ := taken
  rw [nodes_skip, nodes_entered] at few
  rw [rest_skip, rest_entered] at wire
  refine ⟨⟨len, fits⟩, by rw [Value.canon, canonical], ?_, ?_, past_sequence.symm⟩
  · apply append_isPrefix.mpr
    rw [Bytes.little_length]
    exact ⟨tag, wire⟩
  · rw [Value.weight]
    omega

theorem record_taken {fields : List Field} {name : String} {version : UInt32} {xs : List Value}
    (taken : TakesAll (FieldsFit fields xs) (r.entered d) xs (d + 1) r') :
    Takes (Schema.Fits ⟨name, version, fields⟩ (.record xs)) r (.record xs) d r' := by
  obtain ⟨fits, canonical, wire, few, rfl⟩ := taken
  rw [nodes_entered] at few
  refine ⟨fits, by rw [Value.canon, canonical], wire, ?_, past_record.symm⟩
  rw [Value.weight]
  omega

/-! ### One kind of field at a time -/

theorem int_ok {min max : Int64} {v : Value}
    (bounded : (FieldType.int min max).Bounded d) (inside : r.Inside) :
    val true (.int min max) d r = .ok v r' ↔ Takes ((FieldType.int min max).Fits v) r v d r' := by
  rw [val, noded_ok bounded]
  simp only [bind_returns, u64_ok (inside.entered d), refuse_returns, pure_returns]
  constructor
  · rintro ⟨few, x, _, ⟨hx, rfl⟩, _, _, ⟨range, rfl⟩, rfl, rfl⟩
    rw [not_or, Int64.not_lt, Int64.not_lt] at range
    exact ⟨range, rfl, hx, few, rfl⟩
  · rintro ⟨fits, _, wire, few, rfl⟩
    cases v with
    | int x =>
      refine ⟨few, x.toUInt64, _, ⟨wire, rfl⟩, (), _, ⟨?_, rfl⟩, rfl, rfl⟩
      rw [not_or, Int64.not_lt, Int64.not_lt]
      exact fits
    | _ => exact fits.elim

theorem uint_ok {min max : UInt64} {v : Value}
    (bounded : (FieldType.uint min max).Bounded d) (inside : r.Inside) :
    val true (.uint min max) d r = .ok v r' ↔ Takes ((FieldType.uint min max).Fits v) r v d r' := by
  rw [val, noded_ok bounded]
  simp only [bind_returns, u64_ok (inside.entered d), refuse_returns, pure_returns]
  constructor
  · rintro ⟨few, x, _, ⟨hx, rfl⟩, _, _, ⟨range, rfl⟩, rfl, rfl⟩
    rw [not_or, UInt64.not_lt, UInt64.not_lt] at range
    exact ⟨range, rfl, hx, few, rfl⟩
  · rintro ⟨fits, _, wire, few, rfl⟩
    cases v with
    | uint x =>
      refine ⟨few, x, _, ⟨wire, rfl⟩, (), _, ⟨?_, rfl⟩, rfl, rfl⟩
      rw [not_or, UInt64.not_lt, UInt64.not_lt]
      exact fits
    | _ => exact fits.elim

theorem float_ok {allowNonFinite : Bool} {v : Value}
    (bounded : (FieldType.float allowNonFinite).Bounded d) (inside : r.Inside) :
    val true (.float allowNonFinite) d r = .ok v r' ↔
      Takes ((FieldType.float allowNonFinite).Fits v) r v d r' := by
  rw [val, noded_ok bounded]
  simp only [bind_returns, u64_ok (inside.entered d), acceptFloat, refuse_returns, pure_returns]
  constructor
  · rintro ⟨few, x, _, ⟨hx, rfl⟩, _, _, ⟨finite, rfl⟩, _, _, ⟨canonical, rfl⟩, rfl, rfl⟩
    have fits : allowNonFinite = true ∨ F64.isFinite ⟨x⟩ = true := by
      cases allowNonFinite <;> simp_all
    refine ⟨fits, ?_, hx, few, rfl⟩
    rw [Value.canon]
    apply congrArg Value.float
    apply F64.canon_eq_self.mpr
    intro nan
    by_contra other
    apply canonical
    refine ⟨fits.resolve_right ?_, nan, other⟩
    rw [F64.isFinite_of_canon nan]
    exact Bool.false_ne_true
  · rintro ⟨fits, canonical, wire, few, rfl⟩
    cases v with
    | float x =>
      rw [Value.canon, Value.float.injEq, F64.canon_eq_self] at canonical
      refine ⟨few, x.bits, _, ⟨wire, rfl⟩, (), _, ⟨?_, rfl⟩, (), _, ⟨?_, rfl⟩, rfl, rfl⟩
      · rintro ⟨strict, infinite⟩
        have fits : allowNonFinite = true ∨ x.isFinite = true := fits
        rw [strict] at fits
        simp only [Bool.false_eq_true, false_or] at fits
        exact Bool.false_ne_true (infinite.symm.trans fits)
      · rintro ⟨_, nan, other⟩
        exact other (canonical nan)
    | _ => exact fits.elim

theorem bool_ok {v : Value}
    (bounded : (FieldType.bool).Bounded d) (inside : r.Inside) :
    val true (.bool) d r = .ok v r' ↔ Takes ((FieldType.bool).Fits v) r v d r' := by
  rw [val, noded_ok bounded]
  simp only [bind_returns, byte_ok (inside.entered d), acceptBool]
  constructor
  · rintro ⟨few, x, _, ⟨hx, rfl⟩, hv⟩
    split at hv
    next zero =>
      obtain ⟨rfl, rfl⟩ := pure_returns.mp hv
      subst zero
      exact ⟨trivial, rfl, hx, few, rfl⟩
    next =>
      split at hv
      next one =>
        obtain ⟨rfl, rfl⟩ := pure_returns.mp hv
        subst one
        exact ⟨trivial, rfl, hx, few, rfl⟩
      next => exact (throw_returns.mp hv).elim
  · rintro ⟨fits, _, wire, few, rfl⟩
    cases v with
    | bool x =>
      cases x with
      | false => exact ⟨few, 0, _, ⟨wire, rfl⟩, pure_returns.mpr ⟨rfl, rfl⟩⟩
      | true => exact ⟨few, 1, _, ⟨wire, rfl⟩, pure_returns.mpr ⟨rfl, rfl⟩⟩
    | _ => exact fits.elim

theorem string_ok {maxBytes : ℕ} {v : Value}
    (bounded : (FieldType.string maxBytes).Bounded d) (inside : r.Inside) :
    val true (.string maxBytes) d r = .ok v r' ↔
      Takes ((FieldType.string maxBytes).Fits v) r v d r' := by
  rw [val, noded_ok bounded.1]
  unfold fail
  rw [sized_ok bounded.2 (inside.entered d)]
  simp only [acceptText_ok]
  constructor
  · rintro ⟨few, b, short, wire, s, rfl, rfl, rfl⟩
    exact ⟨short, rfl, wire, few, rfl⟩
  · rintro ⟨fits, _, wire, few, rfl⟩
    cases v with
    | string s => exact ⟨few, _, fits, wire, s, rfl, rfl, rfl⟩
    | _ => exact fits.elim

theorem bytes_ok {maxBytes : ℕ} {v : Value}
    (bounded : (FieldType.bytes maxBytes).Bounded d) (inside : r.Inside) :
    val true (.bytes maxBytes) d r = .ok v r' ↔
      Takes ((FieldType.bytes maxBytes).Fits v) r v d r' := by
  rw [val, noded_ok bounded.1]
  unfold fail
  rw [sized_ok bounded.2 (inside.entered d)]
  simp only [pure_returns, if_true]
  constructor
  · rintro ⟨few, b, short, wire, rfl, rfl⟩
    exact ⟨short, rfl, wire, few, rfl⟩
  · rintro ⟨fits, _, wire, few, rfl⟩
    cases v with
    | bytes b => exact ⟨few, b, fits, wire, rfl, rfl⟩
    | _ => exact fits.elim

theorem enum_ok {name : String} {variants : List String} {v : Value}
    (bounded : (FieldType.enum name variants).Bounded d) (inside : r.Inside) :
    val true (.enum name variants) d r = .ok v r' ↔
      Takes ((FieldType.enum name variants).Fits v) r v d r' := by
  rw [val, noded_ok bounded.1]
  simp only [bind_returns, u32_ok (inside.entered d), refuse_returns, pure_returns]
  constructor
  · rintro ⟨few, x, _, ⟨hx, rfl⟩, _, _, ⟨range, rfl⟩, rfl, rfl⟩
    exact ⟨Nat.not_le.mp range, rfl, hx, few, rfl⟩
  · rintro ⟨fits, _, wire, few, rfl⟩
    cases v with
    | enum x => exact ⟨few, x, _, ⟨wire, rfl⟩, (), _, ⟨Nat.not_le.mpr fits, rfl⟩, rfl, rfl⟩
    | _ => exact fits.elim

theorem optional_ok {t : FieldType} {v : Value}
    (bounded : (FieldType.optional t).Bounded d) (inside : r.Inside)
    (child : ∀ {r r' : Reader} {v : Value}, r.Inside →
      (val true t (d + 1) r = .ok v r' ↔ Takes (t.Fits v) r v (d + 1) r')) :
    val true (.optional t) d r = .ok v r' ↔ Takes ((FieldType.optional t).Fits v) r v d r' := by
  rw [val, noded_ok bounded.1]
  simp only [bind_returns, byte_ok (inside.entered d), acceptOptional]
  constructor
  · rintro ⟨few, tag, _, ⟨htag, rfl⟩, hv⟩
    split at hv
    next zero =>
      obtain ⟨rfl, rfl⟩ := pure_returns.mp hv
      subst zero
      exact ⟨trivial, rfl, htag, few, rfl⟩
    next =>
      split at hv
      next one =>
        subst one
        obtain ⟨x, _, hx, hv⟩ := bind_returns.mp hv
        obtain ⟨rfl, rfl⟩ := pure_returns.mp hv
        have inside' : ((r.entered d).skip 1).Inside := (inside.entered d).skip htag
        obtain ⟨fits, canonical, wire, few, rfl⟩ := (child inside').mp hx
        rw [if_pos trivial]
        exact optional_some fits canonical htag wire few
      next => exact (throw_returns.mp hv).elim
  · rintro ⟨fits, canonical, wire, few, rfl⟩
    cases v with
    | optional x =>
      cases x with
      | none => exact ⟨few, 0, _, ⟨wire, rfl⟩, pure_returns.mpr ⟨rfl, rfl⟩⟩
      | some x =>
        have pos := x.weight_pos
        have split : [1] ++ x.wire <+: r.rest := wire
        obtain ⟨htag, wire⟩ := append_isPrefix.mp split
        have inside' : ((r.entered d).skip 1).Inside := (inside.entered d).skip htag
        rw [Value.canon, Value.optional.injEq, Option.some.injEq] at canonical
        rw [Value.weight] at few
        refine ⟨by omega, 1, _, ⟨htag, rfl⟩, ?_⟩
        rw [if_neg (by decide), if_pos rfl]
        apply bind_returns.mpr
        refine ⟨x, ((r.entered d).skip 1).past x (d + 1), ?_, ?_⟩
        · apply (child inside').mpr
          refine ⟨fits, canonical, ?_, by rw [nodes_skip, nodes_entered]; omega, rfl⟩
          rw [rest_skip, rest_entered]
          exact wire
        · rw [if_pos trivial]
          exact pure_returns.mpr ⟨rfl, past_some⟩
    | _ => exact fits.elim

theorem sequence_ok {t : FieldType} {maxLen : ℕ} {v : Value}
    (bounded : (FieldType.sequence t maxLen).Bounded d) (inside : r.Inside)
    (child : ∀ {r r' : Reader} {v : Value}, r.Inside →
      (val true t (d + 1) r = .ok v r' ↔ Takes (t.Fits v) r v (d + 1) r')) :
    val true (.sequence t maxLen) d r = .ok v r' ↔
      Takes ((FieldType.sequence t maxLen).Fits v) r v d r' := by
  rw [val, noded_ok bounded.1]
  simp only [bind_returns, u32_ok (inside.entered d), get_returns, usizeSub, refuse_returns, pure_returns]
  have step : ∀ (i : ℕ) (r : Reader) (v : Value) (r' : Reader), r.Inside →
      (mapError (Fault.atField (indexName i)) (val true t (d + 1)) r = .ok v r' ↔
        Takes (t.Fits v) r v (d + 1) r') := by
    intro i r v r' inside
    rw [mapError_returns]
    exact child inside
  constructor
  · rintro ⟨few, n, _, ⟨hn, rfl⟩, _, _, ⟨rfl, rfl⟩, _, _, ⟨_, _, ⟨_, rfl⟩, rfl, rfl⟩, _, _,
      ⟨range, rfl⟩, xs, _, hxs, rfl, rfl⟩
    have inside' : ((r.entered d).skip 4).Inside := by
      simpa using (inside.entered d).skip hn
    obtain ⟨len, taken⟩ := (times_ok step n.toNat 0 inside' few).mp hxs
    rw [if_pos trivial]
    rw [not_or] at range
    rw [← len] at hn
    exact sequence_taken (by omega) hn taken
  · rintro ⟨fits, canonical, wire, few, rfl⟩
    cases v with
    | sequence xs =>
      have fits : xs.length ≤ maxLen ∧ ∀ x ∈ xs, t.Fits x := fits
      have limit : maxLen ≤ 4096 := bounded.2.1
      have exact32 : (UInt32.ofNat xs.length).toNat = xs.length :=
        UInt32.toNat_ofNat_of_lt' (by
          change xs.length < 4294967296
          omega)
      have many := Value.length_le_weights xs
      obtain ⟨hn, wire⟩ := append_isPrefix.mp wire
      rw [Value.canon, Value.sequence.injEq] at canonical
      rw [Value.weight] at few
      rw [Bytes.little_length] at wire
      have inside' : ((r.entered d).skip 4).Inside := by
        simpa using (inside.entered d).skip hn
      refine ⟨by omega, UInt32.ofNat xs.length, _, ⟨by rw [exact32]; exact hn, rfl⟩, _, _,
        ⟨rfl, rfl⟩, _, _, ⟨(), _, ⟨?_, rfl⟩, rfl, rfl⟩, (), _, ⟨?_, rfl⟩, xs,
        ((r.entered d).skip 4).pastAll xs (d + 1), ?_, rfl, past_sequence⟩
      · rw [nodes_skip, nodes_entered]
        omega
      · rw [nodes_skip, nodes_entered, exact32]
        omega
      · rw [exact32]
        apply (times_ok step xs.length 0 inside' (by rw [nodes_skip, nodes_entered]; omega)).mpr
        refine ⟨rfl, fits.2, canonical, ?_, by rw [nodes_skip, nodes_entered]; omega, rfl⟩
        rw [rest_skip, rest_entered]
        exact wire
    | _ => exact fits.elim

mutual
/-- The building reader takes exactly the canonical bytes of fitting values. -/
theorem val_ok : ∀ (t : FieldType) (d : ℕ) {r r' : Reader} {v : Value}, t.Bounded d → r.Inside →
    (val true t d r = .ok v r' ↔ Takes (t.Fits v) r v d r')
  | .record s, d, r, r', v, bounded, inside => by
    rw [val, FieldType.Fits]
    exact record_ok s d bounded inside
  | .int _ _, _, _, _, _, bounded, inside => int_ok bounded inside
  | .uint _ _, _, _, _, _, bounded, inside => uint_ok bounded inside
  | .float _, _, _, _, _, bounded, inside => float_ok bounded inside
  | .bool, _, _, _, _, bounded, inside => bool_ok bounded inside
  | .string _, _, _, _, _, bounded, inside => string_ok bounded inside
  | .bytes _, _, _, _, _, bounded, inside => bytes_ok bounded inside
  | .enum _ _, _, _, _, _, bounded, inside => enum_ok bounded inside
  | .optional t, d, _, _, _, bounded, inside =>
    optional_ok bounded inside fun inside => val_ok t (d + 1) bounded.2 inside
  | .sequence t _, d, _, _, _, bounded, inside =>
    sequence_ok bounded inside fun inside => val_ok t (d + 1) bounded.2.2 inside

theorem record_ok : ∀ (s : Schema) (d : ℕ) {r r' : Reader} {v : Value}, s.Bounded d → r.Inside →
    (record true s d r = .ok v r' ↔ Takes (s.Fits v) r v d r')
  | ⟨_, _, fields⟩, d, r, r', v, bounded, inside => by
    have shallow : d ≤ 16 := bounded.1
    simp only [record, enter, bind_returns, modify_returns, get_returns, refuse_returns, pure_returns]
    constructor
    · rintro ⟨_, _, rfl, _, _, ⟨rfl, rfl⟩, _, _, ⟨limits, rfl⟩, xs, _, hxs, rfl, rfl⟩
      rw [not_or, Nat.not_lt] at limits
      have taken := (recordFields_ok fields d bounded.2 (inside.entered d) limits.1).mp hxs
      rw [if_pos trivial]
      exact record_taken taken
    · rintro ⟨fits, canonical, wire, few, rfl⟩
      cases v with
      | record xs =>
        rw [Value.canon, Value.record.injEq] at canonical
        rw [Value.weight] at few
        refine ⟨⟨⟩, _, rfl, _, _, ⟨rfl, rfl⟩, (), _, ⟨?_, rfl⟩, xs,
          (r.entered d).pastAll xs (d + 1), ?_, rfl, past_record⟩
        · rw [not_or, Nat.not_lt]
          exact ⟨by change r.nodes + 1 ≤ 4096; omega, by omega⟩
        · apply (recordFields_ok fields d bounded.2 (inside.entered d)
            (by rw [nodes_entered]; omega)).mpr
          exact ⟨fits, canonical, wire, by rw [nodes_entered]; omega, rfl⟩
      | _ => exact fits.elim

theorem recordFields_ok : ∀ (fields : List Field) (d : ℕ) {r r' : Reader} {xs : List Value},
    FieldsBounded fields d → r.Inside → r.nodes ≤ 4096 →
    (recordFields true fields d r = .ok xs r' ↔ TakesAll (FieldsFit fields xs) r xs (d + 1) r')
  | [], d, r, r', xs, _, _, few => by
    simp only [recordFields, pure_returns]
    constructor
    · rintro ⟨rfl, rfl⟩
      exact (takesAll_nil few).mpr ⟨trivial, rfl⟩
    · intro taken
      cases xs with
      | nil => exact ⟨rfl, ((takesAll_nil few).mp taken).2⟩
      | cons x xs => exact taken.1.elim
  | ⟨_, ty⟩ :: fields, d, r, r', xs, bounded, inside, few => by
    simp only [recordFields, bind_returns, mapError_returns, pure_returns]
    constructor
    · rintro ⟨x, _, hx, ys, _, hys, rfl, rfl⟩
      have hx := (val_ok ty (d + 1) bounded.1 inside).mp hx
      have rx := hx.2.2.2.2
      subst rx
      have inside' := inside.past hx.2.2.1 (d + 1)
      have taken := (recordFields_ok fields d bounded.2 inside' hx.2.2.2.1).mp hys
      exact takesAll_cons.mpr ⟨hx, taken⟩
    · intro taken
      cases xs with
      | nil => exact taken.1.elim
      | cons x ys =>
        obtain ⟨hx, hys⟩ := takesAll_cons.mp taken
        have inside' := inside.past hx.2.2.1 (d + 1)
        exact ⟨x, _, (val_ok ty (d + 1) bounded.1 inside).mpr hx, ys, r',
          (recordFields_ok fields d bounded.2 inside' hx.2.2.2.1).mpr hys, rfl, rfl⟩
end

end Reader
end Actorplane
