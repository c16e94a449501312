import Actorplane.Schemas.Limits

/-!
# The codec of a validated schema

Both directions accept exactly the fitting values within the limits, as their
canonical bytes; what the codec promises follows from that.
-/

namespace Actorplane

open Stateful

/-- A schema that `validate` accepts. -/
structure ValidSchema where
  schema : Schema
  valid : schema.validate = .ok ()

namespace ValidSchema

variable (s : ValidSchema)

theorem bounded : s.schema.Bounded 0 := s.schema.validate_bounded s.valid

/-- Value `v` goes over the wire as `b`, in either direction. -/
def Carries (b : List UInt8) (v : Value) : Prop :=
  s.schema.Fits v ∧ v.weight ≤ 4096 ∧ v.canon.wire = b

theorem reading_ok {b : List UInt8} {v : Value} {r : Reader} :
    s.schema.reading true ⟨b, 0, 0, 0⟩ = .ok v r ↔
      b.length ≤ 2 ^ 20 ∧ s.Carries b v ∧ v.canon = v ∧ r = Reader.past ⟨b, 0, 0, 0⟩ v 0 := by
  have start : Reader.Inside ⟨b, 0, 0, 0⟩ := Nat.zero_le _
  have all : Reader.rest ⟨b, 0, 0, 0⟩ = b := rfl
  simp only [Schema.reading, bind_returns, get_returns, refuse_returns, pure_returns, mapError_returns]
  constructor
  · rintro ⟨_, _, ⟨rfl, rfl⟩, _, _, ⟨short, rfl⟩, _, _, run, _, _, ⟨rfl, rfl⟩, _, _, ⟨ended, rfl⟩,
      rfl, rfl⟩
    obtain ⟨fits, canonical, wire, few, rfl⟩ := (Reader.record_ok s.schema 0 s.bounded start).mp run
    rw [all] at wire
    have len : v.wire.length = b.length := by
      by_contra other
      apply ended
      change 0 + v.wire.length ≠ b.length
      omega
    refine ⟨Nat.not_lt.mp short, ⟨fits, by omega, ?_⟩, canonical, rfl⟩
    rw [canonical]
    exact wire.eq_of_length len
  · rintro ⟨short, ⟨fits, few, wire⟩, canonical, rfl⟩
    rw [canonical] at wire
    have run : Reader.record true s.schema 0 ⟨b, 0, 0, 0⟩ =
        .ok v (Reader.past ⟨b, 0, 0, 0⟩ v 0) := by
      have budget : 0 + v.weight ≤ 4096 := by omega
      apply (Reader.record_ok s.schema 0 s.bounded start).mpr
      refine ⟨fits, canonical, ?_, budget, rfl⟩
      rw [all, wire]
    refine ⟨_, _, ⟨rfl, rfl⟩, (), _, ⟨Nat.not_lt.mpr short, rfl⟩, v, _, run, _, _, ⟨rfl, rfl⟩, (),
      _, ⟨?_, rfl⟩, rfl, rfl⟩
    intro ended
    apply ended
    change 0 + v.wire.length = b.length
    rw [wire]
    omega

/-- `decode` accepts the canonical values that fit, as their bytes. -/
theorem decode_eq_ok {b : List UInt8} {v : Value} :
    s.schema.decode b = .ok v ↔ b.length ≤ 2 ^ 20 ∧ s.Carries b v ∧ v.canon = v := by
  have run : s.schema.decode b = outcomeOf (s.schema.reading true ⟨b, 0, 0, 0⟩) := by
    unfold Schema.decode Schema.checked Schema.read
    rw [s.valid]
    rfl
  rw [run]
  constructor
  · intro h
    cases hr : s.schema.reading true ⟨b, 0, 0, 0⟩ with
    | ok a r =>
      rw [hr] at h
      cases h
      obtain ⟨short, carries, canonical, _⟩ := s.reading_ok.mp hr
      exact ⟨short, carries, canonical⟩
    | error e r =>
      rw [hr] at h
      cases h
  · rintro ⟨short, carries, canonical⟩
    rw [s.reading_ok.mpr ⟨short, carries, canonical, rfl⟩]
    rfl

/-- `encode` accepts the values that fit and leave their bytes room. -/
theorem encode_eq_ok {maxBytes : ℕ} {b : List UInt8} {v : Value} :
    s.schema.encode v maxBytes = .ok b ↔
      maxBytes ≤ 2 ^ 20 ∧ s.Carries b v ∧ b.length ≤ maxBytes := by
  unfold Schema.encode Schema.checked
  rw [s.valid]
  by_cases limit : 2 ^ 20 < maxBytes
  · constructor
    · intro h
      rw [if_pos limit] at h
      cases h
    · rintro ⟨small, _⟩
      omega
  · have within : W.Within ⟨[], maxBytes, 0, 0⟩ := ⟨Nat.zero_le _, Nat.not_lt.mp limit⟩
    have exactly : ∀ w, s.schema.writing v ⟨[], maxBytes, 0, 0⟩ = .ok () w ↔
        W.Puts (s.schema.Fits v) ⟨[], maxBytes, 0, 0⟩ v 0 w := by
      intro w
      unfold Schema.writing
      rw [mapError_returns]
      exact W.record_ok s.schema v 0 s.bounded within
    have start : (⟨[], maxBytes, 0, 0⟩ : W).past v 0 =
        ⟨v.canon.wire, maxBytes, 0 + v.weight, max 0 (v.reach 0)⟩ := rfl
    rw [if_neg limit]
    constructor
    · intro h
      cases hw : s.schema.writing v ⟨[], maxBytes, 0, 0⟩ with
      | ok u w =>
        obtain ⟨fits, few, room, rfl⟩ := (exactly w).mp hw
        change writtenOf (s.schema.writing v ⟨[], maxBytes, 0, 0⟩) = Except.ok b at h
        rw [hw] at h
        cases h
        have room : 0 + v.canon.wire.length ≤ maxBytes := room
        have few : 0 + v.weight ≤ 4096 := few
        rw [start]
        refine ⟨Nat.not_lt.mp limit, ⟨fits, by omega, rfl⟩, ?_⟩
        change v.canon.wire.length ≤ maxBytes
        omega
      | error e w =>
        change writtenOf (s.schema.writing v ⟨[], maxBytes, 0, 0⟩) = Except.ok b at h
        rw [hw] at h
        cases h
    · rintro ⟨small, ⟨fits, few, rfl⟩, room⟩
      have put : W.Puts (s.schema.Fits v) ⟨[], maxBytes, 0, 0⟩ v 0
          ((⟨[], maxBytes, 0, 0⟩ : W).past v 0) := by
        refine ⟨fits, ?_, ?_, rfl⟩
        · change 0 + v.weight ≤ 4096
          omega
        · change 0 + v.canon.wire.length ≤ maxBytes
          omega
      change writtenOf (s.schema.writing v ⟨[], maxBytes, 0, 0⟩) = Except.ok v.canon.wire
      rw [(exactly _).mpr put]
      rfl

/-- Whatever the bytes, a run of the reader keeps inside them and within the limits. -/
theorem reading_meets (build : Bool) (b : List UInt8) :
    Meets (fun r => r = ⟨b, 0, 0, 0⟩) (s.schema.reading build) (fun _ => Reader.Sound)
      Reader.Stopped := by
  unfold Schema.reading
  apply Meets.get_bind
  intro a
  apply Meets.bind (fun _ => Reader.Sound)
  · apply Meets.refuse
    · rintro _ r ⟨_, rfl⟩
      exact ⟨Nat.zero_le _, Nat.zero_le _, Nat.zero_le _⟩
    · rintro _ r ⟨_, rfl⟩
      exact ⟨Reader.fail_ne_panic _, Nat.zero_le _, Nat.zero_le _, Nat.zero_le _⟩
  intro _
  apply Reader.bound_meets
  · exact Reader.placed_meets _ (Reader.record_meets build s.schema 0 s.bounded)
  intro out
  apply Meets.get_bind
  intro r
  apply Meets.bind (fun _ => Reader.Sound)
  · apply Meets.refuse
    · intro _ r h
      exact h.2
    · intro _ r h
      exact h.2.stopped _
  · intro _
    exact Reader.pure_meets out

/-- Whatever the value, a run of the writer keeps within the limits. -/
theorem writing_meets (v : Value) (maxBytes : ℕ) :
    Meets (fun w => w = ⟨[], maxBytes, 0, 0⟩) (s.schema.writing v) (fun _ => W.Sound)
      W.Stopped := by
  have run := W.placed_meets s.schema.name (W.record_meets s.schema v 0 s.bounded)
  apply run.weaken _ (fun _ _ h => h) fun _ _ h => h
  rintro w rfl
  exact ⟨Nat.zero_le _, Nat.zero_le _, Nat.zero_le _⟩

theorem reading_alike : Alike (s.schema.reading true) (s.schema.reading false) := by
  unfold Schema.reading
  apply Alike.bind_same
  intro r
  apply Alike.bind_same
  intro _
  apply Alike.bind (Alike.mapError (Reader.record_alike s.schema 0))
  intro a b
  apply Alike.bind_same
  intro r
  apply Alike.bind_same
  intro _
  exact Alike.pure a b

/-- The checking reader accepts what the building reader accepts, and refuses the rest with the
same error. -/
theorem validateRegisteredBytes_eq (b : List UInt8) :
    s.schema.validateRegisteredBytes b = (s.schema.decode b).map fun _ => () := by
  have run : s.schema.decode b = outcomeOf (s.schema.reading true ⟨b, 0, 0, 0⟩) := by
    unfold Schema.decode Schema.checked Schema.read
    rw [s.valid]
    rfl
  rw [run]
  unfold Schema.validateRegisteredBytes Schema.read
  have alike := s.reading_alike ⟨b, 0, 0, 0⟩
  cases ht : s.schema.reading true ⟨b, 0, 0, 0⟩ <;>
    cases hf : s.schema.reading false ⟨b, 0, 0, 0⟩ <;> rw [ht, hf] at alike
  · rfl
  · exact alike.elim
  · exact alike.elim
  · rw [alike.1]
    rfl

end ValidSchema

/-- The last state of a run, however it ends. -/
def lastOf {ε σ α : Type} : EStateM.Result ε σ α → σ
  | .ok _ s => s
  | .error _ s => s

/-- A value goes back and forth under `s`, whatever its NaNs, and only its own bytes do. -/
theorem ValidSchema.decode_encode (s : ValidSchema) {v : Value} {maxBytes : ℕ} {b : List UInt8}
    (h : s.schema.encode v maxBytes = .ok b) : s.schema.decode b = .ok v.canon := by
  obtain ⟨small, ⟨fits, few, wire⟩, room⟩ := s.encode_eq_ok.mp h
  apply s.decode_eq_ok.mpr
  refine ⟨room.trans small, ⟨(s.schema.fits_canon v).mpr fits, ?_, ?_⟩, v.canon_canon⟩
  · rw [v.weight_canon]
    exact few
  · rw [v.canon_canon]
    exact wire

theorem ValidSchema.encode_decode (s : ValidSchema) {v : Value} {maxBytes : ℕ} {b : List UInt8}
    (h : s.schema.decode b = .ok v) (room : b.length ≤ maxBytes) (small : maxBytes ≤ 2 ^ 20) :
    s.schema.encode v maxBytes = .ok b :=
  s.encode_eq_ok.mpr ⟨small, (s.decode_eq_ok.mp h).2.1, room⟩

theorem ValidSchema.reading_limits (s : ValidSchema) (build : Bool) (b : List UInt8) :
    s.schema.read build b ≠ .error .panic ∧
      (lastOf (s.schema.reading build ⟨b, 0, 0, 0⟩)).nodes ≤ 4097 ∧
      (lastOf (s.schema.reading build ⟨b, 0, 0, 0⟩)).deepest ≤ 16 := by
  have run := s.reading_meets build b ⟨b, 0, 0, 0⟩ rfl
  unfold Schema.read
  cases hr : s.schema.reading build ⟨b, 0, 0, 0⟩ with
  | ok a r =>
    rw [hr] at run
    exact ⟨nofun, Nat.le_succ_of_le run.2.1, run.2.2⟩
  | error e r =>
    rw [hr] at run
    refine ⟨?_, run.2.2.1, run.2.2.2⟩
    intro panics
    cases panics
    exact run.1 rfl

theorem ValidSchema.writing_limits (s : ValidSchema) (v : Value) (maxBytes : ℕ) :
    s.schema.encode v maxBytes ≠ .error .panic ∧
      (lastOf (s.schema.writing v ⟨[], maxBytes, 0, 0⟩)).nodes ≤ 4097 ∧
      (lastOf (s.schema.writing v ⟨[], maxBytes, 0, 0⟩)).deepest ≤ 16 := by
  have run := s.writing_meets v maxBytes ⟨[], maxBytes, 0, 0⟩ rfl
  unfold Schema.encode Schema.checked
  rw [s.valid]
  cases hw : s.schema.writing v ⟨[], maxBytes, 0, 0⟩ with
  | ok u w =>
    rw [hw] at run
    refine ⟨?_, Nat.le_succ_of_le run.2.1, run.2.2⟩
    by_cases limit : 2 ^ 20 < maxBytes
    · rw [if_pos limit]
      intro panics
      cases panics
    · rw [if_neg limit]
      intro panics
      cases panics
  | error e w =>
    rw [hw] at run
    refine ⟨?_, run.2.2.1, run.2.2.2⟩
    by_cases limit : 2 ^ 20 < maxBytes
    · rw [if_pos limit]
      intro panics
      cases panics
    · rw [if_neg limit]
      intro panics
      cases panics
      exact run.1 rfl

/-- Encoding and decoding of a validated schema are inverse up to the canonical NaN, both readers
accept the same bytes, and no input makes either direction panic or leave the limits. -/
theorem ValidSchema.codec (s : ValidSchema) :
    (∀ v maxBytes b, s.schema.encode v maxBytes = .ok b → s.schema.decode b = .ok v.canon) ∧
    (∀ b v, s.schema.decode b = .ok v → ∀ maxBytes, b.length ≤ maxBytes → maxBytes ≤ 2 ^ 20 →
      s.schema.encode v maxBytes = .ok b) ∧
    (∀ b b' v, s.schema.decode b = .ok v → s.schema.decode b' = .ok v → b = b') ∧
    (∀ v, (∃ b, s.schema.decode b = .ok v) ↔
      v.canon = v ∧ ∃ maxBytes ≤ 2 ^ 20, ∃ b, s.schema.encode v maxBytes = .ok b) ∧
    (∀ b, (∃ v, s.schema.decode b = .ok v) ↔ s.schema.validateRegisteredBytes b = .ok ()) ∧
    (∀ build b, s.schema.read build b ≠ .error .panic ∧
      (lastOf (s.schema.reading build ⟨b, 0, 0, 0⟩)).nodes ≤ 4097 ∧
      (lastOf (s.schema.reading build ⟨b, 0, 0, 0⟩)).deepest ≤ 16) ∧
    (∀ v maxBytes, s.schema.encode v maxBytes ≠ .error .panic ∧
      (lastOf (s.schema.writing v ⟨[], maxBytes, 0, 0⟩)).nodes ≤ 4097 ∧
      (lastOf (s.schema.writing v ⟨[], maxBytes, 0, 0⟩)).deepest ≤ 16) := by
  refine ⟨fun v maxBytes b h => s.decode_encode h,
    fun b v h maxBytes room small => s.encode_decode h room small, ?_, ?_, ?_,
    s.reading_limits, s.writing_limits⟩
  · intro b b' v h h'
    have wire := (s.decode_eq_ok.mp h).2.1.2.2
    have wire' := (s.decode_eq_ok.mp h').2.1.2.2
    exact wire.symm.trans wire'
  · intro v
    constructor
    · rintro ⟨b, h⟩
      obtain ⟨short, carries, canonical⟩ := s.decode_eq_ok.mp h
      exact ⟨canonical, b.length, short, b, s.encode_eq_ok.mpr ⟨short, carries, Nat.le_refl _⟩⟩
    · rintro ⟨canonical, maxBytes, _, b, h⟩
      refine ⟨b, ?_⟩
      have decoded := s.decode_encode h
      rw [canonical] at decoded
      exact decoded
  · intro b
    rw [s.validateRegisteredBytes_eq]
    cases s.schema.decode b with
    | ok v =>
      constructor
      · intro _
        rfl
      · intro _
        exact ⟨v, rfl⟩
    | error e =>
      constructor
      · rintro ⟨v, h⟩
        cases h
      · intro h
        cases h

/-- A record with a bounded counter and an optional float that takes NaN. -/
def sampleSchema : ValidSchema where
  schema := ⟨"sample", 1, [⟨"n", .uint 0 9⟩, ⟨"x", .optional (.float true)⟩]⟩
  valid := rfl

/-- A NaN with a payload comes back as the canonical NaN. -/
theorem sample_codec :
    sampleSchema.schema.decode [7, 0, 0, 0, 0, 0, 0, 0, 1, 0, 0, 0, 0, 0, 0, 0xf8, 0x7f] =
      .ok (.record [.uint 7, .optional (some (.float F64.canonicalNan))]) :=
  sampleSchema.codec.1 (.record [.uint 7, .optional (some (.float ⟨0x7ff8000000000001⟩))]) 17 _ rfl

end Actorplane
