import Actorplane.Schemas.Reading
import Actorplane.Schemas.Writing

/-!
# Limits on every input

Whatever the bytes or the value, neither machine panics, counts more than one
node past the limit, or enters a node deeper than the schema allows; and the
reader that builds nothing takes the same steps as the one that builds.
-/

namespace Actorplane

open Stateful

namespace Reader

/-- What holds while a validated schema is read. -/
def Sound (r : Reader) : Prop := r.Inside ∧ r.nodes ≤ 4096 ∧ r.deepest ≤ 16

/-- What holds where a read stops with an error: only the node count may be one too high. -/
def Stopped (e : Fault) (r : Reader) : Prop :=
  e ≠ .panic ∧ r.Inside ∧ r.nodes ≤ 4097 ∧ r.deepest ≤ 16

theorem fail_ne_panic (s : String) : fail s ≠ .panic := by
  unfold fail
  simp

theorem atField_ne_panic {e : Fault} (field : String) (h : e ≠ .panic) :
    e.atField field ≠ .panic := by
  cases e with
  | error e => simp [Fault.atField]
  | panic => exact absurd rfl h

theorem Sound.stopped {r : Reader} (h : r.Sound) (s : String) : Stopped (fail s) r :=
  ⟨fail_ne_panic s, h.1, Nat.le_succ_of_le h.2.1, h.2.2⟩

theorem Stopped.atField {e : Fault} {r : Reader} (field : String) (h : Stopped e r) :
    Stopped (e.atField field) r :=
  ⟨atField_ne_panic field h.1, h.2⟩

theorem take_meets (n : ℕ) :
    Meets Sound (take n) (fun x r => x.length = n ∧ r.Sound) Stopped := by
  unfold take
  apply Meets.get_bind
  intro a
  apply Meets.bind (fun left r => r = a ∧ r.Sound ∧ left = a.b.length - a.p)
  · unfold usizeSub
    apply Meets.bind (fun _ r => r = a ∧ r.Sound)
    · apply Meets.refuse
      · intro _ r h
        exact h
      · rintro bad r ⟨rfl, sound⟩
        exact absurd sound.1 (Nat.not_le.mpr bad)
    · intro _
      exact Meets.pure fun r h => ⟨h.1, h.2, rfl⟩
  intro left
  apply Meets.bind (fun _ r => r = a ∧ r.Sound ∧ a.p + n ≤ a.b.length)
  · apply Meets.refuse
    · rintro enough r ⟨rfl, sound, rfl⟩
      have inside : r.p ≤ r.b.length := sound.1
      exact ⟨rfl, sound, by omega⟩
    · rintro _ r ⟨rfl, sound, rfl⟩
      exact sound.stopped _
  intro _
  apply Meets.bind (fun x r => r = a ∧ r.Sound ∧ a.p + n ≤ a.b.length ∧ x.length = n)
  · unfold slice
    apply Meets.bind (fun _ r => r = a ∧ r.Sound ∧ a.p + n ≤ a.b.length)
    · apply Meets.refuse
      · intro _ r h
        exact h
      · rintro bad r ⟨rfl, sound, enough⟩
        omega
    · intro _
      apply Meets.pure
      rintro r ⟨rfl, sound, enough⟩
      refine ⟨rfl, sound, enough, ?_⟩
      rw [List.length_take, List.length_drop]
      omega
  intro x
  apply Meets.bind (fun _ r => r.Sound ∧ x.length = n)
  · apply Meets.modify
    rintro r ⟨rfl, sound, enough, len⟩
    exact ⟨⟨enough, sound.2⟩, len⟩
  · intro _
    exact Meets.pure fun r h => ⟨h.2, h.1⟩

theorem toArray_meets {n : ℕ} {x : List UInt8} :
    Meets (fun r => x.length = n ∧ r.Sound) (toArray n x) (fun _ => Sound) Stopped := by
  unfold toArray
  apply Meets.bind (fun _ => Sound)
  · apply Meets.refuse (fun _ r h => h.2)
    intro bad r h
    exact absurd h.1 bad
  · intro _
    exact Meets.pure fun r h => h

theorem u64_meets : Meets Sound u64 (fun _ => Sound) Stopped := by
  unfold u64
  apply Meets.bind _ (take_meets 8)
  intro x
  apply Meets.bind _ toArray_meets
  intro y
  exact Meets.pure fun r h => h

theorem u32_meets : Meets Sound u32 (fun _ => Sound) Stopped := by
  unfold u32
  apply Meets.bind _ (take_meets 4)
  intro x
  apply Meets.bind _ toArray_meets
  intro y
  exact Meets.pure fun r h => h

theorem byte_meets : Meets Sound byte (fun _ => Sound) Stopped := by
  unfold byte
  apply Meets.bind _ (take_meets 1)
  intro x
  cases x with
  | nil =>
    apply Meets.throw
    rintro r ⟨len, _⟩
    cases len
  | cons b bs => exact Meets.pure fun r h => h.2

theorem take_sound (n : ℕ) : Meets Sound (take n) (fun _ => Sound) Stopped :=
  (take_meets n).weaken (fun _ h => h) (fun _ _ h => h.2) fun _ _ h => h

/-- Refusing with a message of the codec. -/
theorem refuse_meets {bad : Prop} [Decidable bad] (s : String) :
    Meets Sound (refuse bad (fail s)) (fun _ => Sound) Stopped :=
  Meets.refuse (fun _ _ h => h) fun _ _ h => h.stopped s

theorem throw_meets {α : Type} (s : String) :
    Meets Sound (throw (fail s) : Read α) (fun _ => Sound) Stopped :=
  Meets.throw fun _ h => h.stopped s

theorem pure_meets {α : Type} (a : α) : Meets Sound (pure a : Read α) (fun _ => Sound) Stopped :=
  Meets.pure fun _ h => h

theorem enter_meets {d : ℕ} (shallow : d ≤ 16) (limits : Reader → Prop) [DecidablePred limits]
    (s : String) (counted : ∀ r, ¬limits r → r.nodes ≤ 4096) :
    Meets Sound (do
      enter d
      let r ← get
      refuse (limits r) (fail s)) (fun _ => Sound) Stopped := by
  unfold enter
  apply Meets.bind (fun _ r => r.Inside ∧ r.nodes ≤ 4097 ∧ r.deepest ≤ 16)
  · apply Meets.modify
    rintro r ⟨inside, few, reached⟩
    exact ⟨inside, Nat.succ_le_succ few, max_le reached shallow⟩
  intro _
  apply Meets.get_bind
  intro a
  apply Meets.refuse
  · rintro fine r ⟨rfl, inside, _, reached⟩
    exact ⟨inside, counted r fine, reached⟩
  · rintro _ r ⟨rfl, inside, few, reached⟩
    exact ⟨fail_ne_panic s, inside, few, reached⟩

theorem node_meets {d : ℕ} (shallow : d ≤ 16) : Meets Sound (node d) (fun _ => Sound) Stopped := by
  have first := enter_meets shallow (fun r => 4096 < r.nodes) "value node limit"
    fun r fine => Nat.not_lt.mp fine
  have both := Meets.bind _ first fun _ => @refuse_meets (16 < d) _ "value depth limit"
  intro r h
  exact both r h

theorem bound_meets {α β : Type} {x : Read α} {f : α → Read β}
    (hx : Meets Sound x (fun _ => Sound) Stopped)
    (hf : ∀ a, Meets Sound (f a) (fun _ => Sound) Stopped) :
    Meets Sound (x >>= f) (fun _ => Sound) Stopped :=
  Meets.bind _ hx hf

theorem placed_meets {α : Type} {x : Read α} (field : String)
    (hx : Meets Sound x (fun _ => Sound) Stopped) :
    Meets Sound (mapError (Fault.atField field) x) (fun _ => Sound) Stopped :=
  Meets.mapError (hx.weaken (fun _ h => h) (fun _ _ h => h) fun _ _ h => h.atField field)

/-- The budget left for a sequence: the node just counted is within the limit. -/
theorem budget_meets {f : ℕ → Read Value} (hf : ∀ left, Meets Sound (f left) (fun _ => Sound) Stopped) :
    Meets Sound (do
      let r ← get
      let left ← usizeSub 4096 r.nodes
      f left) (fun _ => Sound) Stopped := by
  apply Meets.get_bind
  intro a
  apply Meets.bind (fun _ => Sound)
  · unfold usizeSub
    apply Meets.bind (fun _ => Sound)
    · apply Meets.refuse
      · rintro _ r ⟨rfl, sound⟩
        exact sound
      · rintro bad r ⟨rfl, sound⟩
        exact absurd sound.2.1 (Nat.not_le.mpr bad)
    · intro _
      exact pure_meets _
  · exact hf

variable (build : Bool)

mutual
theorem val_meets : ∀ (t : FieldType) (d : ℕ), t.Bounded d →
    Meets Sound (val build t d) (fun _ => Sound) Stopped
  | .record s, d, bounded => record_meets s d bounded
  | .int min max, d, bounded => by
    rw [val]
    apply bound_meets (node_meets bounded)
    intro _
    apply bound_meets u64_meets
    intro x
    apply bound_meets (refuse_meets _)
    intro _
    exact pure_meets _
  | .uint min max, d, bounded => by
    rw [val]
    apply bound_meets (node_meets bounded)
    intro _
    apply bound_meets u64_meets
    intro x
    apply bound_meets (refuse_meets _)
    intro _
    exact pure_meets _
  | .float allowNonFinite, d, bounded => by
    rw [val]
    apply bound_meets (node_meets bounded)
    intro _
    apply bound_meets u64_meets
    intro x
    unfold acceptFloat
    apply bound_meets (refuse_meets _)
    intro _
    apply bound_meets (refuse_meets _)
    intro _
    exact pure_meets _
  | .bool, d, bounded => by
    rw [val]
    apply bound_meets (node_meets bounded)
    intro _
    apply bound_meets byte_meets
    intro x
    unfold acceptBool
    split
    · exact pure_meets _
    · split
      · exact pure_meets _
      · exact throw_meets _
  | .string maxBytes, d, bounded => by
    rw [val]
    apply bound_meets (node_meets bounded.1)
    intro _
    apply bound_meets u32_meets
    intro n
    apply bound_meets (refuse_meets _)
    intro _
    apply bound_meets (take_sound _)
    intro text
    unfold acceptText
    split
    · exact pure_meets _
    · exact throw_meets _
  | .bytes maxBytes, d, bounded => by
    rw [val]
    apply bound_meets (node_meets bounded.1)
    intro _
    apply bound_meets u32_meets
    intro n
    apply bound_meets (refuse_meets _)
    intro _
    apply bound_meets (take_sound _)
    intro bytes
    exact pure_meets _
  | .enum _ variants, d, bounded => by
    rw [val]
    apply bound_meets (node_meets bounded.1)
    intro _
    apply bound_meets u32_meets
    intro n
    apply bound_meets (refuse_meets _)
    intro _
    exact pure_meets _
  | .optional t, d, bounded => by
    rw [val]
    apply bound_meets (node_meets bounded.1)
    intro _
    apply bound_meets byte_meets
    intro tag
    unfold acceptOptional
    split
    · exact pure_meets _
    · split
      · apply bound_meets (val_meets t (d + 1) bounded.2)
        intro x
        exact pure_meets _
      · exact throw_meets _
  | .sequence t maxLen, d, bounded => by
    rw [val]
    apply bound_meets (node_meets bounded.1)
    intro _
    apply bound_meets u32_meets
    intro n
    apply budget_meets
    intro left
    apply bound_meets (refuse_meets _)
    intro _
    apply bound_meets (Meets.times (fun i => placed_meets (indexName i)
      (val_meets t (d + 1) bounded.2.2)) n.toNat 0)
    intro xs
    exact pure_meets _

theorem record_meets : ∀ (s : Schema) (d : ℕ), s.Bounded d →
    Meets Sound (record build s d) (fun _ => Sound) Stopped
  | ⟨_, _, fields⟩, d, bounded => by
    have first := enter_meets bounded.1 (fun r => 4096 < r.nodes ∨ 16 < d)
      "value node limit" fun r fine => Nat.not_lt.mp (not_or.mp fine).1
    have rest := fun _ : Unit => bound_meets (recordFields_meets fields d bounded.2)
      fun xs => pure_meets (Value.record (if build then xs else []))
    have both := bound_meets first rest
    intro r h
    exact both r h

theorem recordFields_meets : ∀ (fields : List Field) (d : ℕ), FieldsBounded fields d →
    Meets Sound (recordFields build fields d) (fun _ => Sound) Stopped
  | [], d, _ => pure_meets []
  | ⟨name, ty⟩ :: fields, d, bounded => by
    rw [recordFields]
    apply bound_meets (placed_meets name (val_meets ty (d + 1) bounded.1))
    intro x
    apply bound_meets (recordFields_meets fields d bounded.2)
    intro xs
    exact pure_meets _
end

/-! ## Building or not -/

mutual
theorem val_alike : ∀ (t : FieldType) (d : ℕ), Alike (val true t d) (val false t d)
  | .record s, d => record_alike s d
  | .int _ _, d | .uint _ _, d | .float _, d | .bool, d | .enum _ _, d => Alike.refl _
  | .string maxBytes, d => by
    rw [val, val]
    apply Alike.bind_same
    intro _
    apply Alike.bind_same
    intro n
    apply Alike.bind_same
    intro _
    apply Alike.bind_same
    intro b
    unfold acceptText
    cases fromUtf8 b with
    | some s => exact Alike.pure _ _
    | none => exact Alike.refl _
  | .bytes maxBytes, d => by
    rw [val, val]
    apply Alike.bind_same
    intro _
    apply Alike.bind_same
    intro n
    apply Alike.bind_same
    intro _
    apply Alike.bind_same
    intro b
    exact Alike.pure _ _
  | .optional t, d => by
    rw [val, val]
    apply Alike.bind_same
    intro _
    apply Alike.bind_same
    intro tag
    unfold acceptOptional
    split
    · exact Alike.refl _
    · split
      · exact Alike.bind (val_alike t (d + 1)) fun _ _ => Alike.pure _ _
      · exact Alike.refl _
  | .sequence t maxLen, d => by
    rw [val, val]
    apply Alike.bind_same
    intro _
    apply Alike.bind_same
    intro n
    apply Alike.bind_same
    intro r
    apply Alike.bind_same
    intro left
    apply Alike.bind_same
    intro _
    apply Alike.bind (Alike.times (fun i => Alike.mapError (val_alike t (d + 1))) n.toNat 0)
    intro xs ys
    exact Alike.pure _ _

theorem record_alike : ∀ (s : Schema) (d : ℕ), Alike (record true s d) (record false s d)
  | ⟨_, _, fields⟩, d => by
    rw [record, record]
    apply Alike.bind_same
    intro _
    apply Alike.bind_same
    intro r
    apply Alike.bind_same
    intro _
    apply Alike.bind (recordFields_alike fields d)
    intro xs ys
    exact Alike.pure _ _

theorem recordFields_alike : ∀ (fields : List Field) (d : ℕ),
    Alike (recordFields true fields d) (recordFields false fields d)
  | [], d => Alike.refl _
  | ⟨name, ty⟩ :: fields, d => by
    rw [recordFields, recordFields]
    apply Alike.bind (Alike.mapError (val_alike ty (d + 1)))
    intro x y
    apply Alike.bind (recordFields_alike fields d)
    intro xs ys
    exact Alike.pure _ _
end

end Reader

namespace W

/-- What holds while a value is written under a validated schema. -/
def Sound (w : W) : Prop := w.out.length ≤ w.max ∧ w.nodes ≤ 4096 ∧ w.deepest ≤ 16

/-- What holds where a write stops with an error: only the node count may be one too high. -/
def Stopped (e : Fault) (w : W) : Prop :=
  e ≠ .panic ∧ w.out.length ≤ w.max ∧ w.nodes ≤ 4097 ∧ w.deepest ≤ 16

theorem Sound.stopped {w : W} (h : w.Sound) (s : String) : Stopped (fail s) w :=
  ⟨Reader.fail_ne_panic s, h.1, Nat.le_succ_of_le h.2.1, h.2.2⟩

theorem refuse_meets {bad : Prop} [Decidable bad] (s : String) :
    Meets Sound (refuse bad (fail s)) (fun _ => Sound) Stopped :=
  Meets.refuse (fun _ _ h => h) fun _ _ h => h.stopped s

theorem throw_meets (s : String) : Meets Sound (throw (fail s) : Write) (fun _ => Sound) Stopped :=
  Meets.throw fun _ h => h.stopped s

theorem bound_meets {x f : Write} (hx : Meets Sound x (fun _ => Sound) Stopped)
    (hf : Meets Sound f (fun _ => Sound) Stopped) :
    Meets Sound (x >>= fun _ => f) (fun _ => Sound) Stopped :=
  Meets.bind _ hx fun _ => hf

theorem placed_meets {x : Write} (field : String) (hx : Meets Sound x (fun _ => Sound) Stopped) :
    Meets Sound (mapError (Fault.atField field) x) (fun _ => Sound) Stopped := by
  apply Meets.mapError
  apply hx.weaken (fun _ h => h) (fun _ _ h => h)
  intro e w h
  exact ⟨Reader.atField_ne_panic field h.1, h.2⟩

theorem add_meets (b : List UInt8) : Meets Sound (add b) (fun _ => Sound) Stopped := by
  unfold add
  apply Meets.get_bind
  intro a
  apply Meets.bind (fun _ w => w.Sound ∧ w.out.length + b.length ≤ w.max)
  · apply Meets.refuse
    · rintro fits w ⟨rfl, sound⟩
      refine ⟨sound, ?_⟩
      unfold tooLarge checkedAdd at fits
      by_cases below : w.out.length + b.length < 2 ^ 64
      · rw [if_pos below] at fits
        simpa using fits
      · rw [if_neg below] at fits
        exact absurd rfl fits
    · rintro _ w ⟨rfl, sound⟩
      exact sound.stopped _
  · intro _
    apply Meets.modify
    rintro w ⟨sound, room⟩
    refine ⟨?_, sound.2⟩
    rw [List.length_append]
    exact room

theorem node_meets {d : ℕ} (shallow : d ≤ 16) : Meets Sound (node d) (fun _ => Sound) Stopped := by
  unfold node
  apply Meets.bind (fun _ w => w.out.length ≤ w.max ∧ w.nodes ≤ 4097 ∧ w.deepest ≤ 16)
  · apply Meets.modify
    rintro w ⟨room, few, reached⟩
    exact ⟨room, Nat.succ_le_succ few, max_le reached shallow⟩
  intro _
  apply Meets.get_bind
  intro a
  apply Meets.refuse
  · rintro fine w ⟨rfl, room, _, reached⟩
    exact ⟨room, Nat.not_lt.mp (not_or.mp fine).1, reached⟩
  · rintro _ w ⟨rfl, room, few, reached⟩
    exact ⟨Reader.fail_ne_panic _, room, few, reached⟩

theorem addSized_meets (b : List UInt8) : Meets Sound (addSized b) (fun _ => Sound) Stopped :=
  bound_meets (add_meets _) (add_meets b)

theorem optional_meets {value : Value → Write} (v : Value)
    (h : ∀ v, Meets Sound (value v) (fun _ => Sound) Stopped) :
    Meets Sound (optional value v) (fun _ => Sound) Stopped := by
  cases v with
  | optional x =>
    cases x with
    | none => exact add_meets [0]
    | some x => exact bound_meets (add_meets [1]) (h x)
  | _ => exact throw_meets _

theorem sequence_meets {item : ℕ → Value → Write} (maxLen : ℕ) (v : Value)
    (h : ∀ i v, Meets Sound (item i v) (fun _ => Sound) Stopped) :
    Meets Sound (sequence maxLen item v) (fun _ => Sound) Stopped := by
  cases v with
  | sequence xs =>
    apply bound_meets (refuse_meets _)
    apply Meets.get_bind
    intro a
    apply Meets.bind (fun _ => Sound)
    · unfold usizeSub
      apply Meets.bind (fun _ => Sound)
      · apply Meets.refuse
        · rintro _ w ⟨rfl, sound⟩
          exact sound
        · rintro bad w ⟨rfl, sound⟩
          exact absurd sound.2.1 (Nat.not_le.mpr bad)
      · intro _
        exact Meets.pure fun _ h => h
    · intro left
      apply bound_meets (refuse_meets _)
      apply bound_meets (add_meets _)
      exact Meets.each (fun i x _ => h i x) 0
  | _ => exact throw_meets _

theorem asRecord_meets {members : List Value → Write} (count : ℕ) (v : Value)
    (h : ∀ vs, Meets Sound (members vs) (fun _ => Sound) Stopped) :
    Meets Sound (asRecord count members v) (fun _ => Sound) Stopped := by
  cases v with
  | record vals => exact bound_meets (refuse_meets _) (h vals)
  | _ => exact throw_meets _

mutual
theorem val_meets : ∀ (t : FieldType) (v : Value) (d : ℕ), t.Bounded d →
    Meets Sound (val t v d) (fun _ => Sound) Stopped
  | .record s, v, d, bounded => record_meets s v d bounded
  | .int min max, v, d, bounded => by
    apply bound_meets (node_meets bounded)
    cases v with
    | int x => exact bound_meets (refuse_meets _) (add_meets _)
    | _ => exact throw_meets _
  | .uint min max, v, d, bounded => by
    apply bound_meets (node_meets bounded)
    cases v with
    | uint x => exact bound_meets (refuse_meets _) (add_meets _)
    | _ => exact throw_meets _
  | .float allowNonFinite, v, d, bounded => by
    apply bound_meets (node_meets bounded)
    cases v with
    | float x => exact bound_meets (refuse_meets _) (add_meets _)
    | _ => exact throw_meets _
  | .bool, v, d, bounded => by
    apply bound_meets (node_meets bounded)
    cases v with
    | bool x => exact add_meets _
    | _ => exact throw_meets _
  | .string maxBytes, v, d, bounded => by
    apply bound_meets (node_meets bounded.1)
    cases v with
    | string x => exact bound_meets (refuse_meets _) (addSized_meets _)
    | _ => exact throw_meets _
  | .bytes maxBytes, v, d, bounded => by
    apply bound_meets (node_meets bounded.1)
    cases v with
    | bytes x => exact bound_meets (refuse_meets _) (addSized_meets _)
    | _ => exact throw_meets _
  | .enum _ variants, v, d, bounded => by
    apply bound_meets (node_meets bounded.1)
    cases v with
    | enum x => exact bound_meets (refuse_meets _) (add_meets _)
    | _ => exact throw_meets _
  | .optional t, v, d, bounded => by
    apply bound_meets (node_meets bounded.1)
    exact optional_meets v fun x => val_meets t x (d + 1) bounded.2
  | .sequence t maxLen, v, d, bounded => by
    apply bound_meets (node_meets bounded.1)
    apply sequence_meets maxLen v
    intro i x
    exact placed_meets (indexName i) (val_meets t x (d + 1) bounded.2.2)

theorem record_meets : ∀ (s : Schema) (v : Value) (d : ℕ), s.Bounded d →
    Meets Sound (record s v d) (fun _ => Sound) Stopped
  | ⟨_, _, fields⟩, v, d, bounded => by
    apply bound_meets (node_meets bounded.1)
    exact asRecord_meets fields.length v fun vals => recordFields_meets fields vals d bounded.2

theorem recordFields_meets : ∀ (fields : List Field) (vals : List Value) (d : ℕ),
    FieldsBounded fields d → Meets Sound (recordFields fields vals d) (fun _ => Sound) Stopped
  | [], _, _, _ => Meets.pure fun _ h => h
  | ⟨_, _⟩ :: _, [], _, _ => Meets.pure fun _ h => h
  | ⟨name, ty⟩ :: fields, x :: vals, d, bounded => by
    rw [recordFields]
    apply bound_meets (placed_meets name (val_meets ty x (d + 1) bounded.1))
    exact recordFields_meets fields vals d bounded.2
end

end W
end Actorplane
