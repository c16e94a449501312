import Actorplane.Model.Framing
import Actorplane.Native.Budgets

/-!
# Frames come back as they were written

However the stream is cut, a buffer is filled with the bytes that come next, or
the stream ends too early. So reading undoes writing, and a stream that is cut
off gives the frames that are complete. Whatever goes wrong, a read leaves the
budgets as it found them once its frame is dropped.
-/

namespace Actorplane

/-! ## Filling a buffer -/

namespace Transport

variable {env : Transport}

/-- A transport that only delivers bytes, until the stream ends. -/
def Quiet (env : Transport) : Prop := ∀ i, env.fault i = none

theorem read_quiet (h : env.Quiet) (r : FrameReader) (room : ℕ) :
    env.read r room = (.ok (r.stream.take (env.count r room)),
      { stream := r.stream.drop (env.count r room), reads := r.reads + 1 }) := by
  simp [read, h r.reads]

variable (env) in
theorem count_le (r : FrameReader) (room : ℕ) :
    env.count r room ≤ room ∧ env.count r room ≤ r.stream.length := by
  unfold count
  omega

variable (env) in
theorem count_pos {r : FrameReader} {room : ℕ} (hroom : room ≠ 0) (hstream : r.stream ≠ []) :
    0 < env.count r room := by
  have := List.length_pos_iff.mpr hstream
  unfold count
  omega

/-- One turn of the loop moves some of the bytes that come next. -/
theorem fill_step (h : env.Quiet) {r : FrameReader} {needed : ℕ} (hneeded : needed ≠ 0)
    (hstream : r.stream ≠ []) (bytes : List UInt8) :
    env.fill r needed bytes =
      env.fill { stream := r.stream.drop (env.count r needed), reads := r.reads + 1 }
        (needed - env.count r needed) (bytes ++ r.stream.take (env.count r needed)) := by
  have hle := count_le env r needed
  have hchunk : r.stream.take (env.count r needed) ≠ [] := by
    have := count_pos env hneeded hstream
    rw [← List.length_pos_iff, List.length_take]
    omega
  rw [fill, dif_neg hneeded, read_quiet h]
  dsimp only
  rw [dif_neg hchunk, List.length_take, min_eq_left hle.2]

theorem fill_end (h : env.Quiet) {r : FrameReader} {needed : ℕ} (hneeded : needed ≠ 0)
    (hstream : r.stream = []) (bytes : List UInt8) :
    env.fill r needed bytes =
      (if bytes = [] then .ok none else .error (.error .truncated),
        { stream := [], reads := r.reads + 1 }) := by
  rw [fill, dif_neg hneeded, read_quiet h]
  simp only [hstream, List.take_nil, List.drop_nil, dite_true]
  split_ifs <;> rfl

/-- A buffer is filled with the bytes that come next. -/
theorem fill_full (h : env.Quiet) (needed : ℕ) (r : FrameReader) (bytes : List UInt8)
    (hle : needed ≤ r.stream.length) : ∃ reads, env.fill r needed bytes =
      (.ok (some (bytes ++ r.stream.take needed)),
        { stream := r.stream.drop needed, reads := reads }) := by
  induction needed using Nat.strong_induction_on generalizing r bytes with
  | _ needed ih =>
    by_cases hneeded : needed = 0
    · subst hneeded
      refine ⟨r.reads, ?_⟩
      rw [fill]
      simp
    have hstream : r.stream ≠ [] := by
      rintro hnil
      simp [hnil] at hle
      exact hneeded hle
    have hcount := count_le env r needed
    have hpos := count_pos env hneeded hstream
    rw [fill_step h hneeded hstream]
    obtain ⟨reads, heq⟩ := ih (needed - env.count r needed) (by omega)
      { stream := r.stream.drop (env.count r needed), reads := r.reads + 1 }
      (bytes ++ r.stream.take (env.count r needed)) (by simp; omega)
    refine ⟨reads, heq.trans ?_⟩
    have hsum : env.count r needed + (needed - env.count r needed) = needed := by omega
    simp only [List.append_assoc, List.drop_drop, hsum]
    rw [← List.take_add, hsum]

/-- A stream that ends before the buffer is full. -/
theorem fill_short (h : env.Quiet) (needed : ℕ) (r : FrameReader) (bytes : List UInt8)
    (hlt : r.stream.length < needed) : ∃ reads, env.fill r needed bytes =
      (if bytes ++ r.stream = [] then .ok none else .error (.error .truncated),
        { stream := [], reads := reads }) := by
  induction needed using Nat.strong_induction_on generalizing r bytes with
  | _ needed ih =>
    have hneeded : needed ≠ 0 := by omega
    by_cases hstream : r.stream = []
    · rw [fill_end h hneeded hstream, hstream, List.append_nil]
      exact ⟨_, rfl⟩
    have hcount := count_le env r needed
    have hpos := count_pos env hneeded hstream
    rw [fill_step h hneeded hstream]
    obtain ⟨reads, heq⟩ := ih (needed - env.count r needed) (by omega)
      { stream := r.stream.drop (env.count r needed), reads := r.reads + 1 }
      (bytes ++ r.stream.take (env.count r needed)) (by simp; omega)
    refine ⟨reads, heq.trans ?_⟩
    simp only [List.append_assoc, List.take_append_drop]

end Transport

/-! ## The permit of a read -/

section

variable {cfg : BudgetLimits} {env : Transport} {budget : BufferBudget}
  {counters counters' : BudgetCounters} {permit : BufferPermit}

/-- The second counters are the first and what the permit charges. -/
def BufferPermit.Charged (permit : BufferPermit) (counters counters' : BudgetCounters) : Prop :=
  ∀ c, ((counters' c).toNat : ℤ) = (counters c).toNat + (ChargeOwner.bufferPermit permit).charge c

theorem counters_ext (h : ∀ c, ((counters c).toNat : ℤ) = (counters' c).toNat) :
    counters = counters' := by
  funext c
  rw [← UInt64.toNat_inj]
  exact_mod_cast h c

/-- Dropping the permit takes its charge back. -/
theorem BufferPermit.Charged.release (cfg : BudgetLimits)
    (h : permit.Charged counters counters') : permit.release counters' = counters := by
  have hkeeps : (permit.drop (BudgetRoutine.ok none)).Keeps cfg
      (0 + (ChargeOwner.bufferPermit permit).charge) :=
    keeps_drop cfg permit le_rfl (keeps_ok charges_none)
  rw [zero_add] at hkeeps
  have hle : ∀ c, (ChargeOwner.bufferPermit permit).charge c ≤ (counters' c).toNat := by
    intro c
    rw [h c]
    omega
  have hnone : (BudgetRoutine.ok none).Ends fun result => result.owner = none := rfl
  have howner := (ends_drop permit hnone).exec counters'
  apply counters_ext
  intro c
  have := hkeeps.exec hle c
  rw [howner] at this
  simp only [charges_none, Pi.zero_apply] at this
  unfold BufferPermit.release
  rw [this, h c]
  omega

theorem BudgetResult.permit_of_failed {result : BudgetResult} (h : result.failure.isSome) :
    result.permit = none := by
  unfold BudgetResult.permit
  cases hfailure : result.failure with
  | none => simp [hfailure] at h
  | some failure => rfl

theorem BudgetResult.permit_of_ok {result : BudgetResult} (h : result.failure = none)
    (howner : result.owner = some (.bufferPermit permit)) : result.permit = some permit := by
  unfold BudgetResult.permit
  rw [h, howner]

/-- A reservation that fails charges nothing, and one that succeeds charges its permit. -/
theorem reserve_exec (cfg : BudgetLimits) (budget : BufferBudget) (bytes : UInt64)
    (counters : BudgetCounters) :
    let out := (budget.reserve cfg bytes).exec counters
    (out.1.permit = none ∧ out.2 = counters) ∨
      ∃ permit, out.1.permit = some permit ∧ permit.Charged counters out.2 := by
  intro out
  have hexec : ∀ c, ((out.2 c).toNat : ℤ) =
      (counters c).toNat + charges out.1.owner c - (0 : BudgetCounter → ℤ) c :=
    (keeps_reserve budget bytes).exec fun c => by simp
  have hpromise : BudgetOp.Promise (.reserve budget bytes) out.1 :=
    (promise_code (.reserve budget bytes)).exec counters
  unfold BudgetOp.Promise at hpromise
  cases hfailure : out.1.failure with
  | some failure =>
    have hfailed : out.1.failure.isSome := by rw [hfailure]; rfl
    rw [if_pos hfailed] at hpromise
    refine Or.inl ⟨BudgetResult.permit_of_failed hfailed, counters_ext fun c => ?_⟩
    rw [hexec c, hpromise]
    simp [BudgetOp.owner]
  | none =>
    rw [if_neg (by simp [hfailure])] at hpromise
    refine Or.inr ⟨_, BudgetResult.permit_of_ok hfailure hpromise, fun c => ?_⟩
    rw [hexec c, hpromise]
    simp

/-- A growth that fails leaves the permit its charge, and one that succeeds charges more. -/
theorem grow_exec (cfg : BudgetLimits) (bytes : UInt64)
    (h : permit.Charged counters counters') :
    let out := (permit.grow cfg bytes).exec counters'
    (out.1.permit = none ∧ permit.Charged counters out.2) ∨
      ∃ grown, out.1.permit = some grown ∧ grown.Charged counters out.2 := by
  intro out
  have hexec : ∀ c, ((out.2 c).toNat : ℤ) = (counters' c).toNat + charges out.1.owner c -
      (ChargeOwner.bufferPermit permit).charge c := by
    apply (keeps_grow permit bytes).exec
    intro c
    rw [h c]
    omega
  have hpromise : BudgetOp.Promise (.grow permit bytes) out.1 :=
    (promise_code (.grow permit bytes)).exec counters'
  unfold BudgetOp.Promise at hpromise
  cases hfailure : out.1.failure with
  | some failure =>
    have hfailed : out.1.failure.isSome := by rw [hfailure]; rfl
    rw [if_pos hfailed] at hpromise
    refine Or.inl ⟨BudgetResult.permit_of_failed hfailed, fun c => ?_⟩
    rw [hexec c, hpromise, h c]
    simp [BudgetOp.owner]
  | none =>
    rw [if_neg (by simp [hfailure])] at hpromise
    obtain ⟨grown, howner, _⟩ := hpromise
    refine Or.inr ⟨grown, BudgetResult.permit_of_ok hfailure howner, fun c => ?_⟩
    rw [hexec c, howner, h c, charges_some]
    omega

/-! ## Nothing stays charged -/

/-- The counters once the frame of a read, if there is one, is dropped. -/
def FrameRead.dropped (read : FrameRead) : BudgetCounters :=
  match read.answer with
  | .ok (some frame) => frame.permit.release read.counters
  | _ => read.counters

theorem readBody_dropped (cfg : BudgetLimits) (env : Transport) (length : ℕ) (r : FrameReader)
    (h : permit.Charged counters counters') :
    (readBody env length permit r counters').dropped = counters := by
  have hrelease := h.release cfg
  unfold readBody
  cases hread : env.readExactFrame r length with
  | mk answer r' =>
    cases answer with
    | error exit => exact hrelease
    | ok bytes =>
      cases bytes with
      | none => exact hrelease
      | some bytes => exact hrelease

theorem allocateBody_dropped (cfg : BudgetLimits) (env : Transport) (length : ℕ)
    (r : FrameReader) (h : permit.Charged counters counters') :
    (allocateBody cfg env length permit r counters').dropped = counters := by
  unfold allocateBody
  cases env.allocate r.reads (UInt64.ofNat length) with
  | none => exact h.release cfg
  | some actual =>
    dsimp only
    split_ifs
    · rcases grow_exec cfg (actual - UInt64.ofNat length) h with
        ⟨hnone, hcharged⟩ | ⟨grown, hsome, hcharged⟩
      · rw [hnone]
        exact hcharged.release cfg
      · rw [hsome]
        exact readBody_dropped cfg env length r hcharged
    · exact readBody_dropped cfg env length r h

/-- However a read ends, and wherever it is cancelled, the counters are back once its frame is
dropped. -/
theorem readFrame_dropped (cfg : BudgetLimits) (env : Transport) (budget : BufferBudget)
    (maxFrameBytes : ℕ) (r : FrameReader) (counters : BudgetCounters) :
    (readFrame cfg env budget maxFrameBytes r counters).dropped = counters := by
  unfold readFrame
  cases env.readExactFrame r 4 with
  | mk answer r' =>
    cases answer with
    | error exit => rfl
    | ok header =>
      cases header with
      | none => rfl
      | some header =>
        dsimp only
        split_ifs
        · rfl
        · rfl
        · rcases reserve_exec cfg budget (UInt64.ofNat (Bytes.value header.reverse)) counters with
            ⟨hnone, hcounters⟩ | ⟨permit, hsome, hcharged⟩
          · rw [hnone]
            exact hcounters
          · rw [hsome]
            exact allocateBody_dropped cfg env _ r' hcharged

end

/-! ## Enough budget -/

/-- Both counters have room for `n` bytes more. -/
def Room (cfg : BudgetLimits) (budget : BufferBudget) (counters : BudgetCounters) (n : ℕ) : Prop :=
  (counters (.used budget.state)).toNat + n ≤ (cfg.buffers budget.state).toNat ∧
    (budget.native → (counters .retained).toNat + n ≤ cfg.nativePayloadBudget.toNat)

theorem Room.mono {cfg : BudgetLimits} {budget : BufferBudget} {counters : BudgetCounters}
    {n m : ℕ} (h : Room cfg budget counters m) (hle : n ≤ m) : Room cfg budget counters n :=
  ⟨by have := h.1; omega, fun hnative => by have := h.2 hnative; omega⟩

/-- The allocator gives a capacity for `n` bytes, and there is room for it. -/
def Enough (cfg : BudgetLimits) (env : Transport) (budget : BufferBudget)
    (counters : BudgetCounters) (n : ℕ) : Prop :=
  ∀ reads, ∃ actual, env.allocate reads (UInt64.ofNat n) = some actual ∧
    Room cfg budget counters (max n actual.toNat)

section

variable {cfg : BudgetLimits} {env : Transport} {budget : BufferBudget}
  {counters counters' : BudgetCounters}

theorem admitChecked_room {limit bytes current : UInt64}
    (h : current.toNat + bytes.toNat ≤ limit.toNat) :
    admitChecked limit bytes current = some (current + bytes) := by
  have hlimit := limit.toNat_lt
  have hlt : current.toNat + bytes.toNat < 2 ^ 64 := by omega
  have hsum : (current + bytes).toNat = current.toNat + bytes.toNat := by
    rw [UInt64.toNat_add, Nat.mod_eq_of_lt hlt]
  have hle : ¬limit < current + bytes := by
    rw [UInt64.lt_iff_toNat_lt]
    omega
  rw [admitChecked, checkedAdd, if_pos hlt, Option.bind_some, if_neg hle]

/-- The permit of a fresh reservation. -/
def freshPermit (budget : BufferBudget) (bytes : UInt64) : BufferPermit where
  budget := budget
  charged := bytes
  native := if budget.native then some bytes else none

theorem reserve_room {bytes : UInt64} (h : Room cfg budget counters bytes.toNat) :
    ((budget.reserve cfg bytes).exec counters).1.permit = some (freshPermit budget bytes) := by
  have hlocal := admitChecked_room h.1
  unfold BufferBudget.reserve BufferBudget.reserveLocal
  simp only [Routine.exec, hlocal]
  by_cases hnative : budget.native
  · have hworld := admitChecked_room (h.2 hnative)
    rw [if_pos hnative]
    unfold nativeReserve reserveBytes
    have hne : BudgetCounter.retained ≠ .used budget.state := by simp
    simp only [Routine.exec, Function.update_of_ne hne, hworld]
    simp [BudgetRoutine.ok, Routine.exec, BudgetResult.permit, freshPermit, hnative]
  · rw [if_neg hnative]
    simp [BudgetRoutine.ok, Routine.exec, BudgetResult.permit, freshPermit, hnative]

theorem checkedAdd_of_lt {a b : UInt64} (h : a.toNat + b.toNat < 2 ^ 64) :
    checkedAdd a b = some (a + b) := if_pos h

theorem permit_of_drop (permit extra : BufferPermit) (v : BudgetCounters) :
    ((extra.drop (BudgetRoutine.ok (some (.bufferPermit permit)))).exec v).1.permit =
      some permit := by
  have hend : (BudgetRoutine.ok (some (.bufferPermit permit))).Ends
      fun result => result.permit = some permit := rfl
  exact (ends_drop extra hend).exec v

theorem grow_room {bytes actual : UInt64} (hlt : bytes < actual)
    (hroom : Room cfg budget counters actual.toNat)
    (hcharged : (freshPermit budget bytes).Charged counters counters') :
    ∃ grown, (((freshPermit budget bytes).grow cfg (actual - bytes)).exec counters').1.permit =
      some grown := by
  have hlt' := UInt64.lt_iff_toNat_lt.mp hlt
  have hsub : (actual - bytes).toNat = actual.toNat - bytes.toNat :=
    UInt64.toNat_sub_of_le _ _ (UInt64.le_iff_toNat_le.mpr hlt'.le)
  have hactual := actual.toNat_lt
  have hzero : actual - bytes ≠ 0 := by
    intro h
    rw [h] at hsub
    simp at hsub
    omega
  have hsum : bytes.toNat + (actual - bytes).toNat < 2 ^ 64 := by omega
  have hused := hcharged (.used budget.state)
  simp only [charge_bufferPermit, freshPermit, Pi.add_apply, Pi.single_eq_same] at hused
  have hlocal : admitChecked (cfg.buffers budget.state) (actual - bytes)
      (counters' (.used budget.state)) =
        some (counters' (.used budget.state) + (actual - bytes)) := by
    apply admitChecked_room
    have := hroom.1
    have hnative : charges ((if budget.native then some bytes else none).map
        ChargeOwner.nativePermit) (.used budget.state) = 0 := by
      split_ifs <;> simp
    omega
  unfold BufferPermit.grow BufferBudget.reserveLocal
  rw [if_neg hzero]
  by_cases hnative : budget.native
  · have hworld : admitChecked cfg.nativePayloadBudget (actual - bytes) (counters' .retained) =
        some (counters' .retained + (actual - bytes)) := by
      apply admitChecked_room
      have hretained := hcharged .retained
      simp only [charge_bufferPermit, freshPermit, if_pos hnative, Option.map_some, charges_some,
        charge_nativePermit, Pi.add_apply, Pi.single_eq_same,
        Pi.single_eq_of_ne (show BudgetCounter.retained ≠ .used budget.state by simp)] at hretained
      have := hroom.2 hnative
      omega
    simp only [freshPermit, if_pos hnative, checkedAdd_of_lt hsum, Routine.exec, hlocal, tryGrow,
      if_neg hzero, reserveBytes,
      Function.update_of_ne (show BudgetCounter.retained ≠ .used budget.state by simp), hworld]
    exact ⟨_, permit_of_drop _ _ _⟩
  · simp only [freshPermit, if_neg hnative, checkedAdd_of_lt hsum, Routine.exec, hlocal]
    exact ⟨_, permit_of_drop _ _ _⟩

end

/-! ## One frame -/

section

variable {cfg : BudgetLimits} {env : Transport} {budget : BufferBudget}
  {counters : BudgetCounters} {maxFrameBytes : ℕ}

/-- The bytes of a frame. -/
def frameOf (payload : List UInt8) : List UInt8 :=
  (Bytes.little 4 payload.length).reverse ++ payload

@[simp] theorem frameOf_length (payload : List UInt8) :
    (frameOf payload).length = 4 + payload.length := by
  simp [frameOf]

/-- The body of a frame was read into a buffer, or it is cut off. -/
def BodyRead (length : ℕ) (stream : List UInt8) (read : FrameRead) : Prop :=
  (length ≤ stream.length → ∃ permit counters reads, read =
    ⟨.ok (some { bytes := stream.take length, permit := permit }),
      { stream := stream.drop length, reads := reads }, counters⟩) ∧
  (stream.length < length → read.answer = .error (.error .truncated))

theorem readBody_quiet (hquiet : env.Quiet) (length : ℕ) (permit : BufferPermit) (r : FrameReader)
    (counters : BudgetCounters) :
    BodyRead length r.stream (readBody env length permit r counters) := by
  unfold readBody Transport.readExactFrame
  constructor
  · intro hle
    obtain ⟨reads, heq⟩ := Transport.fill_full hquiet length r [] hle
    rw [heq]
    exact ⟨permit, counters, reads, rfl⟩
  · intro hlt
    obtain ⟨reads, heq⟩ := Transport.fill_short hquiet length r [] hlt
    rw [heq]
    by_cases hnil : [] ++ r.stream = []
    · rw [if_pos hnil]
    · rw [if_neg hnil]

/-- With enough budget, the body is reached. -/
theorem allocateBody_quiet (hquiet : env.Quiet) {length : ℕ} (hlength : length < 2 ^ 64)
    (henough : Enough cfg env budget counters length) (r : FrameReader)
    {counters' : BudgetCounters}
    (hcharged : (freshPermit budget (UInt64.ofNat length)).Charged counters counters') :
    BodyRead length r.stream
      (allocateBody cfg env length (freshPermit budget (UInt64.ofNat length)) r counters') := by
  obtain ⟨actual, hallocate, hroom⟩ := henough r.reads
  unfold allocateBody
  rw [hallocate]
  dsimp only
  by_cases hlt : UInt64.ofNat length < actual
  · have hlt' := UInt64.lt_iff_toNat_lt.mp hlt
    rw [UInt64.toNat_ofNat_of_lt' hlength] at hlt'
    rw [max_eq_right hlt'.le] at hroom
    obtain ⟨grown, hgrown⟩ := grow_room hlt hroom hcharged
    rw [if_pos hlt, hgrown]
    exact readBody_quiet hquiet length grown r _
  · rw [if_neg hlt]
    exact readBody_quiet hquiet length _ r _

/-- A header of a length that is allowed is followed by its body. -/
theorem readFrame_header (hquiet : env.Quiet) {header rest : List UInt8} {reads : ℕ}
    (hheader : header.length = 4) (hmax : Bytes.value header.reverse ≤ maxFrameBytes)
    (henough : Enough cfg env budget counters (Bytes.value header.reverse)) :
    BodyRead (Bytes.value header.reverse) rest
      (readFrame cfg env budget maxFrameBytes { stream := header ++ rest, reads := reads }
        counters) := by
  have hlt : Bytes.value header.reverse < 256 ^ 4 := by
    have := Bytes.value_lt header.reverse
    rwa [List.length_reverse, hheader] at this
  have hlength : Bytes.value header.reverse < 2 ^ 64 := by omega
  obtain ⟨reads', heq⟩ := Transport.fill_full hquiet 4
    { stream := header ++ rest, reads := reads } [] (by simp [hheader])
  unfold readFrame Transport.readExactFrame
  rw [heq]
  have htake : [] ++ (header ++ rest).take 4 = header := by
    rw [List.nil_append, ← hheader, List.take_left]
  have hdrop : (header ++ rest).drop 4 = rest := by
    rw [← hheader, List.drop_left]
  rw [htake, hdrop]
  dsimp only
  obtain ⟨actual, _, hroom⟩ := henough 0
  have hbytes : Room cfg budget counters (UInt64.ofNat (Bytes.value header.reverse)).toNat := by
    rw [UInt64.toNat_ofNat_of_lt' hlength]
    exact hroom.mono (le_max_left _ _)
  have hreserve := reserve_room hbytes
  rw [if_neg (not_lt.mpr hmax), if_neg (by unfold isizeMax; omega), hreserve]
  rcases reserve_exec cfg budget (UInt64.ofNat (Bytes.value header.reverse)) counters with
    ⟨hnone, _⟩ | ⟨permit, hsome, hcharged⟩
  · rw [hreserve] at hnone
    cases hnone
  · rw [hreserve] at hsome
    obtain rfl := Option.some.inj hsome
    exact allocateBody_quiet hquiet hlength henough { stream := rest, reads := reads' } hcharged

/-- A header above the limit is refused before anything is charged. -/
theorem readFrame_tooLarge (hquiet : env.Quiet) {header rest : List UInt8} {reads : ℕ}
    (hheader : header.length = 4) (hmax : maxFrameBytes < Bytes.value header.reverse) :
    ∃ reads', readFrame cfg env budget maxFrameBytes { stream := header ++ rest, reads := reads }
      counters = ⟨.error (.error .tooLarge), { stream := rest, reads := reads' }, counters⟩ := by
  obtain ⟨reads', heq⟩ := Transport.fill_full hquiet 4
    { stream := header ++ rest, reads := reads } [] (by simp [hheader])
  unfold readFrame Transport.readExactFrame
  rw [heq]
  have htake : [] ++ (header ++ rest).take 4 = header := by
    rw [List.nil_append, ← hheader, List.take_left]
  have hdrop : (header ++ rest).drop 4 = rest := by
    rw [← hheader, List.drop_left]
  rw [htake, hdrop]
  dsimp only
  rw [if_pos hmax]
  exact ⟨reads', rfl⟩

/-- A stream that ends within a header. -/
theorem readFrame_short (hquiet : env.Quiet) {stream : List UInt8} {reads : ℕ}
    (hlt : stream.length < 4) :
    (readFrame cfg env budget maxFrameBytes { stream := stream, reads := reads } counters).answer =
      if stream = [] then .ok none else .error (.error .truncated) := by
  obtain ⟨reads', heq⟩ := Transport.fill_short hquiet 4
    { stream := stream, reads := reads } [] hlt
  unfold readFrame Transport.readExactFrame
  rw [heq, List.nil_append]
  by_cases hnil : stream = []
  · rw [if_pos hnil, if_pos hnil]
  · rw [if_neg hnil, if_neg hnil]

/-! ## A stream of frames -/

/-- The number of bytes the frames of some payloads take. -/
def framesLength (payloads : List (List UInt8)) : ℕ := (payloads.map fun p => 4 + p.length).sum

@[simp] theorem framesLength_cons (payload : List UInt8) (payloads : List (List UInt8)) :
    framesLength (payload :: payloads) = 4 + payload.length + framesLength payloads := rfl

theorem framesLength_take_le (payloads : List (List UInt8)) (j : ℕ) :
    framesLength (payloads.take j) ≤ framesLength payloads := by
  conv_rhs => rw [← List.take_append_drop j payloads]
  unfold framesLength
  rw [List.map_append, List.sum_append]
  exact Nat.le_add_right _ _

theorem flatten_length (payloads : List (List UInt8)) :
    (payloads.map frameOf).flatten.length = framesLength payloads := by
  induction payloads with
  | nil => rfl
  | cons payload payloads ih => simp [ih]

section

variable {states : ℕ → BudgetCounters} {calls : ℕ} {r : FrameReader}

theorem readFrames_ended (h : (readFrame cfg env budget maxFrameBytes r (states calls)).answer =
    .ok none) : readFrames cfg env budget maxFrameBytes states (calls + 1) r =
      ([], some (.ok ())) := by
  simp only [readFrames, h]

theorem readFrames_failed {exit : FrameExit}
    (h : (readFrame cfg env budget maxFrameBytes r (states calls)).answer = .error exit) :
    readFrames cfg env budget maxFrameBytes states (calls + 1) r =
      ([], some (.error exit)) := by
  simp only [readFrames, h]

theorem readFrames_frame {frame : FrameBuffer} {r' : FrameReader} {counters : BudgetCounters}
    (h : readFrame cfg env budget maxFrameBytes r (states calls) =
      ⟨.ok (some frame), r', counters⟩) :
    readFrames cfg env budget maxFrameBytes states (calls + 1) r =
      (frame.bytes :: (readFrames cfg env budget maxFrameBytes states calls r').1,
        (readFrames cfg env budget maxFrameBytes states calls r').2) := by
  simp only [readFrames, h]

/-- A stream that ends within a header gives no frame. -/
theorem readFrames_within (hquiet : env.Quiet) {stream : List UInt8} (hlt : stream.length < 4)
    (reads : ℕ) :
    readFrames cfg env budget maxFrameBytes states (calls + 1)
      { stream := stream, reads := reads } =
        ([], some (if stream.length = 0 then .ok () else .error (.error .truncated))) := by
  have hread : (readFrame cfg env budget maxFrameBytes { stream := stream, reads := reads }
      (states calls)).answer = if stream = [] then .ok none else .error (.error .truncated) :=
    readFrame_short hquiet hlt
  by_cases hnil : stream = []
  · rw [if_pos hnil] at hread
    rw [if_pos (List.length_eq_zero_iff.mpr hnil)]
    exact readFrames_ended hread
  · rw [if_neg hnil] at hread
    rw [if_neg (fun hzero => hnil (List.length_eq_zero_iff.mp hzero))]
    exact readFrames_failed hread

/-- Reading a stream of frames that is cut after `m` bytes. -/
theorem readFrames_cut (hquiet : env.Quiet) {payloads : List (List UInt8)}
    (hpayloads : ∀ p ∈ payloads, p.length ≤ maxFrameBytes ∧ p.length ≤ u32Max)
    (henough : ∀ i, ∀ p ∈ payloads, Enough cfg env budget (states i) p.length) {m : ℕ}
    (hm : m ≤ framesLength payloads) (reads : ℕ) (hcalls : payloads.length < calls) :
    ∃ j ≤ payloads.length, framesLength (payloads.take j) ≤ m ∧
      (j < payloads.length → m < framesLength (payloads.take (j + 1))) ∧
      readFrames cfg env budget maxFrameBytes states calls
        { stream := (payloads.map frameOf).flatten.take m, reads := reads } =
          (payloads.take j, some (if m = framesLength (payloads.take j) then .ok ()
            else .error (.error .truncated))) := by
  induction payloads generalizing m reads calls with
  | nil =>
    obtain rfl : m = 0 := by simpa [framesLength] using hm
    obtain ⟨calls, rfl⟩ := Nat.exists_eq_succ_of_ne_zero (Nat.ne_of_gt hcalls)
    refine ⟨0, le_rfl, le_rfl, fun h => absurd h (lt_irrefl 0), ?_⟩
    apply readFrames_ended
    exact readFrame_short hquiet (by simp)
  | cons payload payloads ih =>
    obtain ⟨calls, rfl⟩ := Nat.exists_eq_succ_of_ne_zero (Nat.ne_of_gt (Nat.zero_lt_of_lt hcalls))
    obtain ⟨hmax, hu32⟩ := hpayloads payload List.mem_cons_self
    have hvalue : Bytes.value (Bytes.little 4 payload.length).reverse.reverse = payload.length := by
      rw [List.reverse_reverse]
      exact Bytes.value_little (by unfold u32Max at hu32; omega)
    rw [framesLength_cons] at hm
    by_cases hshort : m < 4
    · -- The stream ends within the header.
      refine ⟨0, Nat.zero_le _, Nat.zero_le _, fun _ => by simp [framesLength]; omega, ?_⟩
      have hlength : ((List.map frameOf (payload :: payloads)).flatten.take m).length = m := by
        rw [List.length_take, flatten_length, framesLength_cons]
        omega
      have hwithin : readFrames cfg env budget maxFrameBytes states (calls + 1) _ = _ :=
        readFrames_within hquiet (hlength.trans_lt hshort) reads
      rw [hlength] at hwithin
      exact hwithin
    · have hstream : (List.map frameOf (payload :: payloads)).flatten.take m =
          (Bytes.little 4 payload.length).reverse ++
            (payload ++ (payloads.map frameOf).flatten).take (m - 4) := by
        rw [List.map_cons, List.flatten_cons, frameOf, List.append_assoc, List.take_append,
          List.length_reverse, Bytes.little_length, List.take_of_length_le (by simp; omega)]
      have hread : BodyRead _ _ (readFrame cfg env budget maxFrameBytes
          { stream := (Bytes.little 4 payload.length).reverse ++
              (payload ++ (payloads.map frameOf).flatten).take (m - 4), reads := reads }
          (states calls)) :=
        readFrame_header hquiet (by simp) (by rw [hvalue]; exact hmax)
          (by rw [hvalue]; exact henough calls payload List.mem_cons_self)
      obtain ⟨hfull, hcut⟩ := hread
      rw [hvalue, ← hstream] at hfull hcut
      rw [List.length_take, List.length_append, flatten_length] at hfull hcut
      by_cases hbody : payload.length ≤ m - 4
      · -- The first frame is complete.
        obtain ⟨permit, counters, reads', heq⟩ := hfull (by omega)
        have hpayload : ((payload ++ (payloads.map frameOf).flatten).take (m - 4)).take
            payload.length = payload := by
          rw [List.take_take, min_eq_left hbody, List.take_left]
        have hrest : ((payload ++ (payloads.map frameOf).flatten).take (m - 4)).drop
            payload.length = (payloads.map frameOf).flatten.take (m - 4 - payload.length) := by
          rw [List.drop_take, List.drop_left]
        rw [hpayload, hrest] at heq
        obtain ⟨j, hj, hle, hlt, hrun⟩ := ih
          (fun p hp => hpayloads p (List.mem_cons_of_mem _ hp))
          (fun i p hp => henough i p (List.mem_cons_of_mem _ hp))
          (m := m - 4 - payload.length) (by omega) reads' (by simpa using hcalls)
        refine ⟨j + 1, by simpa using hj, ?_, ?_, ?_⟩
        · rw [List.take_succ_cons, framesLength_cons]
          omega
        · intro hj'
          rw [List.take_succ_cons, framesLength_cons]
          have := hlt (by simpa using hj')
          omega
        · rw [readFrames_frame heq, hrun, List.take_succ_cons, framesLength_cons]
          have hiff : m - 4 - payload.length = framesLength (payloads.take j) ↔
              m = 4 + payload.length + framesLength (payloads.take j) := by omega
          simp only [hiff]
      · -- The stream ends within the body.
        refine ⟨0, Nat.zero_le _, Nat.zero_le _, fun _ => by simp [framesLength]; omega, ?_⟩
        change readFrames cfg env budget maxFrameBytes states (calls + 1) _ =
          ([], some (if m = 0 then .ok () else .error (.error .truncated)))
        rw [if_neg (by omega)]
        exact readFrames_failed (hcut (by omega))

end

end

/-! ## The round trip -/

theorem writeFrame_ok_iff {payload bytes : List UInt8} {maxFrameBytes : ℕ} :
    writeFrame payload maxFrameBytes = .ok bytes ↔
      (payload.length ≤ maxFrameBytes ∧ payload.length ≤ u32Max) ∧ bytes = frameOf payload := by
  unfold writeFrame
  split_ifs with h
  · simp only [false_iff]
    omega
  · simp only [Except.ok.injEq, frameOf, eq_comm (a := bytes)]
    constructor
    · intro heq
      exact ⟨by omega, heq⟩
    · exact And.right

theorem mapM_writeFrame {payloads frames : List (List UInt8)} {maxFrameBytes : ℕ} :
    payloads.mapM (writeFrame · maxFrameBytes) = .ok frames ↔
      (∀ p ∈ payloads, p.length ≤ maxFrameBytes ∧ p.length ≤ u32Max) ∧
        frames = payloads.map frameOf := by
  induction payloads generalizing frames with
  | nil => simp [pure, Except.pure, eq_comm]
  | cons payload payloads ih =>
    rw [List.mapM_cons, List.forall_mem_cons]
    cases hwrite : writeFrame payload maxFrameBytes with
    | error e =>
      have hbounds : ¬(payload.length ≤ maxFrameBytes ∧ payload.length ≤ u32Max) := by
        intro hbounds
        have := writeFrame_ok_iff.mpr ⟨hbounds, rfl⟩
        rw [hwrite] at this
        cases this
      constructor
      · intro h
        cases h
      · rintro ⟨⟨h, _⟩, _⟩
        exact absurd h hbounds
    | ok bytes =>
      obtain ⟨hbounds, rfl⟩ := writeFrame_ok_iff.mp hwrite
      cases hrest : payloads.mapM (writeFrame · maxFrameBytes) with
      | error e =>
        have hnone : ¬∀ p ∈ payloads, p.length ≤ maxFrameBytes ∧ p.length ≤ u32Max := by
          intro hall
          have := ih.mpr ⟨hall, rfl⟩
          rw [hrest] at this
          cases this
        simp only [bind, Except.bind]
        constructor
        · intro h
          cases h
        · rintro ⟨⟨_, hall⟩, _⟩
          exact absurd hall hnone
      | ok rest =>
        obtain ⟨hall, rfl⟩ := ih.mp hrest
        simp only [bind, Except.bind, pure, Except.pure, Except.ok.injEq]
        exact ⟨fun h => ⟨⟨hbounds, hall⟩, h.symm⟩, fun h => h.2.symm⟩

theorem writeFrames_ok_iff {payloads : List (List UInt8)} {stream : List UInt8}
    {maxFrameBytes : ℕ} : writeFrames payloads maxFrameBytes = .ok stream ↔
      (∀ p ∈ payloads, p.length ≤ maxFrameBytes ∧ p.length ≤ u32Max) ∧
        stream = (payloads.map frameOf).flatten := by
  unfold writeFrames
  cases hframes : payloads.mapM (writeFrame · maxFrameBytes) with
  | error e =>
    simp only [bind, Except.bind]
    constructor
    · intro h
      cases h
    · rintro ⟨hall, _⟩
      have := mapM_writeFrame.mpr ⟨hall, rfl⟩
      rw [hframes] at this
      cases this
  | ok frames =>
    obtain ⟨hall, rfl⟩ := mapM_writeFrame.mp hframes
    simp only [bind, Except.bind, pure, Except.pure, Except.ok.injEq]
    exact ⟨fun h => ⟨hall, h.symm⟩, fun h => h.2.symm⟩

/-- Payloads that are written come back as they were, and then the stream ends; of a stream that
is cut off the complete frames come back, and it is truncated unless it is cut between frames. A
header above the limit is refused with no charge, whatever the budget. And however a read ends
(whatever is read, allocated, refused or cancelled), dropping its frame leaves every counter as
it was. -/
theorem framing_round_trip (cfg : BudgetLimits) (budget : BufferBudget) (maxFrameBytes : ℕ) :
    (∀ payloads, (∃ stream, writeFrames payloads maxFrameBytes = .ok stream) ↔
      ∀ p ∈ payloads, p.length ≤ maxFrameBytes ∧ p.length ≤ u32Max) ∧
    (∀ (env : Transport) (states : ℕ → BudgetCounters) payloads stream, env.Quiet →
      writeFrames payloads maxFrameBytes = .ok stream →
      (∀ i, ∀ p ∈ payloads, Enough cfg env budget (states i) p.length) →
      ∀ reads calls, payloads.length < calls →
        readFrames cfg env budget maxFrameBytes states calls
          { stream := stream, reads := reads } = (payloads, some (.ok ())) ∧
        ∀ m ≤ stream.length, ∃ j ≤ payloads.length, framesLength (payloads.take j) ≤ m ∧
          (j < payloads.length → m < framesLength (payloads.take (j + 1))) ∧
          readFrames cfg env budget maxFrameBytes states calls
            { stream := stream.take m, reads := reads } =
              (payloads.take j, some (if m = framesLength (payloads.take j) then .ok ()
                else .error (.error .truncated)))) ∧
    (∀ (env : Transport) (counters : BudgetCounters) header rest reads, env.Quiet →
      header.length = 4 → maxFrameBytes < Bytes.value header.reverse →
      ∃ reads', readFrame cfg env budget maxFrameBytes
        { stream := header ++ rest, reads := reads } counters =
          ⟨.error (.error .tooLarge), { stream := rest, reads := reads' }, counters⟩) ∧
    ∀ (env : Transport) (r : FrameReader) (counters : BudgetCounters),
      (readFrame cfg env budget maxFrameBytes r counters).dropped = counters := by
  refine ⟨?_, ?_, ?_, fun env => readFrame_dropped cfg env budget maxFrameBytes⟩
  · intro payloads
    simp only [writeFrames_ok_iff, exists_and_left, exists_eq, and_true]
  · intro env states payloads stream hquiet hwritten henough reads calls hcalls
    obtain ⟨hall, rfl⟩ := writeFrames_ok_iff.mp hwritten
    have hcut := fun m (hm : m ≤ framesLength payloads) =>
      readFrames_cut hquiet hall henough hm reads hcalls
    refine ⟨?_, ?_⟩
    · -- Uncut, the stream ends after the last frame.
      obtain ⟨j, hj, hle, hlt, hrun⟩ := hcut _ le_rfl
      have hj' : j = payloads.length := by
        by_contra hne
        have hlt := hlt (by omega)
        have htake : framesLength (payloads.take (j + 1)) ≤ framesLength payloads :=
          framesLength_take_le _ _
        omega
      subst hj'
      rw [List.take_length, List.take_of_length_le (flatten_length payloads).le] at hrun
      rwa [if_pos rfl] at hrun
    · intro m hm
      exact hcut m (by rwa [flatten_length] at hm)
  · intro env counters header rest reads hquiet hheader hmax
    exact readFrame_tooLarge hquiet hheader hmax

end Actorplane
