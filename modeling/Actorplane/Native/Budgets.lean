import Actorplane.Model.Buffers

/-!
# Retained bytes are accounted for

The code of every operation on the budgets settles: it ends with an owner of
exactly what it charged. So whatever the threads do, each counter is what its
owners and the running operations hold.
-/

namespace Actorplane

variable {cfg : BudgetLimits}

/-! ## The tests of the loops -/

theorem checkedAdd_some {a b sum : UInt64} (h : checkedAdd a b = some sum) :
    sum.toNat = a.toNat + b.toNat := by
  unfold checkedAdd at h
  split_ifs at h with hlt
  rw [← Option.some.inj h, UInt64.toNat_add, Nat.mod_eq_of_lt hlt]

theorem admits_checked (limit bytes : UInt64) :
    Routine.Admits limit (admitChecked limit bytes) bytes.toNat := by
  intro seen sum h
  obtain ⟨next, hnext, h⟩ := Option.bind_eq_some_iff.mp h
  split_ifs at h with hlt
  obtain rfl := Option.some.inj h
  exact ⟨checkedAdd_some hnext, fun _ => UInt64.not_lt.mp hlt⟩

/-- The saturating test never lets the sum wrap. -/
theorem admits_stored (n : UInt64) :
    Routine.Admits cfg.nativePayloadBudget (admitStored cfg n) n.toNat := by
  intro seen sum h
  unfold admitStored at h
  split_ifs at h with hlt
  obtain rfl := Option.some.inj h
  have hbound := cfg.nativePayloadBudget.toNat_lt
  have hold := seen.toNat_lt
  have hsum : (seen + n).toNat = seen.toNat + n.toNat := by
    rw [UInt64.toNat_add, Nat.mod_eq_of_lt (by omega)]
  refine ⟨hsum, ?_⟩
  intro hle
  rw [UInt64.le_iff_toNat_le] at hle ⊢
  omega

/-! ## What the code settles with -/

/-- What an owner that may be missing charges. -/
def charges (owner : Option ChargeOwner) : BudgetCounter → ℤ :=
  (owner.map ChargeOwner.charge).getD 0

@[simp] theorem charges_none : charges none = 0 := rfl

@[simp] theorem charges_some (owner : ChargeOwner) : charges (some owner) = owner.charge := rfl

variable (cfg) in
theorem weights_toList (owner : Option ChargeOwner) :
    (budgets cfg).weights owner.toList = charges owner := by
  cases owner <;> simp [Discipline.weights, charges, budgets]

variable (cfg) in
/-- From what is held, the code ends with an owner that charges as much. -/
def BudgetRoutine.Keeps (r : BudgetRoutine) (held : BudgetCounter → ℤ) : Prop :=
  r.Settles cfg.limit (fun result => charges result.owner) held

open BudgetRoutine

theorem keeps_ok {owner : Option ChargeOwner} {held : BudgetCounter → ℤ}
    (h : charges owner = held) : (BudgetRoutine.ok owner).Keeps cfg held := h

theorem keeps_fail {failure : BudgetFailure} {owner : Option ChargeOwner}
    {held : BudgetCounter → ℤ} (h : charges owner = held) :
    (BudgetRoutine.fail failure owner).Keeps cfg held := h

@[simp] theorem charge_stored (bytes : UInt64) :
    (ChargeOwner.stored bytes).charge = Pi.single .retained (bytes.toNat : ℤ) := by
  funext c
  cases c <;> simp [ChargeOwner.charge]

@[simp] theorem charge_nativePermit (bytes : UInt64) :
    (ChargeOwner.nativePermit bytes).charge = Pi.single .retained (bytes.toNat : ℤ) := by
  funext c
  cases c <;> simp [ChargeOwner.charge]

theorem charge_bufferPermit (permit : BufferPermit) :
    (ChargeOwner.bufferPermit permit).charge =
      Pi.single (.used permit.budget.state) (permit.charged.toNat : ℤ) +
        charges (permit.native.map .nativePermit) := by
  funext c
  cases hnative : permit.native <;> cases c with
  | retained => simp [ChargeOwner.charge, hnative]
  | used budget =>
    by_cases h : budget = permit.budget.state <;> simp [ChargeOwner.charge, h]

section

variable {held : BudgetCounter → ℤ}

theorem keeps_worldReserve {n : UInt64} {next : Bool → BudgetRoutine}
    (htrue : (next true).Keeps cfg (held + Pi.single .retained (n.toNat : ℤ)))
    (hfalse : (next false).Keeps cfg held) : (worldReserve cfg n next).Keeps cfg held :=
  ⟨n.toNat, admits_stored n, htrue, hfalse⟩

theorem keeps_reserveBytes {bytes : UInt64} {next : Bool → BudgetRoutine}
    (htrue : (next true).Keeps cfg (held + Pi.single .retained (bytes.toNat : ℤ)))
    (hfalse : (next false).Keeps cfg held) : (reserveBytes cfg bytes next).Keeps cfg held :=
  ⟨bytes.toNat, admits_checked _ bytes, htrue, hfalse⟩

theorem keeps_nativeReserve {bytes : UInt64} {next : Option UInt64 → BudgetRoutine}
    (hsome : (next (some bytes)).Keeps cfg (held + Pi.single .retained (bytes.toNat : ℤ)))
    (hnone : (next none).Keeps cfg held) : (nativeReserve cfg bytes next).Keeps cfg held :=
  keeps_reserveBytes hsome hnone

/-- A permit grows by what it reserves. -/
theorem keeps_tryGrow {bytes additional : UInt64} {next : Option UInt64 → BudgetRoutine}
    (hsome : ∀ total : UInt64, total.toNat = bytes.toNat + additional.toNat →
      (next (some total)).Keeps cfg (held + Pi.single .retained (additional.toNat : ℤ)))
    (hnone : (next none).Keeps cfg held) : (tryGrow cfg bytes additional next).Keeps cfg held := by
  unfold tryGrow
  split_ifs with hzero
  · subst hzero
    simpa using hsome bytes (by simp)
  cases htotal : checkedAdd bytes additional with
  | none => exact hnone
  | some total => exact keeps_reserveBytes (hsome total (checkedAdd_some htotal)) hnone

theorem keeps_reserveLocal {budget : BufferBudget} {bytes : UInt64}
    {next : Option BufferPermit → BudgetRoutine}
    (hsome : (next (some { budget := budget, charged := bytes, native := none })).Keeps cfg
      (held + Pi.single (.used budget.state) (bytes.toNat : ℤ)))
    (hnone : (next none).Keeps cfg held) : (budget.reserveLocal cfg bytes next).Keeps cfg held :=
  ⟨bytes.toNat, admits_checked _ bytes, hsome, hnone⟩

variable (cfg) in
theorem keeps_release (c : BudgetCounter) (bytes : UInt64) {next : BudgetRoutine}
    (hheld : 0 ≤ held) (h : next.Keeps cfg held) :
    BudgetRoutine.Keeps cfg (.release c bytes next) (held + Pi.single c (bytes.toNat : ℤ)) := by
  refine ⟨?_, by rw [add_sub_cancel_right]; exact h⟩
  have := hheld c
  simp only [Pi.zero_apply, Pi.add_apply, Pi.single_eq_same] at this ⊢
  omega

variable (cfg) in
/-- The drop of a permit releases what the permit charges. -/
theorem keeps_drop (permit : BufferPermit) {next : BudgetRoutine} (hheld : 0 ≤ held)
    (h : next.Keeps cfg held) :
    (permit.drop next).Keeps cfg (held + (ChargeOwner.bufferPermit permit).charge) := by
  unfold BufferPermit.drop
  rw [charge_bufferPermit, add_comm (Pi.single _ _), ← add_assoc]
  cases hnative : permit.native with
  | none => simpa using keeps_release cfg _ _ hheld h
  | some bytes =>
    rw [Option.map_some, charges_some, charge_nativePermit]
    have hnative : 0 ≤ held + Pi.single .retained (bytes.toNat : ℤ) :=
      add_nonneg hheld (Pi.single_nonneg.mpr (by omega))
    exact keeps_release cfg _ _ hnative (keeps_release cfg _ _ hheld h)

end

/-! ## Every operation settles -/

theorem charges_nonneg (owner : Option ChargeOwner) : 0 ≤ charges owner := by
  cases owner with
  | none => exact le_rfl
  | some owner =>
    intro c
    cases owner with
    | stored bytes => cases c <;> simp [ChargeOwner.charge]
    | nativePermit bytes => cases c <;> simp [ChargeOwner.charge]
    | bufferPermit permit =>
      cases c with
      | retained => cases hnative : permit.native <;> simp [ChargeOwner.charge, hnative]
      | used budget =>
        by_cases h : budget = permit.budget.state <;> simp [ChargeOwner.charge, h]

theorem keeps_makeStored (payload options : UInt64) :
    (makeStored cfg payload options).Keeps cfg 0 := by
  unfold makeStored
  cases checkedAdd payload options with
  | none => exact keeps_fail rfl
  | some n =>
    dsimp only
    split_ifs
    · exact keeps_fail rfl
    · exact keeps_worldReserve (keeps_ok (by simp)) (keeps_fail rfl)

/-- A permit without a native one charges only its local budget. -/
theorem charge_extra (budget : BufferBudget) (bytes : UInt64) :
    (ChargeOwner.bufferPermit { budget := budget, charged := bytes, native := none }).charge =
      Pi.single (.used budget.state) (bytes.toNat : ℤ) := by
  simp [charge_bufferPermit]

theorem keeps_reserve (budget : BufferBudget) (bytes : UInt64) :
    (budget.reserve cfg bytes).Keeps cfg 0 := by
  apply keeps_reserveLocal
  · dsimp only
    split_ifs
    · apply keeps_nativeReserve
      · exact keeps_ok (by simp [charge_bufferPermit])
      · -- The World refused: the local charge is dropped with its permit.
        rw [← charge_extra]
        exact keeps_drop cfg _ le_rfl (keeps_fail charges_none)
    · exact keeps_ok (by simp [charge_bufferPermit])
  · exact keeps_fail rfl

/-- An empty temporary permit releases nothing. -/
theorem keeps_empty (budget : BufferBudget) (owner : ChargeOwner) :
    (({ budget := budget, charged := 0, native := none } : BufferPermit).drop
      (BudgetRoutine.ok (some owner))).Keeps cfg owner.charge := by
  have := keeps_drop cfg { budget := budget, charged := 0, native := none }
    (charges_nonneg (some owner)) (keeps_ok (charges_some owner))
  simpa [charge_extra] using this

theorem keeps_grow (permit : BufferPermit) (bytes : UInt64) :
    (permit.grow cfg bytes).Keeps cfg (ChargeOwner.bufferPermit permit).charge := by
  have hpermit : 0 ≤ (ChargeOwner.bufferPermit permit).charge :=
    charges_nonneg (some (.bufferPermit permit))
  obtain ⟨budget, charged, native⟩ := permit
  unfold BufferPermit.grow
  split_ifs
  · exact keeps_ok (charges_some _)
  dsimp only
  cases hcharged : checkedAdd charged bytes with
  | none => exact keeps_fail (charges_some _)
  | some sum =>
    have hsum := checkedAdd_some hcharged
    apply keeps_reserveLocal
    · cases native with
      | none =>
        have hgrown : (ChargeOwner.bufferPermit ⟨budget, charged, none⟩).charge +
            Pi.single (.used budget.state) (bytes.toNat : ℤ) =
              (ChargeOwner.bufferPermit ⟨budget, sum, none⟩).charge := by
          simp [charge_bufferPermit, hsum, Pi.single_add]
        rw [hgrown]
        exact keeps_empty budget _
      | some native =>
        apply keeps_tryGrow
        · intro total htotal
          have hgrown : (ChargeOwner.bufferPermit ⟨budget, charged, some native⟩).charge +
              Pi.single (.used budget.state) (bytes.toNat : ℤ) +
              Pi.single .retained (bytes.toNat : ℤ) =
                (ChargeOwner.bufferPermit ⟨budget, sum, some total⟩).charge := by
            simp only [charge_bufferPermit, Option.map_some, charges_some, charge_nativePermit,
              hsum, htotal, Nat.cast_add, Pi.single_add]
            abel
          rw [hgrown]
          exact keeps_empty budget _
        · -- The World refused: the temporary permit takes the local charge back.
          rw [← charge_extra]
          exact keeps_drop cfg _ hpermit (keeps_fail (charges_some _))
    · exact keeps_fail (charges_some _)

theorem keeps_ended (owner : ChargeOwner) :
    (budgetCode cfg (.drop owner)).Keeps cfg owner.charge := by
  cases owner with
  | stored bytes =>
    have := keeps_release cfg .retained bytes le_rfl (keeps_ok charges_none)
    rwa [zero_add, ← charge_stored] at this
  | nativePermit bytes =>
    have := keeps_release cfg .retained bytes le_rfl (keeps_ok charges_none)
    rwa [zero_add, ← charge_nativePermit] at this
  | bufferPermit permit =>
    have := keeps_drop cfg permit le_rfl (keeps_ok charges_none)
    rwa [zero_add] at this

theorem keeps_code (op : BudgetOp) : (budgetCode cfg op).Keeps cfg (charges op.owner) := by
  cases op with
  | makeStored payload options => exact keeps_makeStored payload options
  | nativeReserve bytes =>
    unfold budgetCode
    apply keeps_nativeReserve
    · exact keeps_ok (by simp [BudgetOp.owner])
    · exact keeps_fail charges_none
  | nativeGrow bytes additional =>
    unfold budgetCode
    apply keeps_tryGrow
    · intro total htotal
      apply keeps_ok
      simp [BudgetOp.owner, htotal, Pi.single_add]
    · exact keeps_fail (charges_some _)
  | reserve budget bytes => exact keeps_reserve budget bytes
  | grow permit bytes => exact keeps_grow permit bytes
  | drop owner => exact keeps_ended owner

theorem budgets_sound : (budgets cfg).Sound where
  weight_nonneg owner := charges_nonneg (some owner)
  settles op := by
    have hgives :
        (fun result : BudgetResult => (budgets cfg).weights ((budgets cfg).gives result)) =
          fun result => charges result.owner :=
      funext fun result => weights_toList cfg result.owner
    rw [hgives]
    exact (weights_toList cfg op.owner).symm ▸ keeps_code op

/-! ## How the operations end -/

/-- A failure leaves the owner there was; a success leaves the owner that was asked for. -/
def BudgetOp.Promise (op : BudgetOp) (result : BudgetResult) : Prop :=
  if result.failure.isSome then result.owner = op.owner
  else
    match op with
    | .makeStored payload options => ∃ n, checkedAdd payload options = some n ∧
        result.owner = some (.stored n)
    | .nativeReserve bytes => result.owner = some (.nativePermit bytes)
    | .nativeGrow bytes additional => ∃ total, total.toNat = bytes.toNat + additional.toNat ∧
        result.owner = some (.nativePermit total)
    | .reserve budget bytes => result.owner = some (.bufferPermit
        { budget := budget, charged := bytes,
          native := if budget.native then some bytes else none })
    | .grow permit bytes => ∃ grown : BufferPermit, result.owner = some (.bufferPermit grown) ∧
        grown.budget = permit.budget ∧ grown.charged.toNat = permit.charged.toNat + bytes.toNat ∧
        grown.native.map UInt64.toNat = permit.native.map fun n => n.toNat + bytes.toNat
    | .drop _ => result.owner = none

section

variable {P : BudgetResult → Prop}

theorem ends_tryGrow {bytes additional : UInt64} {next : Option UInt64 → BudgetRoutine}
    (hsome : ∀ total : UInt64, total.toNat = bytes.toNat + additional.toNat →
      (next (some total)).Ends P)
    (hnone : (next none).Ends P) : (tryGrow cfg bytes additional next).Ends P := by
  unfold tryGrow
  split_ifs with hzero
  · subst hzero
    exact hsome bytes (by simp)
  cases htotal : checkedAdd bytes additional with
  | none => exact hnone
  | some total => exact ⟨hsome total (checkedAdd_some htotal), hnone⟩

theorem ends_drop (permit : BufferPermit) {next : BudgetRoutine} (h : next.Ends P) :
    (permit.drop next).Ends P := by
  unfold BufferPermit.drop
  cases permit.native with
  | none => exact h
  | some bytes => exact h

end

theorem promise_grow (permit : BufferPermit) (bytes : UInt64) :
    (permit.grow cfg bytes).Ends (BudgetOp.Promise (.grow permit bytes)) := by
  have hfail : (BudgetRoutine.fail (.frame .budgetExceeded) (some (.bufferPermit permit))).Ends
      (BudgetOp.Promise (.grow permit bytes)) := rfl
  unfold BufferPermit.grow
  split_ifs with hzero
  · subst hzero
    exact ⟨permit, rfl, rfl, by simp, by simp⟩
  cases hcharged : checkedAdd permit.charged bytes with
  | none => exact hfail
  | some charged =>
    have hsum := checkedAdd_some hcharged
    refine ⟨?_, hfail⟩
    dsimp only
    cases hnative : permit.native with
    | none =>
      exact ends_drop _ ⟨{ permit with charged := charged }, by simp [hnative], rfl, hsum,
        by simp [hnative]⟩
    | some native =>
      apply ends_tryGrow
      · intro total htotal
        exact ends_drop _ ⟨{ permit with charged := charged, native := some total }, rfl, rfl, hsum,
          by simp [hnative, htotal]⟩
      · exact ends_drop _ hfail

theorem promise_code (op : BudgetOp) : (budgetCode cfg op).Ends op.Promise := by
  cases op with
  | makeStored payload options =>
    change (makeStored cfg payload options).Ends _
    unfold makeStored
    cases hsum : checkedAdd payload options with
    | none => exact (rfl : none = none)
    | some n =>
      dsimp only
      split_ifs
      · exact (rfl : none = none)
      · exact ⟨⟨n, hsum, rfl⟩, rfl⟩
  | nativeReserve bytes => exact ⟨rfl, rfl⟩
  | nativeGrow bytes additional =>
    unfold budgetCode
    apply ends_tryGrow
    · intro total htotal
      exact ⟨total, htotal, rfl⟩
    · rfl
  | reserve budget bytes =>
    refine ⟨?_, rfl⟩
    dsimp only
    split_ifs with hnative
    · refine ⟨?_, ends_drop _ rfl⟩
      simp [Routine.Ends, BudgetRoutine.ok, BudgetOp.Promise, hnative]
    · simp [Routine.Ends, BudgetRoutine.ok, BudgetOp.Promise, hnative]
  | grow permit bytes => exact promise_grow permit bytes
  | drop owner =>
    cases owner with
    | stored bytes => rfl
    | nativePermit bytes => rfl
    | bufferPermit permit => exact ends_drop permit rfl

/-! ## Any interleaving -/

/-- Whatever the threads do, every counter is what the owners at rest charge and the running
operations hold (the owner they work on, and what their own exchanges have added), and never
above its limit; an operation that failed has added nothing and leaves its owner as it was, and
one that succeeded has added what its owner charges more; and without owners and running
operations the counters are zero. -/
theorem budgets_accounted {s : Pool BudgetCounter ChargeOwner BudgetOp BudgetResult}
    (h : (budgets cfg).Reachable s) :
    (∀ c, ((s.counters c).toNat : ℤ) = (s.owned.map fun owner => owner.charge c).sum +
      (s.running.map fun t => charges t.op.owner c + t.net c).sum) ∧
    (∀ t ∈ s.running, ∀ c, 0 ≤ charges t.op.owner c + t.net c) ∧
    (∀ c, s.counters c ≤ cfg.limit c) ∧
    (∀ op result net, (op, result, net) ∈ s.ended → op.Promise result ∧
      charges result.owner = charges op.owner + net ∧
      (result.failure.isSome → result.owner = op.owner ∧ net = 0)) ∧
    (s.running = [] → s.owned = [] → ∀ c, s.counters c = 0) := by
  have haccounted := budgets_sound.accounted h
  have hheld : ∀ t, (budgets cfg).held t = charges t.op.owner + t.net := by
    intro t
    rw [← weights_toList cfg]
    rfl
  have hended : ∀ op result net, (op, result, net) ∈ s.ended →
      charges result.owner = charges op.owner + net := by
    intro op result net he
    have := haccounted.ended _ he
    rwa [← weights_toList cfg, ← weights_toList cfg]
  refine ⟨?_, ?_, haccounted.within, ?_, ?_⟩
  · intro c
    have := haccounted.exact c
    simp only [Discipline.weights, Pi.list_sum_apply, List.map_map, Function.comp_def, hheld,
      Pi.add_apply] at this
    exact this
  · intro t ht c
    have := (haccounted.settles t ht).2 c
    rwa [hheld] at this
  · intro op result net he
    have hpromise := Discipline.Reachable.ended promise_code h _ he
    refine ⟨hpromise, hended op result net he, ?_⟩
    intro hfailed
    have howner : result.owner = op.owner := by
      unfold BudgetOp.Promise at hpromise
      rwa [if_pos hfailed] at hpromise
    refine ⟨howner, ?_⟩
    have := hended op result net he
    rw [howner] at this
    exact left_eq_add.mp this
  · intro hrunning howned c
    have := haccounted.exact c
    rw [hrunning, howned] at this
    rw [← UInt64.toNat_inj]
    simpa [Discipline.weights] using this

/-- Budgets of eight bytes. -/
def sampleLimits : BudgetLimits where
  nativePayloadBudget := 8
  maxEventBytes := 8
  buffers := fun _ => 8

/-- A thread has exchanged the counter for five bytes and not built its permit yet. -/
theorem budgets_accounted_pending : ∃ s, (budgets sampleLimits).Reachable s ∧ s.owned = [] ∧
    s.counters .retained = 5 ∧ s.counters .retained ≤ sampleLimits.limit .retained := by
  have hstart : (budgets sampleLimits).Reachable _ :=
    .single (.start Discipline.empty (.nativeReserve 5) [] (List.Perm.refl _))
  have hload : (budgets sampleLimits).Reachable _ :=
    hstart.tail (.advance _ [] [] _ _ _ _ rfl (.load ..))
  have hexchange : (budgets sampleLimits).Reachable _ :=
    hload.tail (.advance _ [] [] _ _ _ _ rfl (.exchange _ _ _ 5 _ _ (by decide) rfl))
  exact ⟨_, hexchange, rfl, rfl, (budgets_accounted hexchange).2.2.1 .retained⟩

end Actorplane
