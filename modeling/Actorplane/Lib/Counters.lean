import Mathlib.Algebra.BigOperators.Group.List.Lemmas
import Mathlib.Algebra.Order.BigOperators.Group.List
import Mathlib.Logic.Function.Basic
import Mathlib.Logic.Relation
import Mathlib.Tactic

/-!
# Shared counters and the owners of what they count

Threads reserve amounts of shared atomic counters by compare-and-exchange loops
and release them by subtraction. An operation takes owners from those at rest,
runs its code one atomic step at a time, and puts the owners it ends with back.
If the code of every operation settles, that is, ends with owners of exactly
what it took and reserved, then each counter is at all times what the owners
and the running operations hold, whatever the interleaving.
-/

namespace Actorplane

/-! ## Code over counters -/

/-- A loop that loads the counter, tests whether an amount may be added and tries to exchange
the value seen with the sum; a subtraction; or an end. `seen` is the value last seen. -/
inductive Routine (ι ω : Type)
  | reserve (c : ι) (allow : UInt64 → Option UInt64) (seen : Option UInt64)
      (next : Bool → Routine ι ω)
  | release (c : ι) (amount : UInt64) (next : Routine ι ω)
  | ret (result : ω)

namespace Routine

variable {ι ω : Type} [DecidableEq ι]

/-- One atomic step, with what it adds to the counters. An exchange may fail on any value, as a
weak one may. -/
inductive Step : Routine ι ω → (ι → UInt64) → Routine ι ω → (ι → UInt64) → (ι → ℤ) → Prop
  | load (c allow next v) : Step (.reserve c allow none next) v
      (.reserve c allow (some (v c)) next) v 0
  | refuse (c allow seen next v) (h : allow seen = none) :
      Step (.reserve c allow (some seen) next) v (next false) v 0
  | exchange (c allow seen sum next v) (h : allow seen = some sum) (hseen : v c = seen) :
      Step (.reserve c allow (some seen) next) v (next true) (Function.update v c sum)
        (Pi.single c ((sum.toNat : ℤ) - seen.toNat))
  | retry (c allow seen sum next v) (h : allow seen = some sum) :
      Step (.reserve c allow (some seen) next) v (.reserve c allow (some (v c)) next) v 0
  | release (c amount next v) : Step (.release c amount next) v next
      (Function.update v c (v c - amount)) (Pi.single c (-(amount.toNat : ℤ)))

/-- The code without interference. -/
def exec : Routine ι ω → (ι → UInt64) → ω × (ι → UInt64)
  | .reserve c allow _ next, v =>
    match allow (v c) with
    | none => exec (next false) v
    | some sum => exec (next true) (Function.update v c sum)
  | .release c amount next, v => exec next (Function.update v c (v c - amount))
  | .ret result, v => (result, v)

/-- The loop adds `n`, and does not leave the limit. -/
def Admits (limit : UInt64) (allow : UInt64 → Option UInt64) (n : ℕ) : Prop :=
  ∀ seen sum, allow seen = some sum →
    sum.toNat = seen.toNat + n ∧ (seen ≤ limit → sum ≤ limit)

/-- From `held` on, the code ends with a result that weighs what it then holds, and it never
releases more than it holds. -/
def Settles (limit : ι → UInt64) (weight : ω → ι → ℤ) : Routine ι ω → (ι → ℤ) → Prop
  | .reserve c allow _ next, held => ∃ n : ℕ, Admits (limit c) allow n ∧
      Settles limit weight (next true) (held + Pi.single c (n : ℤ)) ∧
      Settles limit weight (next false) held
  | .release c amount next, held => (amount.toNat : ℤ) ≤ held c ∧
      Settles limit weight next (held - Pi.single c (amount.toNat : ℤ))
  | .ret result, held => weight result = held

/-- However the code goes, its result satisfies `P`. -/
def Ends (P : ω → Prop) : Routine ι ω → Prop
  | .reserve _ _ _ next => Ends P (next true) ∧ Ends P (next false)
  | .release _ _ next => Ends P next
  | .ret result => P result

theorem Ends.step {P : ω → Prop} {r r' : Routine ι ω} {v v' : ι → UInt64} {added : ι → ℤ}
    (h : r.Ends P) (hstep : Step r v r' v' added) : r'.Ends P := by
  cases hstep with
  | load => exact h
  | retry => exact h
  | refuse => exact h.2
  | exchange => exact h.1
  | release => exact h

theorem Ends.exec {P : ω → Prop} {r : Routine ι ω} (h : r.Ends P) (v : ι → UInt64) :
    P (r.exec v).1 := by
  induction r generalizing v with
  | ret result => exact h
  | reserve c allow seen next ih =>
    unfold Routine.exec
    cases allow (v c) with
    | none => exact ih false h.2 v
    | some sum => exact ih true h.1 _
  | release c amount next ih => exact ih h _

variable {limit : ι → UInt64} {weight : ω → ι → ℤ}

/-- A step keeps the code settling from what it then holds, and what it holds nonnegative. -/
theorem Settles.step {r r' : Routine ι ω} {v v' : ι → UInt64} {held added : ι → ℤ}
    (h : r.Settles limit weight held) (hheld : 0 ≤ held) (hstep : Step r v r' v' added) :
    r'.Settles limit weight (held + added) ∧ 0 ≤ held + added := by
  cases hstep with
  | load c allow next => simpa using ⟨h, hheld⟩
  | retry c allow seen sum next _ _ => simpa using ⟨h, hheld⟩
  | refuse c allow seen next _ hnone =>
    obtain ⟨n, _, _, hfalse⟩ := h
    simpa using ⟨hfalse, hheld⟩
  | exchange c allow seen sum next _ hsum hseen =>
    obtain ⟨n, hadmits, htrue, _⟩ := h
    have hn : (sum.toNat : ℤ) - seen.toNat = n := by
      have := (hadmits seen sum hsum).1
      omega
    rw [hn]
    refine ⟨htrue, ?_⟩
    intro c'
    have := hheld c'
    by_cases hc : c' = c
    · subst hc
      simp only [Pi.add_apply, Pi.single_eq_same, Pi.zero_apply] at this ⊢
      omega
    · simpa [Pi.single_eq_of_ne hc] using this
  | release c amount =>
    obtain ⟨hle, hnext⟩ := h
    rw [Pi.single_neg, ← sub_eq_add_neg]
    refine ⟨hnext, ?_⟩
    intro c'
    have := hheld c'
    by_cases hc : c' = c
    · subst hc
      simpa using hle
    · simpa [Pi.single_eq_of_ne hc] using this

/-- A step changes the counters by what it adds, without wrapping, and within the limits. -/
theorem Settles.counters {r r' : Routine ι ω} {v v' : ι → UInt64} {held added : ι → ℤ}
    (h : r.Settles limit weight held) (hle : ∀ c, held c ≤ (v c).toNat)
    (hlimit : ∀ c, v c ≤ limit c) (hstep : Step r v r' v' added) (c : ι) :
    ((v' c).toNat : ℤ) = (v c).toNat + added c ∧ v' c ≤ limit c := by
  cases hstep with
  | load => simpa using hlimit c
  | retry => simpa using hlimit c
  | refuse => simpa using hlimit c
  | exchange c' allow seen sum next _ hsum hseen =>
    obtain ⟨n, hadmits, _, _⟩ := h
    by_cases hc : c = c'
    · subst hc
      have := hadmits seen sum hsum
      simp [hseen, this.2 (hseen ▸ hlimit c)]
    · simpa [Function.update_of_ne hc, Pi.single_eq_of_ne hc] using hlimit c
  | release c' amount =>
    obtain ⟨hamount, _⟩ := h
    by_cases hc : c = c'
    · subst hc
      have hle := hamount.trans (hle c)
      have hle' : amount ≤ v c := by
        rw [UInt64.le_iff_toNat_le]
        omega
      simp only [Function.update_self, Pi.single_eq_same, UInt64.toNat_sub_of_le _ _ hle']
      refine ⟨by omega, ?_⟩
      rw [UInt64.le_iff_toNat_le, UInt64.toNat_sub_of_le _ _ hle']
      have := UInt64.le_iff_toNat_le.mp (hlimit c)
      omega
    · simpa [Function.update_of_ne hc, Pi.single_eq_of_ne hc] using hlimit c

/-- Run without interference, settling code leaves in the counters what its result weighs. -/
theorem Settles.exec {r : Routine ι ω} {v : ι → UInt64} {held : ι → ℤ}
    (h : r.Settles limit weight held) (hle : ∀ c, held c ≤ (v c).toNat) (c : ι) :
    (((r.exec v).2 c).toNat : ℤ) = (v c).toNat + weight (r.exec v).1 c - held c := by
  induction r generalizing v held with
  | ret result =>
    have : weight result = held := h
    simp [Routine.exec, this]
  | reserve c' allow seen next ih =>
    obtain ⟨n, hadmits, htrue, hfalse⟩ := h
    unfold Routine.exec
    cases hadmit : allow (v c') with
    | none => exact ih false hfalse hle
    | some sum =>
      have hsum := (hadmits _ _ hadmit).1
      have hle' : ∀ c, (held + Pi.single c' (n : ℤ) : ι → ℤ) c ≤
          (Function.update v c' sum c).toNat := by
        intro c
        have := hle c
        by_cases hc : c = c'
        · subst hc
          simp
          omega
        · simpa [Function.update_of_ne hc, Pi.single_eq_of_ne hc] using this
      have := ih true htrue hle'
      rw [this]
      by_cases hc : c = c'
      · subst hc
        simp
        omega
      · simp [Function.update_of_ne hc, Pi.single_eq_of_ne hc]
  | release c' amount next ih =>
    obtain ⟨hamount, hnext⟩ := h
    unfold Routine.exec
    have hamount' : amount ≤ v c' := by
      rw [UInt64.le_iff_toNat_le]
      have := hle c'
      omega
    have hle' : ∀ c, (held - Pi.single c' (amount.toNat : ℤ) : ι → ℤ) c ≤
        (Function.update v c' (v c' - amount) c).toNat := by
      intro c
      have := hle c
      by_cases hc : c = c'
      · subst hc
        simp [UInt64.toNat_sub_of_le _ _ hamount']
        have := UInt64.le_iff_toNat_le.mp hamount'
        omega
      · simpa [Function.update_of_ne hc, Pi.single_eq_of_ne hc] using this
    rw [ih hnext hle']
    by_cases hc : c = c'
    · subst hc
      simp [UInt64.toNat_sub_of_le _ _ hamount']
      have := UInt64.le_iff_toNat_le.mp hamount'
      omega
    · simp [Function.update_of_ne hc, Pi.single_eq_of_ne hc]

end Routine

/-! ## Operations on owners -/

/-- Operations that take owners, run code, and give owners back. -/
structure Discipline (ι Owner Op ω : Type) where
  code : Op → Routine ι ω
  takes : Op → List Owner
  gives : ω → List Owner
  weight : Owner → ι → ℤ
  limit : ι → UInt64

/-- A running operation, with what its own steps have added to the counters. -/
structure Task (ι Op ω : Type) where
  op : Op
  routine : Routine ι ω
  net : ι → ℤ

/-- The counters, the running operations, the owners at rest and the operations that have ended. -/
structure Pool (ι Owner Op ω : Type) where
  counters : ι → UInt64
  running : List (Task ι Op ω)
  owned : List Owner
  ended : List (Op × ω × (ι → ℤ))

namespace Discipline

variable {ι Owner Op ω : Type} [DecidableEq ι] (d : Discipline ι Owner Op ω)

def empty : Pool ι Owner Op ω where
  counters := fun _ => 0
  running := []
  owned := []
  ended := []

/-- One step of the system: an operation begins, one of those running takes a step, or ends. -/
inductive Step : Pool ι Owner Op ω → Pool ι Owner Op ω → Prop
  | start (s : Pool ι Owner Op ω) (op : Op) (rest : List Owner)
      (h : s.owned.Perm (d.takes op ++ rest)) :
      Step s { s with running := ⟨op, d.code op, 0⟩ :: s.running, owned := rest }
  | advance (s : Pool ι Owner Op ω) (before after : List (Task ι Op ω)) (t : Task ι Op ω)
      (routine : Routine ι ω) (counters : ι → UInt64) (added : ι → ℤ)
      (h : s.running = before ++ t :: after)
      (hstep : t.routine.Step s.counters routine counters added) :
      Step s { s with
        counters := counters
        running := before ++ { t with routine := routine, net := t.net + added } :: after }
  | finish (s : Pool ι Owner Op ω) (before after : List (Task ι Op ω)) (t : Task ι Op ω)
      (result : ω) (h : s.running = before ++ t :: after) (hret : t.routine = .ret result) :
      Step s { s with
        running := before ++ after
        owned := d.gives result ++ s.owned
        ended := (t.op, result, t.net) :: s.ended }

def Reachable (s : Pool ι Owner Op ω) : Prop := Relation.ReflTransGen d.Step empty s

def weights (owners : List Owner) : ι → ℤ := (owners.map d.weight).sum

/-- What a running operation holds: the owners it works on, and what it has added so far. -/
def held (t : Task ι Op ω) : ι → ℤ := d.weights (d.takes t.op) + t.net

/-- Owners weigh something, and the code of every operation settles. -/
structure Sound : Prop where
  weight_nonneg : ∀ owner, 0 ≤ d.weight owner
  settles : ∀ op, (d.code op).Settles d.limit (fun result => d.weights (d.gives result))
    (d.weights (d.takes op))

omit [DecidableEq ι] in
@[simp] theorem weights_append (owners owners' : List Owner) :
    d.weights (owners ++ owners') = d.weights owners + d.weights owners' := by
  simp [weights]

omit [DecidableEq ι] in
theorem weights_perm {owners owners' : List Owner} (h : owners.Perm owners') :
    d.weights owners = d.weights owners' := (h.map d.weight).sum_eq

variable {d}

theorem Sound.weights_nonneg (hd : d.Sound) (owners : List Owner) : 0 ≤ d.weights owners := by
  apply List.sum_nonneg
  intro w hw
  obtain ⟨owner, _, rfl⟩ := List.mem_map.mp hw
  exact hd.weight_nonneg owner

/-- Every counter is what the owners at rest and the running operations hold, and within its
limit; and every running operation settles from what it holds. -/
structure Accounted (d : Discipline ι Owner Op ω) (s : Pool ι Owner Op ω) : Prop where
  exact : ∀ c, ((s.counters c).toNat : ℤ) =
    d.weights s.owned c + (s.running.map d.held).sum c
  within : ∀ c, s.counters c ≤ d.limit c
  settles : ∀ t ∈ s.running,
    t.routine.Settles d.limit (fun result => d.weights (d.gives result)) (d.held t) ∧ 0 ≤ d.held t
  ended : ∀ e ∈ s.ended, d.weights (d.gives e.2.1) = d.weights (d.takes e.1) + e.2.2

theorem Accounted.held_le {s : Pool ι Owner Op ω} (h : Accounted d s) (hd : d.Sound)
    {before after : List (Task ι Op ω)} {t : Task ι Op ω} (hs : s.running = before ++ t :: after)
    (c : ι) : d.held t c ≤ (s.counters c).toNat := by
  have hrest : 0 ≤ (before.map d.held).sum + (after.map d.held).sum := by
    apply add_nonneg <;>
    · apply List.sum_nonneg
      intro w hw
      obtain ⟨t', ht', rfl⟩ := List.mem_map.mp hw
      exact (h.settles t' (by simp [hs, ht'])).2
  have howned := hd.weights_nonneg s.owned c
  have hexact := h.exact c
  have hrest := hrest c
  simp only [hs, List.map_append, List.map_cons, List.sum_append, List.sum_cons, Pi.add_apply,
    Pi.zero_apply] at hexact hrest howned
  omega

theorem Accounted.step {s s' : Pool ι Owner Op ω} (h : Accounted d s) (hd : d.Sound)
    (hstep : d.Step s s') : Accounted d s' := by
  cases hstep with
  | start op rest hperm =>
    refine ⟨?_, h.within, ?_, h.ended⟩
    · intro c
      have hexact := h.exact c
      rw [d.weights_perm hperm, weights_append] at hexact
      simp only [List.map_cons, List.sum_cons, held, add_zero, Pi.add_apply] at hexact ⊢
      omega
    · intro t ht
      rcases List.mem_cons.mp ht with rfl | ht
      · simp only [held, add_zero]
        exact ⟨hd.settles op, hd.weights_nonneg _⟩
      · exact h.settles t ht
  | advance before after t routine counters added hs hstep =>
    obtain ⟨hsettles, hheld⟩ := h.settles t (by simp [hs])
    have hcounters := hsettles.counters (h.held_le hd hs) h.within hstep
    have hnew : d.held { t with routine := routine, net := t.net + added } = d.held t + added := by
      simp [held, add_assoc]
    refine ⟨?_, fun c => (hcounters c).2, ?_, h.ended⟩
    · intro c
      have hexact := h.exact c
      simp only [hs, List.map_append, List.map_cons, List.sum_append, List.sum_cons,
        Pi.add_apply, hnew] at hexact ⊢
      rw [(hcounters c).1]
      omega
    · intro t' ht'
      simp only [List.mem_append, List.mem_cons] at ht'
      rcases ht' with ht' | rfl | ht'
      · exact h.settles t' (by simp [hs, ht'])
      · rw [hnew]
        exact hsettles.step hheld hstep
      · exact h.settles t' (by simp [hs, ht'])
  | finish before after t result hs hret =>
    obtain ⟨hsettles, _⟩ := h.settles t (by simp [hs])
    rw [hret] at hsettles
    have hgives : d.weights (d.gives result) = d.held t := hsettles
    refine ⟨?_, h.within, ?_, ?_⟩
    · intro c
      have hexact := h.exact c
      simp only [hs, List.map_append, List.map_cons, List.sum_append, List.sum_cons,
        Pi.add_apply, weights_append, hgives] at hexact ⊢
      omega
    · intro t' ht'
      apply h.settles t'
      rw [hs]
      rcases List.mem_append.mp ht' with ht' | ht' <;> simp [ht']
    · intro e he
      rcases List.mem_cons.mp he with rfl | he
      · exact hgives
      · exact h.ended e he

/-- In every state that any interleaving leads to. -/
theorem Sound.accounted (hd : d.Sound) {s : Pool ι Owner Op ω} (h : d.Reachable s) :
    Accounted d s := by
  induction h with
  | refl =>
    refine ⟨?_, ?_, by simp [empty], by simp [empty]⟩
    · simp [empty, weights]
    · intro c
      simp [empty]
  | tail _ hstep ih => exact ih.step hd hstep

/-- What the code of every operation ends with holds of every operation that has ended. -/
theorem Reachable.ended {P : Op → ω → Prop} (hP : ∀ op, (d.code op).Ends (P op))
    {s : Pool ι Owner Op ω} (h : d.Reachable s) : ∀ e ∈ s.ended, P e.1 e.2.1 := by
  have key : (∀ t ∈ s.running, t.routine.Ends (P t.op)) ∧ ∀ e ∈ s.ended, P e.1 e.2.1 := by
    induction h with
    | refl => simp [empty]
    | tail _ hstep ih =>
      obtain ⟨hrunning, hended⟩ := ih
      cases hstep with
      | start op rest =>
        refine ⟨?_, hended⟩
        intro t ht
        rcases List.mem_cons.mp ht with rfl | ht
        · exact hP op
        · exact hrunning t ht
      | advance before after t routine counters added hs hstep =>
        refine ⟨?_, hended⟩
        intro t' ht'
        simp only [List.mem_append, List.mem_cons] at ht'
        rcases ht' with ht' | rfl | ht'
        · exact hrunning t' (by simp [hs, ht'])
        · exact (hrunning t (by simp [hs])).step hstep
        · exact hrunning t' (by simp [hs, ht'])
      | finish before after t result hs hret =>
        have hend := hrunning t (by simp [hs])
        rw [hret] at hend
        refine ⟨?_, ?_⟩
        · intro t' ht'
          apply hrunning t'
          rw [hs]
          rcases List.mem_append.mp ht' with ht' | ht' <;> simp [ht']
        · intro e he
          rcases List.mem_cons.mp he with rfl | he
          · exact hend
          · exact hended e he
  exact key.2

end Discipline

end Actorplane
