import Mathlib.Data.List.TakeDrop
import Mathlib.Tactic

/-!
# Runs of a deterministic step function

The states along a run are indexed by the number of steps taken. An invariant of
one step holds along the run, and a preorder respected by one step relates any two
states of the run.
-/

namespace Actorplane

section Runs

variable {σ α : Type*} (step : σ → α → σ) (s : σ) (as : List α)

/-- The state after the first `k` steps of a run. -/
def runTo (k : ℕ) : σ := (as.take k).foldl step s

@[simp] theorem runTo_zero : runTo step s as 0 = s := by simp [runTo]

variable {step s as}

theorem runTo_succ {k : ℕ} {a : α} (h : as[k]? = some a) :
    runTo step s as (k + 1) = step (runTo step s as k) a := by
  simp [runTo, List.take_add_one, h]

theorem runTo_succ_of_length_le {k : ℕ} (h : as.length ≤ k) :
    runTo step s as (k + 1) = runTo step s as k := by
  simp [runTo, List.take_of_length_le h, List.take_of_length_le (h.trans k.le_succ)]

theorem runTo_invariant {I : σ → Prop} (h0 : I s) (hstep : ∀ s a, I s → I (step s a)) (k : ℕ) :
    I (runTo step s as k) := by
  induction k with
  | zero => simpa using h0
  | succ k ih =>
    cases h : as[k]? with
    | none => rwa [runTo_succ_of_length_le (List.getElem?_eq_none_iff.mp h)]
    | some a => exact runTo_succ h ▸ hstep _ a ih

/-- A reflexive and transitive relation respected by every step relates earlier to later states. -/
theorem runTo_rel {I : σ → Prop} {R : σ → σ → Prop} (h0 : I s)
    (hstep : ∀ s a, I s → I (step s a)) (hrefl : ∀ s, R s s)
    (htrans : ∀ s t u, R s t → R t u → R s u) (hR : ∀ s a, I s → R s (step s a))
    {k j : ℕ} (hkj : k ≤ j) : R (runTo step s as k) (runTo step s as j) := by
  induction j, hkj using Nat.le_induction with
  | base => exact hrefl _
  | succ j _ ih =>
    cases h : as[j]? with
    | none => rwa [runTo_succ_of_length_le (List.getElem?_eq_none_iff.mp h)]
    | some a =>
      rw [runTo_succ h]
      exact htrans _ _ _ ih (hR _ a (runTo_invariant h0 hstep j))

end Runs

end Actorplane
