import Mathlib.Algebra.BigOperators.Group.List.Basic
import Mathlib.Tactic

/-!
# Columns of slots

Counting and summing over a list of slots when one slot changes. The statements
add on both sides, so that no subtraction of natural numbers appears.
-/

namespace Actorplane

variable {α : Type*} {l : List α} {i : ℕ} {b : α}

theorem sum_map_set (g : α → ℕ) (a : α) (h : l[i]? = some b) :
    ((l.set i a).map g).sum + g b = (l.map g).sum + g a := by
  induction l generalizing i with
  | nil => simp at h
  | cons x l ih =>
    cases i with
    | zero =>
      simp only [List.getElem?_cons_zero, Option.some.injEq] at h
      subst h
      simp [add_comm, add_left_comm]
    | succ i =>
      have := ih (by simpa using h)
      simp only [List.set_cons_succ, List.map_cons, List.sum_cons]
      omega

theorem sum_map_modify (g : α → ℕ) (f : α → α) (h : l[i]? = some b) :
    ((l.modify i f).map g).sum + g b = (l.map g).sum + g (f b) := by
  induction l generalizing i with
  | nil => simp at h
  | cons x l ih =>
    cases i with
    | zero =>
      simp only [List.getElem?_cons_zero, Option.some.injEq] at h
      subst h
      simp [add_comm, add_left_comm]
    | succ i =>
      have := ih (by simpa using h)
      simp only [List.modify_succ_cons, List.map_cons, List.sum_cons]
      omega

theorem countP_eq_sum (p : α → Bool) (l : List α) :
    l.countP p = (l.map fun x => if p x then 1 else 0).sum := by
  induction l with
  | nil => rfl
  | cons x l ih =>
    simp only [List.countP_cons, ih, List.map_cons, List.sum_cons]
    omega

theorem countP_set_add (p : α → Bool) (a : α) (h : l[i]? = some b) :
    (l.set i a).countP p + (if p b then 1 else 0) = l.countP p + (if p a then 1 else 0) := by
  simpa only [countP_eq_sum] using sum_map_set (fun x => if p x then 1 else 0) a h

theorem countP_modify_add (p : α → Bool) (f : α → α) (h : l[i]? = some b) :
    (l.modify i f).countP p + (if p b then 1 else 0) =
      l.countP p + (if p (f b) then 1 else 0) := by
  simpa only [countP_eq_sum] using sum_map_modify (fun x => if p x then 1 else 0) f h

end Actorplane
