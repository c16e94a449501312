import Mathlib.Algebra.BigOperators.Group.List.Lemmas
import Mathlib.Algebra.Order.BigOperators.Group.List
import Mathlib.Logic.Relation
import Mathlib.Tactic

/-!
# A crew of agents over shared counters

Agents enter, step one at a time and leave, each with a change of some shared
integer counters. A quantity of the counters that every such move changes as it
changes the share of its agent is at all times the sum of the shares.
-/

namespace Actorplane

/-- What the agents of a crew can do, with the change each move makes. A move is made only if it
leaves the counters that must not run out nonnegative. -/
structure Conduct (ι A : Type) where
  idle : (ι → ℤ) → (ι → ℤ) → Prop
  enter : A → (ι → ℤ) → Prop
  step : A → A → (ι → ℤ) → Prop
  leave : A → (ι → ℤ) → Prop
  scarce : ι → Prop

/-- The counters, the agents at work, and those that have left. -/
structure Crew (ι A : Type) where
  counters : ι → ℤ
  agents : List A
  gone : List A

namespace Conduct

variable {ι A : Type} (d : Conduct ι A)

/-- The counters after a change, if it may be made. -/
def Allows (counters change : ι → ℤ) : Prop := ∀ c, d.scarce c → 0 ≤ counters c + change c

inductive Step : Crew ι A → Crew ι A → Prop
  | idle (s : Crew ι A) (change : ι → ℤ) (h : d.idle s.counters change) :
      Step s { s with counters := s.counters + change }
  | enter (s : Crew ι A) (a : A) (change : ι → ℤ) (h : d.enter a change)
      (hallows : d.Allows s.counters change) :
      Step s { s with counters := s.counters + change, agents := a :: s.agents }
  | step (s : Crew ι A) (before after : List A) (a a' : A) (change : ι → ℤ)
      (hs : s.agents = before ++ a :: after) (h : d.step a a' change)
      (hallows : d.Allows s.counters change) :
      Step s { s with counters := s.counters + change, agents := before ++ a' :: after }
  | leave (s : Crew ι A) (before after : List A) (a : A) (change : ι → ℤ)
      (hs : s.agents = before ++ a :: after) (h : d.leave a change) :
      Step s { counters := s.counters + change, agents := before ++ after, gone := a :: s.gone }

/-- The states any interleaving leads to from a crew without agents. -/
def Reachable (counters : ι → ℤ) (s : Crew ι A) : Prop :=
  Relation.ReflTransGen d.Step { counters := counters, agents := [], gone := [] } s

variable {d}

/-- A run of one agent. -/
theorem Reachable.enter {start change : ι → ℤ} {a : A} (h : d.enter a change)
    (hallows : d.Allows start change) : d.Reachable start ⟨start + change, [a], []⟩ :=
  Relation.ReflTransGen.single (Step.enter _ a change h hallows)

theorem Reachable.step {start counters : ι → ℤ} {a : A}
    (hrun : d.Reachable start ⟨counters, [a], []⟩) {a' : A} {change : ι → ℤ}
    (h : d.step a a' change) (hallows : d.Allows counters change) :
    d.Reachable start ⟨counters + change, [a'], []⟩ :=
  hrun.tail (Step.step _ [] [] a a' change rfl h hallows)

/-- What holds of every agent that enters, and is kept by its steps, holds of every agent. -/
theorem Reachable.agents {I : A → Prop} {start : ι → ℤ} {s : Crew ι A}
    (h : d.Reachable start s) (henter : ∀ a change, d.enter a change → I a)
    (hstep : ∀ a a' change, d.step a a' change → I a → I a') :
    (∀ a ∈ s.agents, I a) ∧ ∀ a ∈ s.gone, I a := by
  induction h with
  | refl => simp
  | tail _ hmove ih =>
    obtain ⟨hagents, hgone⟩ := ih
    cases hmove with
    | idle => exact ⟨hagents, hgone⟩
    | enter a change h =>
      refine ⟨?_, hgone⟩
      intro b hb
      rcases List.mem_cons.mp hb with rfl | hb
      · exact henter b change h
      · exact hagents b hb
    | step before after a a' change hs h =>
      refine ⟨?_, hgone⟩
      intro b hb
      simp only [List.mem_append, List.mem_cons] at hb
      rcases hb with hb | rfl | hb
      · exact hagents b (by simp [hs, hb])
      · exact hstep a b change h (hagents a (by simp [hs]))
      · exact hagents b (by simp [hs, hb])
    | leave before after a change hs h =>
      refine ⟨?_, ?_⟩
      · intro b hb
        apply hagents b
        rw [hs]
        rcases List.mem_append.mp hb with hb | hb <;> simp [hb]
      · intro b hb
        rcases List.mem_cons.mp hb with rfl | hb
        · exact hagents b (by simp [hs])
        · exact hgone b hb

/-- What holds of every agent as it leaves holds of the agents that have left. -/
theorem Reachable.gone {I P : A → Prop} {start : ι → ℤ} {s : Crew ι A}
    (h : d.Reachable start s) (henter : ∀ a change, d.enter a change → I a)
    (hstep : ∀ a a' change, d.step a a' change → I a → I a')
    (hleave : ∀ a change, d.leave a change → I a → P a) : ∀ a ∈ s.gone, P a := by
  induction h with
  | refl => simp
  | tail hrun hmove ih =>
    have hagents := (Reachable.agents hrun henter hstep).1
    cases hmove with
    | idle => exact ih
    | enter => exact ih
    | step => exact ih
    | leave before after a change hs h =>
      intro b hb
      rcases List.mem_cons.mp hb with rfl | hb
      · exact hleave b change h (hagents b (by simp [hs]))
      · exact ih b hb

/-- A quantity of the counters, and the share each agent has in it while it works and after it
has left. -/
structure Balanced (d : Conduct ι A) (I : A → Prop) (quantity : (ι → ℤ) →+ ℤ)
    (share left : A → ℤ) : Prop where
  idle : ∀ counters change, d.idle counters change → quantity change = 0
  enter : ∀ a change, d.enter a change → quantity change = share a
  step : ∀ a a' change, d.step a a' change → I a → quantity change = share a' - share a
  leave : ∀ a change, d.leave a change → I a → quantity change = left a - share a

theorem Reachable.balance {I : A → Prop} {quantity : (ι → ℤ) →+ ℤ} {share left : A → ℤ}
    {start : ι → ℤ} {s : Crew ι A} (h : d.Reachable start s)
    (henter : ∀ a change, d.enter a change → I a)
    (hstep : ∀ a a' change, d.step a a' change → I a → I a')
    (hd : Balanced d I quantity share left) :
    quantity s.counters =
      quantity start + (s.agents.map share).sum + (s.gone.map left).sum := by
  induction h with
  | refl => simp
  | tail hrun hmove ih =>
    have hagents := (Reachable.agents hrun henter hstep).1
    cases hmove with
    | idle change h =>
      have := hd.idle _ change h
      rw [map_add, ih, this, add_zero]
    | enter a change h =>
      have := hd.enter a change h
      simp only [map_add, ih, List.map_cons, List.sum_cons]
      omega
    | step before after a a' change hs h =>
      have := hd.step a a' change h (hagents a (by simp [hs]))
      simp only [map_add, ih, hs, List.map_append, List.map_cons, List.sum_append, List.sum_cons]
      omega
    | leave before after a change hs h =>
      have := hd.leave a change h (hagents a (by simp [hs]))
      simp only [map_add, ih, hs, List.map_append, List.map_cons, List.sum_append, List.sum_cons]
      omega

/-- A counter that must not run out stays nonnegative if it is only drawn on under guard. -/
theorem Reachable.scarce {start : ι → ℤ} {s : Crew ι A} (h : d.Reachable start s) {c : ι}
    (hc : d.scarce c) (hstart : 0 ≤ start c)
    (hidle : ∀ counters change, d.idle counters change → 0 ≤ change c)
    (hleave : ∀ a change, d.leave a change → 0 ≤ change c) : 0 ≤ s.counters c := by
  induction h with
  | refl => exact hstart
  | tail _ hmove ih =>
    cases hmove with
    | idle change h => exact add_nonneg ih (hidle _ change h)
    | enter a change h hallows => exact hallows c hc
    | step before after a a' change hs h hallows => exact hallows c hc
    | leave before after a change hs h => exact add_nonneg ih (hleave a change h)

/-- A counter that no move lowers stays nonnegative. -/
theorem Reachable.nonneg {start : ι → ℤ} {s : Crew ι A} (h : d.Reachable start s) {c : ι}
    (hstart : 0 ≤ start c) (hidle : ∀ counters change, d.idle counters change → 0 ≤ change c)
    (henter : ∀ a change, d.enter a change → 0 ≤ change c)
    (hstep : ∀ a a' change, d.step a a' change → 0 ≤ change c)
    (hleave : ∀ a change, d.leave a change → 0 ≤ change c) : 0 ≤ s.counters c := by
  induction h with
  | refl => exact hstart
  | tail _ hmove ih =>
    cases hmove with
    | idle change h => exact add_nonneg ih (hidle _ change h)
    | enter a change h => exact add_nonneg ih (henter a change h)
    | step before after a a' change hs h => exact add_nonneg ih (hstep a a' change h)
    | leave before after a change hs h => exact add_nonneg ih (hleave a change h)

end Conduct

/-- Counting agents is summing ones. -/
theorem sum_map_toNat_eq_countP {A : Type} (p : A → Bool) (l : List A) :
    (l.map fun a => ((p a).toNat : ℤ)).sum = l.countP p := by
  induction l with
  | nil => rfl
  | cons a l ih =>
    rw [List.map_cons, List.sum_cons, ih, List.countP_cons]
    cases p a <;> simp [add_comm]

end Actorplane
