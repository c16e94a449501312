import Mathlib.Order.WithBot

/-!
# Descents

A descent goes from a first item by steps that each derive an item from the last one
under a choice. A measure that no step raises, and that no step leaves above the cap
its choice sets, is at the end below every item and every cap on the way. What the
steps keep is the same at both ends.
-/

namespace Actorplane

variable {α β γ : Type*} {derives : α → β → α → Prop} {first last : α} {links : List (β × α)}

inductive Descent (derives : α → β → α → Prop) (first : α) : List (β × α) → α → Prop
  | nil : Descent derives first [] first
  | snoc {links : List (β × α)} {last next : α} {choice : β} :
      Descent derives first links last → derives last choice next →
        Descent derives first (links ++ [(choice, next)]) next

theorem Descent.le [Preorder γ] (measure : α → γ) (cap : β → γ)
    (hstep : ∀ a b a', derives a b a' → measure a' ≤ measure a ∧ measure a' ≤ cap b)
    (h : Descent derives first links last) :
    measure last ≤ measure first ∧
      ∀ link ∈ links, measure last ≤ cap link.1 ∧ measure last ≤ measure link.2 := by
  induction h with
  | nil => simp
  | @snoc links last next choice h hderives ih =>
    obtain ⟨hlast, hcap⟩ := hstep _ _ _ hderives
    constructor
    · exact hlast.trans ih.1
    · intro link hlink
      rcases List.mem_append.mp hlink with hlink | hlink
      · obtain ⟨hc, hm⟩ := ih.2 link hlink
        exact ⟨hlast.trans hc, hlast.trans hm⟩
      · cases List.mem_singleton.mp hlink
        exact ⟨hcap, le_rfl⟩

theorem Descent.const (thread : α → γ) (neutral : β → Prop)
    (hstep : ∀ a b a', derives a b a' → neutral b → thread a' = thread a)
    (h : Descent derives first links last) (hneutral : ∀ link ∈ links, neutral link.1) :
    thread last = thread first := by
  induction h with
  | nil => rfl
  | @snoc links last next choice h hderives ih =>
    have hlinks : ∀ link ∈ links, neutral link.1 := by
      intro link hlink
      exact hneutral link (List.mem_append_left _ hlink)
    have hchoice : neutral choice := hneutral (choice, next) (by simp)
    exact (hstep _ _ _ hderives hchoice).trans (ih hlinks)

/-- The last item is the first, or derived from one that the descent leads to. -/
theorem Descent.last_derived (h : Descent derives first links last) (hne : links ≠ []) :
    ∃ before choice previous, links = before ++ [(choice, last)] ∧
      Descent derives first before previous ∧ derives previous choice last := by
  cases h with
  | nil => exact absurd rfl hne
  | snoc h hderives => exact ⟨_, _, _, rfl, h, hderives⟩

end Actorplane
