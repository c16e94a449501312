import Mathlib.Data.List.Nodup
import Mathlib.Data.List.Perm.Subperm
import Mathlib.Logic.Relation
import Mathlib.Tactic

/-!
# Walking a forest with a stack

A walk takes a node from a stack and pushes its children. Where no node has two
parents, it visits what lies below its root, every node once, and never needs more
steps than there are nodes.
-/

namespace Actorplane

namespace Forest

variable {α : Type*} {children : α → List α} {root a b : α} {visited stack : List α} {fuel : ℕ}

/-- The nodes of a stack and below them, in the order of the walk; none when the fuel ends first. -/
def walk (children : α → List α) : ℕ → List α → Option (List α)
  | _, [] => some []
  | 0, _ :: _ => none
  | fuel + 1, a :: stack => (walk children fuel ((children a).reverse ++ stack)).map (a :: ·)

/-- The second node is the first, or lies below it. -/
def Under (children : α → List α) : α → α → Prop :=
  Relation.ReflTransGen fun a b => b ∈ children a

/-- What lies below the root is a tree. -/
structure Tree (children : α → List α) (root : α) : Prop where
  nodup : ∀ a, Under children root a → (children a).Nodup
  parent : ∀ a b c, Under children root a → Under children root b → c ∈ children a →
    c ∈ children b → a = b
  root : ∀ a, Under children root a → root ∉ children a

/-- A walk on its way: what was visited, and the stack of what is left to visit. -/
structure Walking (children : α → List α) (root : α) (visited stack : List α) : Prop where
  nodup : (visited ++ stack).Nodup
  begun : root ∈ visited ++ stack
  under : ∀ a ∈ visited ++ stack, Under children root a
  closed : ∀ a ∈ visited, ∀ b ∈ children a, b ∈ visited ++ stack
  pushed : ∀ b ∈ visited ++ stack, b = root ∨ ∃ a ∈ visited, b ∈ children a

theorem Walking.start (children : α → List α) (root : α) : Walking children root [] [root] where
  nodup := List.nodup_singleton root
  begun := List.mem_singleton_self root
  under := by
    intro a mem
    rw [List.mem_singleton.mp mem]
    exact Relation.ReflTransGen.refl
  closed := by
    intro a mem
    exact absurd mem List.not_mem_nil
  pushed := fun b mem => .inl (List.mem_singleton.mp mem)

/-- Nobody has pushed the children of a node that is still on the stack. -/
theorem Walking.fresh (h : Walking children root visited (a :: stack)) (ht : Tree children root)
    (hb : b ∈ children a) : b ∉ visited ++ a :: stack := by
  have below : Under children root a := h.under a (by simp)
  intro mem
  obtain rfl | ⟨p, before, child⟩ := h.pushed b mem
  · exact ht.root a below hb
  · have same := ht.parent p a b (h.under p (by simp [before])) below child hb
    have apart := (List.nodup_append.mp h.nodup).2.2
    exact apart p before a List.mem_cons_self same

theorem Walking.step (h : Walking children root visited (a :: stack)) (ht : Tree children root) :
    Walking children root (visited ++ [a]) ((children a).reverse ++ stack) := by
  have below : Under children root a := h.under a (by simp)
  have here : ∀ b, b ∈ visited ++ [a] ++ ((children a).reverse ++ stack) ↔
      b ∈ visited ++ a :: stack ∨ b ∈ children a := by
    intro b
    simp only [List.mem_append, List.mem_reverse, List.mem_cons]
    tauto
  have order : (visited ++ [a] ++ ((children a).reverse ++ stack)).Perm
      ((visited ++ a :: stack) ++ children a) := by
    have turned : ((children a).reverse ++ stack).Perm (stack ++ children a) :=
      List.perm_append_comm.trans ((List.reverse_perm _).append_left stack)
    simpa using turned.append_left (visited ++ [a])
  refine ⟨?_, ?_, ?_, ?_, ?_⟩
  · rw [order.nodup_iff]
    refine List.nodup_append.mpr ⟨h.nodup, ht.nodup a below, ?_⟩
    rintro b mem c child rfl
    exact h.fresh ht child mem
  · exact (here root).mpr (.inl h.begun)
  · intro b mem
    obtain old | child := (here b).mp mem
    · exact h.under b old
    · exact below.tail child
  · intro p mem b child
    rw [here]
    obtain before | same := List.mem_append.mp mem
    · exact .inl (h.closed p before b child)
    · rw [List.mem_singleton.mp same] at child
      exact .inr child
  · intro b mem
    obtain old | child := (here b).mp mem
    · obtain same | ⟨p, before, child⟩ := h.pushed b old
      · exact .inl same
      · exact .inr ⟨p, by simp [before], child⟩
    · exact .inr ⟨a, by simp, child⟩

/-- When nothing is left to visit, everything below the root was visited. -/
theorem Walking.finished (h : Walking children root visited []) (b : α) :
    b ∈ visited ↔ Under children root b := by
  constructor
  · intro mem
    exact h.under b (by simpa using mem)
  · intro below
    induction below with
    | refl => simpa using h.begun
    | tail _ child ih => simpa using h.closed _ ih _ child

theorem Walking.walk {nodes : List α} (h : Walking children root visited stack)
    (ht : Tree children root) (hn : ∀ b, Under children root b → b ∈ nodes)
    (hf : nodes.length ≤ visited.length + fuel) :
    ∃ l, walk children fuel stack = some l ∧ Walking children root (visited ++ l) [] := by
  induction fuel generalizing visited stack with
  | zero =>
    cases stack with
    | nil => exact ⟨[], rfl, by simpa using h⟩
    | cons a stack =>
      have among : visited ++ a :: stack ⊆ nodes := fun b mem => hn b (h.under b mem)
      have few := (h.nodup.subperm among).length_le
      simp only [List.length_append, List.length_cons] at few
      omega
  | succ fuel ih =>
    cases stack with
    | nil => exact ⟨[], rfl, by simpa using h⟩
    | cons a stack =>
      have room : nodes.length ≤ (visited ++ [a]).length + fuel := by
        simp only [List.length_append, List.length_singleton]
        omega
      obtain ⟨l, walked, done⟩ := ih (h.step ht) room
      refine ⟨a :: l, ?_, by simpa using done⟩
      show (Forest.walk children fuel ((children a).reverse ++ stack)).map (a :: ·) = _
      rw [walked]
      rfl

/-- A walk with fuel for every node visits each node below its root once. -/
theorem walk_exact {nodes : List α} (ht : Tree children root)
    (hn : ∀ b, Under children root b → b ∈ nodes) (hf : nodes.length ≤ fuel) :
    ∃ l, walk children fuel [root] = some l ∧ l.Nodup ∧ ∀ b, b ∈ l ↔ Under children root b := by
  obtain ⟨l, walked, done⟩ := (Walking.start children root).walk ht hn (by simpa using hf)
  exact ⟨l, walked, by simpa using done.nodup, done.finished⟩

end Forest

end Actorplane
