import Mathlib.Data.Nat.Notation
import Mathlib.Tactic.Common

/-!
# Computations with a state and an error

Combinators of `EStateM` that hand-written recursive readers and writers use,
with one rule each for what they do when they succeed, what they keep on every
outcome, and when two computations cannot be told apart.
-/

namespace Actorplane
namespace Stateful

variable {ε σ α β : Type}

/-- Refuse with `e` when `bad` holds. -/
def refuse (bad : Prop) [Decidable bad] (e : ε) : EStateM ε σ Unit :=
  if bad then throw e else pure ()

/-- The same computation with its error rewritten. -/
def mapError (f : ε → ε) (x : EStateM ε σ α) : EStateM ε σ α := fun s =>
  match x s with
  | .ok a s' => .ok a s'
  | .error e s' => .error (f e) s'

/-- `step` at the indexes from `index` on, `n` times. -/
def times (step : ℕ → EStateM ε σ α) : (n index : ℕ) → EStateM ε σ (List α)
  | 0, _ => pure []
  | n + 1, index => do
    let a ← step index
    let rest ← times step n (index + 1)
    pure (a :: rest)

/-- `step` on each member in turn, with its index. -/
def each (step : ℕ → α → EStateM ε σ Unit) : (xs : List α) → (index : ℕ) → EStateM ε σ Unit
  | [], _ => pure ()
  | x :: xs, index => do
    step index x
    each step xs (index + 1)

/-! ## Success -/

@[simp] theorem pure_returns {a b : α} {s s' : σ} :
    (pure a : EStateM ε σ α) s = .ok b s' ↔ b = a ∧ s' = s := by
  change EStateM.Result.ok a s = .ok b s' ↔ _
  simp only [EStateM.Result.ok.injEq, eq_comm]

theorem bind_returns {x : EStateM ε σ α} {f : α → EStateM ε σ β} {s s'' : σ} {b : β} :
    (x >>= f) s = .ok b s'' ↔ ∃ a s', x s = .ok a s' ∧ f a s' = .ok b s'' := by
  change EStateM.bind x f s = _ ↔ _
  unfold EStateM.bind
  cases x s <;> simp

theorem get_returns {s s' a : σ} : (get : EStateM ε σ σ) s = .ok a s' ↔ a = s ∧ s' = s := by
  change EStateM.Result.ok s s = .ok a s' ↔ _
  simp only [EStateM.Result.ok.injEq, eq_comm]

theorem modify_returns {f : σ → σ} {s s' : σ} {u : PUnit} :
    (modify f : EStateM ε σ PUnit) s = .ok u s' ↔ s' = f s := by
  change EStateM.Result.ok _ (f s) = .ok u s' ↔ _
  simp only [EStateM.Result.ok.injEq, true_and, eq_comm]

theorem refuse_returns {bad : Prop} [Decidable bad] {e : ε} {s s' : σ} {u : Unit} :
    refuse bad e s = .ok u s' ↔ ¬bad ∧ s' = s := by
  unfold refuse
  split
  next h =>
    change EStateM.Result.error e s = _ ↔ _
    simp [h]
  next h => simp [h]

theorem throw_returns {e : ε} {s s' : σ} {a : α} : (throw e : EStateM ε σ α) s = .ok a s' ↔ False := by
  change EStateM.Result.error e s = _ ↔ _
  simp

theorem mapError_returns {f : ε → ε} {x : EStateM ε σ α} {s s' : σ} {a : α} :
    mapError f x s = .ok a s' ↔ x s = .ok a s' := by
  unfold mapError
  cases x s <;> simp

/-- The same of a computation without a state. -/
theorem except_returns {x : Except ε α} {f : α → Except ε β} {b : β} :
    (x >>= f) = .ok b ↔ ∃ a, x = .ok a ∧ f a = .ok b := by
  cases x with
  | error e =>
    constructor
    · intro h
      cases h
    · rintro ⟨a, h, _⟩
      cases h
  | ok a =>
    constructor
    · intro h
      exact ⟨a, rfl, h⟩
    · rintro ⟨a', h, hf⟩
      cases h
      exact hf

/-! ## What every outcome keeps -/

/-- From states with `pre`, an ending in success has `post` and one in error has `err`. -/
def Meets (pre : σ → Prop) (x : EStateM ε σ α) (post : α → σ → Prop) (err : ε → σ → Prop) : Prop :=
  ∀ s, pre s → match x s with
    | .ok a s' => post a s'
    | .error e s' => err e s'

variable {pre : σ → Prop} {post : α → σ → Prop} {err : ε → σ → Prop}

theorem Meets.pure {a : α} (h : ∀ s, pre s → post a s) :
    Meets pre (pure a : EStateM ε σ α) post err := h

theorem Meets.throw {e : ε} (h : ∀ s, pre s → err e s) :
    Meets pre (throw e : EStateM ε σ α) post err := h

theorem Meets.modify {f : σ → σ} {post : PUnit → σ → Prop} (h : ∀ s, pre s → post ⟨⟩ (f s)) :
    Meets pre (modify f : EStateM ε σ PUnit) post err := h

theorem Meets.bind {x : EStateM ε σ α} {f : α → EStateM ε σ β} {post : β → σ → Prop}
    (mid : α → σ → Prop) (hx : Meets pre x mid err) (hf : ∀ a, Meets (mid a) (f a) post err) :
    Meets pre (x >>= f) post err := by
  intro s hs
  have first := hx s hs
  change match EStateM.bind x f s with
    | .ok a s' => post a s'
    | .error e s' => err e s'
  unfold EStateM.bind
  cases hr : x s with
  | ok a s' =>
    rw [hr] at first
    exact hf a s' first
  | error e s' =>
    rw [hr] at first
    exact first

/-- Past `get`, the value in hand is the state itself. -/
theorem Meets.get_bind {f : σ → EStateM ε σ β} {post : β → σ → Prop}
    (hf : ∀ a, Meets (fun s => s = a ∧ pre s) (f a) post err) : Meets pre (get >>= f) post err :=
  fun s hs => hf s s ⟨rfl, hs⟩

theorem Meets.weaken {x : EStateM ε σ α} {pre' : σ → Prop} {post' : α → σ → Prop}
    {err' : ε → σ → Prop} (hx : Meets pre x post err) (hpre : ∀ s, pre' s → pre s)
    (hpost : ∀ a s, post a s → post' a s) (herr : ∀ e s, err e s → err' e s) :
    Meets pre' x post' err' := by
  intro s hs
  have h := hx s (hpre s hs)
  cases hr : x s with
  | ok a s' =>
    rw [hr] at h
    exact hpost a s' h
  | error e s' =>
    rw [hr] at h
    exact herr e s' h

theorem Meets.refuse {bad : Prop} [Decidable bad] {e : ε} {post : Unit → σ → Prop}
    (hok : ¬bad → ∀ s, pre s → post () s) (herr : bad → ∀ s, pre s → err e s) :
    Meets pre (refuse bad e : EStateM ε σ Unit) post err := by
  unfold Stateful.refuse
  split
  next h => exact Meets.throw (herr h)
  next h => exact Meets.pure (hok h)

theorem Meets.mapError {f : ε → ε} {x : EStateM ε σ α} (hx : Meets pre x post fun e s => err (f e) s) :
    Meets pre (mapError f x) post err := by
  intro s hs
  have h := hx s hs
  unfold Stateful.mapError
  cases hr : x s with
  | ok a s' =>
    rw [hr] at h
    exact h
  | error e s' =>
    rw [hr] at h
    exact h

/-- Induction on the number of rounds, with an invariant of the state. -/
theorem Meets.times {step : ℕ → EStateM ε σ α} {inv : σ → Prop}
    (h : ∀ i, Meets inv (step i) (fun _ => inv) err) (n index : ℕ) :
    Meets inv (times step n index) (fun _ => inv) err := by
  induction n generalizing index with
  | zero => exact Meets.pure fun s hs => hs
  | succ n ih =>
    apply Meets.bind (fun _ => inv) (h index)
    intro a
    apply Meets.bind (fun _ => inv) (ih (index + 1))
    intro rest
    exact Meets.pure fun s hs => hs

theorem Meets.each {step : ℕ → α → EStateM ε σ Unit} {inv : σ → Prop} {xs : List α}
    (h : ∀ i, ∀ x ∈ xs, Meets inv (step i x) (fun _ => inv) err) (index : ℕ) :
    Meets inv (each step xs index) (fun _ => inv) err := by
  induction xs generalizing index with
  | nil => exact Meets.pure fun s hs => hs
  | cons x xs ih =>
    apply Meets.bind (fun _ => inv) (h index x List.mem_cons_self)
    intro _
    exact ih (fun i y hy => h i y (List.mem_cons_of_mem x hy)) (index + 1)

/-! ## Computations that cannot be told apart -/

/-- Both succeed or both fail with one error, and both leave the same state. -/
def Alike (x : EStateM ε σ α) (y : EStateM ε σ β) : Prop :=
  ∀ s, match x s, y s with
    | .ok _ s', .ok _ s'' => s' = s''
    | .error e s', .error e' s'' => e = e' ∧ s' = s''
    | _, _ => False

theorem Alike.refl (x : EStateM ε σ α) : Alike x x := by
  intro s
  cases h : x s <;> simp

theorem Alike.pure (a : α) (b : β) : Alike (pure a : EStateM ε σ α) (pure b : EStateM ε σ β) :=
  fun _ => rfl

theorem Alike.bind {α' β' : Type} {x : EStateM ε σ α} {y : EStateM ε σ β}
    {f : α → EStateM ε σ α'} {g : β → EStateM ε σ β'} (h : Alike x y)
    (hf : ∀ a b, Alike (f a) (g b)) : Alike (x >>= f) (y >>= g) := by
  intro s
  have hs := h s
  change match EStateM.bind x f s, EStateM.bind y g s with
    | .ok _ s', .ok _ s'' => s' = s''
    | .error e s', .error e' s'' => e = e' ∧ s' = s''
    | _, _ => False
  unfold EStateM.bind
  cases hx : x s with
  | ok a s' =>
    cases hy : y s with
    | ok b s'' =>
      rw [hx, hy] at hs
      cases hs
      exact hf a b s'
    | error e s'' => rw [hx, hy] at hs; exact hs.elim
  | error e s' =>
    cases hy : y s with
    | ok b s'' => rw [hx, hy] at hs; exact hs.elim
    | error e' s'' => rw [hx, hy] at hs; exact hs

/-- The same first step, whose value both sides may use. -/
theorem Alike.bind_same {α' β' : Type} (x : EStateM ε σ α) {f : α → EStateM ε σ α'}
    {g : α → EStateM ε σ β'} (hf : ∀ a, Alike (f a) (g a)) : Alike (x >>= f) (x >>= g) := by
  intro s
  change match EStateM.bind x f s, EStateM.bind x g s with
    | .ok _ s', .ok _ s'' => s' = s''
    | .error e s', .error e' s'' => e = e' ∧ s' = s''
    | _, _ => False
  unfold EStateM.bind
  cases x s with
  | ok a s' => exact hf a s'
  | error e s' => exact ⟨rfl, rfl⟩

theorem Alike.mapError {f : ε → ε} {x : EStateM ε σ α} {y : EStateM ε σ β} (h : Alike x y) :
    Alike (mapError f x) (mapError f y) := by
  intro s
  have hs := h s
  unfold Stateful.mapError
  cases hx : x s <;> cases hy : y s <;> rw [hx, hy] at hs <;> simp_all

theorem Alike.times {x : ℕ → EStateM ε σ α} {y : ℕ → EStateM ε σ β} (h : ∀ i, Alike (x i) (y i))
    (n index : ℕ) : Alike (times x n index) (times y n index) := by
  induction n generalizing index with
  | zero => exact Alike.pure [] []
  | succ n ih =>
    apply Alike.bind (h index)
    intro a b
    apply Alike.bind (ih (index + 1))
    intro as bs
    exact Alike.pure _ _

end Stateful
end Actorplane
