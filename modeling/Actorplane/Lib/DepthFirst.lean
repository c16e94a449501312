import Mathlib.Data.List.Nodup
import Mathlib.Data.List.Perm.Subperm
import Mathlib.Logic.Relation
import Mathlib.Tactic

/-!
# Depth-first ordering with refusals

A depth-first sort that may refuse a node when it is entered or left, and an
edge before or after it is followed. The recursion is bounded by a number of
nested calls. On a finite set of nodes that accepted edges do not leave, a bound
above the number of nodes is never met, an error names a flaw of the graph, and
an order that is returned lists every node after the nodes it points to.
-/

namespace Actorplane

/-! ## Answers of fallible computations -/

section Answers

variable {ε α β : Type}

/-- The value satisfies `P`, or the error satisfies `Q`. -/
def Answers (P : α → Prop) (Q : ε → Prop) : Except ε α → Prop
  | .ok a => P a
  | .error e => Q e

theorem Answers.bind {P : α → Prop} {P' : β → Prop} {Q : ε → Prop} {x : Except ε α}
    {f : α → Except ε β} (hx : Answers P Q x) (hf : ∀ a, P a → Answers P' Q (f a)) :
    Answers P' Q (x >>= f) := by
  cases x with
  | ok a => exact hf a hx
  | error e => exact hx

theorem Answers.mono {P P' : α → Prop} {Q Q' : ε → Prop} {x : Except ε α} (hx : Answers P Q x)
    (hP : ∀ a, P a → P' a) (hQ : ∀ e, Q e → Q' e) : Answers P' Q' x := by
  cases x with
  | ok a => exact hP a hx
  | error e => exact hQ e hx

theorem Answers.self (x : Except ε α) :
    Answers (fun a => x = .ok a) (fun e => x = .error e) x := by
  cases x <;> rfl

/-- A loop keeps an invariant of the items done so far. -/
theorem Answers.foldlM {step : β → α → Except ε β} {Q : ε → Prop} (I : List α → β → Prop)
    (done : List α) {rest : List α} {b : β} (h : I done b)
    (hstep : ∀ done a b, a ∈ rest → I done b → Answers (I (done ++ [a])) Q (step b a)) :
    Answers (I (done ++ rest)) Q (rest.foldlM step b) := by
  induction rest generalizing done b with
  | nil =>
    rw [List.append_nil]
    exact h
  | cons a rest ih =>
    rw [List.foldlM_cons]
    apply (hstep done a b List.mem_cons_self h).bind
    intro b' hb'
    have := ih (done ++ [a]) hb' fun done a b ha hb =>
      hstep done a b (List.mem_cons_of_mem _ ha) hb
    simpa using this

end Answers

/-! ## The sort -/

structure DepthFirst (α ε : Type) where
  enter : α → Except ε Unit
  edges : α → List α
  follow : α → Except ε Unit
  back : α → Except ε Unit
  leave : α → Except ε Unit
  cyclic : ε
  exhausted : ε

namespace DepthFirst

variable {α ε : Type} [DecidableEq α]

/-- The nodes entered and not left, and the nodes left in that order. -/
structure Trace (α : Type) where
  visiting : List α
  done : List α

def visit (g : DepthFirst α ε) : ℕ → Trace α → α → Except ε (Trace α)
  | 0, _, _ => .error g.exhausted
  | depth + 1, t, n =>
    if n ∈ t.visiting then .error g.cyclic
    else if n ∈ t.done then .ok t
    else do
      g.enter n
      let t ← (g.edges n).foldlM (fun t m => do
        g.follow m
        let t ← g.visit depth t m
        g.back m
        return t) { t with visiting := n :: t.visiting }
      g.leave n
      return { visiting := t.visiting.erase n, done := t.done ++ [n] }

def sort (g : DepthFirst α ε) (depth : ℕ) (nodes : List α) : Except ε (List α) := do
  let t ← nodes.foldlM (g.visit depth) { visiting := [], done := [] }
  return t.done

/-! ## Correctness -/

variable (g : DepthFirst α ε)

def Edge (n m : α) : Prop := m ∈ g.edges n

/-- Nothing about the node is refused. -/
structure Clean (n : α) : Prop where
  enter : g.enter n = .ok ()
  follow : ∀ m ∈ g.edges n, g.follow m = .ok ()
  back : ∀ m ∈ g.edges n, g.back m = .ok ()
  leave : g.leave n = .ok ()

/-- A flaw of one of the nodes, with the error that reports it. -/
inductive Flaw (nodes : List α) : ε → Prop
  | enter {n e} : n ∈ nodes → g.enter n = .error e → Flaw nodes e
  | follow {n m e} : n ∈ nodes → g.Edge n m → g.follow m = .error e → Flaw nodes e
  | back {n m e} : n ∈ nodes → g.Edge n m → m ∈ nodes → g.back m = .error e → Flaw nodes e
  | leave {n e} : n ∈ nodes → g.leave n = .error e → Flaw nodes e
  | cyclic {n} : n ∈ nodes → Relation.TransGen g.Edge n n → Flaw nodes g.cyclic

/-- Every node of the list is clean and comes after the nodes it points to. -/
def Ordered (l : List α) : Prop :=
  ∀ pre n post, l = pre ++ n :: post → g.Clean n ∧ ∀ m, g.Edge n m → m ∈ pre

variable {g}

omit [DecidableEq α] in
theorem Ordered.append {l : List α} {n : α} (h : g.Ordered l) (hn : g.Clean n)
    (hedges : ∀ m, g.Edge n m → m ∈ l) : g.Ordered (l ++ [n]) := by
  intro pre n' post heq
  rcases List.append_eq_append_iff.mp heq with ⟨as, hpre, hrest⟩ | ⟨bs, hl, hrest⟩
  · cases as with
    | nil =>
      obtain ⟨rfl, rfl⟩ : n = n' ∧ [] = post := by simpa using hrest
      exact ⟨hn, by simpa [hpre] using hedges⟩
    | cons a as => simp at hrest
  · cases bs with
    | nil =>
      obtain ⟨rfl, rfl⟩ : n' = n ∧ post = [] := by simpa using hrest
      exact ⟨hn, by simpa [hl] using hedges⟩
    | cons b bs =>
      obtain ⟨rfl, rfl⟩ : n' = b ∧ post = bs ++ [n] := by simpa using hrest
      exact h pre n' bs hl

/-- Along an edge the position in the order decreases. -/
theorem Ordered.idxOf_lt {l : List α} (h : g.Ordered l) (hl : l.Nodup) {n m : α} (hn : n ∈ l)
    (he : g.Edge n m) : m ∈ l ∧ l.idxOf m < l.idxOf n := by
  obtain ⟨pre, post, rfl⟩ := List.append_of_mem hn
  have hm : m ∈ pre := (h pre n post rfl).2 m he
  have hfresh : n ∉ pre := fun hmem =>
    (List.nodup_append.mp hl).2.2 n hmem n List.mem_cons_self rfl
  refine ⟨by simp [hm], ?_⟩
  rw [List.idxOf_append_of_mem hm, List.idxOf_append_of_notMem hfresh]
  have := List.idxOf_lt_length_of_mem hm
  omega

theorem Ordered.path_lt {l : List α} (h : g.Ordered l) (hl : l.Nodup) {n m : α} (hn : n ∈ l)
    (hp : Relation.TransGen g.Edge n m) : m ∈ l ∧ l.idxOf m < l.idxOf n := by
  induction hp with
  | single he => exact h.idxOf_lt hl hn he
  | tail _ he ih =>
    have := h.idxOf_lt hl ih.1 he
    exact ⟨this.1, this.2.trans ih.2⟩

theorem Ordered.no_flaw {l : List α} (h : g.Ordered l) (hl : l.Nodup) (e : ε) :
    ¬g.Flaw l e := by
  have clean : ∀ n ∈ l, g.Clean n := by
    intro n hn
    obtain ⟨pre, post, rfl⟩ := List.append_of_mem hn
    exact (h pre n post rfl).1
  intro flaw
  cases flaw with
  | enter hn he => simp [(clean _ hn).enter] at he
  | follow hn hm he => simp [(clean _ hn).follow _ hm] at he
  | back hn hm _ he => simp [(clean _ hn).back _ hm] at he
  | leave hn he => simp [(clean _ hn).leave] at he
  | cyclic hn hp => exact lt_irrefl _ (h.path_lt hl hn hp).2

/-! ### One visit -/

/-- What holds of the trace between two calls. -/
structure Trace.Sound (g : DepthFirst α ε) (nodes : List α) (t : Trace α) : Prop where
  distinct : (t.visiting ++ t.done).Nodup
  inside : ∀ n ∈ t.visiting ++ t.done, n ∈ nodes
  ordered : g.Ordered t.done

/-- What a call that returns has done: the same nodes are open, and more are done. -/
structure Trace.Grown (g : DepthFirst α ε) (nodes : List α) (t t' : Trace α) : Prop where
  sound : t'.Sound g nodes
  visiting : t'.visiting = t.visiting
  done : t.done ⊆ t'.done

omit [DecidableEq α] in
theorem Trace.Grown.trans {nodes : List α} {t t' t'' : Trace α} (h : t.Grown g nodes t')
    (h' : t'.Grown g nodes t'') : t.Grown g nodes t'' where
  sound := h'.sound
  visiting := h'.visiting.trans h.visiting
  done := fun _ hm => h'.done (h.done hm)

omit [DecidableEq α] in
theorem Trace.Sound.length_le {nodes : List α} {t : Trace α} (h : t.Sound g nodes) :
    t.visiting.length ≤ nodes.length := by
  apply List.Subperm.length_le
  apply List.Nodup.subperm (List.nodup_append.mp h.distinct).1
  intro n hn
  exact h.inside n (List.mem_append_left _ hn)

omit [DecidableEq α] in
/-- The node is open while its edges are followed. -/
theorem Trace.Sound.push {nodes : List α} {t : Trace α} {n : α} (h : t.Sound g nodes)
    (hn : n ∈ nodes) (hv : n ∉ t.visiting) (hd : n ∉ t.done) :
    Trace.Sound g nodes { t with visiting := n :: t.visiting } where
  distinct := by simpa [hv, hd] using h.distinct
  inside := by
    intro m hm
    rcases List.mem_cons.mp hm with rfl | hm
    · exact hn
    · exact h.inside m hm
  ordered := h.ordered

/-- The node is closed once the nodes it points to are done. -/
theorem Trace.Sound.pop {nodes : List α} {t t' : Trace α} {n : α}
    (h : Trace.Grown g nodes { t with visiting := n :: t.visiting } t') (hclean : g.Clean n)
    (hedges : ∀ m, g.Edge n m → m ∈ t'.done) :
    Trace.Grown g nodes t { visiting := t'.visiting.erase n, done := t'.done ++ [n] } where
  sound :=
    { distinct := by
        have := h.sound.distinct
        rw [h.visiting] at this
        rw [h.visiting, List.erase_cons_head, ← List.append_assoc]
        exact List.nodup_append_comm.mp (by simpa using this)
      inside := by
        intro m hm
        apply h.sound.inside m
        rw [h.visiting, List.erase_cons_head] at hm
        rw [h.visiting]
        simp only [List.mem_append, List.mem_cons] at hm ⊢
        tauto
      ordered := h.sound.ordered.append hclean hedges }
  visiting := by simp [h.visiting]
  done := fun m hm => List.mem_append_left _ (h.done hm)

theorem visit_answers {nodes : List α}
    (hclosed : ∀ n ∈ nodes, ∀ m, g.Edge n m → g.follow m = .ok () → m ∈ nodes) (depth : ℕ) :
    ∀ (t : Trace α) (n : α), t.Sound g nodes → n ∈ nodes →
      (∀ m ∈ t.visiting, Relation.TransGen g.Edge m n) →
      nodes.length < depth + t.visiting.length →
      Answers (fun t' => t.Grown g nodes t' ∧ n ∈ t'.done) (g.Flaw nodes) (g.visit depth t n) := by
  induction depth with
  | zero =>
    intro t n h _ _ hdepth
    have := h.length_le
    omega
  | succ depth ih =>
    intro t n h hn hpath hdepth
    rw [visit]
    split_ifs with hv hd
    · exact .cyclic hn (hpath n hv)
    · exact ⟨⟨h, rfl, fun _ hm => hm⟩, hd⟩
    have hpush := h.push hn hv hd
    apply ((Answers.self (g.enter n)).mono (fun _ => id) fun e => Flaw.enter hn).bind
    intro _ henter
    -- The nodes followed so far are accepted and done.
    let I (followed : List α) (t' : Trace α) : Prop :=
      Trace.Grown g nodes { t with visiting := n :: t.visiting } t' ∧
        ∀ m ∈ followed, g.follow m = .ok () ∧ g.back m = .ok () ∧ m ∈ t'.done
    have hloop : Answers (I (g.edges n)) (g.Flaw nodes) ((g.edges n).foldlM (fun t m => do
        g.follow m
        let t ← g.visit depth t m
        g.back m
        return t) { t with visiting := n :: t.visiting }) := by
      apply Answers.foldlM I [] ⟨⟨hpush, rfl, fun _ hm => hm⟩, by simp⟩
      intro followed m t' hm ⟨hgrown, hfollowed⟩
      apply ((Answers.self (g.follow m)).mono (fun _ => id) fun e => Flaw.follow hn hm).bind
      intro _ hfollow
      have hm' : m ∈ nodes := hclosed n hn m hm hfollow
      have hpath' : ∀ k ∈ t'.visiting, Relation.TransGen g.Edge k m := by
        intro k hk
        rw [hgrown.visiting] at hk
        rcases List.mem_cons.mp hk with rfl | hk
        · exact .single hm
        · exact (hpath k hk).tail hm
      apply (ih t' m hgrown.sound hm' hpath' (by simp [hgrown.visiting]; omega)).bind
      intro t'' ⟨hgrown', hdone⟩
      apply ((Answers.self (g.back m)).mono (fun _ => id) fun e => Flaw.back hn hm hm').bind
      intro _ hback
      refine ⟨hgrown.trans hgrown', ?_⟩
      intro k hk
      rcases List.mem_append.mp hk with hk | hk
      · have := hfollowed k hk
        exact ⟨this.1, this.2.1, hgrown'.done this.2.2⟩
      · obtain rfl : k = m := by simpa using hk
        exact ⟨hfollow, hback, hdone⟩
    apply hloop.bind
    intro t' ⟨hgrown, hfollowed⟩
    apply ((Answers.self (g.leave n)).mono (fun _ => id) fun e => Flaw.leave hn).bind
    intro _ hleave
    have hclean : g.Clean n :=
      ⟨henter, fun m hm => (hfollowed m hm).1, fun m hm => (hfollowed m hm).2.1, hleave⟩
    exact ⟨Trace.Sound.pop hgrown hclean fun m hm => (hfollowed m hm).2.2, by simp⟩

/-- A sort of the nodes lists them all in an order that respects the edges, or its error
reports a flaw. -/
theorem sort_answers {nodes : List α} (hnodes : nodes.Nodup)
    (hclosed : ∀ n ∈ nodes, ∀ m, g.Edge n m → g.follow m = .ok () → m ∈ nodes) {depth : ℕ}
    (hdepth : nodes.length < depth) :
    Answers (fun l => l.Perm nodes ∧ g.Ordered l) (g.Flaw nodes) (g.sort depth nodes) := by
  let I (visited : List α) (t : Trace α) : Prop :=
    Trace.Grown g nodes { visiting := [], done := [] } t ∧ ∀ n ∈ visited, n ∈ t.done
  have hloop : Answers (I nodes) (g.Flaw nodes)
      (nodes.foldlM (g.visit depth) { visiting := [], done := [] }) := by
    apply Answers.foldlM I []
    · refine ⟨⟨⟨by simp, by simp, ?_⟩, rfl, fun _ hm => hm⟩, by simp⟩
      intro pre n post heq
      simp at heq
    intro visited n t hn ⟨hgrown, hvisited⟩
    have hempty : t.visiting = [] := hgrown.visiting
    apply (visit_answers hclosed depth t n hgrown.sound hn (by simp [hempty])
      (by simp [hempty, hdepth])).mono _ fun _ => id
    intro t' ⟨hgrown', hdone⟩
    refine ⟨hgrown.trans hgrown', ?_⟩
    intro m hm
    rcases List.mem_append.mp hm with hm | hm
    · exact hgrown'.done (hvisited m hm)
    · obtain rfl : m = n := by simpa using hm
      exact hdone
  apply hloop.bind
  intro t ⟨hgrown, hall⟩
  have hdistinct : t.done.Nodup := (List.nodup_append.mp hgrown.sound.distinct).2.1
  refine ⟨(List.perm_ext_iff_of_nodup hdistinct hnodes).mpr fun n => ⟨fun hn => ?_, hall n⟩,
    hgrown.sound.ordered⟩
  exact hgrown.sound.inside n (List.mem_append_right _ hn)

omit [DecidableEq α] in
theorem Flaw.perm {l l' : List α} {e : ε} (h : g.Flaw l e) (hl : l.Perm l') : g.Flaw l' e := by
  cases h with
  | enter hn he => exact .enter (hl.mem_iff.mp hn) he
  | follow hn hm he => exact .follow (hl.mem_iff.mp hn) hm he
  | back hn hm hm' he => exact .back (hl.mem_iff.mp hn) hm (hl.mem_iff.mp hm') he
  | leave hn he => exact .leave (hl.mem_iff.mp hn) he
  | cyclic hn hp => exact .cyclic (hl.mem_iff.mp hn) hp

end DepthFirst

end Actorplane
