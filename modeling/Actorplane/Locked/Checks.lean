import Actorplane.Core.Fencing

/-!
# Checks under the World lock

References are accepted exactly when they are seated, the execution state of a
seated actor is always defined, and the functions that only touch observers or
indexes outside the core do not change it.
-/

namespace Actorplane

namespace World

variable {w : World} {st : State} {r p : ActorRef} {a : Actor} {n : Node} {l : List ActorRef}

/-! ## References -/

theorem checkRef_slotted
    (ho : ∀ (i : ℕ) (n : Node), st.core.nodes[i]? = some n →
      n.reference.world = w.id ∧ n.reference.slot = i) :
    w.checkRef r st = .ok a ↔ st.actors[r.slot]? = some a ∧ a.reference = r := by
  unfold checkRef
  by_cases hw : r.world = w.id
  · rcases ha : st.actors[r.slot]? with - | x
    · simp [hw]
    · obtain ⟨h1, h2⟩ := ho r.slot x.node (State.core_nodes_get ha)
      have h1 : x.reference.world = w.id := h1
      have h2 : x.reference.slot = r.slot := h2
      by_cases hg : x.reference.generation = r.generation
      · have hr : x.reference = r := by
          rcases hx : x.reference with ⟨a1, a2, a3⟩
          rcases r with ⟨b1, b2, b3⟩
          simp_all
        simp only [hw, ne_eq, not_true_eq_false, if_false, hg, Except.ok.injEq, Option.some.injEq]
        constructor
        · rintro rfl
          exact ⟨rfl, hr⟩
        · exact fun h => h.1
      · have hr : x.reference ≠ r := fun h => hg (h ▸ rfl)
        simp only [hw, ne_eq, not_true_eq_false, if_false, hg, not_false_eq_true, if_true,
          reduceCtorEq, Option.some.injEq, false_iff, not_and]
        rintro rfl
        exact hr
  · simp only [ne_eq, hw, not_false_eq_true, if_true, reduceCtorEq, false_iff, not_and]
    rintro ha rfl
    exact hw (ho _ _ (State.core_nodes_get ha)).1

theorem checkRef_ok (ho : st.core.Owned w.id) :
    w.checkRef r st = .ok a ↔ st.actors[r.slot]? = some a ∧ a.reference = r :=
  checkRef_slotted ho.slotted

theorem seated_of_check (ho : st.core.Owned w.id) (h : w.checkRef r st = .ok a) :
    Seated st.core.nodes r a.node := by
  obtain ⟨h1, h2⟩ := (checkRef_ok ho).mp h
  exact ⟨State.core_nodes_get h1, h2⟩

theorem check_of_seated (ho : st.core.Owned w.id) (h : Seated st.core.nodes r n) :
    ∃ a, w.checkRef r st = .ok a ∧ st.actors[r.slot]? = some a ∧ a.node = n := by
  obtain ⟨a, ha, rfl⟩ := State.actors_get_of_node h.1
  exact ⟨a, (checkRef_ok ho).mpr ⟨ha, h.2⟩, ha, rfl⟩

/-- The check reads only which actor sits in which slot. -/
theorem checkRef_error {e : Error} (ho : st.core.Owned w.id) (h : w.checkRef r st = .error e) :
    ∀ n, ¬Seated st.core.nodes r n := by
  intro n hn
  obtain ⟨a, ha, -⟩ := check_of_seated ho hn
  simp [ha] at h

/-! ## Execution state -/

/-- An actor on the path has the state. -/
def OnPath (nodes : List Node) (l : List ActorRef) (s : Lifecycle) : Prop :=
  ∃ x ∈ l, ∃ k, Seated nodes x k ∧ k.state = s

/-- What the walk up the ancestors computes for an actor that is not stopping. -/
theorem executionWalk_eq (ho : st.core.Owned w.id) (hl : Lineage st.core.nodes r l)
    (ha : Seated st.core.nodes r a.node) (hs : a.state ≠ .stopping) (hs' : a.state ≠ .stopped)
    {fuel : ℕ} (hf : l.length ≤ fuel) (starting quiescing : Bool) :
    ∃ s, w.executionWalk st fuel a starting quiescing = .ok s ∧
      (s = .quiescing ∧ (quiescing = true ∨ OnPath st.core.nodes l .quiescing) ∨
        s = .starting ∧ quiescing = false ∧ ¬OnPath st.core.nodes l .quiescing ∧
          (starting = true ∨ OnPath st.core.nodes l .starting) ∨
        s = .active ∧ quiescing = false ∧ starting = false ∧
          ∀ x ∈ l, ∃ k, Seated st.core.nodes x k ∧ k.state = .active) := by
  induction hl generalizing a fuel starting quiescing with
  | @root r n hn hp =>
    obtain ⟨fuel, rfl⟩ : ∃ k, fuel = k + 1 := ⟨fuel - 1, by simp at hf; omega⟩
    have hpar : a.parent = none := (ha.unique hn ▸ hp : a.node.parent = none)
    have hpath : ∀ s, OnPath st.core.nodes [r] s ↔ a.state = s := by
      intro s
      constructor
      · rintro ⟨x, hx, k, hk, rfl⟩
        rw [List.mem_singleton.mp hx] at hk
        rw [hk.unique ha]
        rfl
      · exact fun h => ⟨r, by simp, a.node, ha, h⟩
    have hall : (∀ x ∈ [r], ∃ k, Seated st.core.nodes x k ∧ k.state = .active) ↔
        a.state = .active := by
      constructor
      · intro h
        obtain ⟨k, hk, hks⟩ := h r (by simp)
        rw [← hks, hk.unique ha]
        rfl
      · rintro h x hx
        rw [List.mem_singleton.mp hx]
        exact ⟨a.node, ha, h⟩
    simp only [executionWalk, hs, hs', or_self, if_false, hpar, hpath, hall]
    cases hst : a.state <;> cases quiescing <;> cases starting <;> simp_all
  | @child r n p l hn hp hl ih =>
    obtain ⟨fuel, rfl⟩ : ∃ k, fuel = k + 1 := ⟨fuel - 1, by simp at hf; omega⟩
    have hpar : a.parent = some p := (ha.unique hn ▸ hp : a.node.parent = some p)
    obtain ⟨m, hm, hms, hb⟩ := ho.parent r a.node p ha hs' hpar
    obtain ⟨x, hx, -, rfl⟩ := check_of_seated ho hm
    have hxs : x.state ≠ .stopping := fun he => hs (hb.1 he)
    have hpath : ∀ s, OnPath st.core.nodes (r :: l) s ↔ a.state = s ∨ OnPath st.core.nodes l s := by
      intro s
      constructor
      · rintro ⟨y, hy, k, hk, rfl⟩
        rcases List.mem_cons.mp hy with rfl | hy
        · left
          rw [hk.unique ha]
          rfl
        · exact .inr ⟨y, hy, k, hk, rfl⟩
      · rintro (h | ⟨y, hy, k, hk, rfl⟩)
        · exact ⟨r, by simp, a.node, ha, h⟩
        · exact ⟨y, by simp [hy], k, hk, rfl⟩
    have hall : (∀ y ∈ r :: l, ∃ k, Seated st.core.nodes y k ∧ k.state = .active) ↔
        a.state = .active ∧ ∀ y ∈ l, ∃ k, Seated st.core.nodes y k ∧ k.state = .active := by
      rw [List.forall_mem_cons]
      refine and_congr_left fun _ => ⟨?_, fun h => ⟨a.node, ha, h⟩⟩
      rintro ⟨k, hk, hks⟩
      rw [← hks, hk.unique ha]
      rfl
    obtain ⟨s, hwalk, hcases⟩ := ih hm hxs hms (show l.length ≤ fuel by simpa using hf)
      (starting || decide (a.state = .starting)) (quiescing || decide (a.state = .quiescing))
    refine ⟨s, ?_, ?_⟩
    · simp only [executionWalk, hs, hs', or_self, if_false, hpar, hx]
      exact hwalk
    · simp only [hpath, hall]
      cases hst : a.state <;> cases quiescing <;> cases starting <;> simp_all

/-- The effective state of a seated actor. -/
inductive Effective (nodes : List Node) (r : ActorRef) (n : Node) : Lifecycle → Prop
  | ended : n.state = .stopping ∨ n.state = .stopped → Effective nodes r n .stopping
  | quiescing : n.state = .quiescing → Effective nodes r n .quiescing
  | starting (l : List ActorRef) : n.state = .starting ∨ n.state = .active →
      Lineage nodes r l → OnPath nodes l .starting → Effective nodes r n .starting
  | active (l : List ActorRef) : n.state = .active → Lineage nodes r l →
      (∀ x ∈ l, ∃ k, Seated nodes x k ∧ k.state = .active) → Effective nodes r n .active

theorem execution_spec (ho : st.core.Owned w.id) (hn : Seated st.core.nodes r n) :
    ∃ s, w.executionStateLocked r st = .ok s ∧ Effective st.core.nodes r n s := by
  obtain ⟨a, ha, -, rfl⟩ := check_of_seated ho hn
  unfold executionStateLocked
  rw [ha]
  by_cases hs : a.state = .stopping ∨ a.state = .stopped
  · have hwalk : ∀ k, w.executionWalk st (k + 1) a false false = .ok .stopping :=
      fun k => by rw [executionWalk, if_pos hs]
    exact ⟨.stopping, hwalk 129, .ended hs⟩
  · obtain ⟨h1, h2⟩ := not_or.mp hs
    obtain ⟨l, hl, hlen⟩ := ho.lineage r a.node hn h2
    have hbounds : ∀ x ∈ l, ∀ k, Seated st.core.nodes x k → k.state.Bounds a.state :=
      fun x hx k hk => ho.lineage_bounds hl hn h2 hx hk
    have hself : r ∈ l := by cases hl <;> simp
    obtain ⟨s, hwalk, hc⟩ := executionWalk_eq ho hl hn h1 h2 (show l.length ≤ walkFuel by
      simp only [walkFuel]
      omega) false false
    refine ⟨s, hwalk, ?_⟩
    rcases hc with ⟨rfl, hq | ⟨x, hx, k, hk, hks⟩⟩ | ⟨rfl, -, hq, hst | hst⟩ | ⟨rfl, -, -, hall⟩
    · simp at hq
    · exact .quiescing (((hbounds x hx k hk).2 hks).resolve_right h1)
    · simp at hst
    · refine .starting l ?_ hl hst
      have hnq : a.state ≠ .quiescing := fun he => hq ⟨r, hself, a.node, hn, he⟩
      revert h1 h2 hnq
      show a.state ≠ _ → a.state ≠ _ → a.state ≠ _ → a.state = _ ∨ a.state = _
      cases a.state <;> simp
    · obtain ⟨k, hk, hks⟩ := hall r hself
      exact .active l (hk.unique hn ▸ hks) hl hall

theorem seated_of_execution {s : Lifecycle} (ho : st.core.Owned w.id)
    (h : w.executionStateLocked r st = .ok s) :
    ∃ n, Seated st.core.nodes r n ∧ Effective st.core.nodes r n s := by
  rcases ha : w.checkRef r st with e | a
  · simp [executionStateLocked, ha] at h
  · have hn := seated_of_check ho ha
    obtain ⟨s', hs', he⟩ := execution_spec ho hn
    rw [h] at hs'
    cases hs'
    exact ⟨a.node, hn, he⟩

theorem Effective.running {nodes : List Node} {s : Lifecycle} (h : Effective nodes r n s)
    (hn : Seated nodes r n) (hs : s = .active ∨ s = .quiescing) : Running nodes r := by
  refine ⟨n, hn, ?_⟩
  cases h with
  | ended => simp at hs
  | quiescing hq => exact .inr hq
  | starting => simp at hs
  | active _ ha => exact .inl ha

theorem Effective.present {nodes : List Node} {s : Lifecycle} (h : Effective nodes r n s)
    (hn : Seated nodes r n) (hs : s ≠ .stopping) : Present nodes r := by
  refine ⟨n, hn, ?_⟩
  cases h with
  | ended => simp at hs
  | quiescing hq => simp [hq]
  | starting _ h => rcases h with h | h <;> simp [h]
  | active _ ha => simp [ha]

/-! ## Functions outside the core -/

@[simp] theorem core_reject (e : Error) (r : ActorRef) : (reject e r st).core = st.core := rfl

@[simp] theorem core_refreshPythonReadyLocked :
    (w.refreshPythonReadyLocked r st).core = st.core := rfl

@[simp] theorem core_markActivityDependentsLocked :
    (w.markActivityDependentsLocked r st).core = st.core := rfl

@[simp] theorem core_markActivityTreeLocked :
    (w.markActivityTreeLocked r st).core = st.core := rfl

@[simp] theorem core_markRouteActivityLocked (route : Sub) :
    (w.markRouteActivityLocked route st).core = st.core := rfl

@[simp] theorem core_markOperationActivityLocked (owner : ActorRef) (target : Option ActorRef) :
    (w.markOperationActivityLocked owner target st).core = st.core := rfl

/-- A fold of updates outside the core. -/
theorem core_foldl {α : Type} (f : State → α → State) (hf : ∀ st x, (f st x).core = st.core)
    (xs : List α) (st : State) : (xs.foldl f st).core = st.core := by
  induction xs generalizing st with
  | nil => rfl
  | cons x xs ih => exact (ih (f st x)).trans (hf st x)

@[simp] theorem core_refreshPythonSubtreeLocked :
    (w.refreshPythonSubtreeLocked r st).core = st.core :=
  core_foldl (fun st r => w.refreshPythonReadyLocked r st) (fun _ _ => rfl) _ _

@[simp] theorem core_removeDeadline (deadline : Option Instant) :
    (removeDeadline r deadline st).core = st.core := by
  unfold removeDeadline
  split
  · rfl
  · split
    · rfl
    · exact State.core_modify_soft _ (fun _ => rfl) (fun _ => rfl) fun _ => rfl

@[simp] theorem core_expireStagedDeadlines (staged : List StagedOutput) :
    (expireStagedDeadlines r staged st).core = st.core := by
  induction staged generalizing st with
  | nil => rfl
  | cons s staged ih => simp [expireStagedDeadlines, ih]

@[simp] theorem core_refreshEarliest : (refreshEarliest r st).core = st.core := by
  unfold refreshEarliest
  split <;> rfl

end World

end Actorplane
