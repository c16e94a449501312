import Actorplane.Reach.Runs

/-!
# The ownership tree of a reachable state

Records, children lists, parent walks and free slots as an observer of the World
sees them. A generation only moves forward through its lifecycle.
-/

namespace Actorplane

namespace World

variable {w : World} {st : State} {r p : ActorRef} {a : Actor} {l : List ActorRef}

/-- An actor of the current generation that is not `Stopped`. -/
def Living (w : World) (st : State) (r : ActorRef) (a : Actor) : Prop :=
  w.checkRef r st = .ok a ∧ a.state ≠ .stopped

/-- The tree and the slots of a state. -/
structure Tree (w : World) (st : State) : Prop where
  parent : ∀ r a p, w.Living st r a → a.parent = some p → ∃ b, w.Living st p b
  child : ∀ p b c, w.checkRef p st = .ok b →
    (b.children.count c = 1 ↔ ∃ a, w.Living st c a ∧ a.parent = some p) ∧ b.children.count c ≤ 1
  chain : ∀ r a, w.Living st r a → ∃ l, Lineage st.core.nodes r l ∧ l.Nodup ∧ l.length ≤ 129 ∧
    w.ancestors st walkFuel r = l
  execution : ∀ r a, w.checkRef r st = .ok a → ∃ s, w.executionStateLocked r st = .ok s
  walks : ∀ r a, w.Living st r a → w.depthAllowed st 127 a.parent ≠ .error .staleReference ∧
    ∀ q, w.ownedBy st q walkFuel r ≠ .error .staleReference ∧
      w.failureOwned st q walkFuel r ≠ .error .staleReference
  fenced : ∀ x a r b l, w.Living st x a → Lineage st.core.nodes x l → r ∈ l →
    w.checkRef r st = .ok b → (b.state = .stopping → a.state = .stopping) ∧
      (b.state = .quiescing → a.state = .quiescing ∨ a.state = .stopping)
  live : st.liveActors = st.actors.countP fun a => a.state ≠ .stopped
  free : st.free.Nodup ∧ ∀ i, i ∈ st.free ↔ ∃ a, st.actors[i]? = some a ∧ a.state = .stopped

theorem Rests.living_iff (h : w.Rests st) {n : Node} :
    (Seated st.core.nodes r n ∧ n.state ≠ .stopped) ↔ ∃ a, w.Living st r a ∧ a.node = n := by
  rw [h.check_iff_seated]
  constructor
  · rintro ⟨⟨a, ha, rfl⟩, hs⟩
    exact ⟨a, ⟨ha, hs⟩, rfl⟩
  · rintro ⟨a, ⟨ha, hs⟩, rfl⟩
    exact ⟨⟨a, ha, rfl⟩, hs⟩

/-! ## Walks -/

theorem ancestors_eq (h : w.Rests st) (hl : Lineage st.core.nodes r l) {fuel : ℕ}
    (hf : l.length ≤ fuel) : w.ancestors st fuel r = l := by
  induction hl generalizing fuel with
  | root hn hp =>
    obtain ⟨fuel, rfl⟩ : ∃ k, fuel = k + 1 := ⟨fuel - 1, by simp at hf; omega⟩
    obtain ⟨a, ha, rfl⟩ := h.check_iff_seated.mp hn
    have hp : a.parent = none := hp
    simp [ancestors, ha, hp]
  | child hn hp _ ih =>
    obtain ⟨fuel, rfl⟩ : ∃ k, fuel = k + 1 := ⟨fuel - 1, by simp at hf; omega⟩
    obtain ⟨a, ha, rfl⟩ := h.check_iff_seated.mp hn
    have hp : a.parent = some _ := hp
    simp [ancestors, ha, hp, ih (by simp at hf; omega)]

theorem ownedBy_ne_stale (h : w.Rests st) (hl : Lineage st.core.nodes r l) {fuel : ℕ}
    (hf : l.length ≤ fuel) (q : ActorRef) : w.ownedBy st q fuel r ≠ .error .staleReference := by
  induction hl generalizing fuel with
  | root hn hp =>
    obtain ⟨fuel, rfl⟩ : ∃ k, fuel = k + 1 := ⟨fuel - 1, by simp at hf; omega⟩
    obtain ⟨a, ha, rfl⟩ := h.check_iff_seated.mp hn
    have hp : a.parent = none := hp
    unfold ownedBy
    split_ifs <;> simp [ha, hp]
  | child hn hp _ ih =>
    obtain ⟨fuel, rfl⟩ : ∃ k, fuel = k + 1 := ⟨fuel - 1, by simp at hf; omega⟩
    obtain ⟨a, ha, rfl⟩ := h.check_iff_seated.mp hn
    have hp : a.parent = some _ := hp
    unfold ownedBy
    split_ifs
    · simp
    · simpa [ha, hp] using ih (by simp at hf; omega)

theorem failureOwned_ne_stale (h : w.Rests st) (hl : Lineage st.core.nodes r l) {fuel : ℕ}
    (hf : l.length ≤ fuel) (q : ActorRef) :
    w.failureOwned st q fuel r ≠ .error .staleReference := by
  induction hl generalizing fuel with
  | root hn hp =>
    obtain ⟨fuel, rfl⟩ : ∃ k, fuel = k + 1 := ⟨fuel - 1, by simp at hf; omega⟩
    obtain ⟨a, ha, rfl⟩ := h.check_iff_seated.mp hn
    have hp : a.parent = none := hp
    unfold failureOwned
    split_ifs <;> simp [ha, hp]
  | child hn hp _ ih =>
    obtain ⟨fuel, rfl⟩ : ∃ k, fuel = k + 1 := ⟨fuel - 1, by simp at hf; omega⟩
    obtain ⟨a, ha, rfl⟩ := h.check_iff_seated.mp hn
    have hp : a.parent = some _ := hp
    unfold failureOwned
    split_ifs
    · simp
    · simpa [ha, hp] using ih (by simp at hf; omega)

/-- Running out of steps is a limit; no reference on the way is stale. -/
theorem depthAllowed_ne_stale (h : w.Rests st) (hl : Lineage st.core.nodes r l) (fuel : ℕ) :
    w.depthAllowed st fuel (some r) ≠ .error .staleReference := by
  induction hl generalizing fuel with
  | root hn hp =>
    cases fuel with
    | zero => simp [depthAllowed]
    | succ fuel =>
      obtain ⟨a, ha, rfl⟩ := h.check_iff_seated.mp hn
      have hp : a.parent = none := hp
      cases fuel <;> simp [depthAllowed, ha, hp]
  | child hn hp _ ih =>
    cases fuel with
    | zero => simp [depthAllowed]
    | succ fuel =>
      obtain ⟨a, ha, rfl⟩ := h.check_iff_seated.mp hn
      have hp : a.parent = some _ := hp
      simpa [depthAllowed, ha, hp] using ih fuel

theorem Rests.lineage (h : w.Rests st) (ha : w.Living st r a) :
    ∃ l, Lineage st.core.nodes r l ∧ l.length ≤ 129 := by
  obtain ⟨hn, hs⟩ := h.living_iff.mpr ⟨a, ha, rfl⟩
  exact h.valid.owned.lineage r a.node hn hs

/-! ## The tree -/

theorem Rests.tree (h : w.Rests st) : w.Tree st where
  parent r a p ha hp := by
    obtain ⟨hn, hs⟩ := h.living_iff.mpr ⟨a, ha, rfl⟩
    obtain ⟨m, hm, hms, -⟩ := h.valid.owned.parent r a.node p hn hs hp
    obtain ⟨b, hb, -⟩ := h.living_iff.mp ⟨hm, hms⟩
    exact ⟨b, hb⟩
  child p b c hb := by
    have hm := seated_of_check h.valid.owned hb
    have hnodup : b.children.Nodup := h.valid.owned.children_nodup _ _ hm.1
    have hle := List.nodup_iff_count_le_one.mp hnodup c
    refine ⟨?_, hle⟩
    have hpos : b.children.count c = 1 ↔ c ∈ b.children := by
      rw [← List.count_pos_iff]
      omega
    rw [hpos]
    refine (h.valid.owned.child p b.node c hm).trans ?_
    constructor
    · rintro ⟨n, hn, hs, hp⟩
      obtain ⟨a, ha, rfl⟩ := h.living_iff.mp ⟨hn, hs⟩
      exact ⟨a, ha, hp⟩
    · rintro ⟨a, ha, hp⟩
      obtain ⟨hn, hs⟩ := h.living_iff.mpr ⟨a, ha, rfl⟩
      exact ⟨a.node, hn, hs, hp⟩
  chain r a ha := by
    obtain ⟨l, hl, hlen⟩ := h.lineage ha
    exact ⟨l, hl, hl.nodup, hlen, ancestors_eq h hl (hlen.trans (by decide))⟩
  execution r a ha := by
    obtain ⟨s, hs, -⟩ := execution_spec h.valid.owned (seated_of_check h.valid.owned ha)
    exact ⟨s, hs⟩
  walks r a ha := by
    obtain ⟨l, hl, hlen⟩ := h.lineage ha
    have hf : l.length ≤ walkFuel := hlen.trans (by decide)
    refine ⟨?_, fun q => ⟨ownedBy_ne_stale h hl hf q, failureOwned_ne_stale h hl hf q⟩⟩
    rcases hp : a.parent with - | p
    · simp [depthAllowed]
    · obtain ⟨hn, hs⟩ := h.living_iff.mpr ⟨a, ha, rfl⟩
      obtain ⟨m, hm, hms, -⟩ := h.valid.owned.parent r a.node p hn hs hp
      obtain ⟨l', hl', -⟩ := h.valid.owned.lineage p m hm hms
      exact depthAllowed_ne_stale h hl' 127
  fenced x a r b l ha hl hr hb := by
    obtain ⟨hn, hs⟩ := h.living_iff.mpr ⟨a, ha, rfl⟩
    exact h.valid.owned.lineage_bounds hl hn hs hr (seated_of_check h.valid.owned hb)
  live := by
    have hlive : st.liveActors = (st.actors.map Actor.node).countP fun n => n.state ≠ .stopped :=
      h.valid.owned.live_eq
    rw [hlive, List.countP_map]
    rfl
  free := by
    refine ⟨h.valid.owned.free_nodup, fun i => (h.valid.owned.free_mem i).trans ?_⟩
    constructor
    · rintro ⟨n, hn, hs⟩
      obtain ⟨a, ha, rfl⟩ := State.actors_get_of_node hn
      exact ⟨a, ha, hs⟩
    · rintro ⟨a, ha, hs⟩
      exact ⟨a.node, State.core_nodes_get ha, hs⟩

/-- A generation that is current before and after a run has moved forward. -/
theorem Rests.forward (h : w.Rests st) (actions : List Action) {b : Actor}
    (ha : w.checkRef r st = .ok a) (hb : w.checkRef r (w.exec st actions) = .ok b) :
    a.state.rank ≤ b.state.rank :=
  ((h.steps actions).forward h.valid.owned |>.rank_le (seated_of_check h.valid.owned ha)
    (seated_of_check (h.exec actions).valid.owned hb)).1

/-- In every reachable state the actors form a tree, and every generation moves forward. -/
theorem ownership_tree (w : World) (before after : List Action) :
    w.Tree (w.exec w.init before) ∧
      ∀ r a b, w.checkRef r (w.exec w.init before) = .ok a →
        w.checkRef r (w.exec w.init (before ++ after)) = .ok b → a.state.rank ≤ b.state.rank := by
  refine ⟨(rests before).tree, fun r a b ha hb => ?_⟩
  rw [exec_append] at hb
  exact (rests before).forward after ha hb

end World

end Actorplane
