import Actorplane.Core.Ownership

/-!
# Routes under the moves

The four indexes of the route table are the projections of its entries, route
identities are below the next one, and every route joins present actors.
-/

namespace Actorplane

namespace RouteTable

variable {t : RouteTable} {id : ℕ} {route : Sub}

/-- Every index lists the routes with its key. -/
structure Indexed (t : RouteTable) : Prop where
  bySource : t.bySource.Exact fun k id =>
    ∃ s, t.entries.lookup id = some s ∧ (s.source, s.sourcePort) = k
  bySourceActor : t.bySourceActor.Exact fun k id => ∃ s, t.entries.lookup id = some s ∧ s.source = k
  byOwner : t.byOwner.Exact fun k id => ∃ s, t.entries.lookup id = some s ∧ s.owner = k
  byTarget : t.byTarget.Exact fun k id => ∃ s, t.entries.lookup id = some s ∧ s.target = k

theorem indexed_new : RouteTable.new.Indexed := by
  constructor <;>
  · refine Index.exact_empty.congr fun k i => ?_
    simp [RouteTable.new]

/-- An index of a fresh route with one more member. -/
theorem exact_insert {κ : Type} [DecidableEq κ] {m : Index κ ℕ} (key : Sub → κ)
    (h : m.Exact fun k id => ∃ s, t.entries.lookup id = some s ∧ key s = k)
    (hfresh : t.entries.lookup id = none) :
    (m.add (key route) id).Exact fun k i =>
      ∃ s, (AList.insert id route t.entries).lookup i = some s ∧ key s = k := by
  refine (h.add (key route) id).congr fun k i => ?_
  rw [Assoc.lookup_insert_ite]
  by_cases hi : i = id
  · subst hi
    simp [hfresh, eq_comm]
  · simp [hi]

theorem exact_erase {κ : Type} [DecidableEq κ] {m : Index κ ℕ} (key : Sub → κ)
    (h : m.Exact fun k id => ∃ s, t.entries.lookup id = some s ∧ key s = k)
    (hget : t.entries.lookup id = some route) :
    (m.drop (key route) id).Exact fun k i =>
      ∃ s, (t.entries.erase id).lookup i = some s ∧ key s = k := by
  refine (h.drop (key route) id).congr fun k i => ?_
  rw [Assoc.lookup_erase_ite]
  by_cases hi : i = id
  · subst hi
    simp [hget, eq_comm]
  · simp [hi]

theorem Indexed.insert (h : t.Indexed) (hfresh : t.entries.lookup id = none) :
    (t.insert id route).Indexed where
  bySource := exact_insert (fun s => (s.source, s.sourcePort)) h.bySource hfresh
  bySourceActor := exact_insert Sub.source h.bySourceActor hfresh
  byOwner := exact_insert Sub.owner h.byOwner hfresh
  byTarget := exact_insert Sub.target h.byTarget hfresh

theorem Indexed.erase (h : t.Indexed) (hget : t.get id = some route) :
    (t.erase id route).Indexed where
  bySource := exact_erase (fun s => (s.source, s.sourcePort)) h.bySource hget
  bySourceActor := exact_erase Sub.source h.bySourceActor hget
  byOwner := exact_erase Sub.owner h.byOwner hget
  byTarget := exact_erase Sub.target h.byTarget hget

theorem get_erase (i : ℕ) : (t.erase id route).get i = if i = id then none else t.get i :=
  Assoc.lookup_erase_ite _ _ _

theorem get_insert (i : ℕ) :
    (t.insert id route).get i = if i = id then some route else t.get i :=
  Assoc.lookup_insert_ite _ _ _ _

/-! ## Reading the indexes -/

@[simp] theorem mem_ascending {ids : List ℕ} {i : ℕ} :
    i ∈ ascending ids ↔ i ∈ ids := List.mem_insertionSort _

theorem Indexed.mem_sourceIds (h : t.Indexed) {source : ActorRef} {port : Option ℕ} {i : ℕ} :
    i ∈ t.sourceIds source port ↔ ∃ s, t.get i = some s ∧ s.source = source ∧ s.sourcePort = port := by
  simp [sourceIds, h.bySource.mem, get]

theorem Indexed.mem_actorRouteIds (h : t.Indexed) {a : ActorRef} {i : ℕ} :
    i ∈ t.actorRouteIds a ↔
      ∃ s, t.get i = some s ∧ (s.owner = a ∨ s.source = a ∨ s.target = a) := by
  have hu : ∀ x y : List ℕ, i ∈ x.union y ↔ i ∈ x ∨ i ∈ y := fun _ _ => List.mem_union_iff
  simp only [actorRouteIds, mem_ascending, hu, h.byOwner.mem, h.bySourceActor.mem, h.byTarget.mem,
    get]
  constructor
  · rintro ((⟨s, hs, rfl⟩ | ⟨s, hs, rfl⟩) | ⟨s, hs, rfl⟩)
    · exact ⟨s, hs, .inl rfl⟩
    · exact ⟨s, hs, .inr (.inl rfl)⟩
    · exact ⟨s, hs, .inr (.inr rfl)⟩
  · rintro ⟨s, hs, rfl | rfl | rfl⟩
    · exact .inl (.inl ⟨s, hs, rfl⟩)
    · exact .inl (.inr ⟨s, hs, rfl⟩)
    · exact .inr ⟨s, hs, rfl⟩

theorem ascending_strict {ids : List ℕ} (h : ids.Nodup) : (ascending ids).Pairwise (· < ·) := by
  have hs := List.pairwise_insertionSort (· ≤ ·) ids
  have hn := (List.perm_insertionSort (· ≤ ·) ids).nodup_iff.mpr h
  exact (hs.and hn).imp fun ⟨hle, hne⟩ => lt_of_le_of_ne hle hne

/-- A snapshot lists every route of the source and port with its target. -/
theorem Indexed.mem_snapshot (h : t.Indexed) {source : ActorRef} {port : Option ℕ} {i : ℕ}
    {target : ActorRef} :
    (i, target) ∈ t.snapshot source port ↔
      ∃ s, t.get i = some s ∧ s.source = source ∧ s.sourcePort = port ∧ s.target = target := by
  simp only [snapshot, List.mem_filterMap, h.mem_sourceIds, Option.map_eq_some_iff, Prod.mk.injEq]
  constructor
  · rintro ⟨j, ⟨s', hs', h1, h2⟩, s, hs, rfl, rfl⟩
    have := hs.symm.trans hs'
    cases this
    exact ⟨_, hs, h1, h2, rfl⟩
  · rintro ⟨s, hs, h1, h2, rfl⟩
    exact ⟨i, ⟨s, hs, h1, h2⟩, s, hs, rfl, rfl⟩

theorem Indexed.snapshot_ids (h : t.Indexed) (source : ActorRef) (port : Option ℕ) :
    (t.snapshot source port).map Prod.fst = t.sourceIds source port := by
  unfold snapshot
  rw [List.map_filterMap]
  refine (List.filterMap_congr fun i hi => ?_).trans List.filterMap_some
  obtain ⟨s, hs, -⟩ := h.mem_sourceIds.mp hi
  simp [hs]

theorem Indexed.snapshot_strict (h : t.Indexed) (source : ActorRef) (port : Option ℕ) :
    ((t.snapshot source port).map Prod.fst).Pairwise (· < ·) := by
  rw [h.snapshot_ids]
  exact ascending_strict (h.bySource.nodup _)

theorem Indexed.snapshot_length (h : t.Indexed) (source : ActorRef) (port : Option ℕ) :
    (t.snapshot source port).length = t.sourceCount source port := by
  have := congrArg List.length (h.snapshot_ids source port)
  simpa [sourceIds, ascending, sourceCount] using this

end RouteTable

variable {world : ℕ} {c c' : Core} {m : Move}

structure Core.Routed (c : Core) : Prop where
  indexed : c.subs.Indexed
  fresh : ∀ id s, c.subs.get id = some s → id < c.nextSub
  present : ∀ id s, c.subs.get id = some s →
    Present c.nodes s.owner ∧ Present c.nodes s.source ∧ Present c.nodes s.target

theorem Core.Routed.keep (h : c.Routed) (ho : c.Owned world) (hs : Step world c m c')
    (hsubs : c'.subs = c.subs) (hnext : c'.nextSub = c.nextSub) (hm : ∀ r, ¬m.stops r) :
    c'.Routed := by
  refine ⟨hsubs ▸ h.indexed, fun id s hid => ?_, fun id s hid => ?_⟩
  · rw [hnext]
    exact h.fresh id s (hsubs ▸ hid)
  · obtain ⟨h1, h2, h3⟩ := h.present id s (hsubs ▸ hid)
    exact ⟨ho.present hs (hm _) h1, ho.present hs (hm _) h2, ho.present hs (hm _) h3⟩

theorem Core.Routed.step (h : c.Routed) (ho : c.Owned world) (hs : Step world c m c') :
    c'.Routed := by
  have hs' := hs
  cases hs
  case unroute id route hget =>
    have hsub : ∀ i s, (c.subs.erase id route).get i = some s → c.subs.get i = some s := by
      intro i s hi
      rw [RouteTable.get_erase] at hi
      split_ifs at hi
      exact hi
    exact ⟨h.indexed.erase hget, fun i s hi => h.fresh i s (hsub i s hi),
      fun i s hi => h.present i s (hsub i s hi)⟩
  case connect route h1 h2 h3 =>
    have hfresh : c.subs.entries.lookup c.nextSub = none := by
      by_contra hne
      obtain ⟨s, hs⟩ := Option.ne_none_iff_exists'.mp hne
      exact absurd (h.fresh _ s hs) (lt_irrefl _)
    refine ⟨h.indexed.insert hfresh, fun i s hi => ?_, fun i s hi => ?_⟩
    · rw [RouteTable.get_insert] at hi
      split_ifs at hi with he
      · exact he ▸ Nat.lt_succ_self _
      · exact (h.fresh i s hi).trans (Nat.lt_succ_self _)
    · rw [RouteTable.get_insert] at hi
      split_ifs at hi
      · cases hi
        exact ⟨h1, h2, h3⟩
      · exact h.present i s hi
  case stop r n b _ _ _ _ _ _ _ _ hr _ _ _ =>
    refine ⟨h.indexed, h.fresh, fun i s hi => ?_⟩
    obtain ⟨h1, h2, h3⟩ := h.present i s hi
    obtain ⟨k1, k2, k3⟩ := hr i s hi
    exact ⟨ho.present hs' (Ne.symm k1) h1, ho.present hs' (Ne.symm k2) h2,
      ho.present hs' (Ne.symm k3) h3⟩
  all_goals exact h.keep ho hs' rfl rfl fun _ => not_false

end Actorplane
