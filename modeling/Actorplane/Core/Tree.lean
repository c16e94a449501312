import Actorplane.Core.State
import Actorplane.Lib.Slots

/-!
# The ownership tree

The invariant of the node column with its free list and live count. Seated
actors that are not stopped form a forest of bounded depth whose parent and
child links agree, and a parent that is draining or stopping has taken its
children along.
-/

namespace Actorplane

def Lifecycle.rank : Lifecycle → ℕ
  | .starting => 0
  | .active => 1
  | .quiescing => 2
  | .stopping => 3
  | .stopped => 4

/-- What the state of a parent imposes on the state of its child. -/
def Lifecycle.Bounds (parent child : Lifecycle) : Prop :=
  (parent = .stopping → child = .stopping) ∧
    (parent = .quiescing → child = .quiescing ∨ child = .stopping)

/-- The actors from one actor up to its root. -/
inductive Lineage (nodes : List Node) : ActorRef → List ActorRef → Prop
  | root {r n} : Seated nodes r n → n.parent = none → Lineage nodes r [r]
  | child {r n p l} : Seated nodes r n → n.parent = some p → Lineage nodes p l →
      Lineage nodes r (r :: l)

structure Ownership (world : ℕ) (nodes : List Node) (live : ℕ) (free : List ℕ) : Prop where
  slotted : ∀ (i : ℕ) (n : Node), nodes[i]? = some n → n.reference.world = world ∧ n.reference.slot = i
  parent : ∀ (r : ActorRef) (n : Node) (p : ActorRef), Seated nodes r n → n.state ≠ .stopped → n.parent = some p →
    ∃ m, Seated nodes p m ∧ m.state ≠ .stopped ∧ m.state.Bounds n.state
  lineage : ∀ (r : ActorRef) (n : Node), Seated nodes r n → n.state ≠ .stopped →
    ∃ l, Lineage nodes r l ∧ l.length ≤ 129
  child : ∀ (p : ActorRef) (m : Node) (c : ActorRef), Seated nodes p m →
    (c ∈ m.children ↔ ∃ n, Seated nodes c n ∧ n.state ≠ .stopped ∧ n.parent = some p)
  children_nodup : ∀ (i : ℕ) (m : Node), nodes[i]? = some m → m.children.Nodup
  live_eq : live = nodes.countP fun n => n.state ≠ .stopped
  free_mem : ∀ i, i ∈ free ↔ ∃ n, nodes[i]? = some n ∧ n.state = .stopped
  free_nodup : free.Nodup

variable {world live : ℕ} {nodes nodes' : List Node} {free : List ℕ} {r p c : ActorRef} {n m : Node}
  {l : List ActorRef}

theorem ownership_empty (world : ℕ) : Ownership world [] 0 [] :=
  ⟨by simp, by simp [Seated], by simp [Seated], by simp [Seated], by simp, by simp, by simp,
    by simp⟩

theorem Ownership.seated (h : Ownership world nodes live free) {i : ℕ} (hn : nodes[i]? = some n) :
    Seated nodes n.reference n := by
  obtain ⟨-, hs⟩ := h.slotted i n hn
  exact ⟨by rwa [hs], rfl⟩

/-! ## Lineages -/

theorem Lifecycle.Bounds.refl (s : Lifecycle) : s.Bounds s := ⟨fun h => h, .inl⟩

theorem Lineage.seated (h : Lineage nodes r l) : ∃ n, Seated nodes r n := by
  cases h with
  | root h _ => exact ⟨_, h⟩
  | child h _ _ => exact ⟨_, h⟩

theorem Lineage.unique {l' : List ActorRef} (h : Lineage nodes r l) (h' : Lineage nodes r l') :
    l = l' := by
  induction h generalizing l' with
  | root hn hp =>
    cases h' with
    | root => rfl
    | child hn' hp' => simp [hn.unique hn', hp'] at hp
  | child hn hp _ ih =>
    cases h' with
    | root hn' hp' => simp [hn.unique hn', hp'] at hp
    | child hn' hp' hl' =>
      rw [hn.unique hn', hp'] at hp
      cases hp
      rw [ih hl']

theorem Lineage.suffix (h : Lineage nodes r l) (hp : p ∈ l) :
    ∃ l', Lineage nodes p l' ∧ l' <:+ l := by
  induction h with
  | root hn hr =>
    rw [List.mem_singleton.mp hp]
    exact ⟨_, .root hn hr, List.suffix_rfl⟩
  | child hn hr hl ih =>
    rcases List.mem_cons.mp hp with rfl | hp
    · exact ⟨_, .child hn hr hl, List.suffix_rfl⟩
    · obtain ⟨l', hl', hs⟩ := ih hp
      exact ⟨l', hl', hs.trans (List.suffix_cons _ _)⟩

/-- Ownership has no cycles. -/
theorem Lineage.nodup (h : Lineage nodes r l) : l.Nodup := by
  induction h with
  | root => simp
  | @child r n p l hn hr hl ih =>
    refine List.nodup_cons.mpr ⟨fun hmem => ?_, ih⟩
    obtain ⟨l', hl', hs⟩ := hl.suffix hmem
    have hlen := hs.length_le
    rw [hl'.unique (.child hn hr hl)] at hlen
    simp at hlen

theorem Lineage.mono (h : Lineage nodes r l)
    (hkeep : ∀ q ∈ l, ∀ n, Seated nodes q n →
      ∃ n', Seated nodes' q n' ∧ n'.parent = n.parent) : Lineage nodes' r l := by
  induction h with
  | root hn hr =>
    obtain ⟨n', hn', hp'⟩ := hkeep _ (by simp) _ hn
    exact .root hn' (hp'.trans hr)
  | child hn hr _ ih =>
    obtain ⟨n', hn', hp'⟩ := hkeep _ (by simp) _ hn
    exact .child hn' (hp'.trans hr) (ih fun q hq => hkeep q (by simp [hq]))

/-- The ancestors of an actor that is not stopped are not stopped. -/
theorem Ownership.lineage_alive (h : Ownership world nodes live free) (hl : Lineage nodes r l)
    (hn : Seated nodes r n) (hs : n.state ≠ .stopped) (hp : p ∈ l) :
    ∃ m, Seated nodes p m ∧ m.state ≠ .stopped := by
  induction hl generalizing n with
  | root =>
    rw [List.mem_singleton.mp hp]
    exact ⟨n, hn, hs⟩
  | child hn' hr _ ih =>
    rcases List.mem_cons.mp hp with rfl | hp
    · exact ⟨n, hn, hs⟩
    · obtain ⟨m, hm, hms, -⟩ := h.parent _ _ _ hn hs (hn.unique hn' ▸ hr)
      exact ih hm hms hp

/-- Draining and stopping reach every descendant. -/
theorem Ownership.lineage_bounds (h : Ownership world nodes live free) (hl : Lineage nodes r l)
    (hn : Seated nodes r n) (hs : n.state ≠ .stopped) (hp : p ∈ l) (hm : Seated nodes p m) :
    m.state.Bounds n.state := by
  induction hl generalizing n with
  | root =>
    cases List.mem_singleton.mp hp
    rw [hn.unique hm]
    exact .refl _
  | child hn' hr _ ih =>
    rcases List.mem_cons.mp hp with rfl | hp
    · rw [hn.unique hm]
      exact .refl _
    · obtain ⟨k, hk, hks, hb⟩ := h.parent _ _ _ hn hs (hn.unique hn' ▸ hr)
      have hmk := ih hk hks hp
      refine ⟨fun hst => hb.1 (hmk.1 hst), fun hq => ?_⟩
      rcases hmk.2 hq with hq | hst
      · exact hb.2 hq
      · exact .inr (hb.1 hst)

/-- An actor without living children is in no other living actor's lineage. -/
theorem Ownership.not_mem_lineage (h : Ownership world nodes live free)
    (hleaf : ∀ q k, Seated nodes q k → k.state ≠ .stopped → k.parent ≠ some r)
    (hl : Lineage nodes p l) (hm : Seated nodes p m) (hs : m.state ≠ .stopped) (hne : p ≠ r) :
    r ∉ l := by
  induction hl generalizing m with
  | root => exact fun hr => hne (List.mem_singleton.mp hr).symm
  | child hm' hp' _ ih =>
    rw [hm'.unique hm] at hp'
    intro hr
    rcases List.mem_cons.mp hr with rfl | hr
    · exact hne rfl
    · obtain ⟨k, hk, hks, -⟩ := h.parent _ _ _ hm hs hp'
      exact ih hk hks (fun hpr => hleaf _ m hm hs (hpr ▸ hp')) hr

/-! ## Changes of state -/

/-- The same actors with the same links; none of them becomes stopped. -/
structure Restated (nodes nodes' : List Node) : Prop where
  length_eq : nodes'.length = nodes.length
  node : ∀ (i : ℕ) (n : Node), nodes[i]? = some n → ∃ n', nodes'[i]? = some n' ∧ n'.reference = n.reference ∧
    n'.parent = n.parent ∧ n'.children = n.children ∧
    (n'.state = .stopped ↔ n.state = .stopped)

theorem Restated.symm (h : Restated nodes nodes') : Restated nodes' nodes := by
  refine ⟨h.length_eq.symm, fun i n' hn' => ?_⟩
  have hlt : i < nodes.length := by
    rw [← h.length_eq]
    exact (List.getElem?_eq_some_iff.mp hn').1
  obtain ⟨n'', hn'', h1, h2, h3, h4⟩ := h.node i _ (List.getElem?_eq_getElem hlt)
  rw [hn'] at hn''
  cases hn''
  exact ⟨_, List.getElem?_eq_getElem hlt, h1.symm, h2.symm, h3.symm, h4.symm⟩

theorem Restated.seated (h : Restated nodes nodes') (hn : Seated nodes r n) :
    ∃ n', Seated nodes' r n' ∧ n'.parent = n.parent ∧ n'.children = n.children ∧
      (n'.state = .stopped ↔ n.state = .stopped) := by
  obtain ⟨n', hn', hr, hp, hc, hs⟩ := h.node _ _ hn.1
  exact ⟨n', ⟨hn', hr.trans hn.2⟩, hp, hc, hs⟩

theorem restated_set {i : ℕ} {n' : Node} (hn : nodes[i]? = some n)
    (hr : n'.reference = n.reference) (hp : n'.parent = n.parent) (hc : n'.children = n.children)
    (hs : n'.state = .stopped ↔ n.state = .stopped) : Restated nodes (nodes.set i n') := by
  refine ⟨by simp, fun j k hk => ?_⟩
  by_cases hj : i = j
  · subst hj
    rw [hn] at hk
    cases hk
    exact ⟨n', by simp [(List.getElem?_eq_some_iff.mp hn).1], hr, hp, hc, hs⟩
  · exact ⟨k, by rw [List.getElem?_set_ne hj, hk], rfl, rfl, rfl, Iff.rfl⟩

theorem Restated.countP (h : Restated nodes nodes') :
    nodes'.countP (fun n => n.state ≠ .stopped) = nodes.countP fun n => n.state ≠ .stopped := by
  have hmap : nodes'.map (fun n => decide (n.state ≠ .stopped)) =
      nodes.map fun n => decide (n.state ≠ .stopped) := by
    refine List.ext_getElem? fun i => ?_
    rw [List.getElem?_map, List.getElem?_map]
    rcases hn : nodes[i]? with - | n
    · have hlen : nodes'.length ≤ i := h.length_eq.trans_le (List.getElem?_eq_none_iff.mp hn)
      simp [hlen]
    · obtain ⟨n', hn', -, -, -, hs⟩ := h.node i n hn
      simp [hn', hs]
  have := congrArg (List.countP fun b => b) hmap
  simpa only [List.countP_map, Function.comp_def] using this

theorem Ownership.restate (h : Ownership world nodes live free) (hr : Restated nodes nodes')
    (hb : ∀ r n p m, Seated nodes' r n → n.state ≠ .stopped → n.parent = some p →
      Seated nodes' p m → m.state.Bounds n.state) : Ownership world nodes' live free where
  slotted i n' hn' := by
    obtain ⟨n, hn, href, -⟩ := hr.symm.node i n' hn'
    rw [← href]
    exact h.slotted i n hn
  parent r n' p hn' hs hp := by
    obtain ⟨n, hn, hpn, -, hsn⟩ := hr.symm.seated hn'
    obtain ⟨m, hm, hms, -⟩ := h.parent r n p hn (mt hsn.mp hs) (hpn.trans hp)
    obtain ⟨m', hm', -, -, hsm⟩ := hr.seated hm
    exact ⟨m', hm', mt hsm.mp hms, hb r n' p m' hn' hs hp hm'⟩
  lineage r n' hn' hs := by
    obtain ⟨n, hn, -, -, hsn⟩ := hr.symm.seated hn'
    obtain ⟨l, hl, hlen⟩ := h.lineage r n hn (mt hsn.mp hs)
    refine ⟨l, hl.mono fun q _ k hk => ?_, hlen⟩
    obtain ⟨k', hk', hpk, -⟩ := hr.seated hk
    exact ⟨k', hk', hpk⟩
  child p m' c hm' := by
    obtain ⟨m, hm, -, hc, -⟩ := hr.symm.seated hm'
    rw [← hc, h.child p m c hm]
    constructor
    · rintro ⟨n, hn, hs, hp⟩
      obtain ⟨n', hn', hpn, -, hsn⟩ := hr.seated hn
      exact ⟨n', hn', mt hsn.mp hs, hpn.trans hp⟩
    · rintro ⟨n', hn', hs, hp⟩
      obtain ⟨n, hn, hpn, -, hsn⟩ := hr.symm.seated hn'
      exact ⟨n, hn, mt hsn.mp hs, hpn.trans hp⟩
  children_nodup i m' hm' := by
    obtain ⟨m, hm, -, -, hc, -⟩ := hr.symm.node i m' hm'
    exact hc ▸ h.children_nodup i m hm
  live_eq := by rw [hr.countP, h.live_eq]
  free_mem i := by
    rw [h.free_mem]
    constructor
    · rintro ⟨n, hn, hs⟩
      obtain ⟨n', hn', -, -, -, hsn⟩ := hr.node i n hn
      exact ⟨n', hn', hsn.mpr hs⟩
    · rintro ⟨n', hn', hs⟩
      obtain ⟨n, hn, -, -, -, hsn⟩ := hr.symm.node i n' hn'
      exact ⟨n, hn, hsn.mpr hs⟩
  free_nodup := h.free_nodup

/-! ## New and retired actors -/

/-- A record is put into its slot, or behind the last one. -/
def put {α : Type} (l : List α) (i : ℕ) (a : α) : List α :=
  if i = l.length then l ++ [a] else l.set i a

theorem put_get {α : Type} {l : List α} {i : ℕ} (hi : i ≤ l.length) (a : α) (j : ℕ) :
    (put l i a)[j]? = if j = i then some a else l[j]? := by
  unfold put
  split_ifs with hl hj hj
  · subst hj
    simp [hl]
  · rw [List.getElem?_append]
    split_ifs with hlt
    · rfl
    · rw [List.getElem?_eq_none (by omega : l.length ≤ j), List.getElem?_eq_none]
      simp only [List.length_cons, List.length_nil]
      omega
  · subst hj
    simp [show j < l.length by omega]
  · rw [List.getElem?_set_ne (Ne.symm hj)]

theorem put_map {α β : Type} (f : α → β) (l : List α) (i : ℕ) (a : α) :
    (put l i a).map f = put (l.map f) i (f a) := by
  unfold put
  by_cases h : i = l.length <;> simp [h]

/-- The slot a new actor takes: behind the last record, or the head of the free list. -/
structure FreshSlot (nodes : List Node) (free : List ℕ) (r : ActorRef) : Prop where
  slot : r.slot = free.headD nodes.length
  generation : ∀ n, nodes[r.slot]? = some n → n.reference.generation < r.generation

theorem FreshSlot.le (h : FreshSlot nodes free r) (ho : Ownership world nodes live free) :
    r.slot ≤ nodes.length := by
  rw [h.slot]
  cases free with
  | nil => simp
  | cons i free =>
    obtain ⟨n, hn, -⟩ := (ho.free_mem i).mp (by simp)
    exact (List.getElem?_eq_some_iff.mp hn).1.le

theorem FreshSlot.old_stopped (h : FreshSlot nodes free r) (ho : Ownership world nodes live free)
    (hn : nodes[r.slot]? = some n) : n.state = .stopped ∧ ∃ free', free = r.slot :: free' := by
  have hlt := (List.getElem?_eq_some_iff.mp hn).1
  have hs := h.slot
  cases free with
  | nil =>
    simp only [List.headD_nil] at hs
    omega
  | cons i free =>
    simp only [List.headD_cons] at hs
    obtain ⟨m, hm, hst⟩ := (ho.free_mem i).mp (by simp)
    rw [← hs, hn] at hm
    cases hm
    exact ⟨hst, free, by rw [hs]⟩

theorem FreshSlot.not_seated (h : FreshSlot nodes free r) (hn : Seated nodes r n) : False := by
  have := h.generation n hn.1
  rw [hn.2] at this
  omega

/-- Change the record of a parent, if there is one. -/
def atParent (parent : Option ActorRef) (f : Node → Node) (n : Node) : Node :=
  if parent = some n.reference then f n else n

theorem atParent_frame (parent : Option ActorRef) (f : Node → Node)
    (hf : ∀ k, (f k).reference = k.reference ∧ (f k).state = k.state ∧
    (f k).parent = k.parent) (k : Node) :
    (atParent parent f k).reference = k.reference ∧ (atParent parent f k).state = k.state ∧
      (atParent parent f k).parent = k.parent := by
  unfold atParent
  split_ifs
  · exact hf k
  · exact ⟨rfl, rfl, rfl⟩

theorem map_atParent {parent : Option ActorRef} {f : Node → Node}
    (hs : ∀ (i : ℕ) (n : Node), nodes[i]? = some n → n.reference.slot = i)
    (hp : parent = some p) (hm : Seated nodes p m) :
    nodes.map (atParent parent f) = nodes.modify p.slot f := by
  refine List.ext_getElem? fun j => ?_
  rw [List.getElem?_map, List.getElem?_modify]
  rcases hj : nodes[j]? with - | k
  · simp
  · by_cases hpj : p.slot = j
    · subst hpj
      have hk := hm.1.symm.trans hj
      cases hk
      simp [atParent, hp, hm.2]
    · have hne : p ≠ k.reference := by
        rintro rfl
        exact hpj (hs j k hj)
      simp [atParent, hp, hpj, hne]

def Node.fresh (r : ActorRef) (parent : Option ActorRef) : Node where
  reference := r
  state := .starting
  parent := parent
  children := []
  drainRoot := none
  drainDeadline := none
  cutoff := none

def Node.adopt (r : ActorRef) (k : Node) : Node := { k with children := k.children ++ [r] }

def Node.disown (r : ActorRef) (k : Node) : Node :=
  { k with children := k.children.filter (· ≠ r) }

/-- The node column after `allocate_locked`. -/
def allocNodes (nodes : List Node) (r : ActorRef) (parent : Option ActorRef) : List Node :=
  put (nodes.map (atParent parent (.adopt r))) r.slot
    (.fresh r parent)

/-- The node column after `finalize_actor` on the record `n`. -/
def retireNodes (nodes : List Node) (n : Node) : List Node :=
  (nodes.map (atParent n.parent (.disown n.reference))).set n.reference.slot
      { n with state := .stopped }

section Alloc

variable {parent : Option ActorRef}

theorem allocNodes_get (hle : r.slot ≤ nodes.length) (j : ℕ) :
    (allocNodes nodes r parent)[j]? =
      if j = r.slot then some (.fresh r parent)
      else (nodes[j]?).map
        (atParent parent (.adopt r)) := by
  rw [allocNodes, put_get (by simpa using hle), List.getElem?_map]

theorem seated_alloc (hle : r.slot ≤ nodes.length) {q : ActorRef} {k : Node} :
    Seated (allocNodes nodes r parent) q k ↔
      q = r ∧ k = .fresh r parent ∨
        q.slot ≠ r.slot ∧ ∃ k₀, Seated nodes q k₀ ∧
          k = atParent parent (.adopt r) k₀ := by
  have href : ∀ k : Node, (atParent parent (.adopt r) k).reference = k.reference :=
    fun k => (atParent_frame parent (.adopt r)
      (fun _ => ⟨rfl, rfl, rfl⟩) k).1
  unfold Seated
  rw [allocNodes_get hle]
  by_cases hq : q.slot = r.slot
  · simp only [hq, if_true, Option.some.injEq, ne_eq, not_true_eq_false, false_and, or_false]
    constructor
    · rintro ⟨rfl, hr⟩
      exact ⟨hr.symm, rfl⟩
    · rintro ⟨rfl, rfl⟩
      exact ⟨rfl, rfl⟩
  · have hne : q ≠ r := fun h => hq (h ▸ rfl)
    simp only [hq, if_false, hne, false_and, false_or, ne_eq, not_false_eq_true, true_and,
      Option.map_eq_some_iff]
    constructor
    · rintro ⟨⟨k₀, hk₀, rfl⟩, hr⟩
      exact ⟨k₀, ⟨hk₀, (href k₀).symm.trans hr⟩, rfl⟩
    · rintro ⟨k₀, ⟨hk₀, hr⟩, rfl⟩
      exact ⟨⟨k₀, hk₀, rfl⟩, (href k₀).trans hr⟩

variable (parent r) in
theorem adopt_frame (k : Node) :
    (atParent parent (.adopt r) k).reference = k.reference ∧
      (atParent parent (.adopt r) k).state = k.state ∧
      (atParent parent (.adopt r) k).parent = k.parent :=
  atParent_frame parent (.adopt r) (fun _ => ⟨rfl, rfl, rfl⟩) k

variable (parent) in
/-- An actor that is not stopped stays seated, with the same parent and state. -/
theorem Ownership.alloc_keep (h : Ownership world nodes live free) (hf : FreshSlot nodes free r)
    (hn : Seated nodes p n) (hs : n.state ≠ .stopped) :
    ∃ n', Seated (allocNodes nodes r parent) p n' ∧ n'.parent = n.parent ∧ n'.state = n.state := by
  obtain ⟨-, hst, hpar⟩ := adopt_frame r parent n
  have hslot : p.slot ≠ r.slot := fun he => hs (hf.old_stopped h (he ▸ hn.1)).1
  exact ⟨_, (seated_alloc (hf.le h)).mpr (.inr ⟨hslot, n, hn, rfl⟩), hpar, hst⟩

theorem Ownership.alloc_lineage (h : Ownership world nodes live free) (hf : FreshSlot nodes free r)
    (hn : Seated nodes p n) (hs : n.state ≠ .stopped) (hl : Lineage nodes p l) :
    Lineage (allocNodes nodes r parent) p l := by
  refine hl.mono fun a ha b hb => ?_
  obtain ⟨m, hm, hms⟩ := h.lineage_alive hl hn hs ha
  obtain ⟨b', hb', hbp, -⟩ := h.alloc_keep parent hf hm hms
  exact ⟨b', hb', hb.unique hm ▸ hbp⟩

theorem Ownership.alloc_parent (h : Ownership world nodes live free) (hf : FreshSlot nodes free r)
    (hp : ∀ p, parent = some p →
      ∃ m, Seated nodes p m ∧ (m.state = .starting ∨ m.state = .active))
    (hn : Seated (allocNodes nodes r parent) c n) (hs : n.state ≠ .stopped)
    (hpar : n.parent = some p) :
    ∃ m, Seated (allocNodes nodes r parent) p m ∧ m.state ≠ .stopped ∧
      m.state.Bounds n.state := by
  rcases (seated_alloc (hf.le h)).mp hn with ⟨rfl, rfl⟩ | ⟨-, k, hk, rfl⟩
  · obtain ⟨m, hm, hms⟩ := hp p hpar
    have hup : m.state ≠ .stopped := by
      rcases hms with hms | hms <;> simp [hms]
    obtain ⟨m', hm', -, hst⟩ := h.alloc_keep parent hf hm hup
    refine ⟨m', hm', hst ▸ hup, ?_⟩
    rw [hst]
    rcases hms with hms | hms <;> simp [Lifecycle.Bounds, hms]
  · obtain ⟨-, hst, hpk⟩ := adopt_frame r parent k
    obtain ⟨m, hm, hms, hb⟩ := h.parent c k p hk (hst ▸ hs) (hpk.symm.trans hpar)
    obtain ⟨m', hm', -, hst'⟩ := h.alloc_keep parent hf hm hms
    exact ⟨m', hm', hst' ▸ hms, by rwa [hst', hst]⟩

/-- The new actor is a child of its parent and of no one else. -/
theorem Ownership.alloc_child (h : Ownership world nodes live free) (hf : FreshSlot nodes free r)
    (hp : ∀ p, parent = some p → ∃ m, Seated nodes p m)
    (hm : Seated (allocNodes nodes r parent) p m) :
    c ∈ m.children ↔
      ∃ n, Seated (allocNodes nodes r parent) c n ∧ n.state ≠ .stopped ∧ n.parent = some p := by
  have hiff : (∃ n, Seated (allocNodes nodes r parent) c n ∧ n.state ≠ .stopped ∧
      n.parent = some p) ↔ (c = r ∧ parent = some p) ∨
        ∃ n, Seated nodes c n ∧ n.state ≠ .stopped ∧ n.parent = some p := by
    constructor
    · rintro ⟨n, hn, hs, hpar⟩
      rcases (seated_alloc (hf.le h)).mp hn with ⟨rfl, rfl⟩ | ⟨-, k, hk, rfl⟩
      · exact .inl ⟨rfl, hpar⟩
      · obtain ⟨-, hst, hpk⟩ := adopt_frame r parent k
        exact .inr ⟨k, hk, hst ▸ hs, hpk ▸ hpar⟩
    · rintro (⟨rfl, hpar⟩ | ⟨n, hn, hs, hpar⟩)
      · exact ⟨_, (seated_alloc (hf.le h)).mpr (.inl ⟨rfl, rfl⟩), by simp [Node.fresh], hpar⟩
      · obtain ⟨n', hn', hp', hs'⟩ := h.alloc_keep parent hf hn hs
        exact ⟨n', hn', hs' ▸ hs, hp'.trans hpar⟩
  rw [hiff]
  rcases (seated_alloc (hf.le h)).mp hm with ⟨rfl, rfl⟩ | ⟨-, k, hk, rfl⟩
  · refine iff_of_false (by simp [Node.fresh]) ?_
    rintro (⟨-, hpar⟩ | ⟨n, hn, hs, hpar⟩)
    · obtain ⟨m, hm'⟩ := hp p hpar
      exact hf.not_seated hm'
    · obtain ⟨m, hm', -⟩ := h.parent c n p hn hs hpar
      exact hf.not_seated hm'
  · rw [← h.child p k c hk]
    unfold atParent
    rw [hk.2]
    by_cases hpar : parent = some p
    · simp [hpar, Node.adopt, or_comm]
    · simp [hpar]

theorem Ownership.alloc_nodup (h : Ownership world nodes live free) (hf : FreshSlot nodes free r)
    {i : ℕ} (hm : (allocNodes nodes r parent)[i]? = some m) : m.children.Nodup := by
  rw [allocNodes_get (hf.le h)] at hm
  split_ifs at hm with hi
  · cases hm
    simp [Node.fresh]
  · obtain ⟨k, hk, rfl⟩ := Option.map_eq_some_iff.mp hm
    have hnd := h.children_nodup i k hk
    unfold atParent
    split_ifs with hpar
    · refine List.nodup_append.mpr ⟨hnd, by simp, ?_⟩
      rintro c hc _ hr rfl
      rw [List.mem_singleton.mp hr] at hc
      obtain ⟨n, hn, -⟩ := (h.child _ k r (h.seated hk)).mp hc
      exact hf.not_seated hn
    · exact hnd

theorem Ownership.alloc_live (h : Ownership world nodes live free) (hf : FreshSlot nodes free r) :
    live + 1 = (allocNodes nodes r parent).countP fun n => n.state ≠ .stopped := by
  have hcount : (nodes.map (atParent parent (.adopt r))).countP (fun n => n.state ≠ .stopped) =
      live := by
    rw [h.live_eq, List.countP_map]
    refine List.countP_congr fun k _ => ?_
    simp [(adopt_frame r parent k).2.1]
  unfold allocNodes put
  split_ifs with hlen
  · simp [List.countP_append, ← hcount, Node.fresh]
  · have hle := hf.le h
    have hlt : r.slot < nodes.length := by
      simp only [List.length_map] at hlen
      omega
    have hold := (hf.old_stopped h (List.getElem?_eq_getElem hlt)).1
    have := countP_set_add (fun n : Node => decide (n.state ≠ .stopped)) (Node.fresh r parent)
      (l := nodes.map (atParent parent (.adopt r)))
      (i := r.slot) (by rw [List.getElem?_map, List.getElem?_eq_getElem hlt]; rfl)
    rw [hcount] at this
    simp only [(adopt_frame r parent _).2.1, hold] at this
    simpa [Node.fresh] using this.symm

/-- The slot of the new actor leaves the free list. -/
theorem Ownership.alloc_free (h : Ownership world nodes live free) (hf : FreshSlot nodes free r)
    (i : ℕ) :
    i ∈ free.tail ↔ ∃ n, (allocNodes nodes r parent)[i]? = some n ∧ n.state = .stopped := by
  have hs := hf.slot
  rw [allocNodes_get (hf.le h)]
  by_cases hi : i = r.slot
  · simp only [hi, if_true, Option.some.injEq, exists_eq_left', Node.fresh, reduceCtorEq,
      iff_false]
    intro hmem
    rcases free with - | ⟨j, free⟩
    · simp at hmem
    · simp only [List.headD_cons] at hs
      exact (List.nodup_cons.mp h.free_nodup).1 (hs ▸ hmem)
  · have hmem : i ∈ free.tail ↔ i ∈ free := by
      rcases free with - | ⟨j, free⟩
      · simp
      · simp only [List.headD_cons] at hs
        simp [show i ≠ j from fun hij => hi (hij.trans hs.symm)]
    simp only [if_neg hi, hmem, h.free_mem, Option.map_eq_some_iff]
    constructor
    · rintro ⟨n, hn, hs⟩
      exact ⟨_, ⟨n, hn, rfl⟩, (adopt_frame r parent n).2.1.trans hs⟩
    · rintro ⟨_, ⟨n, hn, rfl⟩, hs⟩
      exact ⟨n, hn, (adopt_frame r parent n).2.1.symm.trans hs⟩

theorem Ownership.alloc (h : Ownership world nodes live free) (hf : FreshSlot nodes free r)
    (hw : r.world = world)
    (hp : ∀ p, parent = some p → ∃ m l, Seated nodes p m ∧
      (m.state = .starting ∨ m.state = .active) ∧ Lineage nodes p l ∧ l.length ≤ 128) :
    Ownership world (allocNodes nodes r parent) (live + 1) free.tail where
  slotted i n hn := by
    rw [allocNodes_get (hf.le h)] at hn
    split_ifs at hn with hi
    · cases hn
      exact ⟨hw, hi.symm⟩
    · obtain ⟨k, hk, rfl⟩ := Option.map_eq_some_iff.mp hn
      rw [(adopt_frame r parent k).1]
      exact h.slotted i k hk
  parent q n p hn hs hpar :=
    h.alloc_parent hf (fun p hp' => by
      obtain ⟨m, l, hm, hms, -⟩ := hp p hp'
      exact ⟨m, hm, hms⟩) hn hs hpar
  lineage q n hn hs := by
    rcases (seated_alloc (hf.le h)).mp hn with ⟨rfl, rfl⟩ | ⟨-, k, hk, rfl⟩
    · rcases parent with - | p
      · exact ⟨[q], .root hn rfl, by simp⟩
      · obtain ⟨m, l, hm, hms, hl, hlen⟩ := hp p rfl
        have hup : m.state ≠ .stopped := by
          rcases hms with hms | hms <;> simp [hms]
        refine ⟨q :: l, .child hn rfl (h.alloc_lineage hf hm hup hl), ?_⟩
        simp only [List.length_cons]
        omega
    · have hks := (adopt_frame r parent k).2.1 ▸ hs
      obtain ⟨l, hl, hlen⟩ := h.lineage q k hk hks
      exact ⟨l, h.alloc_lineage hf hk hks hl, hlen⟩
  child q m c hm :=
    h.alloc_child hf (fun p hp' => by
      obtain ⟨m, l, hm, -⟩ := hp p hp'
      exact ⟨m, hm⟩) hm
  children_nodup i m hm := h.alloc_nodup hf hm
  live_eq := h.alloc_live hf
  free_mem := h.alloc_free hf
  free_nodup := h.free_nodup.tail

end Alloc

section Retire

theorem retireNodes_get (hlt : n.reference.slot < nodes.length) (j : ℕ) :
    (retireNodes nodes n)[j]? =
      if j = n.reference.slot then some { n with state := .stopped }
      else (nodes[j]?).map (atParent n.parent (.disown n.reference)) := by
  rw [retireNodes, List.getElem?_set, List.getElem?_map]
  by_cases hj : n.reference.slot = j
  · simp [hj, hj ▸ hlt]
  · simp [hj, Ne.symm hj]

theorem seated_retire (hn : Seated nodes r n) {q : ActorRef} {k : Node} :
    Seated (retireNodes nodes n) q k ↔
      q = r ∧ k = { n with state := .stopped } ∨
        q ≠ r ∧ ∃ k₀, Seated nodes q k₀ ∧
          k = atParent n.parent (.disown r) k₀ := by
  obtain ⟨hget, rfl⟩ := hn
  have hlt : n.reference.slot < nodes.length := (List.getElem?_eq_some_iff.mp hget).1
  have href : ∀ k : Node, (atParent n.parent (.disown n.reference) k).reference =
        k.reference :=
    fun k => (atParent_frame n.parent (.disown n.reference)
      (fun _ => ⟨rfl, rfl, rfl⟩) k).1
  unfold Seated
  rw [retireNodes_get hlt]
  by_cases hq : q.slot = n.reference.slot
  · simp only [hq, if_true, Option.some.injEq]
    constructor
    · rintro ⟨rfl, hr⟩
      exact .inl ⟨hr.symm, rfl⟩
    · rintro (⟨rfl, rfl⟩ | ⟨hne, k₀, ⟨hk₀, hr⟩, -⟩)
      · exact ⟨rfl, rfl⟩
      · have := hget.symm.trans hk₀
        cases this
        exact absurd hr.symm hne
  · have hne : q ≠ n.reference := fun h => hq (h ▸ rfl)
    simp only [hq, if_false, hne, false_and, false_or, ne_eq, not_false_eq_true, true_and,
      Option.map_eq_some_iff]
    constructor
    · rintro ⟨⟨k₀, hk₀, rfl⟩, hr⟩
      exact ⟨k₀, ⟨hk₀, (href k₀).symm.trans hr⟩, rfl⟩
    · rintro ⟨k₀, ⟨hk₀, hr⟩, rfl⟩
      exact ⟨⟨k₀, hk₀, rfl⟩, (href k₀).trans hr⟩

variable (n r) in
theorem disown_frame (k : Node) :
    (atParent n.parent (.disown r) k).reference = k.reference ∧
      (atParent n.parent (.disown r) k).state = k.state ∧
      (atParent n.parent (.disown r) k).parent = k.parent :=
  atParent_frame n.parent (.disown r) (fun _ => ⟨rfl, rfl, rfl⟩) k

/-- Everyone else stays seated, with the same parent and state. -/
theorem retire_keep {q : ActorRef} {k : Node} (hn : Seated nodes r n) (hq : q ≠ r)
    (hk : Seated nodes q k) : ∃ k', Seated (retireNodes nodes n) q k' ∧
      k'.parent = k.parent ∧ k'.state = k.state := by
  obtain ⟨-, hst, hpar⟩ := disown_frame r n k
  exact ⟨_, (seated_retire hn).mpr (.inr ⟨hq, k, hk, rfl⟩), hpar, hst⟩

/-- The living children of an actor are those it had, but for the retired one. -/
theorem retire_living {q : ActorRef} (hn : Seated nodes r n) :
    (∃ k, Seated (retireNodes nodes n) c k ∧ k.state ≠ .stopped ∧ k.parent = some q) ↔
      c ≠ r ∧ ∃ k, Seated nodes c k ∧ k.state ≠ .stopped ∧ k.parent = some q := by
  constructor
  · rintro ⟨k, hk, hks, hp⟩
    rcases (seated_retire hn).mp hk with ⟨rfl, rfl⟩ | ⟨hne, k₀, hk₀, rfl⟩
    · exact absurd rfl hks
    · obtain ⟨-, hst, hpar⟩ := disown_frame r n k₀
      exact ⟨hne, k₀, hk₀, hst ▸ hks, hpar ▸ hp⟩
  · rintro ⟨hne, k, hk, hks, hp⟩
    obtain ⟨k', hk', hp', hs'⟩ := retire_keep hn hne hk
    exact ⟨k', hk', hs' ▸ hks, hp'.trans hp⟩

/-- Nobody living has the actor as its parent. -/
theorem Ownership.childless (h : Ownership world nodes live free) (hn : Seated nodes r n)
    (hc : n.children = []) (q : ActorRef) (k : Node) (hk : Seated nodes q k)
    (hks : k.state ≠ .stopped) : k.parent ≠ some r := by
  intro hp
  have := (h.child r n q hn).mpr ⟨k, hk, hks, hp⟩
  simp [hc] at this

theorem Ownership.retire_parent {q : ActorRef} {k : Node} (h : Ownership world nodes live free)
    (hn : Seated nodes r n) (hc : n.children = []) (hk : Seated (retireNodes nodes n) q k)
    (hks : k.state ≠ .stopped) (hp : k.parent = some p) :
    ∃ m, Seated (retireNodes nodes n) p m ∧ m.state ≠ .stopped ∧ m.state.Bounds k.state := by
  rcases (seated_retire hn).mp hk with ⟨rfl, rfl⟩ | ⟨-, k₀, hk₀, rfl⟩
  · exact absurd rfl hks
  · obtain ⟨-, hst, hpar⟩ := disown_frame r n k₀
    rw [hst] at hks ⊢
    rw [hpar] at hp
    obtain ⟨m, hm, hms, hb⟩ := h.parent q k₀ p hk₀ hks hp
    have hpr : p ≠ r := fun hpr => h.childless hn hc q k₀ hk₀ hks (hpr ▸ hp)
    obtain ⟨m', hm', -, hst'⟩ := retire_keep hn hpr hm
    exact ⟨m', hm', hst' ▸ hms, hst' ▸ hb⟩

theorem Ownership.retire_lineage {q : ActorRef} {k : Node} (h : Ownership world nodes live free)
    (hn : Seated nodes r n) (hc : n.children = []) (hk : Seated (retireNodes nodes n) q k)
    (hks : k.state ≠ .stopped) :
    ∃ l, Lineage (retireNodes nodes n) q l ∧ l.length ≤ 129 := by
  rcases (seated_retire hn).mp hk with ⟨rfl, rfl⟩ | ⟨hne, k₀, hk₀, rfl⟩
  · exact absurd rfl hks
  · rw [(disown_frame r n k₀).2.1] at hks
    obtain ⟨l, hl, hlen⟩ := h.lineage q k₀ hk₀ hks
    refine ⟨l, hl.mono fun a ha b hb => ?_, hlen⟩
    have har : a ≠ r := by
      rintro rfl
      exact h.not_mem_lineage (h.childless hn hc) hl hk₀ hks hne ha
    obtain ⟨b', hb', hp', -⟩ := retire_keep hn har hb
    exact ⟨b', hb', hp'⟩

/-- The retired actor is taken out of the children of its parent. -/
theorem Ownership.retire_child {q : ActorRef} (h : Ownership world nodes live free)
    (hn : Seated nodes r n) (hc : n.children = []) (hm : Seated (retireNodes nodes n) q m) :
    c ∈ m.children ↔
      ∃ k, Seated (retireNodes nodes n) c k ∧ k.state ≠ .stopped ∧ k.parent = some q := by
  rw [retire_living hn]
  rcases (seated_retire hn).mp hm with ⟨rfl, rfl⟩ | ⟨-, k, hk, rfl⟩
  · refine iff_of_false (by simp [hc]) ?_
    rintro ⟨-, k, hk, hks, hp⟩
    exact h.childless hn hc c k hk hks hp
  · unfold atParent
    rw [hk.2]
    by_cases hp : n.parent = some q
    · simp [hp, Node.disown, h.child q k c hk, and_comm]
    · rw [if_neg hp, h.child q k c hk]
      refine ⟨fun hex => ⟨?_, hex⟩, And.right⟩
      rintro rfl
      obtain ⟨k', hk', -, hp'⟩ := hex
      exact hp (hn.unique hk' ▸ hp')

theorem Ownership.retire_live (h : Ownership world nodes live free) (hn : Seated nodes r n)
    (hs : n.state = .stopping) :
    live - 1 = (retireNodes nodes n).countP fun n => n.state ≠ .stopped := by
  have hcount : (nodes.map (atParent n.parent (.disown r))).countP
      (fun n => n.state ≠ .stopped) = live := by
    rw [h.live_eq, List.countP_map]
    refine List.countP_congr fun k _ => ?_
    simp [(disown_frame r n k).2.1]
  have := countP_set_add (fun n : Node => decide (n.state ≠ .stopped))
    ({ n with state := .stopped } : Node)
    (l := nodes.map (atParent n.parent (.disown r)))
    (i := r.slot) (b := atParent n.parent (.disown r) n) (by simp [hn.1])
  rw [hcount] at this
  simp only [(disown_frame r n n).2.1, hs, ne_eq, reduceCtorEq, not_false_eq_true, decide_true,
    if_true, not_true_eq_false, decide_false, Bool.false_eq_true, if_false, add_zero] at this
  rw [← hn.2] at this
  simp only [retireNodes, ne_eq]
  omega

/-- The slot of the retired actor is free. -/
theorem Ownership.retire_free (h : Ownership world nodes live free) (hn : Seated nodes r n)
    (i : ℕ) :
    i ∈ r.slot :: free ↔ ∃ k, (retireNodes nodes n)[i]? = some k ∧ k.state = .stopped := by
  have hlt : n.reference.slot < nodes.length := hn.2 ▸ (List.getElem?_eq_some_iff.mp hn.1).1
  rw [retireNodes_get hlt, hn.2]
  by_cases hi : i = r.slot
  · simp [hi]
  · simp only [hi, if_false, List.mem_cons, false_or, h.free_mem, Option.map_eq_some_iff]
    constructor
    · rintro ⟨k, hk, hks⟩
      exact ⟨_, ⟨k, hk, rfl⟩, (disown_frame r n k).2.1.trans hks⟩
    · rintro ⟨_, ⟨k, hk, rfl⟩, hks⟩
      exact ⟨k, hk, (disown_frame r n k).2.1.symm.trans hks⟩

theorem Ownership.retire (h : Ownership world nodes live free) (hn : Seated nodes r n)
    (hs : n.state = .stopping) (hc : n.children = []) :
    Ownership world (retireNodes nodes n) (live - 1) (r.slot :: free) := by
  have hlt : n.reference.slot < nodes.length := hn.2 ▸ (List.getElem?_eq_some_iff.mp hn.1).1
  refine ⟨fun j k hk => ?_, fun q k p => h.retire_parent hn hc, fun q k => h.retire_lineage hn hc,
    fun q m c => h.retire_child hn hc, fun j m hm => ?_, h.retire_live hn hs, h.retire_free hn,
    List.nodup_cons.mpr ⟨?_, h.free_nodup⟩⟩
  · rw [retireNodes_get hlt] at hk
    split_ifs at hk with hj
    · cases hk
      exact ⟨(h.slotted _ _ hn.1).1, hn.2 ▸ hj.symm⟩
    · obtain ⟨k₀, hk₀, rfl⟩ := Option.map_eq_some_iff.mp hk
      rw [hn.2, (disown_frame r n k₀).1]
      exact h.slotted j k₀ hk₀
  · rw [retireNodes_get hlt] at hm
    split_ifs at hm with hj
    · cases hm
      simp [hc]
    · obtain ⟨k, hk, rfl⟩ := Option.map_eq_some_iff.mp hm
      have hnd := h.children_nodup j k hk
      unfold atParent
      split_ifs
      · exact hnd.filter _
      · exact hnd
  · intro hmem
    obtain ⟨k, hk, hks⟩ := (h.free_mem _).mp hmem
    rw [hn.1] at hk
    cases hk
    simp [hs] at hks

end Retire

end Actorplane
