import Actorplane.Locked.Stopping

/-!
# Draining under the World lock

Marking a subtree walks it child by child. The walk is compared with the tree as it
was before: each call has marked the actors below its own, and returns the earliest
of the deadlines it met. Together the marks are one move of the core.
-/

namespace Actorplane

variable {world : ℕ} {c c' c'' : Core} {S S' : ActorRef → Prop} {root r : ActorRef} {n : Node}
  {d d' : Instant} {fuel : ℕ}

theorem Slotwise.length_eq {α : Type} {R : α → α → Prop} {l l' : List α} (h : Slotwise R l l') :
    l'.length = l.length := by
  have hle : ∀ i, i < l.length ↔ i < l'.length := by
    intro i
    have hi := h i
    rcases hl : l[i]? with - | a <;> rcases hl' : l'[i]? with - | a' <;> rw [hl, hl'] at hi
    · rw [List.getElem?_eq_none_iff] at hl hl'
      omega
    · cases hi
    · cases hi
    · rw [List.getElem?_eq_some_iff] at hl hl'
      obtain ⟨h1, -⟩ := hl
      obtain ⟨h2, -⟩ := hl'
      omega
  have h1 := hle l.length
  have h2 := hle l'.length
  omega

/-! ## Marking -/

/-- The actor becomes quiescing under the root, without a deadline of its own. -/
def Node.mark (lastIssued : ℕ) (root : ActorRef) (n : Node) : Node :=
  { n with
    state := .quiescing
    drainRoot := some root
    drainDeadline := none
    cutoff := some (n.cutoff.getD lastIssued) }

/-- The actors of a set have been marked, and no deadline among them was earlier. -/
structure Marking (root : ActorRef) (S : ActorRef → Prop) (deadline : Instant) (c c' : Core) :
    Prop where
  frame : c' = { c with nodes := c'.nodes, drainRoots := c'.drainRoots }
  nodes : Slotwise (fun n n' => n' = n ∧ ¬S n.reference ∨
    S n.reference ∧ n' = n.mark c.publications.lastIssued root ∧
      ∀ t, n.drainDeadline = some t → deadline ≤ t) c.nodes c'.nodes
  present : ∀ x, S x → Present c.nodes x
  inside : ∀ (i : ℕ) (n : Node), c.nodes[i]? = some n → S n.reference → c'.drainRoots.lookup i = none
  outside : ∀ i : ℕ, (∀ n, c.nodes[i]? = some n → ¬S n.reference) →
    c'.drainRoots.lookup i = c.drainRoots.lookup i

namespace Marking

theorem refl (root : ActorRef) (d : Instant) (c : Core) : Marking root (fun _ => False) d c c where
  frame := rfl
  nodes := .refl (fun _ => .inl ⟨rfl, not_false⟩) _
  present _ h := absurd h not_false
  inside _ _ _ h := absurd h not_false
  outside _ _ := rfl

theorem publications (h : Marking root S d c c') : c'.publications = c.publications := by
  rw [h.frame]

theorem seated (h : Marking root S d c c') (hn : Seated c.nodes r n) :
    ∃ n', Seated c'.nodes r n' ∧ n'.parent = n.parent ∧ n'.children = n.children ∧
      (n' = n ∨ n'.state = .quiescing ∧ n.state ≠ .stopping ∧ n.state ≠ .stopped) := by
  obtain ⟨n', hn', hr⟩ := h.nodes.get hn.1
  rcases hr with ⟨rfl, -⟩ | ⟨hS, rfl, -⟩
  · exact ⟨n', ⟨hn', hn.2⟩, rfl, rfl, .inl rfl⟩
  · obtain ⟨k, hk, h1, h2⟩ := h.present _ hS
    rw [hn.2] at hk
    rw [hk.unique hn] at h1 h2
    exact ⟨_, ⟨hn', hn.2⟩, rfl, rfl, .inr ⟨rfl, h1, h2⟩⟩

theorem trans (h : Marking root S d c c') (h' : Marking root S' d' c' c'') (hd : d' ≤ d)
    (hpresent : ∀ x, S' x → Present c.nodes x) :
    Marking root (fun x => S x ∨ S' x) d' c c'' where
  frame := by
    rw [h'.frame, h.frame]
  nodes := by
    intro i
    have h1 := h.nodes i
    have h2 := h'.nodes i
    rw [h.publications] at h2
    generalize c.nodes[i]? = x at h1 ⊢
    generalize c'.nodes[i]? = y at h1 h2
    generalize c''.nodes[i]? = z at h2 ⊢
    cases h1 with
    | none => cases h2; exact .none
    | @some n n' h1 =>
      cases h2 with
      | some h2 =>
        refine .some ?_
        have href : n'.reference = n.reference := by
          rcases h1 with ⟨rfl, -⟩ | ⟨-, rfl, -⟩ <;> rfl
        rw [href] at h2
        rcases h1 with ⟨rfl, h1⟩ | ⟨h1, rfl, ht⟩ <;> rcases h2 with ⟨rfl, h2⟩ | ⟨h2, rfl, ht'⟩
        · exact .inl ⟨rfl, not_or.mpr ⟨h1, h2⟩⟩
        · exact .inr ⟨.inr h2, rfl, ht'⟩
        · exact .inr ⟨.inl h1, rfl, fun t he => hd.trans (ht t he)⟩
        · exact .inr ⟨.inl h1, rfl, fun t he => hd.trans (ht t he)⟩
  present x hx := hx.elim (h.present x) (hpresent x)
  inside i n hn hS := by
    obtain ⟨n', hn', hr⟩ := h.nodes.get hn
    have href : n'.reference = n.reference := by
      rcases hr with ⟨rfl, -⟩ | ⟨-, rfl, -⟩ <;> rfl
    by_cases hS' : S' n.reference
    · exact h'.inside i n' hn' (href ▸ hS')
    · rw [h'.outside i fun k hk => ?_]
      · exact h.inside i n hn (hS.resolve_right hS')
      · have := hn'.symm.trans hk
        cases this
        rwa [href]
  outside i hout := by
    rw [h'.outside i fun n' hn' => ?_, h.outside i fun n hn => fun hS => hout n hn (.inl hS)]
    obtain ⟨n, hn, hr⟩ := h.nodes.back hn'
    have href : n'.reference = n.reference := by
      rcases hr with ⟨rfl, -⟩ | ⟨-, rfl, -⟩ <;> rfl
    rw [href]
    exact fun hS => hout n hn (.inr hS)

theorem congr (h : Marking root S d c c') (hS : ∀ x, S x ↔ S' x) : Marking root S' d c c' := by
  have : S = S' := funext fun x => propext (hS x)
  rwa [← this]

end Marking

/-! ## What lies below an actor -/

/-- The actor is neither stopping nor stopped, and the root is above it. -/
def Beneath (c : Core) (root x : ActorRef) : Prop :=
  ∃ n, Seated c.nodes x n ∧ Covered c.nodes root n

theorem Core.Owned.beneath_ended (ho : c.Owned world) (hn : Seated c.nodes r n)
    (hs : n.state = .stopping ∨ n.state = .stopped) (x : ActorRef) : ¬Beneath c r x := by
  rintro ⟨k, hk, h1, h2, l, hl, hmem⟩
  rw [hk.2] at hl
  rcases hs with hs | hs
  · exact h1 ((ho.lineage_bounds hl hk h2 hmem hn).1 hs)
  · obtain ⟨m, hm, hms⟩ := ho.lineage_alive hl hk h2 hmem
    rw [hm.unique hn] at hms
    exact hms hs

/-- The actors below one are itself and those below its children. -/
theorem Core.Owned.beneath_iff (ho : c.Owned world) (hn : Seated c.nodes r n)
    (h1 : n.state ≠ .stopping) (h2 : n.state ≠ .stopped) (x : ActorRef) :
    Beneath c r x ↔ x = r ∨ ∃ q ∈ n.children, Beneath c q x := by
  constructor
  · rintro ⟨k, hk, hk1, hk2, l, hl, hmem⟩
    rw [hk.2] at hl
    induction hl generalizing k with
    | root hx hp => exact .inl (List.mem_singleton.mp hmem).symm
    | @child y k' p l hx hp hl ih =>
      rcases List.mem_cons.mp hmem with rfl | hmem
      · exact .inl rfl
      · refine .inr ?_
        rw [hx.unique hk] at hp
        obtain ⟨m, hm, hms, hb⟩ := ho.parent y k p hk hk2 hp
        have hm1 : m.state ≠ .stopping := fun hs => hk1 (hb.1 hs)
        rcases ih m hm hm1 hms hmem with rfl | ⟨q, hq, i, hi, -, -, l', hl', hq'⟩
        · refine ⟨y, (ho.child p n y hn).mpr ⟨k, hk, hk2, hp⟩, k, hk, hk1, hk2, ?_⟩
          rw [hk.2]
          exact ⟨_, .child hk hp hl, by simp⟩
        · refine ⟨q, hq, k, hk, hk1, hk2, ?_⟩
          rw [hk.2]
          rw [hi.2] at hl'
          exact ⟨_, .child hk hp hl', List.mem_cons_of_mem _ hq'⟩
  · rintro (rfl | ⟨q, hq, k, hk, hk1, hk2, l, hl, hmem⟩)
    · obtain ⟨l, hl, -⟩ := ho.lineage x n hn h2
      refine ⟨n, hn, h1, h2, l, hn.2.symm ▸ hl, ?_⟩
      cases hl <;> simp
    · obtain ⟨m, hm, -, hp⟩ := (ho.child r n q hn).mp hq
      refine ⟨k, hk, hk1, hk2, l, hl, ?_⟩
      obtain ⟨l', hl', hsuf⟩ := hl.suffix hmem
      refine hsuf.subset ?_
      cases hl' with
      | root hm' hp' => simp [hm'.unique hm, hp] at hp'
      | child hm' hp' hl' =>
        rw [hm'.unique hm, hp] at hp'
        cases hp'
        refine List.mem_cons_of_mem _ ?_
        cases hl' <;> simp

namespace World

variable {w : World} {st : State} {a : Actor}

/-! ## The walk -/

theorem markQuiescing_one (hv : Present st.core.nodes r) (ha : st.actors[r.slot]? = some a)
    (hr : a.reference = r) (hslot : ∀ (i : ℕ) (n : Node), st.core.nodes[i]? = some n →
      n.reference.slot = i)
    (hd : ∀ t, a.drainDeadline = some t → d ≤ t) :
    Marking root (fun x => x = r) d st.core
      ({ st.modifyActor r fun a =>
          { a with
            state := .quiescing
            publicationCutoff := some (a.publicationCutoff.getD st.publications.lastIssued)
            drainRoot := some root
            drainDeadline := none } with
        drainRoots := st.drainRoots.erase r.slot } : State).core := by
  set mark : Actor → Actor := fun a =>
    { a with
      state := .quiescing
      publicationCutoff := some (a.publicationCutoff.getD st.publications.lastIssued)
      drainRoot := some root
      drainDeadline := none }
  have hc : ({ st.modifyActor r mark with drainRoots := st.drainRoots.erase r.slot } : State).core =
      { st.core.setNode r.slot (a.node.mark st.core.publications.lastIssued root) with
        drainRoots := st.core.drainRoots.erase r.slot } := by
    show ({ (st.modifyActor r mark).core with
      drainRoots := st.core.drainRoots.erase r.slot } : Core) = _
    rw [State.core_modify_node mark ha rfl rfl]
    rfl
  have hn := State.core_nodes_get ha
  have hlt := (List.getElem?_eq_some_iff.mp hn).1
  have hat : ∀ (i : ℕ) (n : Node), st.core.nodes[i]? = some n → (n.reference = r ↔ i = r.slot) := by
    intro i n hi
    constructor
    · rintro rfl
      exact (hslot i n hi).symm
    · rintro rfl
      have := hi.symm.trans hn
      cases this
      exact hr
  rw [hc]
  refine ⟨rfl, fun i => ?_, fun x hx => hx ▸ hv, fun i n hi hS => ?_, fun i hout => ?_⟩
  · show Option.Rel _ st.core.nodes[i]? (st.core.nodes.set r.slot _)[i]?
    rw [List.getElem?_set]
    split_ifs with hi
    · rw [← hi, hn]
      exact .some (.inr ⟨hr, rfl, hd⟩)
    · rcases hk : st.core.nodes[i]? with - | k
      · exact .none
      · exact .some (.inl ⟨rfl, fun he => hi ((hat i k hk).mp he).symm⟩)
  · show (st.core.drainRoots.erase r.slot).lookup i = none
    rw [Assoc.lookup_erase_ite, if_pos ((hat i n hi).mp hS)]
  · show (st.core.drainRoots.erase r.slot).lookup i = _
    rw [Assoc.lookup_erase_ite, if_neg]
    rintro rfl
    exact hout _ hn hr

theorem check_of_marking {c : Core} (ho : c.Owned w.id) (hm : Marking root S d c st.core)
    (hn : Seated c.nodes r n) : ∃ a, w.checkRef r st = .ok a ∧ st.actors[r.slot]? = some a ∧
      a.reference = r ∧ a.children = n.children ∧
      (a.node = n ∨ a.state = .quiescing ∧ n.state ≠ .stopping ∧ n.state ≠ .stopped) := by
  obtain ⟨n', hn', -, hch, hst⟩ := hm.seated hn
  obtain ⟨a, ha, rfl⟩ := State.actors_get_of_node hn'.1
  refine ⟨a, (checkRef_slotted fun i k hk => ?_).mpr ⟨ha, hn'.2⟩, ha, hn'.2, hch, hst⟩
  obtain ⟨k₀, hk₀, hr⟩ := hm.nodes.back hk
  have href : k.reference = k₀.reference := by
    rcases hr with ⟨rfl, -⟩ | ⟨-, rfl, -⟩ <;> rfl
  rw [href]
  exact ho.slotted i k₀ hk₀

theorem markAllQuiescing_spec {c : Core}
    {mark : ActorRef → Instant → State → Except Error Instant × State} (children : List ActorRef)
    (hmark : ∀ q ∈ children, ∀ S d st, Marking root S d c st.core →
      ∃ d' st', mark q d st = (.ok d', st') ∧ d' ≤ d ∧
        Marking root (fun x => S x ∨ Beneath c q x) d' c st'.core)
    (hm : Marking root S d c st.core) :
    ∃ d' st', markAllQuiescing mark children d st = (.ok d', st') ∧ d' ≤ d ∧
      Marking root (fun x => S x ∨ ∃ q ∈ children, Beneath c q x) d' c st'.core := by
  induction children generalizing S d st with
  | nil => exact ⟨d, st, rfl, le_rfl, hm.congr fun x => by simp⟩
  | cons q children ih =>
    obtain ⟨d₁, st₁, h₁, hle₁, hm₁⟩ := hmark q (by simp) S d st hm
    obtain ⟨d₂, st₂, h₂, hle₂, hm₂⟩ := ih (fun x hx => hmark x (List.mem_cons_of_mem _ hx)) hm₁
    refine ⟨d₂, st₂, ?_, hle₂.trans hle₁, hm₂.congr fun x => by simp [or_assoc]⟩
    unfold markAllQuiescing
    rw [h₁]
    exact h₂

/-- The deadline a marked actor passes down. -/
def sooner (previous : Option Instant) (d : Instant) : Instant :=
  match previous with
  | none => d
  | some previous => min d previous

theorem markQuiescing_spec {c : Core} (ho : c.Owned w.id) (hn : Seated c.nodes r n)
    (hdeep : Deep c.nodes r fuel) (hfuel : 0 < fuel) (hm : Marking root S d c st.core) :
    ∃ d' st', w.markQuiescing root fuel r d st = (.ok d', st') ∧ d' ≤ d ∧
      Marking root (fun x => S x ∨ Beneath c r x) d' c st'.core := by
  induction fuel generalizing r n S d st with
  | zero => exact absurd hfuel (lt_irrefl 0)
  | succ fuel ih =>
    obtain ⟨a, hcheck, ha, hr, hch, hst⟩ := check_of_marking ho hm hn
    unfold markQuiescing
    dsimp only
    rw [hcheck]
    dsimp only
    by_cases hs : a.state = .stopping ∨ a.state = .stopped
    · rw [if_pos hs]
      refine ⟨d, st, rfl, le_rfl, hm.congr fun x => ?_⟩
      have hns : n.state = .stopping ∨ n.state = .stopped := by
        rcases hst with rfl | ⟨hq, -⟩
        · exact hs
        · simp [hq] at hs
      simp [ho.beneath_ended hn hns x]
    · rw [if_neg hs]
      obtain ⟨h1, h2⟩ : n.state ≠ .stopping ∧ n.state ≠ .stopped := by
        rcases hst with rfl | ⟨-, h⟩
        · exact not_or.mp hs
        · exact h
      set d₁ : Instant := sooner a.drainDeadline d with hd₁
      have hle₁ : d₁ ≤ d ∧ ∀ t, a.drainDeadline = some t → d₁ ≤ t := by
        rw [hd₁]
        rcases a.drainDeadline with - | t
        · exact ⟨le_rfl, by simp⟩
        · exact ⟨min_le_left d t, fun t' ht => by cases ht; exact min_le_right d t⟩
      have hslot : ∀ (i : ℕ) (k : Node), st.core.nodes[i]? = some k → k.reference.slot = i := by
        intro i k hk
        obtain ⟨k₀, hk₀, hrel⟩ := hm.nodes.back hk
        have href : k.reference = k₀.reference := by
          rcases hrel with ⟨rfl, -⟩ | ⟨-, rfl, -⟩ <;> rfl
        rw [href]
        exact (ho.slotted i k₀ hk₀).2
      have hpres : Present st.core.nodes r :=
        ⟨a.node, ⟨State.core_nodes_get ha, hr⟩, not_or.mp hs⟩
      have hm₁ := hm.trans (@markQuiescing_one root _ _ _ _ hpres ha hr hslot hle₁.2) hle₁.1
        fun x hx => hx ▸ ⟨n, hn, h1, h2⟩
      obtain ⟨d₂, st₂, h₂, hle₂, hm₂⟩ := @markAllQuiescing_spec _ _ _ _ _ (w.markQuiescing root fuel) a.children (fun q hq S d st hm => by
          obtain ⟨hdq, hfq, k, hk⟩ := ho.deep_child hdeep hn (hch ▸ hq)
          exact ih hk hdq hfq hm) hm₁
      refine ⟨d₂, w.markActivityDependentsLocked r (w.refreshPythonReadyLocked r st₂), ?_,
        hle₂.trans hle₁.1, hm₂.congr fun x => ?_⟩
      · split
        case h_1 heq => cases heq.symm.trans h₂
        case h_2 heq =>
          cases heq.symm.trans h₂
          rfl
      · rw [ho.beneath_iff hn h1 h2, hch, or_assoc]

end World

/-! ## Drain requests -/

/-- The marks of a whole subtree, with the deadline at its root, are one move. -/
theorem Marking.quiesced (hm : Marking r (Beneath c r) d c c') (ho : c.Owned world)
    (hn : Seated c.nodes r n) (hs : n.state = .active) :
    Quiesced c.publications.lastIssued r d c.nodes
      (c'.nodes.set r.slot { n.mark c.publications.lastIssued r with drainDeadline := some d }) ∧
    Step world c (.quiesce r)
      { c with
        nodes :=
          c'.nodes.set r.slot { n.mark c.publications.lastIssued r with drainDeadline := some d }
        drainRoots := AList.insert r.slot r c'.drainRoots } := by
  have hself : Covered c.nodes r n := by
    obtain ⟨k, hk, hcov⟩ := (ho.beneath_iff hn (by simp [hs]) (by simp [hs]) r).mpr (.inl rfl)
    rwa [hk.unique hn] at hcov
  have hiff : ∀ (i : ℕ) (m : Node), c.nodes[i]? = some m →
      (Beneath c r m.reference ↔ Covered c.nodes r m) := by
    intro i m hi
    have hm' := ho.seated hi
    refine ⟨?_, fun h => ⟨m, hm', h⟩⟩
    rintro ⟨k, hk, h⟩
    rwa [hk.unique hm'] at h
  have hq : Quiesced c.publications.lastIssued r d c.nodes
      (c'.nodes.set r.slot { n.mark c.publications.lastIssued r with drainDeadline := some d }) := by
    refine ⟨by rw [List.length_set, hm.nodes.length_eq], fun i m m' hi hi' => ?_⟩
    obtain ⟨k, hk, hrel⟩ := hm.nodes.get hi
    rw [hiff i m hi] at hrel
    rw [List.getElem?_set] at hi'
    split_ifs at hi' with hir hlt
    · cases hi'
      have hmn := hn.1.symm.trans (hir ▸ hi)
      cases hmn
      rcases hrel with ⟨-, hout⟩ | ⟨hcov, -, ht⟩
      · exact absurd hself hout
      · exact .inr ⟨hcov, by simp [Node.quiesce, Node.mark, hn.2], ht⟩
    · have := hi'.symm.trans hk
      cases this
      rcases hrel with hrel | ⟨hcov, rfl, ht⟩
      · exact .inl hrel
      · refine .inr ⟨hcov, ?_, ht⟩
        have hne : m.reference ≠ r := by
          rintro rfl
          exact hir (ho.slotted i m hi).2
        simp [Node.quiesce, Node.mark, hne]
  refine ⟨hq, .quiesce n d _ _ hn hs hq (by simp) (fun i m hi hne hcov => ?_)
    (fun i m hi hne hout => ?_) fun i hi => ?_⟩
  · rw [Assoc.lookup_insert_ite, if_neg hne]
    exact hm.inside i m hi ((hiff i m hi).mpr hcov)
  · rw [Assoc.lookup_insert_ite, if_neg hne]
    refine hm.outside i fun k hk => ?_
    have := hi.symm.trans hk
    cases this
    rwa [hiff i m hi]
  · rw [Assoc.lookup_insert_ite, if_neg]
    · exact hm.outside i fun k hk => by simp [hi] at hk
    · rintro rfl
      simp [hn.1] at hi

/-- What a drain request with a deadline does to its actor. -/
inductive DrainRequest (world : ℕ) (r : ActorRef) (deadline : Instant) (c : Core) : Core → Prop
  | missing : (∀ n, ¬Seated c.nodes r n) → DrainRequest world r deadline c c
  | ended : Ended c.nodes r → DrainRequest world r deadline c c
  | early {n : Node} {c' : Core} : Seated c.nodes r n → n.state = .starting →
      Fenced world (c.Doomed r) (fun _ => False) c c' → Ended c'.nodes r →
      DrainRequest world r deadline c c'
  | sooner {n m : Node} {root : ActorRef} (t : Instant) : Seated c.nodes r n →
      n.state = .quiescing → n.drainRoot = some root → Seated c.nodes root m →
      (∀ old, m.drainDeadline = some old → t ≤ old) → t ≤ deadline →
      DrainRequest world r deadline c
        (c.setNode root.slot { m with drainDeadline := some t })
  | begun {n : Node} {t : Instant} {c' : Core} : Seated c.nodes r n → n.state = .active →
      Step world c (.quiesce r) c' →
      Quiesced c.publications.lastIssued r t c.nodes c'.nodes → t ≤ deadline →
      DrainRequest world r deadline c c'

/-- The moves of a drain request. -/
def Move.byDrain (D : ActorRef → Prop) (m : Move) : Prop :=
  (∃ root, m = .setDeadline root ∨ m = .quiesce root) ∨ m.byFence D

theorem DrainRequest.evolves {deadline : Instant} (h : DrainRequest world r deadline c c')
    (hv : c.Valid world) :
    Evolves world (Move.byDrain fun x => c.Doomed r x ∧ Ended c'.nodes x) c c' := by
  cases h with
  | missing | ended => exact .refl c
  | early _ _ hf _ =>
    exact hf.mono fun m hm => .inr (hm.mono fun x hx => ⟨hx.1, hx.2.resolve_left not_false⟩)
  | @sooner n m root t _ _ _ hm hle _ =>
    exact .single hv (.inl ⟨root, .inl rfl⟩) (.setDeadline m t hm hle) (by simp)
      (by simp [Move.loosens])
  | begun _ _ hs _ _ =>
    exact .single hv (.inl ⟨r, .inr rfl⟩) hs (by simp) (by simp [Move.loosens])

namespace World

variable {w : World} {st : State} {a : Actor} {now : Instant}

/-- The drain deadline of a root that is asked to drain again. -/
def lowered (old : Option Instant) (deadline : Instant) : Instant :=
  match old with
  | none => deadline
  | some old => min old deadline

theorem drainLocked_spec (hv : st.core.Valid w.id) (deadline : Instant) :
    DrainRequest w.id r deadline st.core (w.drainLocked r deadline st).2.core ∧
      ((∃ n, Seated st.core.nodes r n) → (w.drainLocked r deadline st).1 = .ok ()) := by
  unfold drainLocked
  rcases hcheck : w.checkRef r st with e | a
  · have hno := checkRef_error hv.owned hcheck
    exact ⟨.missing hno, fun ⟨n, hn⟩ => absurd hn (hno n)⟩
  dsimp only
  have hn := seated_of_check hv.owned hcheck
  obtain ⟨ha, hr⟩ := (checkRef_ok hv.owned).mp hcheck
  have hnode : a.node.state = a.state := rfl
  rcases hs : a.state with - | - | - | - | -
  · obtain ⟨hf, he⟩ := stopLocked_fences (w := w) hv (st.core.closed_doomed r) .self
    exact ⟨.early hn hs hf (he ⟨_, hn⟩).2, fun h => (he h).1⟩
  · obtain ⟨d', st', hmark, hle, hm⟩ := @markQuiescing_spec _ r _ _ deadline _ w _ _
      hv.owned hn (deep_of_le (c := st.core) le_rfl) (by decide : 0 < walkFuel)
      (Marking.refl r deadline st.core)
    have hm : Marking r (Beneath st.core r) d' st.core st'.core := hm.congr fun x => by simp
    obtain ⟨hq, hstep⟩ := hm.quiesced hv.owned hn hs
    obtain ⟨n', hn', hrel⟩ := hm.nodes.get hn.1
    have hself : Beneath st.core r a.node.reference := by
      rw [show a.node.reference = r from hr]
      exact (hv.owned.beneath_iff hn (by simp [hnode, hs]) (by simp [hnode, hs]) r).mpr (.inl rfl)
    obtain ⟨a', ha', rfl⟩ := State.actors_get_of_node hn'
    have hnode' : a'.node = a.node.mark st.core.publications.lastIssued r := by
      rcases hrel with ⟨-, hout⟩ | ⟨-, he, -⟩
      · exact absurd hself hout
      · exact he
    rw [hmark]
    dsimp only
    set set_ : Actor → Actor := fun a => { a with drainDeadline := some d' }
    have hc : ({ st'.modifyActor r set_ with
        drainRoots := AList.insert r.slot r (st'.modifyActor r set_).drainRoots } : State).core =
        { st.core with
          nodes := st'.core.nodes.set r.slot
            { a.node.mark st.core.publications.lastIssued r with drainDeadline := some d' }
          drainRoots := AList.insert r.slot r st'.core.drainRoots } := by
      show ({ (st'.modifyActor r set_).core with
        drainRoots := AList.insert r.slot r st'.core.drainRoots } : Core) = _
      rw [State.core_modify_node set_ ha' rfl rfl, Core.setNode, ← hnode']
      conv_lhs => rw [hm.frame]
      rfl
    rw [hc]
    exact ⟨.begun hn hs hstep hq hle, fun _ => rfl⟩
  · obtain ⟨-, root, t, hroot, -, m, hm, -⟩ := hv.drains.under r a.node hn hs
    have hroot : a.drainRoot = some root := hroot
    obtain ⟨x, hx, hgx, rfl⟩ := check_of_seated hv.owned hm
    dsimp only
    rw [hroot, Option.getD_some, hx]
    dsimp only
    set t' : Instant := lowered x.drainDeadline deadline with ht'
    have hle : (∀ old, x.drainDeadline = some old → t' ≤ old) ∧ t' ≤ deadline := by
      rw [ht']
      rcases x.drainDeadline with - | old
      · exact ⟨by simp, le_rfl⟩
      · exact ⟨fun y hy => by cases hy; exact min_le_left _ _, min_le_right _ _⟩
    refine ⟨?_, fun _ => rfl⟩
    rw [core_markActivityDependentsLocked, State.core_modify_node _ hgx rfl rfl]
    exact .sooner t' hn hs hroot hm hle.1 hle.2
  · exact ⟨.ended ⟨_, hn, .inl hs⟩, fun _ => rfl⟩
  · exact ⟨.ended ⟨_, hn, .inr hs⟩, fun _ => rfl⟩

end World

/-! ## Maintenance -/

/-- The moves of the pass over the drain roots. -/
def Move.byUpkeep (D : ActorRef → Prop) (m : Move) : Prop :=
  (∃ root, m = .timeout root) ∨ m.byFence D

theorem Move.byUpkeep.fencing {D : ActorRef → Prop} {m : Move} (h : m.byUpkeep D) : m.fencing := by
  rcases h with ⟨root, rfl⟩ | h
  · trivial
  · exact h.fencing

theorem Move.byUpkeep.mono {D D' : ActorRef → Prop} {m : Move} (hD : ∀ x, D x → D' x)
    (h : m.byUpkeep D) : m.byUpkeep D' :=
  h.imp_right (Move.byFence.mono hD)

/-- A pass that only cancels the work of actors it has ended. -/
abbrev Upkeep (world : ℕ) (c c' : Core) : Prop :=
  Evolves world (Move.byUpkeep (Ended c'.nodes)) c c'

theorem Upkeep.trans (h : Upkeep world c c') (h' : Upkeep world c' c'') (hv : c.Valid world) :
    Upkeep world c c'' := by
  refine (h.mono fun m hm => hm.mono fun x => ?_).trans h'
  exact (h'.steps.reduces (fun _ hm => hm.fencing) (h.valid hv)).ended

namespace World

variable {w : World} {st : State} {a : Actor} {now : Instant}

/-- The drain deadline of the root has passed. -/
def Overdue (now : Instant) (c : Core) (root : ActorRef) : Prop :=
  ∃ n t, Seated c.nodes root n ∧ n.drainDeadline = some t ∧ t ≤ now

/-- What a maintenance pass reads to time a drain out. -/
def rootExpired (w : World) (now : Instant) (st : State) (root : ActorRef) : Bool :=
  match w.checkRef root st with
  | .error _ => false
  | .ok a =>
    match a.drainDeadline with
    | none => false
    | some deadline => decide (deadline ≤ now)

/-- What the pass does with one drain root. -/
theorem maintainRoot_spec (hv : st.core.Valid w.id) :
    (w.maintainRoot now st root).core = st.core ∨
      st.core.drainRoots.lookup root.slot = some root ∧
        ((w.drainedLocked root st = true ∧
            Fenced w.id (st.core.Doomed root) (fun _ => False) st.core
              (w.maintainRoot now st root).core) ∨
          (w.drainedLocked root st = false ∧ Overdue now st.core root ∧ ∃ c,
            Step w.id st.core (.timeout root) c ∧
            Fenced w.id (st.core.Doomed root) (fun _ => False) c
              (w.maintainRoot now st root).core)) := by
  by_cases hroot : st.drainRoots.lookup root.slot = some root
  · set expired : Bool := w.rootExpired now st root with hexp
    have heq : w.maintainRoot now st root =
        if expired = true ∨ w.drainedLocked root st = true then
          (w.stopLocked root
            (if expired = true ∧ ¬w.drainedLocked root st = true then
              (((st.modifyActor root fun a => { a with drainTimedOut := true }).addMetrics fun m =>
                { m with drainTimeouts := m.drainTimeouts + 1 }).diagnostic .drainTimeout (some root)
                  none).note (.drainTimeout root)
            else st)).2
        else st := by
      unfold maintainRoot
      exact if_neg (not_not.mpr hroot)
    rw [heq]
    have hover : expired = true → Overdue now st.core root := by
      intro h
      rw [hexp, rootExpired] at h
      rcases hc : w.checkRef root st with e | a
      · simp [hc] at h
      · rcases hd : a.drainDeadline with - | t
        · simp [hc, hd] at h
        · simp only [hc, hd, decide_eq_true_eq] at h
          exact ⟨a.node, t, seated_of_check hv.owned hc, hd, h⟩
    by_cases hgo : expired = true ∨ w.drainedLocked root st = true
    · rw [if_pos hgo]
      refine .inr ⟨hroot, ?_⟩
      have hclosed := st.core.closed_doomed root
      by_cases hdr : w.drainedLocked root st = true
      · rw [if_neg (by simp [hdr])]
        exact .inl ⟨hdr, (stopLocked_fences hv hclosed .self).fenced⟩
      · have hex : expired = true := hgo.resolve_right hdr
        rw [if_pos ⟨hex, hdr⟩]
        set mark : Actor → Actor := fun a => { a with drainTimedOut := true }
        set st₁ := (((st.modifyActor root mark).addMetrics fun m =>
          { m with drainTimeouts := m.drainTimeouts + 1 }).diagnostic .drainTimeout (some root)
            none).note (.drainTimeout root) with hst₁
        have hc₁ : st₁.core = { st.core with life := st.core.life ++ [.drainTimeout root] } := by
          have h₀ : (((st.modifyActor root mark).addMetrics fun m =>
              { m with drainTimeouts := m.drainTimeouts + 1 }).diagnostic .drainTimeout (some root)
                none).core = st.core :=
            State.core_modify_soft mark (fun _ => rfl) (fun _ => rfl) fun _ => rfl
          rw [hst₁, State.core_note_life _ rfl, h₀]
        have hs : Step w.id st.core (.timeout root) st₁.core := by
          rw [hc₁]
          exact .timeout
        have hred := hv.reduces hs trivial
        refine .inr ⟨by simpa using hdr, hover hex, st₁.core, hs, ?_⟩
        exact (stopLocked_fences (hv.step hs) (hred.closed hclosed) .self).fenced
    · rw [if_neg hgo]
      exact .inl rfl
  · left
    unfold maintainRoot
    rw [if_pos hroot]

theorem maintainRoot_upkeep (hv : st.core.Valid w.id) :
    Upkeep w.id st.core (w.maintainRoot now st root).core := by
  have hlift : ∀ {c c' : Core} {D : ActorRef → Prop}, Fenced w.id D (fun _ => False) c c' →
      Upkeep w.id c c' := fun h =>
    h.mono fun m hm => .inr (hm.mono fun x hx => hx.2.resolve_left not_false)
  rcases @maintainRoot_spec root w _ now hv with
    h | ⟨-, ⟨-, h⟩ | ⟨-, -, c, hs, h⟩⟩
  · rw [h]
    exact .refl _
  · exact hlift h
  · have h₁ : Upkeep w.id st.core c :=
      .single hv (.inl ⟨root, rfl⟩) hs (by simp) (by simp [Move.loosens])
    exact h₁.trans (hlift h) hv

theorem maintainRoots_upkeep (roots : List ActorRef) (hv : st.core.Valid w.id) :
    Upkeep w.id st.core (roots.foldl (w.maintainRoot now) st).core := by
  induction roots generalizing st with
  | nil => exact .refl _
  | cons root roots ih =>
    have h := @maintainRoot_upkeep root w _ now hv
    exact h.trans (ih (h.valid hv)) hv

/-- Maintenance expires what is due, then ends the drains that are done or late. -/
theorem maintainLocked_spec (hv : st.core.Valid w.id) :
    Expires w.id now st.core st.core (w.expireAll now st).core ∧
      Upkeep w.id (w.expireAll now st).core (w.maintainLocked now st).core := by
  have h := @expireAll_expires now _ _ hv
  exact ⟨h, maintainRoots_upkeep _ (h.valid hv)⟩

end World

end Actorplane
