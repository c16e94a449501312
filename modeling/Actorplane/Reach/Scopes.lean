import Actorplane.Lib.Forest
import Actorplane.Model.Shutdown
import Actorplane.Reach.Ownership
import Actorplane.Reach.Tables

/-!
# Stop reports of a reachable state

A report walks exactly the actors of its scope, each of them once, and counts what they
and the tables still hold. It says that the native work is done exactly when a drain of
the scope would find nothing left to do.
-/

namespace Actorplane

/-! ## Sums over a scope -/

namespace Assoc

variable {κ ν : Type} [DecidableEq κ]

/-- Distinct keys that are exactly those of the values of a kind count these values. -/
theorem length_eq_total {m : Assoc κ ν} {P : ν → Prop} [DecidablePred P] {l : List κ}
    (hl : l.Nodup) (h : ∀ k, k ∈ l ↔ ∃ v, m.lookup k = some v ∧ P v) :
    l.length = total (fun v => if P v then 1 else 0) m := by
  induction l generalizing m with
  | nil =>
    symm
    apply List.sum_eq_zero
    intro x hx
    obtain ⟨⟨k, v⟩, mem, rfl⟩ := List.mem_map.mp hx
    have none : ¬P v := fun hv =>
      absurd ((h k).mpr ⟨v, AList.mem_lookup_iff.mpr mem, hv⟩) List.not_mem_nil
    exact if_neg none
  | cons k l ih =>
    obtain ⟨out, hl⟩ := List.nodup_cons.mp hl
    obtain ⟨v, hv, kind⟩ := (h k).mp List.mem_cons_self
    have rest : l.length = total (fun v => if P v then 1 else 0) (m.erase k) := by
      apply ih hl
      intro k'
      rw [lookup_erase_ite]
      have here := h k'
      constructor
      · intro mem
        have other : k' ≠ k := fun same => out (same ▸ mem)
        rw [if_neg other]
        exact here.mp (List.mem_cons_of_mem k mem)
      · split_ifs with same
        · rintro ⟨v, found, -⟩
          cases found
        · intro found
          exact (List.mem_cons.mp (here.mpr found)).resolve_left same
    have whole := total_erase (fun v => if P v then 1 else 0) hv
    rw [if_pos kind] at whole
    rw [List.length_cons, rest, whole]

omit [DecidableEq κ] in
/-- What a scope holds is the sum of what its members hold. -/
theorem sum_total {α : Type} [DecidableEq α] (m : Assoc κ ν) (f : ν → α) {scope : List α}
    (hs : scope.Nodup) :
    (scope.map fun a => total (fun v => if f v = a then 1 else 0) m).sum =
      total (fun v => if f v ∈ scope then 1 else 0) m := by
  induction scope with
  | nil =>
    symm
    apply List.sum_eq_zero
    intro x hx
    obtain ⟨e, -, rfl⟩ := List.mem_map.mp hx
    rfl
  | cons a scope ih =>
    obtain ⟨out, hs⟩ := List.nodup_cons.mp hs
    rw [List.map_cons, List.sum_cons, ih hs]
    unfold total
    rw [← List.sum_map_add]
    congr 1
    apply List.map_congr_left
    intro e _
    show (if f e.2 = a then 1 else 0) + (if f e.2 ∈ scope then 1 else 0) =
      if f e.2 ∈ a :: scope then 1 else 0
    by_cases same : f e.2 = a
    · rw [same, if_pos rfl, if_neg out, if_pos List.mem_cons_self]
    · have split : f e.2 ∈ a :: scope ↔ f e.2 ∈ scope := by simp [same]
      simp only [if_neg same, split, Nat.zero_add]

end Assoc

namespace OperationTable

variable {t : OperationTable} {scope : List ActorRef}

/-- A pending operation of the slot has an end in the scope. -/
def touches (t : OperationTable) (scope : List ActorRef) (slot : ℕ) : Bool :=
  match t.entryAt slot with
  | some (.pending p) => p.owner ∈ scope || p.target ∈ scope
  | _ => false

/-- The slot keeps an outcome for an owner in the scope. -/
def keeps (t : OperationTable) (scope : List ActorRef) (slot : ℕ) : Bool :=
  match t.entryAt slot with
  | some (.terminal _) => (t.ownerAt slot).any (· ∈ scope)
  | _ => false

/-- Identities that are located count like the slots that they name. -/
theorem countP_slots {ids : List OperationId} (hn : ids.Nodup) {p : OperationId → Bool}
    {g : ℕ → Bool} (hp : ∀ id ∈ ids, p id = true → (∃ e, t.locate id = .ok e) ∧ g id.slot = true)
    (hg : ∀ s, g s = true → ∃ id ∈ ids, p id = true ∧ id.slot = s) :
    ids.countP p = (List.range t.slots.length).countP g := by
  have counted : ids.countP p = ((ids.filter p).map (·.slot)).length := by
    rw [List.length_map, List.countP_eq_length_filter]
  rw [counted, List.countP_eq_length_filter]
  apply List.Perm.length_eq
  rw [List.perm_ext_iff_of_nodup]
  · intro s
    rw [List.mem_filter, List.mem_range]
    constructor
    · intro mem
      obtain ⟨id, kept, rfl⟩ := List.mem_map.mp mem
      obtain ⟨mem, chosen⟩ := List.mem_filter.mp kept
      obtain ⟨⟨e, located⟩, here⟩ := hp id mem chosen
      exact ⟨locate_slot_lt located, here⟩
    · rintro ⟨-, here⟩
      obtain ⟨id, mem, chosen, rfl⟩ := hg s here
      exact List.mem_map.mpr ⟨id, List.mem_filter.mpr ⟨mem, chosen⟩, rfl⟩
  · apply List.Nodup.map_on _ (hn.filter p)
    intro id mem id' mem' same
    obtain ⟨mem, chosen⟩ := List.mem_filter.mp mem
    obtain ⟨mem', chosen'⟩ := List.mem_filter.mp mem'
    obtain ⟨⟨e, located⟩, -⟩ := hp id mem chosen
    obtain ⟨⟨e', located'⟩, -⟩ := hp id' mem' chosen'
    exact locate_slot_inj located located' same
  · exact List.nodup_range.filter g

theorem locate_id {slot : ℕ} {e : Entry} (h : t.entryAt slot = some e) :
    t.locate (t.id slot) = .ok e := locate_ok_iff.mpr ⟨rfl, rfl, h⟩

/-- Every pending operation that touches the scope counts once, whichever of its ends does. -/
theorem countsForScope_eq (h : t.Indexed fun _ => True) (scope : List ActorRef) :
    t.countsForScope scope = ((List.range t.slots.length).countP (t.touches scope),
      (List.range t.slots.length).countP (t.keeps scope)) := by
  have owned := h.indexes.ownerIndex.mem
  have aimed := h.indexes.targetIndex.mem
  unfold countsForScope
  dsimp only
  set ids := (scope.flatMap fun r => t.ownerIndex.members r ++ t.targetIndex.members r).dedup
  have listed : ∀ id, id ∈ ids ↔
      ∃ r ∈ scope, id ∈ t.ownerIndex.members r ∨ id ∈ t.targetIndex.members r := by
    intro id
    simp [ids]
  congr 1
  · apply countP_slots (List.nodup_dedup _)
    · intro id mem pending
      cases located : t.locate id with
      | error e => simp [located] at pending
      | ok e =>
        cases e with
        | terminal o => simp [located] at pending
        | pending p =>
          refine ⟨⟨_, rfl⟩, ?_⟩
          obtain ⟨-, -, entry⟩ := locate_ok_iff.mp located
          unfold touches
          rw [entry]
          obtain ⟨r, inside, mine | mine⟩ := (listed id).mp mem
          · have owner := ((owned r id).mp mine).2
            rw [h.columns.owner_pending id.slot p entry] at owner
            obtain rfl := Option.some.inj owner
            simp [inside]
          · obtain ⟨p', located', rfl⟩ := (aimed r id).mp mine
            rw [located] at located'
            cases located'
            simp [inside]
    · intro s touched
      unfold touches at touched
      cases entry : t.entryAt s with
      | none => simp [entry] at touched
      | some e =>
        cases e with
        | terminal o => simp [entry] at touched
        | pending p =>
          have located := locate_id entry
          refine ⟨t.id s, (listed _).mpr ?_, ?_, rfl⟩
          · simp only [entry, Bool.or_eq_true, decide_eq_true_eq] at touched
            obtain inside | inside := touched
            · refine ⟨p.owner, inside, .inl ((owned _ _).mpr ⟨⟨_, located⟩, ?_⟩)⟩
              exact h.columns.owner_pending s p entry
            · exact ⟨p.target, inside, .inr ((aimed _ _).mpr ⟨p, located, rfl⟩)⟩
          · rw [located]
  · apply countP_slots (List.nodup_dedup _)
    · intro id mem kept
      cases located : t.locate id with
      | error e => simp [located] at kept
      | ok e =>
        cases e with
        | pending p => simp [located] at kept
        | terminal o =>
          refine ⟨⟨_, rfl⟩, ?_⟩
          obtain ⟨-, -, entry⟩ := locate_ok_iff.mp located
          simp only [located] at kept
          unfold keeps
          rw [entry]
          exact kept
    · intro s kept
      unfold keeps at kept
      cases entry : t.entryAt s with
      | none => simp [entry] at kept
      | some e =>
        cases e with
        | pending p => simp [entry] at kept
        | terminal o =>
          have located := locate_id entry
          simp only [entry] at kept
          cases here : t.ownerAt s with
          | none => simp [here] at kept
          | some owner =>
            have inside : owner ∈ scope := by simpa [here] using kept
            have mine := (owned owner (t.id s)).mpr ⟨⟨_, located⟩, here⟩
            refine ⟨t.id s, (listed _).mpr ⟨owner, inside, .inl mine⟩, ?_, rfl⟩
            rw [located]
            exact kept

/-- No operation touches the scope when no index lists one for any of its actors. -/
theorem untouched_iff (h : t.Indexed fun _ => True) (scope : List ActorRef) :
    (List.range t.slots.length).countP (t.touches scope) = 0 ↔
      ∀ r ∈ scope, t.pendingFor r = 0 ∧ t.pendingForTarget r = 0 := by
  have owners : ∀ r, t.pendingFor r = t.slots.countP (slotPendingFor r) := by
    intro r
    unfold pendingFor
    rw [h.indexes.pendingOwners]
    unfold positive
    split_ifs with none
    · exact none.symm
    · rfl
  rw [List.countP_eq_zero]
  constructor
  · intro idle r inside
    constructor
    · rw [owners, List.countP_eq_zero]
      intro e mem pending
      obtain ⟨s, found⟩ := List.getElem?_of_mem mem
      have entry : t.entryAt s = e := by
        unfold entryAt
        rw [found]
        rfl
      have slot := (List.getElem?_eq_some_iff.mp found).1
      apply idle s (List.mem_range.mpr slot)
      unfold touches
      rw [entry]
      cases e with
      | none => cases pending
      | some e =>
        cases e with
        | terminal o => cases pending
        | pending p =>
          have owner : p.owner = r := by simpa using pending
          simp [owner, inside]
    · unfold pendingForTarget
      rw [List.length_eq_zero_iff, List.eq_nil_iff_forall_not_mem]
      intro id mem
      obtain ⟨p, located, rfl⟩ := (h.indexes.targetIndex.mem r id).mp mem
      apply idle id.slot (List.mem_range.mpr (locate_slot_lt located))
      unfold touches
      rw [(locate_ok_iff.mp located).2.2]
      simp [inside]
  · intro none s _ touched
    unfold touches at touched
    cases entry : t.entryAt s with
    | none => simp [entry] at touched
    | some e =>
      cases e with
      | terminal o => simp [entry] at touched
      | pending p =>
        simp only [entry, Bool.or_eq_true, decide_eq_true_eq] at touched
        obtain inside | inside := touched
        · have zero := (none p.owner inside).1
          rw [owners, List.countP_eq_zero] at zero
          have found := locate_getElem? (locate_id entry)
          exact zero _ (List.mem_of_getElem? found) (by simp)
        · have zero := (none p.target inside).2
          unfold pendingForTarget at zero
          have mem := (h.indexes.targetIndex.mem p.target _).mpr ⟨p, locate_id entry, rfl⟩
          rw [List.length_eq_zero_iff.mp zero] at mem
          exact absurd mem List.not_mem_nil

end OperationTable

namespace PublicationTable

variable {t : PublicationTable} {scope : List ActorRef}

theorem pendingFor_eq (h : t.Sound) (source : ActorRef) : t.pendingFor source =
    t.entries.total fun p => if p.source = source then 1 else 0 :=
  Assoc.length_eq_total ((h.sorted source).imp fun before => Nat.ne_of_lt before) (h.queue source)

/-- The pending publications of the scope, and the tickets that outlive theirs. -/
theorem countsForScope_eq (h : t.Sound) (hb : t.Budgeted) (hs : scope.Nodup) :
    (t.countsForScope scope).1 = t.entries.total (fun p => if p.source ∈ scope then 1 else 0) ∧
      (t.countsForScope scope).1 + (t.countsForScope scope).2 =
        t.tickets.total fun k => if k.source ∈ scope then 1 else 0 := by
  have pending : (scope.map t.pendingFor).sum =
      t.entries.total fun p => if p.source ∈ scope then 1 else 0 := by
    rw [← Assoc.sum_total t.entries Publication.source hs]
    congr 1
    exact List.map_congr_left fun source _ => pendingFor_eq h source
  have total : (scope.map fun source => (t.ticketCounts.lookup source).getD 0).sum =
      t.tickets.total fun k => if k.source ∈ scope then 1 else 0 := by
    rw [← Assoc.sum_total t.tickets TicketState.source hs]
    congr 1
    exact List.map_congr_left fun source _ => hb.counted.counts source
  have within : (scope.map t.pendingFor).sum ≤
      (scope.map fun source => (t.ticketCounts.lookup source).getD 0).sum :=
    List.sum_le_sum fun source _ => hb.pendingFor_le h source
  refine ⟨pending, ?_⟩
  show (scope.map t.pendingFor).sum + (_ - (scope.map t.pendingFor).sum) = _
  rw [← total]
  omega

end PublicationTable

/-! ## What a report adds up -/

theorem toNat_eq (b : Bool) : b.toNat = if b = true then 1 else 0 := by cases b <;> rfl

/-- The report has gained what these actors hold. -/
structure StopReport.Adds (report report' : StopReport) (actors : List Actor) : Prop where
  queued : report'.queued =
    report.queued + (actors.map fun a => a.queue.length + a.staged.length).sum
  deliveryInFlight : report'.deliveryInFlight = report.deliveryInFlight + actors.countP (·.inFlight)
  controlInFlight : report'.controlInFlight =
    report.controlInFlight + actors.countP (·.controlInFlight)
  nativeTasks : report'.nativeTasks = report.nativeTasks + (actors.map (·.nativeTasks)).sum
  pythonPending : report'.pythonPending =
    report.pythonPending + actors.countP fun a => !a.pythonDone
  pendingNotifications : report'.pendingNotifications =
    report.pendingNotifications + actors.countP (·.notification.isSome)
  errors : report'.errors = min (report.errors + (actors.map (·.errors)).sum) u64Max
  lastError : report'.lastError =
    actors.foldl (fun e a => keepLatest e a.lastError) report.lastError
  timedOut : report'.timedOut = (report.timedOut || actors.any (·.drainTimedOut))

theorem StopReport.addActors (actors : List Actor) (report : StopReport)
    (he : report.errors ≤ u64Max) : report.Adds (actors.foldl addActor report) actors := by
  induction actors generalizing report with
  | nil => constructor <;> simp [he]
  | cons a actors ih =>
    have rest := ih (report.addActor a) (Nat.min_le_right _ _)
    constructor
    · rw [List.foldl_cons, rest.queued, List.map_cons, List.sum_cons]
      simp only [addActor]
      omega
    · rw [List.foldl_cons, rest.deliveryInFlight, List.countP_cons]
      simp only [addActor, toNat_eq]
      omega
    · rw [List.foldl_cons, rest.controlInFlight, List.countP_cons]
      simp only [addActor, toNat_eq]
      omega
    · rw [List.foldl_cons, rest.nativeTasks, List.map_cons, List.sum_cons]
      simp only [addActor]
      omega
    · rw [List.foldl_cons, rest.pythonPending, List.countP_cons]
      simp only [addActor, toNat_eq]
      omega
    · rw [List.foldl_cons, rest.pendingNotifications, List.countP_cons]
      simp only [addActor, toNat_eq]
      omega
    · rw [List.foldl_cons, rest.errors, List.map_cons, List.sum_cons]
      simp only [addActor]
      omega
    · rw [List.foldl_cons, rest.lastError]
      rfl
    · rw [List.foldl_cons, rest.timedOut, List.any_cons]
      simp only [addActor, Bool.or_assoc]

namespace World

variable {w : World} {st : State} {r q p : ActorRef} {a k : Actor} {l : List ActorRef}

/-! ## The actors of a scope -/

/-- The children that an actor lists. -/
def childrenOf (w : World) (st : State) (r : ActorRef) : List ActorRef :=
  match w.checkRef r st with
  | .error _ => []
  | .ok a => a.children

/-- The actor itself, or a living actor below it. -/
def InScope (w : World) (st : State) (r q : ActorRef) : Prop :=
  ∃ k, w.checkRef q st = .ok k ∧ (q = r ∨ k.state ≠ .stopped ∧ r ∈ w.ancestors st walkFuel q)

theorem Rests.mem_childrenOf (h : w.Rests st) :
    q ∈ w.childrenOf st p ↔ ∃ k, w.Living st q k ∧ k.parent = some p := by
  have ho := h.valid.owned
  constructor
  · intro mem
    unfold childrenOf at mem
    cases check : w.checkRef p st with
    | error e => simp [check] at mem
    | ok b =>
      rw [check] at mem
      obtain ⟨n, seated, alive, parent⟩ :=
        (ho.child p b.node q (seated_of_check ho check)).mp mem
      obtain ⟨k, living, rfl⟩ := h.living_iff.mp ⟨seated, alive⟩
      exact ⟨k, living, parent⟩
  · rintro ⟨k, living, parent⟩
    have seated := seated_of_check ho living.1
    obtain ⟨n, above, -, -⟩ := ho.parent q k.node p seated living.2 parent
    obtain ⟨b, check, rfl⟩ := h.check_iff_seated.mp above
    unfold childrenOf
    rw [check]
    exact (ho.child p b.node q above).mpr ⟨k.node, seated, living.2, parent⟩

theorem Rests.ancestry (h : w.Rests st) (hq : w.Living st q k) :
    Lineage st.core.nodes q (w.ancestors st walkFuel q) := by
  have ho := h.valid.owned
  obtain ⟨l, line, short⟩ := ho.lineage q k.node (seated_of_check ho hq.1) hq.2
  have few : l.length ≤ walkFuel := short.trans (by decide)
  rw [ancestors_eq h line few]
  exact line

theorem Rests.ancestors_cons (h : w.Rests st) (hq : w.Living st q k) (hp : k.parent = some p) :
    w.ancestors st walkFuel q = q :: w.ancestors st walkFuel p := by
  have ho := h.valid.owned
  have seated := seated_of_check ho hq.1
  obtain ⟨n, above, alive, -⟩ := ho.parent q k.node p seated hq.2 hp
  obtain ⟨b, living, rfl⟩ := h.living_iff.mp ⟨above, alive⟩
  exact (h.ancestry hq).unique (.child seated hp (h.ancestry living))

theorem Rests.mem_ancestors (h : w.Rests st) (hq : w.Living st q k) :
    q ∈ w.ancestors st walkFuel q := by
  have line := h.ancestry hq
  generalize w.ancestors st walkFuel q = l at line
  cases line with
  | root => exact List.mem_cons_self
  | child => exact List.mem_cons_self

theorem Rests.parent_living (h : w.Rests st) (hq : w.Living st q k) (hp : k.parent = some p) :
    ∃ b, w.Living st p b := by
  have ho := h.valid.owned
  obtain ⟨n, above, alive, -⟩ := ho.parent q k.node p (seated_of_check ho hq.1) hq.2 hp
  obtain ⟨b, living, -⟩ := h.living_iff.mp ⟨above, alive⟩
  exact ⟨b, living⟩

theorem Rests.under_of_lineage (h : w.Rests st) (hl : Lineage st.core.nodes q l)
    (hq : w.Living st q k) (hr : r ∈ l) : Forest.Under (w.childrenOf st) r q := by
  induction hl generalizing k with
  | root =>
    rw [List.mem_singleton.mp hr]
    exact Relation.ReflTransGen.refl
  | @child q n p l seated parent line ih =>
    obtain rfl | above := List.mem_cons.mp hr
    · exact Relation.ReflTransGen.refl
    · obtain rfl := seated.unique (seated_of_check h.valid.owned hq.1)
      obtain ⟨b, living⟩ := h.parent_living hq parent
      exact (ih living above).tail (h.mem_childrenOf.mpr ⟨k, hq, parent⟩)

theorem Rests.under_iff (h : w.Rests st) (hc : w.checkRef r st = .ok a) :
    Forest.Under (w.childrenOf st) r q ↔ w.InScope st r q := by
  constructor
  · intro below
    induction below with
    | refl => exact ⟨a, hc, .inl rfl⟩
    | @tail b c _ child ih =>
      obtain ⟨k, living, parent⟩ := h.mem_childrenOf.mp child
      refine ⟨k, living.1, .inr ⟨living.2, ?_⟩⟩
      rw [h.ancestors_cons living parent]
      apply List.mem_cons_of_mem
      obtain ⟨m, check, rfl | ⟨alive, above⟩⟩ := ih
      · obtain ⟨b', living'⟩ := h.parent_living living parent
        exact h.mem_ancestors living'
      · exact above
  · rintro ⟨k, check, rfl | ⟨alive, above⟩⟩
    · exact Relation.ReflTransGen.refl
    · exact h.under_of_lineage (h.ancestry ⟨check, alive⟩) ⟨check, alive⟩ above

theorem Rests.forest (h : w.Rests st) (hc : w.checkRef r st = .ok a) :
    Forest.Tree (w.childrenOf st) r where
  nodup := by
    intro p _
    unfold childrenOf
    cases check : w.checkRef p st with
    | error e => exact List.nodup_nil
    | ok b =>
      exact h.valid.owned.children_nodup p.slot b.node (seated_of_check h.valid.owned check).1
  parent := by
    intro p p' c _ _ child child'
    obtain ⟨k, living, parent⟩ := h.mem_childrenOf.mp child
    obtain ⟨k', living', parent'⟩ := h.mem_childrenOf.mp child'
    obtain rfl : k = k' := Except.ok.inj (living.1.symm.trans living'.1)
    exact Option.some.inj (parent.symm.trans parent')
  root := by
    intro p below child
    obtain ⟨k, living, parent⟩ := h.mem_childrenOf.mp child
    have nodup := (h.ancestry living).nodup
    rw [h.ancestors_cons living parent] at nodup
    apply (List.nodup_cons.mp nodup).1
    obtain ⟨m, check, rfl | ⟨alive, above⟩⟩ := (h.under_iff hc).mp below
    · exact h.mem_ancestors living
    · exact above

/-! ## The walk of a report -/

/-- The current actors among the references. -/
def actorsOf (w : World) (st : State) (refs : List ActorRef) : List Actor :=
  refs.filterMap fun r => (w.checkRef r st).toOption

theorem reportScope_eq {fuel : ℕ} {stack : List ActorRef}
    (hl : Forest.walk (w.childrenOf st) fuel stack = some l)
    (hc : ∀ q ∈ l, ∃ k, w.checkRef q st = .ok k) (scope : List ActorRef) (report : StopReport) :
    w.reportScope st fuel stack scope report = .ok (l.foldl (fun scope q => scope.insert q) scope,
      (w.actorsOf st l).foldl StopReport.addActor report) := by
  induction fuel generalizing stack scope report l with
  | zero =>
    cases stack with
    | nil =>
      obtain rfl := Option.some.inj hl
      rfl
    | cons r stack => cases hl
  | succ fuel ih =>
    cases stack with
    | nil =>
      obtain rfl := Option.some.inj hl
      rfl
    | cons r stack =>
      obtain ⟨rest, walked, rfl⟩ := Option.map_eq_some_iff.mp hl
      obtain ⟨k, check⟩ := hc r List.mem_cons_self
      have children : w.childrenOf st r = k.children := by
        unfold childrenOf
        rw [check]
      rw [children] at walked
      unfold reportScope
      rw [check]
      dsimp only
      rw [ih walked (fun q mem => hc q (List.mem_cons_of_mem r mem))]
      have first : w.actorsOf st (r :: rest) = k :: w.actorsOf st rest := by
        unfold actorsOf
        rw [List.filterMap_cons, check]
        rfl
      rw [first]
      rfl

theorem foldl_insert {l : List ActorRef} (hl : l.Nodup) {scope : List ActorRef}
    (hs : ∀ q ∈ l, q ∉ scope) :
    l.foldl (fun scope q => scope.insert q) scope = l.reverse ++ scope := by
  induction l generalizing scope with
  | nil => rfl
  | cons q l ih =>
    obtain ⟨out, hl⟩ := List.nodup_cons.mp hl
    rw [List.foldl_cons, List.insert_of_not_mem (hs q List.mem_cons_self), ih hl]
    · simp
    · intro q' mem
      rw [List.mem_cons]
      rintro (rfl | old)
      · exact out mem
      · exact hs q' (List.mem_cons_of_mem q mem) old

/-- The walk of a report never fails for a current actor, and visits its scope once. -/
theorem Rests.reportScope (h : w.Rests st) (hc : w.checkRef r st = .ok a) :
    ∃ l, w.reportScope st (st.actors.length + 1) [r] [] {} =
        .ok (l.reverse, (w.actorsOf st l).foldl StopReport.addActor {}) ∧
      l.Nodup ∧ ∀ q, q ∈ l ↔ w.InScope st r q := by
  have seated : ∀ q, Forest.Under (w.childrenOf st) r q → q ∈ st.actors.map (·.reference) := by
    intro q below
    obtain ⟨k, check, -⟩ := (h.under_iff hc).mp below
    obtain ⟨found, current⟩ := h.check.mp check
    exact List.mem_map.mpr ⟨k, List.mem_of_getElem? found, current⟩
  obtain ⟨l, walked, nodup, mem⟩ := Forest.walk_exact (h.forest hc) seated
    (by simp : _ ≤ st.actors.length + 1)
  have inside : ∀ q, q ∈ l ↔ w.InScope st r q := fun q => (mem q).trans (h.under_iff hc)
  refine ⟨l, ?_, nodup, inside⟩
  have checks : ∀ q ∈ l, ∃ k, w.checkRef q st = .ok k := by
    intro q visited
    obtain ⟨k, check, -⟩ := (inside q).mp visited
    exact ⟨k, check⟩
  rw [reportScope_eq walked checks, foldl_insert nodup fun _ _ => List.not_mem_nil,
    List.append_nil]

theorem mem_actorsOf {refs : List ActorRef} :
    k ∈ w.actorsOf st refs ↔ ∃ q ∈ refs, w.checkRef q st = .ok k := by
  unfold actorsOf
  rw [List.mem_filterMap]
  apply exists_congr
  intro q
  apply and_congr_right
  intro _
  cases w.checkRef q st <;> simp [Except.toOption]

/-! ## Drained scopes -/

/-- A drain waits for nothing of the actor. -/
def Clear (st : State) (k : Actor) : Prop :=
  k.queue = [] ∧ k.staged = [] ∧ st.publications.pendingFor k.reference = 0 ∧ k.inFlight = false ∧
    k.controlInFlight = false ∧ k.notification = none ∧ k.nativeTasks = 0 ∧
    st.operations.pendingFor k.reference = 0 ∧ st.operations.pendingForTarget k.reference = 0

/-- A drain looks at all of its scope. -/
theorem Rests.drained_iff (h : w.Rests st) {fuel : ℕ} (hd : Deep st.core.nodes r fuel)
    (hf : 0 < fuel) (hc : w.checkRef r st = .ok a) : w.drained st fuel r = true ↔
      ∀ q k, Forest.Under (w.childrenOf st) r q → w.checkRef q st = .ok k → Clear st k := by
  induction fuel generalizing r a with
  | zero => exact absurd hf (Nat.lt_irrefl 0)
  | succ fuel ih =>
    have ho := h.valid.owned
    have current := (h.check.mp hc).2
    have children : w.childrenOf st r = a.children := by
      unfold childrenOf
      rw [hc]
    have here : w.drained st (fuel + 1) r = true ↔
        Clear st a ∧ ∀ c ∈ a.children, w.drained st fuel c = true := by
      unfold Clear
      rw [World.drained, hc]
      simp only [current, Bool.and_eq_true, List.isEmpty_iff, decide_eq_true_eq, Bool.not_eq_true',
        Option.isNone_iff_eq_none, List.all_eq_true, and_assoc]
    have deeper : ∀ c ∈ a.children, (w.drained st fuel c = true ↔
        ∀ q k, Forest.Under (w.childrenOf st) c q → w.checkRef q st = .ok k → Clear st k) := by
      intro c mem
      obtain ⟨deep, positive, n, seated⟩ :=
        ho.deep_child hd (seated_of_check ho hc) (q := c) mem
      obtain ⟨b, check, -⟩ := h.check_iff_seated.mp seated
      exact ih deep positive check
    rw [here]
    constructor
    · rintro ⟨clear, rest⟩ q k below check
      obtain rfl | ⟨c, child, under⟩ := below.cases_head
      · obtain rfl : k = a := Except.ok.inj (check.symm.trans hc)
        exact clear
      · have mem : c ∈ a.children := children ▸ child
        exact (deeper c mem).mp (rest c mem) q k under check
    · intro all
      refine ⟨all r a Relation.ReflTransGen.refl hc, ?_⟩
      intro c mem
      apply (deeper c mem).mpr
      intro q k under check
      have child : c ∈ w.childrenOf st r := children ▸ mem
      exact all q k (Relation.ReflTransGen.head child under) check

/-! ## Reports -/

/-- The report counts what the scope holds. -/
structure Reports (w : World) (st : State) (scope : List ActorRef) (report : StopReport) :
    Prop where
  queued : report.queued =
    ((w.actorsOf st scope).map fun a => a.queue.length + a.staged.length).sum
  deliveryInFlight : report.deliveryInFlight = (w.actorsOf st scope).countP (·.inFlight)
  controlInFlight : report.controlInFlight = (w.actorsOf st scope).countP (·.controlInFlight)
  nativeTasks : report.nativeTasks = ((w.actorsOf st scope).map (·.nativeTasks)).sum
  inFlight : report.inFlight =
    report.deliveryInFlight + report.controlInFlight + report.nativeTasks
  pythonPending : report.pythonPending = (w.actorsOf st scope).countP fun a => !a.pythonDone
  pendingNotifications : report.pendingNotifications =
    (w.actorsOf st scope).countP (·.notification.isSome)
  outstandingOperations : report.outstandingOperations =
    (List.range st.operations.slots.length).countP (st.operations.touches scope)
  retainedOperations : report.retainedOperations =
    (List.range st.operations.slots.length).countP (st.operations.keeps scope)
  outstandingPublications : report.outstandingPublications =
    st.publications.entries.total fun p => if p.source ∈ scope then 1 else 0
  retainedPublications : report.outstandingPublications + report.retainedPublications =
    st.publications.tickets.total fun k => if k.source ∈ scope then 1 else 0
  errors : report.errors = min ((w.actorsOf st scope).map (·.errors)).sum u64Max
  lastError : report.lastError =
    (w.actorsOf st scope).foldl (fun e a => keepLatest e a.lastError) none
  timedOut : report.timedOut = (w.actorsOf st scope).any (·.drainTimedOut)
  nativeDone : report.nativeDone = true ↔ report.queued = 0 ∧ report.inFlight = 0 ∧
    report.pendingNotifications = 0 ∧ report.outstandingOperations = 0 ∧
    report.outstandingPublications = 0
  pythonDone : report.pythonDone = true ↔ report.pythonPending = 0

theorem Rests.reportLocked (h : w.Rests st) (hc : w.checkRef r st = .ok a) :
    ∃ scope report, w.reportLocked r st = .ok report ∧ scope.Nodup ∧
      (∀ q, q ∈ scope ↔ w.InScope st r q) ∧ w.Reports st scope report := by
  obtain ⟨l, walked, nodup, inside⟩ := h.reportScope hc
  have adds := StopReport.addActors (w.actorsOf st l) {} (Nat.zero_le _)
  have indexed : st.operations.Indexed fun _ => True := h.valid.operating.indexed
  have sound : st.publications.Sound := h.valid.publishing.sound
  have operations := OperationTable.countsForScope_eq indexed l.reverse
  obtain ⟨published, kept⟩ := PublicationTable.countsForScope_eq sound h.valid.budgeted.table
    (List.nodup_reverse.mpr nodup)
  have touches : st.operations.touches l.reverse = st.operations.touches l := by
    funext s
    unfold OperationTable.touches
    simp only [List.mem_reverse]
  have keeps : st.operations.keeps l.reverse = st.operations.keeps l := by
    funext s
    unfold OperationTable.keeps
    simp only [List.mem_reverse]
  rw [touches, keeps] at operations
  simp only [List.mem_reverse] at published kept
  unfold World.reportLocked
  rw [walked]
  refine ⟨l, _, rfl, nodup, inside, ?_⟩
  constructor
  · exact adds.queued.trans (Nat.zero_add _)
  · exact adds.deliveryInFlight.trans (Nat.zero_add _)
  · exact adds.controlInFlight.trans (Nat.zero_add _)
  · exact adds.nativeTasks.trans (Nat.zero_add _)
  · rfl
  · exact adds.pythonPending.trans (Nat.zero_add _)
  · exact adds.pendingNotifications.trans (Nat.zero_add _)
  · exact congrArg Prod.fst operations
  · exact congrArg Prod.snd operations
  · exact published
  · exact kept
  · exact adds.errors.trans (congrArg (min · u64Max) (Nat.zero_add _))
  · exact adds.lastError
  · exact adds.timedOut.trans (Bool.false_or _)
  · simp only [StopReport.finishCounts, Bool.and_eq_true, decide_eq_true_eq, and_assoc]
  · simp only [StopReport.finishCounts, decide_eq_true_eq]

/-- Nothing of the scope is pending exactly when no source of it has a queue. -/
theorem Rests.published_iff (h : w.Rests st) {scope : List ActorRef} (hs : scope.Nodup) :
    (st.publications.entries.total fun p => if p.source ∈ scope then 1 else 0) = 0 ↔
      ∀ q ∈ scope, st.publications.pendingFor q = 0 := by
  have sound : st.publications.Sound := h.valid.publishing.sound
  rw [← (PublicationTable.countsForScope_eq sound h.valid.budgeted.table hs).1]
  show (scope.map st.publications.pendingFor).sum = 0 ↔ _
  rw [List.sum_eq_zero_iff]
  simp

/-- The native work of a scope is done exactly when a drain of it would be. -/
theorem Reports.drained {scope : List ActorRef} {report : StopReport}
    (hr : w.Reports st scope report) (h : w.Rests st) (hc : w.checkRef r st = .ok a)
    (hn : scope.Nodup) (hs : ∀ q, q ∈ scope ↔ w.InScope st r q) :
    report.nativeDone = true ↔ w.drainedLocked r st = true := by
  have deep : Deep st.core.nodes r walkFuel := fun _ _ _ _ _ => Nat.le_add_right _ _
  have indexed : st.operations.Indexed fun _ => True := h.valid.operating.indexed
  have here : ∀ k, k ∈ w.actorsOf st scope ↔ ∃ q, w.InScope st r q ∧ w.checkRef q st = .ok k := by
    intro k
    simp only [mem_actorsOf, hs]
  unfold drainedLocked
  rw [h.drained_iff deep (by decide) hc, hr.nativeDone, hr.inFlight, hr.outstandingOperations,
    OperationTable.untouched_iff indexed, hr.outstandingPublications, h.published_iff hn,
    hr.queued, hr.deliveryInFlight, hr.controlInFlight, hr.nativeTasks, hr.pendingNotifications]
  simp only [Nat.add_eq_zero_iff, List.sum_eq_zero_iff, List.countP_eq_zero, List.mem_map,
    forall_exists_index, and_imp, forall_apply_eq_imp_iff₂, hs, h.under_iff hc]
  constructor
  · rintro ⟨queued, ⟨⟨delivering, controlling⟩, working⟩, notified, idle, silent⟩ q k inside check
    have mem := (here k).mpr ⟨q, inside, check⟩
    obtain ⟨queue, staged⟩ := queued k mem
    rw [← (h.check.mp check).2] at inside
    refine ⟨List.length_eq_zero_iff.mp queue, List.length_eq_zero_iff.mp staged,
      silent _ inside, by simpa using delivering k mem, by simpa using controlling k mem,
      by simpa using notified k mem, working k mem, idle _ inside⟩
  · intro clear
    have cleared : ∀ k ∈ w.actorsOf st scope, Clear st k := by
      intro k mem
      obtain ⟨q, inside, check⟩ := (here k).mp mem
      exact clear q k inside check
    have current : ∀ q, w.InScope st r q → ∃ k, Clear st k ∧ k.reference = q := by
      rintro q ⟨k, check, within⟩
      exact ⟨k, clear q k ⟨k, check, within⟩ check, (h.check.mp check).2⟩
    refine ⟨?_, ⟨⟨?_, ?_⟩, ?_⟩, ?_, ?_, ?_⟩
    · intro k mem
      obtain ⟨queue, staged, -⟩ := cleared k mem
      simp [queue, staged]
    · intro k mem
      simp [(cleared k mem).2.2.2.1]
    · intro k mem
      simp [(cleared k mem).2.2.2.2.1]
    · intro k mem
      exact (cleared k mem).2.2.2.2.2.2.1
    · intro k mem
      simp [(cleared k mem).2.2.2.2.2.1]
    · intro q inside
      obtain ⟨k, clear, rfl⟩ := current q inside
      exact clear.2.2.2.2.2.2.2
    · intro q inside
      obtain ⟨k, clear, rfl⟩ := current q inside
      exact clear.2.2.1

/-- What a stop report says of a state. -/
structure Reporting (w : World) (st : State) : Prop where
  refused : ∀ r e, w.checkRef r st = .error e → w.stopReport r st = .error e
  reports : ∀ r a, w.checkRef r st = .ok a → ∃ scope report, w.stopReport r st = .ok report ∧
    scope.Nodup ∧ (∀ q, q ∈ scope ↔ w.InScope st r q) ∧ w.Reports st scope report ∧
    (report.nativeDone = true ↔ w.drainedLocked r st = true)

theorem Rests.reporting (h : w.Rests st) : w.Reporting st := by
  constructor
  · intro r e check
    unfold stopReport World.reportLocked World.reportScope
    rw [check]
  · intro r a check
    obtain ⟨scope, report, reported, nodup, inside, counts⟩ := h.reportLocked check
    exact ⟨scope, report, reported, nodup, inside, counts, counts.drained h check nodup inside⟩

/-- In every reachable state a stop report is exact, and agrees with the drain. -/
theorem stop_report_exact (w : World) (actions : List Action) :
    w.Reporting (w.exec w.init actions) := (rests actions).reporting

end World

end Actorplane
