import Actorplane.Operations.Reuse

/-!
# One outcome per operation

The redundant values of a table recomputed from its slots, and the life of one
identity along a run of calls: it becomes pending at most once, one call ends it,
its outcome stays as it is until the identity is spent. A reservation is refused
only when the table is full or no slot has a generation left.
-/

namespace Actorplane

def slotPendingOn (target : ActorRef) : Option Entry → Bool
  | some (.pending p) => p.target = target
  | _ => false

def slotTerminal : Option Entry → Bool
  | some (.terminal _) => true
  | _ => false

namespace OperationTable

variable {t : OperationTable} {id : OperationId} {e : Entry} {p : PendingOperation}
  {o : TerminalOutcome}

/-- The identities of the slots with a property. -/
def idsWhere (t : OperationTable) (P : ℕ → Bool) : List OperationId :=
  ((List.range t.slots.length).filter P).map t.id

def deadlineAt (t : OperationTable) (s : ℕ) : Option (Instant × ℕ × ℕ) :=
  match t.entryAt s with
  | some (.pending p) => some (p.deadline, s, t.generationAt s)
  | _ => none

/-- Every redundant value of the table equals the one recomputed from its slots. -/
structure Recomputed (t : OperationTable) : Prop where
  len_le : t.len ≤ t.max
  len : t.len = t.slots.countP Option.isSome
  pendingCount : t.pendingCount = t.slots.countP slotPending
  retainedTerminalCount : t.retainedTerminalCount = t.slots.countP slotTerminal
  pendingFor : ∀ o, t.pendingFor o = t.slots.countP (slotPendingFor o)
  pendingForTarget : ∀ x, t.pendingForTarget x = t.slots.countP (slotPendingOn x)
  pendingOwners : ∀ o, t.pendingOwners.lookup o = positive (t.slots.countP (slotPendingFor o))
  ownerIndex : ∀ o, t.ownerIndex.lookup o ≠ some [] ∧
    (t.ownerIndex.members o).Perm
      (t.idsWhere fun s => (t.entryAt s).isSome && t.ownerAt s = some o)
  targetIndex : ∀ x, t.targetIndex.lookup x ≠ some [] ∧
    (t.targetIndex.members x).Perm (t.idsWhere fun s => slotPendingOn x (t.entryAt s))
  deadlines : t.deadlines.Perm ((List.range t.slots.length).filterMap t.deadlineAt)

theorem mem_idsWhere {P : ℕ → Bool} (hP : ∀ s, P s = true → (t.entryAt s).isSome = true) :
    id ∈ t.idsWhere P ↔ (∃ e, t.locate id = .ok e) ∧ P id.slot = true := by
  simp only [idsWhere, List.mem_map, List.mem_filter, List.mem_range]
  constructor
  · rintro ⟨s, ⟨hlt, hs⟩, rfl⟩
    obtain ⟨e, he⟩ := Option.isSome_iff_exists.mp (hP s hs)
    exact ⟨⟨e, locate_ok_iff.mpr ⟨rfl, rfl, he⟩⟩, hs⟩
  · rintro ⟨⟨e, he⟩, hs⟩
    obtain ⟨hw, hg, -⟩ := locate_ok_iff.mp he
    refine ⟨id.slot, ⟨locate_slot_lt he, hs⟩, ?_⟩
    cases id
    simp_all [OperationTable.id]

theorem nodup_idsWhere (P : ℕ → Bool) : (t.idsWhere P).Nodup := by
  refine (List.nodup_range.filter _).map fun a b hab => ?_
  exact congrArg OperationId.slot hab

theorem countP_range_getElem? {α : Type} (l : List α) (q : Option α → Bool) :
    (List.range l.length).countP (fun i => q l[i]?) = l.countP fun a => q (some a) := by
  induction l using List.reverseRecOn with
  | nil => rfl
  | append_singleton l a ih =>
    have hcongr : (List.range l.length).countP (fun i => q (l ++ [a])[i]?) =
        (List.range l.length).countP fun i => q l[i]? := by
      refine List.countP_congr fun i hi => ?_
      rw [List.getElem?_append_left (List.mem_range.mp hi)]
    simp [List.range_succ, hcongr, ih]

theorem length_idsWhere (q : Option Entry → Bool) :
    (t.idsWhere fun s => q (t.entryAt s)).length = t.slots.countP q := by
  rw [idsWhere, List.length_map, ← List.countP_eq_length_filter]
  exact countP_range_getElem? t.slots fun x => q x.join

theorem Indexed.recomputed (h : t.Indexed fun _ => True) : t.Recomputed := by
  have hpf : ∀ o, t.pendingFor o = t.slots.countP (slotPendingFor o) := by
    intro o
    rw [OperationTable.pendingFor, h.indexes.pendingOwners, positive]
    split_ifs with hz
    · simp [hz]
    · rfl
  have htarget : ∀ x, (t.targetIndex.members x).Perm
      (t.idsWhere fun s => slotPendingOn x (t.entryAt s)) := by
    intro x
    refine (List.perm_ext_iff_of_nodup (h.indexes.targetIndex.nodup x) (nodup_idsWhere _)).mpr
      fun id => ?_
    rw [h.indexes.targetIndex.mem, mem_idsWhere]
    · constructor
      · rintro ⟨p, hp, rfl⟩
        refine ⟨⟨_, hp⟩, ?_⟩
        rw [(locate_ok_iff.mp hp).2.2]
        simp [slotPendingOn]
      · rintro ⟨⟨e, he⟩, hs⟩
        rw [(locate_ok_iff.mp he).2.2] at hs
        rcases e with p | x'
        · exact ⟨p, he, by simpa [slotPendingOn] using hs⟩
        · simp [slotPendingOn] at hs
    · intro s hs
      rcases he : t.entryAt s with - | e
      · simp [he, slotPendingOn] at hs
      · rfl
  constructor
  case len_le =>
    rw [OperationTable.len, h.columns.live_eq]
    exact List.countP_le_length.trans h.columns.slots_le
  case len => exact h.columns.live_eq
  case pendingCount => exact h.columns.pending_eq
  case retainedTerminalCount =>
    have hsplit : t.slots.countP Option.isSome =
        t.slots.countP slotPending + t.slots.countP slotTerminal := by
      induction t.slots with
      | nil => rfl
      | cons x l ih =>
        rcases x with - | (p | x) <;>
          simp only [List.countP_cons, ih, slotTerminal, slotPending, Option.isSome] <;> simp <;>
          omega
    rw [OperationTable.retainedTerminalCount, h.columns.live_eq, h.columns.pending_eq]
    omega
  case pendingFor => exact hpf
  case pendingForTarget =>
    intro x
    rw [OperationTable.pendingForTarget, (htarget x).length_eq]
    exact length_idsWhere _
  case pendingOwners => exact h.indexes.pendingOwners
  case ownerIndex =>
    intro o
    refine ⟨h.indexes.ownerIndex.nonempty o,
      (List.perm_ext_iff_of_nodup (h.indexes.ownerIndex.nodup o) (nodup_idsWhere _)).mpr
        fun id => ?_⟩
    rw [h.indexes.ownerIndex.mem, mem_idsWhere fun s hs => (Bool.and_eq_true_iff.mp hs).1]
    refine and_congr_right fun ⟨e, he⟩ => ?_
    simp [(locate_ok_iff.mp he).2.2]
  case targetIndex => exact fun x => ⟨h.indexes.targetIndex.nonempty x, htarget x⟩
  case deadlines =>
    refine (List.perm_ext_iff_of_nodup h.indexes.deadlines_nodup ?_).mpr ?_
    · refine List.nodup_range.filterMap fun a b key ha hb => ?_
      have hslot : ∀ s, key ∈ t.deadlineAt s → key.2.1 = s := by
        intro s hs
        rw [Option.mem_def, deadlineAt] at hs
        split at hs
        · cases hs
          rfl
        · cases hs
      rw [← hslot a ha, hslot b hb]
    · rintro ⟨d, s, g⟩
      rw [h.indexes.deadlines_mem, List.mem_filterMap]
      constructor
      · rintro ⟨p, hp, rfl, -⟩
        obtain ⟨-, hg, he⟩ := locate_ok_iff.mp hp
        exact ⟨s, List.mem_range.mpr (locate_slot_lt hp), by simp [deadlineAt, he, hg]⟩
      · rintro ⟨s', -, hs'⟩
        unfold deadlineAt at hs'
        split at hs'
        · rename_i p hp
          cases hs'
          exact ⟨p, locate_ok_iff.mpr ⟨rfl, rfl, hp⟩, rfl, trivial⟩
        · cases hs'

/-! ## Runs -/

/-- The table after the first `k` calls on a new table. -/
def after (world max : ℕ) (calls : List TableCall) (k : ℕ) : OperationTable :=
  runTo (fun t c => (t.call c).2) (.new world max) calls k

/-- The identities that the `k`-th call takes from pending to a terminal outcome. -/
def endedBy (world max : ℕ) (calls : List TableCall) (k : ℕ) : Set OperationId :=
  {id | ∃ c, calls[k]? = some c ∧
    id ∈ (after world max calls k).view.ends c ((after world max calls k).call c).1}

variable {world max : ℕ} {calls : List TableCall}

theorem after_succ {k : ℕ} {c : TableCall} (h : calls[k]? = some c) :
    after world max calls (k + 1) = ((after world max calls k).call c).2 :=
  runTo_succ h

theorem after_indexed (world max : ℕ) (calls : List TableCall) (k : ℕ) :
    (after world max calls k).Indexed (fun _ => True) ∧ (after world max calls k).world = world := by
  refine runTo_invariant (I := fun t : OperationTable => t.Indexed (fun _ => True) ∧ t.world = world)
    ⟨indexed_new world max, rfl⟩ (fun t c ⟨h, hw⟩ => ?_) k
  have hr := call_refines h c
  exact ⟨hr.indexed, hr.world.trans hw⟩

theorem after_advances {k j : ℕ} (hkj : k ≤ j) :
    Advances (after world max calls k) (after world max calls j) :=
  runTo_rel (I := fun t : OperationTable => t.Indexed fun _ => True) (indexed_new world max)
    (fun _ c h => (call_refines h c).indexed) Advances.refl (fun _ _ _ => Advances.trans)
    (fun _ c h => call_advances h c) hkj

theorem after_refines (world max : ℕ) {k : ℕ} {c : TableCall} (h : calls[k]? = some c) :
    (after world max calls k).view.Answers world c ((after world max calls k).call c).1 ∧
      (after world max calls (k + 1)).view =
        (after world max calls k).view.after c ((after world max calls k).call c).1 := by
  obtain ⟨hi, hw⟩ := after_indexed world max calls k
  have hr := call_refines hi c
  have ha := hr.answers
  rw [hw] at ha
  rw [after_succ h]
  exact ⟨ha, hr.view⟩

/-- One step of a run, seen by one identity. -/
theorem after_livesOn (k : ℕ) (id : OperationId) :
    OperationMap.LivesOn (after world max calls k).view (after world max calls (k + 1)).view
      (endedBy world max calls k) id := by
  cases hc : calls[k]? with
  | none =>
    have hsame : after world max calls (k + 1) = after world max calls k :=
      runTo_succ_of_length_le (List.getElem?_eq_none_iff.mp hc)
    have hempty : endedBy world max calls k = ∅ := by
      ext i
      simp [endedBy, hc]
    rw [hsame, hempty]
    exact OperationMap.livesOn_same
  | some c =>
    obtain ⟨ha, hv⟩ := after_refines world max hc
    have hends : endedBy world max calls k =
        (after world max calls k).view.ends c ((after world max calls k).call c).1 := by
      ext i
      simp [endedBy, hc]
    rw [hv, hends]
    exact OperationMap.livesOn_after ha

theorem view_ne_none {k : ℕ} {id : OperationId} :
    (after world max calls k).view id ≠ none ↔
      ∃ e, (after world max calls k).locate id = .ok e := by
  rw [Ne, (after_indexed world max calls k).1.columns.view_eq_none]
  push Not
  rfl

/-- An identity that was located and no longer is stays stale. -/
theorem stale_forever {id : OperationId} {i k j : ℕ} (hik : i ≤ k) (hkj : k ≤ j)
    (hi : (after world max calls i).view id ≠ none) (hk : (after world max calls k).view id = none) :
    (after world max calls j).locate id = .error .staleReference := by
  obtain ⟨e, he⟩ := view_ne_none.mp hi
  rcases (after_advances hik).retires id e he with hlive | hspent
  · exact absurd hk (view_ne_none.mpr hlive)
  · exact ((after_advances hkj).spent id hspent).locate

theorem terminal_stays {id : OperationId} {k j : ℕ} (hkj : k ≤ j)
    (hk : (after world max calls k).view.IsTerminal id o) :
    (after world max calls j).view id = none ∨ (after world max calls j).view.IsTerminal id o := by
  induction j, hkj using Nat.le_induction with
  | base => exact .inr hk
  | succ j hkj ih =>
    rcases ih with hn | ht
    · left
      have hsome : (after world max calls k).view id ≠ none := by
        obtain ⟨r, hr, -⟩ := hk
        simp [hr]
      by_contra hne
      obtain ⟨e, he⟩ := view_ne_none.mp hne
      rw [stale_forever hkj j.le_succ hsome hn] at he
      cases he
    · exact (after_livesOn j id).stored o ht

/-- At most one call of a run ends an identity. -/
theorem ended_once {id : OperationId} {k k' : ℕ} (hlt : k < k')
    (hk : id ∈ endedBy world max calls k) : id ∉ endedBy world max calls k' := by
  intro hk'
  obtain ⟨p, hp⟩ := (after_livesOn k id).ended hk
  obtain ⟨q, hq⟩ := (after_livesOn k' id).ended hk'
  have hlive : (after world max calls k).view id ≠ none := by
    obtain ⟨r, hr, -⟩ := hp
    simp [hr]
  have hlive' : (after world max calls k').view id ≠ none := by
    obtain ⟨r, hr, -⟩ := hq
    simp [hr]
  rcases (after_livesOn k id).settled hk with hn | ⟨o, ho⟩
  · obtain ⟨e, he⟩ := view_ne_none.mp hlive'
    rw [stale_forever k.le_succ hlt hlive hn] at he
    cases he
  · rcases terminal_stays hlt ho with hn | ht
    · exact hlive' hn
    · exact hq.ne_terminal ht

/-- An outcome was established by one of the calls before. -/
theorem terminal_ended {id : OperationId} {j : ℕ}
    (hj : (after world max calls j).view.IsTerminal id o) :
    ∃ k < j, id ∈ endedBy world max calls k := by
  induction j with
  | zero =>
    obtain ⟨r, hr, -⟩ := hj
    have := (view_eq_some.mp hr).1
    simp [after, new, locate_ok_iff, entryAt] at this
  | succ j ih =>
    by_cases ht : ∃ x, (after world max calls j).view.IsTerminal id x
    · obtain ⟨x, hx⟩ := ht
      rcases (after_livesOn j id).stored x hx with hn | hx'
      · obtain ⟨r, hr, -⟩ := hj
        simp [hn] at hr
      · obtain ⟨r, hr, hro⟩ := hj
        obtain ⟨r', hr', hrx⟩ := hx'
        rw [hr] at hr'
        cases hr'
        rw [hro] at hrx
        cases hrx
        obtain ⟨k, hk, hend⟩ := ih hx
        exact ⟨k, hk.trans j.lt_succ_self, hend⟩
    · refine ⟨j, j.lt_succ_self, ?_⟩
      rcases hv : (after world max calls j).view id with - | r
      · rcases (after_livesOn j id).started hv with hn | ⟨p, hp⟩
        · obtain ⟨r, hr, -⟩ := hj
          simp [hn] at hr
        · exact absurd hj hp.ne_terminal
      · rcases OperationMap.isPending_or_terminal hv with ⟨p, hp⟩ | hterm
        · exact (after_livesOn j id).won p o hp hj
        · exact absurd hterm ht

/-! ## Room for a reservation -/

theorem after_max (world max : ℕ) (calls : List TableCall) (k : ℕ) :
    (after world max calls k).max = max := by
  refine (runTo_invariant (I := fun t : OperationTable => t.Indexed (fun _ => True) ∧ t.max = max)
    ⟨indexed_new world max, rfl⟩ (fun t c ⟨h, hm⟩ => ?_) k).2
  have hr := call_refines h c
  exact ⟨hr.indexed, hr.max.trans hm⟩

theorem after_steady (world max : ℕ) (calls : List TableCall) (k : ℕ) :
    (after world max calls k).Steady := by
  refine (runTo_invariant (I := fun t : OperationTable => t.Indexed (fun _ => True) ∧ t.Steady)
    ⟨indexed_new world max, steady_new world max⟩ (fun t c ⟨h, hs⟩ => ?_) k).2
  exact ⟨(call_refines h c).indexed, (call_follows h c).steady hs⟩

/-- A slot off the free list has used the generation it is at. -/
theorem slot_used {k s : ℕ} (hs : s < (after world max calls k).slots.length)
    (hf : s ∉ (after world max calls k).free) :
    ∃ i ≤ k, (after world max calls i).view ((after world max calls k).id s) ≠ none := by
  induction k with
  | zero => simp [after, new] at hs
  | succ k ih =>
    cases hc : calls[k]? with
    | none =>
      have hsame : after world max calls (k + 1) = after world max calls k :=
        runTo_succ_of_length_le (List.getElem?_eq_none_iff.mp hc)
      rw [hsame] at hs hf ⊢
      obtain ⟨i, hi, hview⟩ := ih hs hf
      exact ⟨i, hi.trans k.le_succ, hview⟩
    | some c =>
      have hfollows := call_follows (after_indexed world max calls k).1 c
      rw [← after_succ hc] at hfollows
      rcases hfollows.used s hs hf with ⟨hs', hf', hg⟩ | hlocated
      · obtain ⟨i, hi, hview⟩ := ih hs' hf'
        have hid : (after world max calls (k + 1)).id s = (after world max calls k).id s := by
          rw [OperationTable.id, OperationTable.id, hg, (after_indexed world max calls _).2,
            (after_indexed world max calls _).2]
        exact ⟨i, hi.trans k.le_succ, hid ▸ hview⟩
      · exact ⟨k + 1, le_rfl, view_ne_none.mpr hlocated⟩

/-- The slot holds no operation and has never used its last generation. -/
def Reusable (world max : ℕ) (calls : List TableCall) (k s : ℕ) : Prop :=
  s < max ∧ (∀ g, (after world max calls k).view ⟨world, s, g⟩ = none) ∧
    ∀ i ≤ k, (after world max calls i).view ⟨world, s, u64Max⟩ = none

theorem reusable_of_vacant {k s : ℕ} (hs : s < max)
    (hvacant : ((after world max calls k).slots[s]?).join = none)
    (hfree : s < (after world max calls k).slots.length → s ∈ (after world max calls k).free) :
    Reusable world max calls k s := by
  have hview : ∀ g, (after world max calls k).view ⟨world, s, g⟩ = none := by
    intro g
    rw [(after_indexed world max calls k).1.columns.view_eq_none]
    intro e he
    have hentry : (after world max calls k).entryAt s = some e := (locate_ok_iff.mp he).2.2
    rw [entryAt, hvacant] at hentry
    cases hentry
  refine ⟨hs, hview, fun i hi => ?_⟩
  by_contra hne
  obtain ⟨e, he⟩ := view_ne_none.mp hne
  rcases (after_advances hi).retires _ e he with hlive | ⟨-, hlt, hspent⟩
  · exact view_ne_none.mpr hlive (hview u64Max)
  · have hbound := (after_steady world max calls k).bounded s
    rcases hspent with hpast | ⟨-, -, hnf⟩
    · exact absurd hpast (Nat.not_lt.mpr hbound)
    · exact hnf (hfree hlt)

theorem exists_reusable {k : ℕ} : (∃ s, Reusable world max calls k s) ↔
    (after world max calls k).free ≠ [] ∨ (after world max calls k).slots.length < max := by
  have hcol := (after_indexed world max calls k).1.columns
  have hle : (after world max calls k).slots.length ≤ max := by
    have hle := hcol.slots_le
    rwa [after_max] at hle
  constructor
  · rintro ⟨s, hs, hview, hnew⟩
    by_contra hno
    rw [not_or, not_not, Nat.not_lt] at hno
    have hlt : s < (after world max calls k).slots.length := hs.trans_le hno.2
    have hf : s ∉ (after world max calls k).free := by simp [hno.1]
    have hvacant : (after world max calls k).slots[s]? = some none := by
      cases hslot : (after world max calls k).slots[s] with
      | none => rw [List.getElem?_eq_getElem hlt, hslot]
      | some e =>
        have hlocate := locate_placed (t := after world max calls k) (s := s) (e := e)
          (by rw [List.getElem?_eq_getElem hlt, hslot])
        have hne := view_ne_none.mpr ⟨e, hlocate⟩
        rw [OperationTable.id, (after_indexed world max calls k).2] at hne
        exact absurd (hview _) hne
    have hlast := ((after_steady world max calls k).vacant s hvacant).resolve_left hf
    obtain ⟨i, hi, hused⟩ := slot_used hlt hf
    rw [OperationTable.id, (after_indexed world max calls k).2, hlast] at hused
    exact hused (hnew i hi)
  · rintro (hfree | hroom)
    · obtain ⟨s, hs⟩ := List.exists_mem_of_ne_nil _ hfree
      have hvacant := hcol.free_mem s hs
      have hlt := (List.getElem?_eq_some_iff.mp hvacant).1
      exact ⟨s, reusable_of_vacant (hlt.trans_le hle) (by rw [hvacant]; rfl) fun _ => hs⟩
    · refine ⟨_, reusable_of_vacant hroom ?_ fun hlt => absurd hlt (lt_irrefl _)⟩
      rw [List.getElem?_eq_none le_rfl]
      rfl

theorem ncard_view (h : t.Indexed fun _ => True) : {id | t.view id ≠ none}.ncard = t.live := by
  rw [ncard_eq_of_mem (nodup_idsWhere fun s => (t.entryAt s).isSome) fun id => ?_,
    length_idsWhere Option.isSome, h.columns.live_eq]
  rw [mem_idsWhere fun s hs => hs]
  have hlocated : t.view id ≠ none ↔ ∃ e, t.locate id = .ok e := by
    rw [Ne, h.columns.view_eq_none]
    push Not
    rfl
  refine hlocated.trans ⟨fun ⟨e, he⟩ => ⟨⟨e, he⟩, ?_⟩, And.left⟩
  rw [(locate_ok_iff.mp he).2.2]
  rfl

/-- A reservation within the World succeeds exactly if the table has room and a slot to use. -/
theorem reserve_succeeds {k : ℕ} {owner target : ActorRef} (deadline : Instant)
    (hw : owner.world = world ∧ target.world = world) :
    (∃ id, ((after world max calls k).call (.reserve owner target deadline)).1 = .id (.ok id)) ↔
      {id | (after world max calls k).view id ≠ none}.ncard < max ∧
        ∃ s, Reusable world max calls k s := by
  obtain ⟨h, hworld⟩ := after_indexed world max calls k
  have hmax := after_max world max calls k
  rw [ncard_view h, exists_reusable]
  rw [← hworld] at hw
  set t := after world max calls k
  constructor
  · rintro ⟨id, hid⟩
    by_contra hno
    have heq : t.reserve owner target deadline = _ := reserve_error deadline fun hok =>
      hno (hmax ▸ hok.2)
    simp [call, answering, heq] at hid
  · rintro ⟨hlive, hroom⟩
    rw [← hmax] at hlive hroom
    obtain ⟨id, hid, -⟩ := reserve_ok h deadline hw hroom hlive
    exact ⟨id, by simp [call, answering, hid]⟩

/-- Along every sequence of calls the table refines the operation map: the answers are those
of the map, the indexes equal the values recomputed from the slots, an outcome is established
by one call and then kept, a retired identity is stale for ever, and a reservation succeeds
exactly while there is room and a slot with generations left. -/
theorem single_outcome (world max : ℕ) (calls : List TableCall) :
    (∀ k, (after world max calls k).Recomputed) ∧
      (after world max calls 0).view = (fun _ => none) ∧
      (∀ k c, calls[k]? = some c →
        (after world max calls k).view.Answers world c ((after world max calls k).call c).1 ∧
          (after world max calls (k + 1)).view =
            (after world max calls k).view.after c ((after world max calls k).call c).1) ∧
      (∀ id o k j, k ≤ j → (after world max calls k).view.IsTerminal id o →
        (after world max calls j).view id = none ∨
          (after world max calls j).view.IsTerminal id o) ∧
      (∀ id i k j, i ≤ k → k ≤ j → (after world max calls i).view id ≠ none →
        (after world max calls k).view id = none →
          (after world max calls j).status id = .error .staleReference) ∧
      (∀ id k k', id ∈ endedBy world max calls k → id ∈ endedBy world max calls k' → k = k') ∧
      (∀ id o j, (after world max calls j).view.IsTerminal id o →
        ∃! k, k < j ∧ id ∈ endedBy world max calls k) ∧
      (∀ k owner target deadline, owner.world = world ∧ target.world = world →
        ((∃ id, ((after world max calls k).call (.reserve owner target deadline)).1 =
          .id (.ok id)) ↔
            {id | (after world max calls k).view id ≠ none}.ncard < max ∧
              ∃ s, Reusable world max calls k s)) := by
  have honce : ∀ id k k', id ∈ endedBy world max calls k → id ∈ endedBy world max calls k' →
      k = k' := by
    intro id k k' hk hk'
    rcases lt_trichotomy k k' with hlt | heq | hlt
    · exact absurd hk' (ended_once hlt hk)
    · exact heq
    · exact absurd hk (ended_once hlt hk')
  refine ⟨fun k => (after_indexed world max calls k).1.recomputed, ?_, fun k c hc => after_refines world max hc,
    fun id o k j hkj hk => terminal_stays hkj hk,
    fun id i k j hik hkj hi hk => stale_forever hik hkj hi hk, honce, fun id o j hj => ?_,
    fun k owner target deadline hw => reserve_succeeds deadline hw⟩
  · funext id
    exact (after_indexed world max calls 0).1.columns.view_eq_none.mpr (by simp [after, new, locate_ok_iff, entryAt])
  · obtain ⟨k, hk, hend⟩ := terminal_ended hj
    exact ⟨k, ⟨hk, hend⟩, fun k' hk' => honce id k' k hk'.2 hend⟩

end OperationTable

end Actorplane
