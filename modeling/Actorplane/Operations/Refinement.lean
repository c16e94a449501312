import Actorplane.Lib.Runs
import Actorplane.Operations.Batches
import Actorplane.Operations.Map

/-!
# The operation table refines the operation map

Every call of the table acts on the map that the table represents, answers what
the map allows, and keeps the indexes exact. Slots whose generation has moved on
never represent the old identity again.
-/

namespace Actorplane

namespace OperationTable

variable {t : OperationTable} {id : OperationId} {e : Entry} {p : PendingOperation}
  {o : TerminalOutcome} {keep : Instant → Prop}

/-- The map that a table represents. -/
def view (t : OperationTable) : OperationMap := fun id =>
  match t.locate id, t.ownerAt id.slot with
  | .ok e, some owner => some ⟨owner, e⟩
  | _, _ => none

theorem view_eq_some {r : OperationRecord} :
    t.view id = some r ↔ t.locate id = .ok r.entry ∧ t.ownerAt id.slot = some r.owner := by
  unfold view
  cases r
  split
  · simp_all [and_comm]
  · simp_all

theorem Columns.view_of_locate (h : t.Columns) (he : t.locate id = .ok e) :
    ∃ owner, t.view id = some ⟨owner, e⟩ := by
  obtain ⟨owner, ho⟩ := Option.isSome_iff_exists.mp (h.owner_isSome he)
  exact ⟨owner, view_eq_some.mpr ⟨he, ho⟩⟩

theorem Columns.view_eq_none (h : t.Columns) :
    t.view id = none ↔ ∀ e, t.locate id ≠ .ok e := by
  constructor
  · intro hv e he
    obtain ⟨owner, ho⟩ := h.view_of_locate he
    simp [hv] at ho
  · intro hl
    rw [Option.eq_none_iff_forall_ne_some]
    intro r hr
    exact hl _ (view_eq_some.mp hr).1

theorem Columns.isPending_view (h : t.Columns) :
    t.view.IsPending id p ↔ t.locate id = .ok (.pending p) := by
  constructor
  · rintro ⟨r, hr, hp⟩
    exact hp ▸ (view_eq_some.mp hr).1
  · intro hp
    obtain ⟨owner, ho⟩ := h.view_of_locate hp
    exact ⟨_, ho, rfl⟩

/-- The record of a pending operation names its owner. -/
theorem Columns.view_pending (h : t.Columns) (hp : t.locate id = .ok (.pending p)) :
    t.view id = some ⟨p.owner, .pending p⟩ :=
  view_eq_some.mpr ⟨hp, h.owner_of_locate hp⟩

/-! ## Changes of the represented map -/

theorem view_settle {t' : OperationTable} {S : Set OperationId} (hown : t'.owners = t.owners)
    (hS : ∀ i ∈ S, ∃ e, t.locate i = .ok e)
    (hin : ∀ i ∈ S, ∀ y, t'.locate i = .ok y ↔ .terminal o.normalized = y)
    (hout : ∀ i ∉ S, ∀ y, t'.locate i = .ok y ↔ t.locate i = .ok y) :
    t'.view = t.view.settle S o := by
  funext i
  apply Option.ext
  intro r
  have ho : t'.ownerAt i.slot = t.ownerAt i.slot := by rw [ownerAt, ownerAt, hown]
  rw [view_eq_some, ho]
  unfold OperationMap.settle
  split_ifs with hi
  · obtain ⟨e, he⟩ := hS i hi
    rw [hin i hi, Option.map_eq_some_iff]
    constructor
    · rintro ⟨hr, hro⟩
      exact ⟨⟨r.owner, e⟩, view_eq_some.mpr ⟨he, hro⟩, by rw [hr]⟩
    · rintro ⟨r', hr', rfl⟩
      exact ⟨rfl, (view_eq_some.mp hr').2⟩
  · rw [hout i hi, view_eq_some]

theorem view_forget {t' : OperationTable} {S : Set OperationId}
    (hown : ∀ i y, t'.locate i = .ok y → t'.ownerAt i.slot = t.ownerAt i.slot)
    (hloc : ∀ i y, t'.locate i = .ok y ↔ i ∉ S ∧ t.locate i = .ok y) :
    t'.view = t.view.forget S := by
  funext i
  apply Option.ext
  intro r
  rw [view_eq_some]
  unfold OperationMap.forget
  split_ifs with hi
  · simp [hloc, hi]
  · rw [view_eq_some]
    refine ⟨fun ⟨hl, ho⟩ => ⟨((hloc i _).mp hl).2, hown i _ hl ▸ ho⟩, fun ⟨hl, ho⟩ => ?_⟩
    have hl' := (hloc i _).mpr ⟨hi, hl⟩
    exact ⟨hl', (hown i _ hl').symm ▸ ho⟩

/-! ## What contenders see -/

theorem Indexed.contend_view (h : t.Indexed keep) (wins : PendingOperation → Bool) :
    t.view.contend t.world id wins =
      match t.locate id with
      | .error e => .error e
      | .ok (.pending p) => .ok (wins p)
      | .ok (.terminal _) => .ok false := by
  unfold OperationMap.contend
  rcases hl : t.locate id with e | (p | x)
  · have hn : ∀ e, t.locate id ≠ .ok e := by simp [hl]
    rw [h.columns.view_eq_none.mpr hn]
    have := locate_error hn
    rw [hl] at this
    simpa [OperationMap.missing] using this.symm
  · rw [h.columns.view_pending hl]
  · obtain ⟨owner, ho⟩ := h.columns.view_of_locate hl
    rw [ho]

/-- One call keeps the table exact, answers what the map allows and acts on the map. -/
structure Refines (t : OperationTable) (c : TableCall) : Prop where
  indexed : (t.call c).2.Indexed fun _ => True
  world : (t.call c).2.world = t.world
  max : (t.call c).2.max = t.max
  answers : t.view.Answers t.world c (t.call c).1
  view : (t.call c).2.view = t.view.after c (t.call c).1

theorem ncard_eq_of_mem {S : Set OperationId} {ids : List OperationId} (hn : ids.Nodup)
    (h : ∀ i, i ∈ S ↔ i ∈ ids) : S.ncard = ids.length := by
  have : S = (ids.toFinset : Set OperationId) := by
    ext i
    simp [h]
  rw [this, Set.ncard_coe_finset, List.toFinset_card_of_nodup hn]

/-- A completion that wins settles its identity. -/
theorem view_complete (hf : t.foreign o = false)
    (hp : t.locate id = .ok (.pending p)) :
    (t.complete id o).2.view = t.view.settle {id} o := by
  refine view_settle (complete_frame t id o).2.2.2.1 ?_ ?_ ?_
  · rintro i rfl
    exact ⟨_, hp⟩
  · rintro i rfl y
    simp [complete_locate hf hp]
  · intro i hi y
    simp [complete_locate hf hp, show i ≠ id from hi]

theorem takeSlot_frame (t : OperationTable) :
    t.takeSlot.2.world = t.world ∧ t.takeSlot.2.max = t.max ∧
      ∀ s, t.ownerAt s = none ∨ t.takeSlot.2.ownerAt s = t.ownerAt s := by
  unfold takeSlot
  cases t.free with
  | cons s free => exact ⟨rfl, rfl, fun _ => .inr rfl⟩
  | nil =>
    refine ⟨rfl, rfl, fun s => ?_⟩
    by_cases hs : s < t.owners.length
    · simp [ownerAt, List.getElem?_append_left hs]
    · simp [ownerAt, List.getElem?_eq_none (Nat.le_of_not_lt hs)]

variable (h : t.Indexed fun _ => True)

include h

theorem complete_refines (id : OperationId) (o : TerminalOutcome) :
    t.Refines (.complete id o) := by
  obtain ⟨hw, hm, -⟩ := complete_frame t id o
  refine ⟨h.complete id o, hw, hm, ?_, ?_⟩
  · show OperationMap.Answers t.world t.view (.complete id o) (.flag (t.complete id o).1)
    have hnot : t.foreign o = false →
        (t.complete id o).1 = t.view.contend t.world id fun _ => true := by
      intro hf
      rw [h.contend_view]
      unfold OperationTable.complete
      rw [hf]
      rcases t.locate id with e | (p | x) <;> rfl
    cases o with
    | completed payload =>
      simp only [OperationMap.Answers]
      by_cases hw : payload.world = t.world
      · simpa [hw] using hnot (by simp [foreign, hw])
      · simp [complete_foreign, foreign, hw]
    | _ => exact hnot rfl
  · show (t.complete id o).2.view = t.view.after (.complete id o) (.flag (t.complete id o).1)
    by_cases hf : t.foreign o
    · rw [complete_foreign hf]
      rfl
    · by_cases hp : t.isPending id
      · obtain ⟨p, hp⟩ := isPending_iff.mp hp
        rw [view_complete (by simpa using hf) hp, complete_pending (by simpa using hf) hp]
        rfl
      · obtain ⟨hlost, hsame⟩ := complete_not_pending (o := o) (by simpa using hp)
        rw [hsame]
        rcases hr : (t.complete id o).1 with e | (b | b)
        · rfl
        · rfl
        · exact absurd hr hlost

theorem expireOne_refines (id : OperationId) (now : Instant) : t.Refines (.expireOne id now) := by
  have hcases : (t.expireOne id now).2 = t ∧ (t.expireOne id now).1 ≠ .ok true ∨
      ∃ p, t.locate id = .ok (.pending p) ∧ t.expireOne id now = t.complete id .timedOut := by
    unfold expireOne
    rcases hl : t.locate id with e | (p | x)
    · simp
    · by_cases hd : p.deadline ≤ now <;> simp [hd]
    · simp
  have hans : (t.expireOne id now).1 = t.view.contend t.world id fun p => p.deadline ≤ now := by
    rw [h.contend_view]
    unfold expireOne
    rcases hl : t.locate id with e | (p | x)
    · rfl
    · by_cases hd : p.deadline ≤ now
      · simp [hd, complete_pending (o := .timedOut) rfl hl]
      · simp [hd]
    · rfl
  rcases hcases with ⟨hsame, hlost⟩ | ⟨p, hp, heq⟩
  · refine ⟨?_, ?_, ?_, hans, ?_⟩
    · simpa [call, answering, hsame] using h
    · simp [call, answering, hsame]
    · simp [call, answering, hsame]
    · show (t.expireOne id now).2.view =
        t.view.after (.expireOne id now) (.flag (t.expireOne id now).1)
      rw [hsame]
      rcases hr : (t.expireOne id now).1 with e | (b | b)
      · rfl
      · rfl
      · exact absurd hr hlost
  · obtain ⟨hw, hm, -⟩ := complete_frame t id .timedOut
    refine ⟨?_, ?_, ?_, hans, ?_⟩
    · simpa [call, answering, heq] using h.complete id _
    · simpa [call, answering, heq] using hw
    · simpa [call, answering, heq] using hm
    · show (t.expireOne id now).2.view =
        t.view.after (.expireOne id now) (.flag (t.expireOne id now).1)
      rw [heq, view_complete rfl hp, complete_pending rfl hp]
      rfl

theorem take_refines (id : OperationId) : t.Refines (.take id) := by
  obtain ⟨hw, hm, -⟩ := take_frame h.columns id
  refine ⟨h.take, hw, hm, ?_, ?_⟩
  · show (t.take id).1 = _
    rcases hl : t.locate id with e | (p | x)
    · have hn : ∀ e, t.locate id ≠ .ok e := by simp [hl]
      rw [take_missing hn, h.columns.view_eq_none.mpr hn]
      rfl
    · rw [take_pending hl, h.columns.view_pending hl]
    · obtain ⟨owner, ho⟩ := h.columns.view_of_locate hl
      obtain ⟨_, -, heq⟩ := take_terminal h.columns hl
      rw [heq, ho]
  · show (t.take id).2.view = t.view.after (.take id) (.outcome (t.take id).1)
    rcases hl : t.locate id with e | (p | x)
    · rw [take_missing (by simp [hl])]
      rfl
    · rw [take_pending hl]
      rfl
    · obtain ⟨owner, -, heq⟩ := take_terminal h.columns hl
      have hloc := (h.take_terminal hl).2
      have hown := (take_frame h.columns id).2.2
      have hview : (t.take id).2.view = t.view.forget {id} := by
        refine view_forget (fun i y hi => hown _ fun hs => ?_) fun i y => by simp [hloc]
        obtain ⟨hne, hi⟩ := (hloc i y).mp hi
        exact hne (locate_slot_inj hi hl hs)
      rw [hview, heq]
      rfl

theorem releaseUnsubmitted_refines (id : OperationId) : t.Refines (.releaseUnsubmitted id) := by
  have hans : (t.releaseUnsubmitted id).1 = t.view.contend t.world id fun _ => true := by
    rw [h.contend_view]
    rcases hl : t.locate id with e | (p | x)
    · simp [releaseUnsubmitted, hl]
    · simp [releaseUnsubmitted_pending hl]
    · simp [releaseUnsubmitted, hl]
  by_cases hp : t.isPending id
  · obtain ⟨p, hp⟩ := isPending_iff.mp hp
    obtain ⟨hidx, hloc⟩ := h.release_pending hp
    have heq := releaseUnsubmitted_pending hp
    have hframe := retireGeneration_frame
      { t with
        slots := t.slots.set id.slot none
        owners := t.owners.set id.slot none
        pendingOwners := decrement t.pendingOwners p.owner
        ownerIndex := t.ownerIndex.drop p.owner id
        targetIndex := t.targetIndex.drop p.target id
        deadlines := t.deadlines.erase (p.deadline, id.slot, id.generation)
        pending := t.pending - 1
        live := t.live - 1 } id.slot
    refine ⟨hidx, ?_, ?_, hans, ?_⟩
    · simpa [call, answering, heq] using hframe.1
    · simpa [call, answering, heq] using hframe.2.1
    · have hview : (t.releaseUnsubmitted id).2.view = t.view.forget {id} := by
        refine view_forget (fun i y hi => ?_) fun i y => by simp [hloc]
        obtain ⟨hne, hi⟩ := (hloc i y).mp hi
        have hs : i.slot ≠ id.slot := fun hs => hne (locate_slot_inj hi hp hs)
        rw [heq, ownerAt, hframe.2.2]
        exact ownerAt_clear t.owners id.slot i.slot hs
      show (t.releaseUnsubmitted id).2.view =
        t.view.after (.releaseUnsubmitted id) (.flag (t.releaseUnsubmitted id).1)
      rw [hview, heq]
      rfl
  · have hsame : (t.releaseUnsubmitted id).2 = t ∧ (t.releaseUnsubmitted id).1 ≠ .ok true := by
      clear hans
      unfold releaseUnsubmitted isPending at *
      rcases hl : t.locate id with e | (p | x) <;> simp_all
    refine ⟨?_, ?_, ?_, hans, ?_⟩
    · simpa [call, answering, hsame.1] using h
    · simp [call, answering, hsame.1]
    · simp [call, answering, hsame.1]
    · show (t.releaseUnsubmitted id).2.view =
        t.view.after (.releaseUnsubmitted id) (.flag (t.releaseUnsubmitted id).1)
      rw [hsame.1]
      rcases hr : (t.releaseUnsubmitted id).1 with e | (b | b)
      · rfl
      · rfl
      · exact absurd hr hsame.2

theorem setContext_refines (id : OperationId) (context : HeldPayload) :
    t.Refines (.setContext id context) := by
  by_cases hw : context.world = t.world
  swap
  · have heq : t.setContext id context = (.error .crossWorld, t) := by simp [setContext, hw]
    refine ⟨?_, ?_, ?_, ?_, ?_⟩
    · simpa [call, answering, heq] using h
    · simp [call, answering, heq]
    · simp [call, answering, heq]
    · simp [call, answering, heq, OperationMap.Answers, hw]
    · simp [call, answering, heq, OperationMap.after]
  rcases hl : t.locate id with e | (p | x)
  · have hn : ∀ e, t.locate id ≠ .ok e := by simp [hl]
    have heq : t.setContext id context = (.error (OperationMap.missing t.world id), t) := by
      simp [setContext, hw, locate_error hn, OperationMap.missing]
    refine ⟨?_, ?_, ?_, ?_, ?_⟩
    · simpa [call, answering, heq] using h
    · simp [call, answering, heq]
    · simp [call, answering, heq]
    · simp [call, answering, heq, OperationMap.Answers, hw, h.columns.view_eq_none.mpr hn]
    · simp [call, answering, heq, OperationMap.after]
  · have hv := h.columns.view_pending hl
    by_cases hc : p.context = none
    · have heq := setContext_pending hw hl hc
      obtain ⟨hidx, hloc⟩ := h.setContext_pending hw hl hc
      refine ⟨hidx, ?_, ?_, ?_, ?_⟩
      · simp [call, answering, heq]
      · simp [call, answering, heq]
      · simp [call, answering, heq, OperationMap.Answers, hw, hv, hc]
      · have hview : (t.setContext id context).2.view =
            t.view.hold id (.pending { p with context := some context }) := by
          funext i
          apply Option.ext
          intro r
          have ho : (t.setContext id context).2.ownerAt i.slot = t.ownerAt i.slot := by
            rw [heq]
            rfl
          rw [view_eq_some, hloc, ho]
          unfold OperationMap.hold
          by_cases hi : i = id
          · subst hi
            simp only [if_true, hv, Option.map_some, Option.some.injEq,
              h.columns.owner_of_locate hl]
            constructor
            · rintro ⟨hr, ho⟩
              cases r
              simp_all
            · rintro rfl
              exact ⟨rfl, rfl⟩
          · simp [hi, view_eq_some]
        show (t.setContext id context).2.view =
          t.view.after (.setContext id context) (.unit (t.setContext id context).1)
        rw [hview, heq]
        simp [OperationMap.after, hv]
    · have heq : t.setContext id context = (.error .invalidConfig, t) := by
        simp [setContext, hw, hl, Option.isSome_iff_ne_none, hc]
      refine ⟨?_, ?_, ?_, ?_, ?_⟩
      · simpa [call, answering, heq] using h
      · simp [call, answering, heq]
      · simp [call, answering, heq]
      · simp [call, answering, heq, OperationMap.Answers, hw, hv, Option.isSome_iff_ne_none, hc]
      · simp [call, answering, heq, OperationMap.after]
  · obtain ⟨owner, ho⟩ := h.columns.view_of_locate hl
    have heq : t.setContext id context = (.error .invalidConfig, t) := by
      simp [setContext, hw, hl]
    refine ⟨?_, ?_, ?_, ?_, ?_⟩
    · simpa [call, answering, heq] using h
    · simp [call, answering, heq]
    · simp [call, answering, heq]
    · simp [call, answering, heq, OperationMap.Answers, hw, ho]
    · simp [call, answering, heq, OperationMap.after]

omit h in
theorem reserve_eq {owner target : ActorRef} {deadline : Instant}
    (hw : owner.world = t.world ∧ target.world = t.world)
    (hroom : t.free ≠ [] ∨ t.slots.length < t.max) (hlive : t.live < t.max) :
    t.reserve owner target deadline = (.ok (t.takeSlot.2.id t.takeSlot.1),
      { { t.takeSlot.2 with
          slots := t.takeSlot.2.slots.set t.takeSlot.1
            (some (.pending ⟨owner, target, deadline, none⟩)) }.indexPending
          (t.takeSlot.2.id t.takeSlot.1) ⟨owner, target, deadline, none⟩ with
        live := t.takeSlot.2.live + 1
        pending := t.takeSlot.2.pending + 1 }) := by
  have hfull : ¬(t.free = [] ∧ t.max ≤ t.slots.length) := by
    rintro ⟨hf, hl⟩
    rcases hroom with hr | hr
    · exact hr hf
    · omega
  unfold reserve
  rw [if_neg (by simp [hw.1, hw.2]), if_neg (by omega), if_neg hfull]
  rfl

omit h in
theorem reserve_error {owner target : ActorRef} (deadline : Instant)
    (hno : ¬((owner.world = t.world ∧ target.world = t.world) ∧ t.live < t.max ∧
      (t.free ≠ [] ∨ t.slots.length < t.max))) :
    t.reserve owner target deadline =
      (.error (if owner.world = t.world ∧ target.world = t.world then .limitExceeded
        else .crossWorld), t) := by
  unfold reserve
  by_cases hw : owner.world = t.world ∧ target.world = t.world
  · rw [if_neg (by tauto), if_pos hw]
    by_cases hl : t.max ≤ t.live
    · rw [if_pos hl]
    · rw [if_neg hl, if_pos]
      by_contra hfull
      refine hno ⟨hw, by omega, ?_⟩
      by_cases hf : t.free = []
      · exact .inr (by_contra fun hlen => hfull ⟨hf, by omega⟩)
      · exact .inl hf
  · rw [if_pos (by tauto), if_neg hw]

/-- A successful reservation: a fresh identity becomes pending. -/
theorem reserve_ok {owner target : ActorRef} (deadline : Instant)
    (hw : owner.world = t.world ∧ target.world = t.world)
    (hroom : t.free ≠ [] ∨ t.slots.length < t.max) (hlive : t.live < t.max) :
    ∃ id, (t.reserve owner target deadline).1 = .ok id ∧ id.world = t.world ∧
      (t.reserve owner target deadline).2.Indexed (fun _ => True) ∧
      (t.reserve owner target deadline).2.world = t.world ∧
      (t.reserve owner target deadline).2.max = t.max ∧ (∀ y, t.locate id ≠ .ok y) ∧
      (∀ i y, (t.reserve owner target deadline).2.locate i = .ok y ↔
        if i = id then .pending ⟨owner, target, deadline, none⟩ = y else t.locate i = .ok y) ∧
      (t.reserve owner target deadline).2.view =
        t.view.start id ⟨owner, target, deadline, none⟩ := by
  obtain ⟨h1, hs, hn, hsame⟩ := h.takeSlot hroom
  obtain ⟨hw1, hm1, ho1⟩ := takeSlot_frame t
  rw [reserve_eq hw hroom hlive]
  set s := t.takeSlot.1
  set t1 := t.takeSlot.2
  obtain ⟨h2, hloc⟩ := h1.place hs hn ⟨owner, target, deadline, none⟩ trivial rfl rfl
  have hloc : ∀ i y, _ ↔ if i = t1.id s then _ else t.locate i = .ok y := fun i y =>
    (hloc i y).trans (by rw [← hsame i y])
  have hnone : ∀ y, t.locate (t1.id s) ≠ .ok y := by
    intro y hy
    have := locate_getElem? ((hsame _ y).mpr hy)
    simp [OperationTable.id, hs] at this
  refine ⟨t1.id s, rfl, hw1, h2, hw1, hm1, hnone, hloc, ?_⟩
  have hlt : s < t1.owners.length := by
    rw [h1.columns.owners_length]
    exact (List.getElem?_eq_some_iff.mp hs).1
  funext i
  apply Option.ext
  intro r
  rw [view_eq_some, hloc]
  unfold OperationMap.start
  by_cases hi : i = t1.id s
  · simp only [hi, if_true, Option.some.injEq]
    rw [ownerAt_set hlt rfl]
    simp only [OperationTable.id, if_true, Option.some.injEq]
    constructor
    · rintro ⟨hr, ho⟩
      cases r
      simp_all
    · rintro rfl
      exact ⟨rfl, rfl⟩
  · simp only [hi, if_false]
    rw [view_eq_some]
    refine and_congr_right fun hl => ?_
    have hne : i.slot ≠ s := by
      intro hslot
      have := locate_getElem? ((hsame i _).mpr hl)
      simp [hslot, hs] at this
    rw [ownerAt_set hlt rfl, if_neg hne]
    rcases ho1 i.slot with hnone | hsame
    · have := h.columns.owner_isSome hl
      simp [hnone] at this
    · rw [hsame]

theorem reserve_refines (owner target : ActorRef) (deadline : Instant) :
    t.Refines (.reserve owner target deadline) := by
  by_cases hok : (owner.world = t.world ∧ target.world = t.world) ∧ t.live < t.max ∧
      (t.free ≠ [] ∨ t.slots.length < t.max)
  · obtain ⟨hw, hlive, hroom⟩ := hok
    obtain ⟨id, hr, hidw, hidx, hw', hm', hnone, -, hview⟩ := reserve_ok h deadline hw hroom hlive
    refine ⟨hidx, hw', hm', ?_, ?_⟩
    · show OperationMap.Answers _ _ _ (.id (t.reserve owner target deadline).1)
      rw [hr]
      exact ⟨hw.1, hw.2, hidw, h.columns.view_eq_none.mpr hnone⟩
    · show _ = t.view.after _ (.id (t.reserve owner target deadline).1)
      rw [hr]
      exact hview
  · have heq := reserve_error deadline hok
    refine ⟨?_, ?_, ?_, ?_, ?_⟩
    · simpa [call, answering, heq] using h
    · simp [call, answering, heq]
    · simp [call, answering, heq]
    · simp only [call, answering, heq, OperationMap.Answers]
      split_ifs <;> rfl
    · simp [call, answering, heq, OperationMap.after]

/-! ## Batch calls -/

theorem view_dueBy (now : Instant) (i : OperationId) :
    i ∈ t.view.dueBy now ↔ i ∈ t.dueIds now := by
  rw [mem_dueIds h]
  exact exists_congr fun p => and_congr_left fun _ => h.columns.isPending_view

theorem expireIds_view (now : Instant) :
    (t.expireIds now).2.view = t.view.settle (t.view.dueBy now) .timedOut := by
  obtain ⟨-, -, -, hown, hloc, -⟩ := expireIds_spec h now
  refine view_settle hown ?_ ?_ ?_
  · intro i hi
    obtain ⟨p, hp, -⟩ := (mem_dueIds h now).mp ((view_dueBy h now i).mp hi)
    exact ⟨_, hp⟩
  · intro i hi y
    rw [hloc, if_pos ((view_dueBy h now i).mp hi)]
    rfl
  · intro i hi y
    rw [hloc, if_neg fun hd => hi ((view_dueBy h now i).mpr hd)]

theorem expireIds_refines (now : Instant) : t.Refines (.expireIds now) := by
  obtain ⟨h1, h2, h3, -, -, h6⟩ := expireIds_spec h now
  refine ⟨h1, h2, h3, ?_, expireIds_view h now⟩
  show (t.expireIds now).1.Nodup ∧ ∀ id, id ∈ (t.expireIds now).1 ↔ _
  rw [h6]
  exact ⟨by simpa using nodup_dueIds h now, fun id => by rw [view_dueBy h, mem_sortIds]⟩

theorem expire_refines (now : Instant) : t.Refines (.expire now) := by
  obtain ⟨h1, h2, h3, -, -, h6⟩ := expireIds_spec h now
  refine ⟨h1, h2, h3, ?_, expireIds_view h now⟩
  show (t.expireIds now).1.length = _
  rw [h6]
  refine (ncard_eq_of_mem (by simpa using nodup_dueIds h now) fun id => ?_).symm
  rw [view_dueBy h, mem_sortIds]

/-- Offering an outcome to the pending identities of one index entry. -/
theorem transition_refines {S : Set OperationId} {ids : List OperationId} (hn : ids.Nodup)
    (hf : t.foreign o = false)
    (hS : ∀ i, i ∈ S ↔ i ∈ ids ∧ ∃ p, t.locate i = .ok (.pending p)) :
    (t.transitionIds (sortIds ids) o).2.Indexed (fun _ => True) ∧
      (t.transitionIds (sortIds ids) o).2.world = t.world ∧
      (t.transitionIds (sortIds ids) o).2.max = t.max ∧
      (t.transitionIds (sortIds ids) o).1 = S.ncard ∧
      (t.transitionIds (sortIds ids) o).2.view = t.view.settle S o := by
  obtain ⟨h1, h2, h3, -, h5, -, -, h8, h9⟩ :=
    transitionIds_spec h (sortIds ids) hf (by simpa using hn)
  have hmem : ∀ i, i ∈ S ↔ i ∈ sortIds ids ∧ t.isPending i = true := by
    intro i
    rw [hS, mem_sortIds, isPending_iff]
  refine ⟨h1, h2, h3, ?_, view_settle h5 ?_ ?_ ?_⟩
  · rw [h9, List.countP_eq_length_filter]
    refine (ncard_eq_of_mem (List.Nodup.filter _ (by simpa using hn)) fun i => ?_).symm
    rw [hmem, List.mem_filter]
  · intro i hi
    obtain ⟨-, p, hp⟩ := (hS i).mp hi
    exact ⟨_, hp⟩
  · intro i hi y
    rw [h8, if_pos ((hmem i).mp hi)]
  · intro i hi y
    rw [h8, if_neg fun hc => hi ((hmem i).mpr hc)]

theorem mem_ownedBy (owner : ActorRef) (i : OperationId) :
    i ∈ t.view.ownedBy owner ↔ i ∈ t.ownerIndex.members owner := by
  rw [h.indexes.ownerIndex.mem]
  constructor
  · rintro ⟨r, hr, rfl⟩
    exact ⟨⟨_, (view_eq_some.mp hr).1⟩, (view_eq_some.mp hr).2⟩
  · rintro ⟨⟨e, he⟩, ho⟩
    exact ⟨⟨owner, e⟩, view_eq_some.mpr ⟨he, ho⟩, rfl⟩

theorem cancelOwner_refines (owner : ActorRef) : t.Refines (.cancelOwner owner) := by
  obtain ⟨h1, h2, h3, h4, h5⟩ := transition_refines (o := .ownerStopped)
    (S := t.view.pendingOf owner) h (h.indexes.ownerIndex.nodup owner) rfl fun i =>
      and_congr (mem_ownedBy h owner i) (exists_congr fun p => h.columns.isPending_view)
  exact ⟨h1, h2, h3, h4, h5⟩

theorem stopTarget_refines (target : ActorRef) : t.Refines (.stopTarget target) := by
  obtain ⟨h1, h2, h3, h4, h5⟩ := transition_refines (o := .targetStopped)
    (S := t.view.pendingOn target) h (h.indexes.targetIndex.nodup target) rfl fun i => by
      rw [h.indexes.targetIndex.mem]
      constructor
      · rintro ⟨p, hp, rfl⟩
        have hp := h.columns.isPending_view.mp hp
        exact ⟨⟨p, hp, rfl⟩, p, hp⟩
      · rintro ⟨⟨p, hp, ht⟩, -⟩
        exact ⟨p, h.columns.isPending_view.mpr hp, ht⟩
  exact ⟨h1, h2, h3, h4, h5⟩

theorem retireOwner_refines (owner : ActorRef) : t.Refines (.retireOwner owner) := by
  have hn : (sortIds (t.ownerIndex.members owner)).Nodup := by
    simpa using h.indexes.ownerIndex.nodup owner
  obtain ⟨h1, h2, h3, h4, h5, h6⟩ := retireIds_spec h hn
  have hmem : ∀ i, i ∈ t.view.ownedBy owner ↔ i ∈ sortIds (t.ownerIndex.members owner) := by
    intro i
    rw [mem_sortIds, mem_ownedBy h]
  refine ⟨h1, h2, h3, ?_, view_forget h5 fun i y => by
    rw [hmem]
    exact h4 i y⟩
  show (t.retireIds _).1 = _
  rw [h6, ncard_eq_of_mem hn hmem, List.countP_eq_length]
  intro i hi
  rw [mem_sortIds, h.indexes.ownerIndex.mem] at hi
  exact isLive_iff.mpr hi.1

theorem call_refines (c : TableCall) : t.Refines c := by
  cases c with
  | reserve owner target deadline => exact reserve_refines h owner target deadline
  | setContext id context => exact setContext_refines h id context
  | complete id outcome => exact complete_refines h id outcome
  | take id => exact take_refines h id
  | releaseUnsubmitted id => exact releaseUnsubmitted_refines h id
  | expire now => exact expire_refines h now
  | expireIds now => exact expireIds_refines h now
  | expireOne id now => exact expireOne_refines h id now
  | cancelOwner owner => exact cancelOwner_refines h owner
  | stopTarget target => exact stopTarget_refines h target
  | retireOwner owner => exact retireOwner_refines h owner

end OperationTable

end Actorplane
