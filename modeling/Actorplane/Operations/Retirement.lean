import Actorplane.Operations.Refinement

/-!
# Retired operation identities

An identity is spent once the generation of its slot has moved past it, or its
slot is empty for good because the generation counter is exhausted. Spent
identities stay spent, and an identity that stops being located is spent. Every call
but a reservation comes down to edits of occupied slots.
-/

namespace Actorplane

namespace OperationTable

variable {t t' : OperationTable} {id : OperationId} {e : Entry} {p : PendingOperation}
  {o : TerminalOutcome}

/-- No later call can locate the identity again. -/
def Spent (t : OperationTable) (id : OperationId) : Prop :=
  id.world = t.world ∧ id.slot < t.slots.length ∧
    (id.generation < t.generationAt id.slot ∨
      id.generation ≤ t.generationAt id.slot ∧ t.slots[id.slot]? = some none ∧ id.slot ∉ t.free)

theorem Spent.locate (h : t.Spent id) : t.locate id = .error .staleReference := by
  obtain ⟨hw, -, hg⟩ := h
  have hn : ∀ e, t.locate id ≠ .ok e := by
    intro e he
    have hs := locate_getElem? he
    obtain ⟨-, hge, -⟩ := locate_ok_iff.mp he
    rcases hg with hg | ⟨-, hnone, -⟩
    · omega
    · simp [hs] at hnone
  rw [locate_error hn, if_pos hw]

/-- One change of the slots: none at all, a new entry in an occupied slot, or an occupied slot
emptied and its generation moved on. -/
inductive Edit : OperationTable → OperationTable → Prop
  | keep {t t' : OperationTable} : t'.world = t.world → t'.generations = t.generations →
      t'.free = t.free → t'.slots = t.slots → Edit t t'
  | set {t t' : OperationTable} {id : OperationId} {e : Entry} (x : Entry) :
      t.locate id = .ok e → t'.world = t.world → t'.generations = t.generations →
      t'.free = t.free → t'.slots = t.slots.set id.slot (some x) → Edit t t'
  | clear {t t' : OperationTable} {id : OperationId} {e : Entry} : t.Columns →
      t.locate id = .ok e → t'.world = t.world → t'.generations = t.generations →
      t'.free = t.free → t'.slots = t.slots.set id.slot none →
      Edit t (t'.retireGeneration id.slot)

abbrev Edits : OperationTable → OperationTable → Prop := Relation.ReflTransGen Edit

/-- A call leaves spent identities spent, and every located one located or spent. -/
structure Advances (t t' : OperationTable) : Prop where
  spent : ∀ id, t.Spent id → t'.Spent id
  retires : ∀ id e, t.locate id = .ok e → (∃ e', t'.locate id = .ok e') ∨ t'.Spent id

theorem Advances.refl (t : OperationTable) : Advances t t :=
  ⟨fun _ h => h, fun _ e h => .inl ⟨e, h⟩⟩

theorem Advances.trans {t₁ t₂ t₃ : OperationTable} (h : Advances t₁ t₂) (h' : Advances t₂ t₃) :
    Advances t₁ t₃ := by
  refine ⟨fun id hid => h'.spent id (h.spent id hid), fun id e he => ?_⟩
  rcases h.retires id e he with ⟨e', he'⟩ | hs
  · exact h'.retires id e' he'
  · exact .inr (h'.spent id hs)

/-- Rewriting an occupied slot. -/
theorem advances_set (he : t.locate id = .ok e) {x : Entry} (hw : t'.world = t.world)
    (hg : t'.generations = t.generations) (hf : t'.free = t.free)
    (hs : t'.slots = t.slots.set id.slot (some x)) : Advances t t' := by
  refine ⟨fun i hi => ?_, fun i y hy => .inl ?_⟩
  · obtain ⟨hiw, hlt, hcase⟩ := hi
    refine ⟨hiw.trans hw.symm, by simpa [hs] using hlt, ?_⟩
    unfold generationAt at hcase ⊢
    rw [hg, hf]
    refine hcase.imp_right fun ⟨hge, hnone, hfree⟩ => ⟨hge, ?_, hfree⟩
    have hne : id.slot ≠ i.slot := by
      intro hslot
      rw [← hslot, locate_getElem? he] at hnone
      simp at hnone
    rw [hs, List.getElem?_set_ne hne, hnone]
  · have := locate_of_set he hw hg hs i
    by_cases hi : i = id
    · exact ⟨x, (this x).mpr (by simp [hi])⟩
    · exact ⟨y, (this y).mpr (by simpa [hi] using hy)⟩

theorem retireGeneration_generationAt (s i : ℕ) (hs : s < t.generations.length) :
    (t.retireGeneration s).generationAt i =
      if i = s ∧ t.generationAt s < u64Max then t.generationAt s + 1 else t.generationAt i := by
  unfold retireGeneration
  by_cases hmax : t.generationAt s < u64Max
  · rw [if_pos hmax]
    by_cases hi : i = s
    · subst hi
      rw [if_pos ⟨rfl, hmax⟩]
      simp [generationAt, hs]
    · rw [if_neg fun h => hi h.1]
      simp [generationAt, List.getElem?_set_ne (Ne.symm hi)]
  · rw [if_neg hmax, if_neg fun h => hmax h.2]

theorem mem_retireGeneration_free (s i : ℕ) :
    i ∈ (t.retireGeneration s).free ↔ i ∈ t.free ∨ i = s ∧ t.generationAt s < u64Max := by
  unfold retireGeneration
  split_ifs with hmax
  · simp [hmax, or_comm]
  · simp [hmax]

/-- Emptying an occupied slot and moving on its generation. -/
theorem advances_clear (hcol : t.Columns) (he : t.locate id = .ok e) (hw : t'.world = t.world)
    (hg : t'.generations = t.generations) (hf : t'.free = t.free)
    (hs : t'.slots = t.slots.set id.slot none) :
    Advances t (t'.retireGeneration id.slot) := by
  have hlt := locate_slot_lt he
  have hltg : id.slot < t'.generations.length := by rwa [hg, hcol.generations_length]
  have hfree := hcol.not_free he
  obtain ⟨hiw, hig, -⟩ := locate_ok_iff.mp he
  have hgens : ∀ s, t'.generationAt s = t.generationAt s := fun s => by
    rw [generationAt, generationAt, hg]
  have hgen := fun s => retireGeneration_generationAt (t := t') id.slot s hltg
  have hfrees := fun s => mem_retireGeneration_free (t := t') id.slot s
  simp only [hgens, hf] at hgen hfrees
  have hslots : (t'.retireGeneration id.slot).slots = t.slots.set id.slot none := by
    rw [retireGeneration_slots, hs]
  have hworld : (t'.retireGeneration id.slot).world = t.world := by
    rw [(retireGeneration_frame t' id.slot).1, hw]
  refine ⟨fun i hi => ?_, fun i y hy => ?_⟩
  · obtain ⟨hiw', hlt', hcase⟩ := hi
    refine ⟨hiw'.trans hworld.symm, by simpa [hslots] using hlt', ?_⟩
    rw [hgen]
    rcases hcase with hlt'' | ⟨hge, hnone, hnf⟩
    · left
      split_ifs with hmax
      · rw [← hmax.1]
        omega
      · exact hlt''
    · have hne : i.slot ≠ id.slot := by
        intro hsl
        rw [hsl, locate_getElem? he] at hnone
        simp at hnone
      right
      refine ⟨by simpa [hne] using hge, ?_, fun hmem => ?_⟩
      · rw [hslots, List.getElem?_set_ne (Ne.symm hne), hnone]
      · exact ((hfrees _).mp hmem).elim hnf fun h => hne h.1
  · by_cases hi : i = id
    · subst hi
      right
      refine ⟨hiw.trans hworld.symm, by simpa [hslots] using hlt, ?_⟩
      rw [hgen, hig]
      by_cases hmax : i.generation < u64Max
      · left
        simp [hmax]
      · right
        refine ⟨by simp [hmax], by simp [hslots, hlt], fun hmem => ?_⟩
        exact ((hfrees _).mp hmem).elim hfree fun h => hmax (hig ▸ h.2)
    · left
      refine ⟨y, ?_⟩
      have hempty : t'.slots[id.slot]? = some none := by simp [hs, hlt]
      rw [retireGeneration_locate hempty, locate_of_clear he hw (fun s _ => hgens s) hs]
      exact ⟨hi, hy⟩

theorem Edit.advances (h : Edit t t') : Advances t t' := by
  cases h with
  | keep hw hg hf hs =>
    refine ⟨fun i hi => ?_, fun i y hy => .inl ⟨y, ?_⟩⟩
    · unfold Spent generationAt at *
      rwa [hw, hg, hf, hs]
    · unfold locate generationAt at *
      rwa [hw, hg, hs]
  | set x he hw hg hf hs => exact advances_set he hw hg hf hs
  | clear hcol he hw hg hf hs => exact advances_clear hcol he hw hg hf hs

theorem Edits.advances (h : Edits t t') : Advances t t' := by
  induction h with
  | refl => exact .refl t
  | tail _ hedit ih => exact ih.trans hedit.advances

/-! ## The calls -/

theorem edits_complete : Edits t (t.complete id o).2 := by
  by_cases hf : t.foreign o
  · rw [complete_foreign hf]
  · by_cases hp : t.isPending id
    · obtain ⟨p, hp⟩ := isPending_iff.mp hp
      rw [complete_pending (by simpa using hf) hp]
      exact .single (.set _ hp rfl rfl rfl rfl)
    · rw [(complete_not_pending (by simpa using hp)).2]

theorem edits_take (hcol : t.Columns) : Edits t (t.take id).2 := by
  rcases hl : t.locate id with e | (p | x)
  · rw [take_missing (by simp [hl])]
  · rw [take_pending hl]
  · obtain ⟨owner, -, heq⟩ := take_terminal hcol hl
    rw [heq]
    exact .single (.clear hcol hl rfl rfl rfl rfl)

theorem edits_transitionIds (ids : List OperationId) :
    Edits t (t.transitionIds ids o).2 := by
  induction ids generalizing t with
  | nil => exact .refl
  | cons id ids ih => exact edits_complete.trans ih

theorem edits_retireIds (h : t.Indexed fun _ => True) (ids : List OperationId) :
    Edits t (t.retireIds ids).2 := by
  induction ids generalizing t with
  | nil => exact .refl
  | cons id ids ih =>
    have h1 : (t.complete id .ownerStopped).2.Indexed fun _ => True := h.complete id _
    exact (edits_complete.trans (edits_take h1.columns)).trans (ih h1.take)

/-- A spent identity stays spent when an empty slot other than its own is filled. -/
theorem spent_takeSlot (hcol : t.Columns) {i : OperationId} (hi : t.Spent i) (x : Option Entry)
    (hw : t'.world = t.world) (hg : t'.generations = t.takeSlot.2.generations)
    (hf : t'.free = t.takeSlot.2.free) (hs : t'.slots = t.takeSlot.2.slots.set t.takeSlot.1 x) :
    t'.Spent i := by
  obtain ⟨hiw, hlt, hcase⟩ := hi
  have hltg : i.slot < t.generations.length := by rwa [hcol.generations_length]
  unfold Spent generationAt at *
  rw [hw, hg, hf, hs]
  unfold takeSlot
  cases hfree : t.free with
  | cons s free =>
    refine ⟨hiw, by simpa using hlt, hcase.imp_right fun ⟨hge, hnone, hnf⟩ => ?_⟩
    rw [hfree, List.mem_cons, not_or] at hnf
    refine ⟨hge, ?_, hnf.2⟩
    rw [List.getElem?_set_ne (Ne.symm hnf.1), hnone]
  | nil =>
    simp only [List.getElem?_append_left hltg, List.length_set, List.length_append]
    refine ⟨hiw, by omega, hcase.imp_right fun ⟨hge, hnone, hnf⟩ => ⟨hge, ?_, by simp⟩⟩
    rw [List.getElem?_set_ne hlt.ne', List.getElem?_append_left hlt, hnone]

theorem advances_reserve (h : t.Indexed fun _ => True) (owner target : ActorRef)
    (deadline : Instant) : Advances t (t.reserve owner target deadline).2 := by
  by_cases hok : (owner.world = t.world ∧ target.world = t.world) ∧ t.live < t.max ∧
      (t.free ≠ [] ∨ t.slots.length < t.max)
  · obtain ⟨hw, hlive, hroom⟩ := hok
    obtain ⟨id, -, -, -, -, -, -, hloc, -⟩ := reserve_ok h deadline hw hroom hlive
    refine ⟨fun i hi => ?_, fun i e he => .inl ?_⟩
    · rw [reserve_eq hw hroom hlive]
      exact spent_takeSlot h.columns hi _ (takeSlot_frame t).1 (by rfl) (by rfl) (by rfl)
    · rcases eq_or_ne i id with rfl | hi
      · exact ⟨.pending ⟨owner, target, deadline, none⟩, (hloc i _).mpr (by simp)⟩
      · exact ⟨e, (hloc i e).mpr (by simpa [hi] using he)⟩
  · rw [reserve_error deadline hok]
    exact .refl t

theorem edits_setContext (context : HeldPayload) : Edits t (t.setContext id context).2 := by
  unfold setContext
  split_ifs
  · exact .refl
  · rcases hl : t.locate id with e | (p | x)
    · exact .refl
    · dsimp only
      split_ifs
      · exact .refl
      · exact .single (.set _ hl rfl rfl rfl rfl)
    · exact .refl

theorem edits_release (hcol : t.Columns) : Edits t (t.releaseUnsubmitted id).2 := by
  by_cases hp : t.isPending id
  · obtain ⟨p, hp⟩ := isPending_iff.mp hp
    rw [releaseUnsubmitted_pending hp]
    exact .single (.clear hcol hp rfl rfl rfl rfl)
  · have hsame : (t.releaseUnsubmitted id).2 = t := by
      unfold releaseUnsubmitted isPending at *
      rcases hl : t.locate id with e | (p | x) <;> simp_all
    rw [hsame]

theorem edits_expireOne (now : Instant) : Edits t (t.expireOne id now).2 := by
  unfold expireOne
  rcases t.locate id with e | (p | x)
  · exact .refl
  · dsimp only
    split_ifs
    · exact edits_complete
    · exact .refl
  · exact .refl

theorem edits_expireIds (now : Instant) : Edits t (t.expireIds now).2 := by
  have hpop : Edits t { t with deadlines := t.deadlines.filter fun key => ¬key.1 ≤ now } :=
    .single (.keep rfl rfl rfl rfl)
  exact hpop.trans (edits_transitionIds _)

theorem call_edits (h : t.Indexed fun _ => True) {c : TableCall}
    (hc : ∀ owner target deadline, c ≠ .reserve owner target deadline) : Edits t (t.call c).2 := by
  cases c with
  | reserve owner target deadline => exact absurd rfl (hc owner target deadline)
  | setContext id context => exact edits_setContext context
  | complete id outcome => exact edits_complete
  | take id => exact edits_take h.columns
  | releaseUnsubmitted id => exact edits_release h.columns
  | expire now => exact edits_expireIds now
  | expireIds now => exact edits_expireIds now
  | expireOne id now => exact edits_expireOne now
  | cancelOwner owner => exact edits_transitionIds _
  | stopTarget target => exact edits_transitionIds _
  | retireOwner owner => exact edits_retireIds h _

theorem call_advances (h : t.Indexed fun _ => True) (c : TableCall) :
    Advances t (t.call c).2 := by
  cases c with
  | reserve owner target deadline => exact advances_reserve h owner target deadline
  | _ => exact (call_edits h (by simp)).advances

end OperationTable

end Actorplane
