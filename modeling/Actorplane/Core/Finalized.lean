import Actorplane.Core.Invariant

/-!
# Finalization

A generation is finalized once, when its record becomes Stopped. From then on it
owns no operation, and its slot may pass to a later generation.
-/

namespace Actorplane

/-! ## Who owns an operation -/

namespace OperationMap

variable {m : OperationMap} {id i : OperationId} {r : OperationRecord}

theorem settle_owner {S : Set OperationId} {o : TerminalOutcome} (h : m.settle S o i = some r) :
    ∃ r', m i = some r' ∧ r'.owner = r.owner := by
  unfold settle at h
  split_ifs at h
  · obtain ⟨r', hr', rfl⟩ := Option.map_eq_some_iff.mp h
    exact ⟨r', hr', rfl⟩
  · exact ⟨r, h, rfl⟩

theorem forget_eq_some {S : Set OperationId} (h : m.forget S i = some r) : i ∉ S ∧ m i = some r := by
  unfold forget at h
  split_ifs at h with hi
  exact ⟨hi, h⟩

theorem hold_owner {e : Entry} (h : m.hold id e i = some r) :
    ∃ r', m i = some r' ∧ r'.owner = r.owner := by
  unfold hold at h
  split_ifs at h with hi
  · subst hi
    obtain ⟨r', hr', rfl⟩ := Option.map_eq_some_iff.mp h
    exact ⟨r', hr', rfl⟩
  · exact ⟨r, h, rfl⟩

/-- A call other than a reservation gives no operation to a new owner. -/
theorem after_owner {call : TableCall} {a : TableAnswer}
    (hc : ∀ owner target deadline, call ≠ .reserve owner target deadline)
    (h : m.after call a i = some r) : ∃ r', m i = some r' ∧ r'.owner = r.owner := by
  have hsame : m i = some r → ∃ r', m i = some r' ∧ r'.owner = r.owner := fun h => ⟨r, h, rfl⟩
  cases call with
  | reserve owner target deadline => exact absurd rfl (hc owner target deadline)
  | setContext id context =>
    rcases a with a | (e | u) | a | a | a | a
    case unit.ok =>
      rcases hm : m id with - | ⟨owner, p | o⟩
      · exact hsame (by simpa [after, hm] using h)
      · exact hold_owner (by simpa [after, hm] using h)
      · exact hsame (by simpa [after, hm] using h)
    all_goals exact hsame h
  | complete id outcome =>
    rcases a with a | a | (e | (_ | _)) | a | a | a
    case flag.ok.true => exact settle_owner h
    all_goals exact hsame h
  | take id =>
    rcases a with a | a | a | (e | (_ | o)) | a | a
    case outcome.ok.some => exact hsame (forget_eq_some h).2
    all_goals exact hsame h
  | releaseUnsubmitted id =>
    rcases a with a | a | (e | (_ | _)) | a | a | a
    case flag.ok.true => exact hsame (forget_eq_some h).2
    all_goals exact hsame h
  | expire now => exact settle_owner h
  | expireIds now => exact settle_owner h
  | expireOne id now =>
    rcases a with a | a | (e | (_ | _)) | a | a | a
    case flag.ok.true => exact settle_owner h
    all_goals exact hsame h
  | cancelOwner owner => exact settle_owner h
  | stopTarget target => exact settle_owner h
  | retireOwner owner => exact hsame (forget_eq_some h).2

end OperationMap

variable {world : ℕ} {c c' c'' : Core} {m : Move} {r : ActorRef} {n : Node}

/-- An actor that is not yet finalized. -/
def Alive (nodes : List Node) (r : ActorRef) : Prop := ∃ n, Seated nodes r n ∧ n.state ≠ .stopped

theorem Running.alive {nodes : List Node} (h : Running nodes r) : Alive nodes r := by
  obtain ⟨n, hn, hs⟩ := h
  exact ⟨n, hn, by rcases hs with hs | hs <;> simp [hs]⟩

theorem Core.Owned.stopped_back (ho : c.Owned world) (hs : Step world c m c')
    (hm : m ≠ .finalize r) (hn : Seated c'.nodes r n) (hst : n.state = .stopped) :
    ∃ k, Seated c.nodes r k ∧ k.state = .stopped := by
  have hset : ∀ (q : ActorRef) (k k' : Node), Seated c.nodes q k → k'.reference = k.reference →
      (k'.state = .stopped → k.state = .stopped) → Seated (c.nodes.set q.slot k') r n →
      ∃ k, Seated c.nodes r k ∧ k.state = .stopped := by
    intro q k k' hk href hkk hn
    rcases (seated_set k' hk.1 href).mp hn with ⟨-, rfl, hk⟩ | ⟨-, hn⟩
    · exact ⟨k, hk, hkk hst⟩
    · exact ⟨n, hn, hst⟩
  cases hs
  case stop q k b hk halive _ _ _ _ _ _ _ _ _ _ =>
    exact hset q k { k with state := .stopping } hk rfl (by simp) hn
  case finalize q k b hd hk _ _ _ _ _ _ =>
    rcases (seated_retire hk).mp hn with ⟨rfl, -⟩ | ⟨-, k₀, hk₀, rfl⟩
    · exact absurd rfl hm
    · rw [(atParent_frame k.parent (.disown q) (fun _ => ⟨rfl, rfl, rfl⟩) k₀).2.1] at hst
      exact ⟨k₀, hk₀, hst⟩
  case allocate q parent _ hf _ _ =>
    rcases (seated_alloc (hf.le ho)).mp hn with ⟨-, rfl⟩ | ⟨-, k₀, hk₀, rfl⟩
    · cases hst
    · rw [(atParent_frame parent (.adopt q) (fun _ => ⟨rfl, rfl, rfl⟩) k₀).2.1] at hst
      exact ⟨k₀, hk₀, hst⟩
  case activate q k hk _ _ => exact hset q k { k with state := .active } hk rfl (by simp) hn
  case lease q k _ _ hk _ _ _ _ _ _ =>
    exact hset q k { k with state := .active } hk rfl (by simp) hn
  case quiesce hq _ _ _ _ =>
    obtain ⟨k, hk, -, -, hs⟩ := hq.restated.symm.seated hn
    exact ⟨k, hk, hs.mpr hst⟩
  case setDeadline q k t hk _ => exact hset q k { k with drainDeadline := some t } hk rfl id hn
  all_goals exact ⟨n, hn, hst⟩

/-- Only its finalization ends an actor. -/
theorem Core.Owned.alive (ho : c.Owned world) (hs : Step world c m c') (h : Alive c.nodes r)
    (hm : m ≠ .finalize r) : Alive c'.nodes r := by
  obtain ⟨n, hn, hst⟩ := h
  obtain ⟨n', hn', hf⟩ := ho.forward hs _ _ hn.1
  rcases hf with ⟨href, -, -⟩ | hg
  · refine ⟨n', ⟨hn', href.trans hn.2⟩, fun hs' => ?_⟩
    obtain ⟨k, hk, hks⟩ := ho.stopped_back hs hm ⟨hn', href.trans hn.2⟩ hs'
    exact hst (hn.unique hk ▸ hks)
  · -- the slot passed to a later generation, so its actor was stopped
    by_cases hall : ∃ q, m = .allocate q
    · obtain ⟨q, rfl⟩ := hall
      cases hs
      case allocate parent _ _ _ _ =>
        have hfresh := ‹FreshSlot c.nodes c.free q›
        rw [allocNodes_get (hfresh.le ho)] at hn'
        split_ifs at hn' with hslot
        · exact absurd (hfresh.old_stopped ho (hslot ▸ hn.1)).1 hst
        · rw [hn.1] at hn'
          cases hn'
          rw [(atParent_frame parent (.adopt q) (fun _ => ⟨rfl, rfl, rfl⟩) n).1] at hg
          exact absurd hg (lt_irrefl _)
    · have href := hs.references (fun q hq => hall ⟨q, hq⟩) r.slot
      rw [hn', hn.1] at href
      have href : n'.reference = n.reference := Option.some.inj href
      rw [href] at hg
      exact absurd hg (lt_irrefl _)

/-! ## Finalized generations -/

structure Core.Finalized (c : Core) : Prop where
  past : ∀ r, Event.finalized r ∈ c.life → ∃ n, c.nodes[r.slot]? = some n ∧
    (r.generation < n.reference.generation ∨ n.reference = r ∧ n.state = .stopped)
  once : ∀ r, c.life.count (.finalized r) ≤ 1
  stopped : ∀ r n, Seated c.nodes r n → n.state = .stopped → Event.finalized r ∈ c.life
  owned : ∀ id record, c.operations.view id = some record → Alive c.nodes record.owner

theorem Step.life (hs : Step world c m c') (r : ActorRef) :
    (m = .finalize r ∧ c'.life = c.life ++ [.finalized r]) ∨
      m ≠ .finalize r ∧ ∃ l, c'.life = c.life ++ l ∧ Event.finalized r ∉ l := by
  cases hs
  case finalize q _ _ _ _ _ _ _ _ _ _ =>
    by_cases hq : q = r
    · subst hq
      exact .inl ⟨rfl, rfl⟩
    · exact .inr ⟨by simpa using hq, [.finalized q], rfl, by simpa using Ne.symm hq⟩
  case activate => exact .inr ⟨by simp, _, rfl, by simp⟩
  case lease => exact .inr ⟨by simp, _, rfl, by simp⟩
  case timeout => exact .inr ⟨by simp, _, rfl, by simp⟩
  all_goals exact .inr ⟨by simp, [], (List.append_nil _).symm, by simp⟩

theorem Core.Finalized.not_alive (h : c.Finalized) (hr : Event.finalized r ∈ c.life) :
    ¬Alive c.nodes r := by
  rintro ⟨n, hn, hst⟩
  obtain ⟨k, hk, hg | ⟨-, hks⟩⟩ := h.past r hr
  · rw [hn.1] at hk
    cases hk
    rw [hn.2] at hg
    exact lt_irrefl _ hg
  · rw [hn.1] at hk
    cases hk
    exact hst hks

/-- The operations of a core after a move have an owner that had one before, or is alive. -/
theorem Core.Operating.view_owner (h : c.Operating world) (hs : Step world c m c')
    {id : OperationId} {record : OperationRecord} (hr : c'.operations.view id = some record) :
    (∃ record', c.operations.view id = some record' ∧ record'.owner = record.owner ∧
      m ≠ .finalize record.owner) ∨ Alive c.nodes record.owner ∧ ∃ op, m = .reserve op := by
  have hcall : ∀ call : TableCall, (∀ o t d, call ≠ .reserve o t d) →
      c'.operations = (c.operations.call call).2 → (∀ q, m ≠ .finalize q) →
      ∃ record', c.operations.view id = some record' ∧ record'.owner = record.owner ∧
        m ≠ .finalize record.owner := by
    intro call hc heq hm
    rw [heq, (OperationTable.call_refines h.indexed call).view] at hr
    obtain ⟨r', hr', ho⟩ := OperationMap.after_owner hc hr
    exact ⟨r', hr', ho, hm _⟩
  cases hs
  case endOperation id' outcome _ _ =>
    exact .inl (hcall (.complete id' outcome) (by simp) rfl (by simp))
  case expireOperations now => exact .inl (hcall (.expireIds now) (by simp) rfl (by simp))
  case finalize r n b hd hn hst hb hfl hh hhd hc =>
    have hview := (OperationTable.call_refines h.indexed (.retireOwner r)).view
    have hr : (c.operations.call (.retireOwner r)).2.view id = some record := hr
    rw [hview] at hr
    obtain ⟨hno, hr⟩ := OperationMap.forget_eq_some hr
    refine .inl ⟨record, hr, rfl, fun he => hno ⟨record, hr, ?_⟩⟩
    cases he
    rfl
  case reserve op owner target deadline hro hrt hok =>
    have href := OperationTable.call_refines h.indexed (.reserve owner target deadline)
    have hans : (c.operations.call (.reserve owner target deadline)).1 = .id (.ok op) :=
      congrArg TableAnswer.id hok
    have hr : (c.operations.call (.reserve owner target deadline)).2.view id = some record := hr
    rw [href.view, hans] at hr
    simp only [OperationMap.after, OperationMap.start] at hr
    split_ifs at hr
    · cases hr
      exact .inr ⟨hro.alive, op, rfl⟩
    · exact .inl ⟨record, hr, rfl, by simp⟩
  case release op _ => exact .inl (hcall (.releaseUnsubmitted op) (by simp) rfl (by simp))
  case context op held => exact .inl (hcall (.setContext op held) (by simp) rfl (by simp))
  case take op => exact .inl (hcall (.take op) (by simp) rfl (by simp))
  all_goals exact .inl ⟨record, hr, rfl, by simp⟩

theorem Core.Finalized.step (h : c.Finalized) (hv : c.Valid world) (hs : Step world c m c') :
    c'.Finalized where
  past r hr := by
    rcases hs.life r with ⟨rfl, -⟩ | ⟨-, l, hl, hno⟩
    · cases hs
      case finalize n _ _ _ _ _ _ _ _ _ =>
        have hn' := (seated_retire ‹Seated c.nodes r n›).mpr (.inl ⟨rfl, rfl⟩)
        exact ⟨_, hn'.1, .inr ⟨hn'.2, rfl⟩⟩
    · rw [hl] at hr
      obtain ⟨n, hn, hcase⟩ := h.past r ((List.mem_append.mp hr).resolve_right hno)
      obtain ⟨n', hn', ⟨href, -, hrank⟩ | hg⟩ := hv.owned.forward hs _ _ hn
      · refine ⟨n', hn', hcase.imp (href ▸ id) fun ⟨hnr, hst⟩ => ⟨href.trans hnr, ?_⟩⟩
        revert hrank
        rw [hst]
        cases n'.state <;> simp [Lifecycle.rank]
      · refine ⟨n', hn', .inl ?_⟩
        rcases hcase with hlt | ⟨rfl, -⟩
        · exact hlt.trans hg
        · exact hg
  once r := by
    rcases hs.life r with ⟨rfl, hl⟩ | ⟨-, l, hl, hno⟩
    · have hnot : Event.finalized r ∉ c.life := by
        intro hr
        refine h.not_alive hr ?_
        cases hs
        case finalize n _ _ _ _ _ _ _ _ _ =>
          exact ⟨n, ‹Seated c.nodes r n›, by simp [‹n.state = .stopping›]⟩
      rw [hl, List.count_append, List.count_eq_zero.mpr hnot]
      simp
    · rw [hl, List.count_append, List.count_eq_zero.mpr hno]
      exact h.once r
  stopped r n hn hst := by
    rcases hs.life r with ⟨-, hl⟩ | ⟨hm, l, hl, -⟩
    · simp [hl]
    · obtain ⟨k, hk, hks⟩ := hv.owned.stopped_back hs hm hn hst
      simp [hl, h.stopped r k hk hks]
  owned id record hr := by
    rcases hv.operating.view_owner hs hr with ⟨r', hr', ho, hm⟩ | ⟨ha, op, rfl⟩
    · exact hv.owned.alive hs (ho ▸ h.owned id r' hr') hm
    · exact hv.owned.alive hs ha (by simp)

theorem Steps.finalized {P : Move → Prop} (hs : Steps world P c c') (hv : c.Valid world)
    (h : c.Finalized) : c'.Finalized :=
  (@Steps.invariant world P c c' (fun c => c.Valid world ∧ c.Finalized)
    (fun _ _ _ hc _ hst => ⟨hc.1.step hst, hc.2.step hc.1 hst⟩) hs ⟨hv, h⟩).2

/-- Along a run an actor stays alive until it is finalized. -/
theorem Steps.alive {P : Move → Prop} (hs : Steps world P c c') (hv : c.Valid world)
    (h : Alive c.nodes r) : Alive c'.nodes r ∨ Event.finalized r ∈ c'.life := by
  have key : c'.Valid world ∧ (Alive c'.nodes r ∨ Event.finalized r ∈ c'.life) := by
    refine hs.invariant (I := fun c => c.Valid world ∧ (Alive c.nodes r ∨ Event.finalized r ∈ c.life))
      (fun d m d' hd _ hst => ⟨hd.1.step hst, ?_⟩) ⟨hv, .inl h⟩
    rcases hst.life r with ⟨-, hl⟩ | ⟨hm, l, hl, -⟩
    · simp [hl]
    · refine hd.2.imp (fun ha => hd.1.owned.alive hst ha hm) fun hr => ?_
      simp [hl, hr]
  exact key.2

end Actorplane
