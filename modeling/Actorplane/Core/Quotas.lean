import Actorplane.Core.Progress

/-!
# Deadlines, snapshots and ticket quotas of publications

The derived columns of the publication table are what they would be if they were
recomputed from its entries and its living tickets.
-/

namespace Actorplane

/-- The number of routes that a publication has captured. -/
def Publication.captured (p : Publication) : ℕ := (p.routes.getD []).length

/-- Weight of a ticket in the quota of a source. -/
def TicketState.charge (source : ActorRef) (ticket : TicketState) : ℕ :=
  if ticket.source = source then 1 else 0

namespace PublicationTable

variable {t t' : PublicationTable} {id : ℕ} {p : Publication} {s source : ActorRef}

/-- The ticket quota is the number of living tickets, in total and for each source. -/
structure Counted (t : PublicationTable) : Prop where
  total : t.ticketTotal = t.tickets.total fun _ => 1
  counts : ∀ s, (t.ticketCounts.lookup s).getD 0 = t.tickets.total (TicketState.charge s)
  positive : ∀ s, t.ticketCounts.lookup s ≠ some 0
  total_le : t.ticketTotal ≤ t.limit
  counts_le : ∀ s, (t.ticketCounts.lookup s).getD 0 ≤ t.perSource

structure Budgeted (t : PublicationTable) : Prop where
  counted : t.Counted
  due : ∀ d id, (d, id) ∈ t.deadlines ↔
    ∃ p, t.entries.lookup id = some p ∧ p.stored.options.deadline = some d
  due_nodup : t.deadlines.Nodup
  snapshot : t.snapshotEntries = t.entries.total Publication.captured
  alive : ∀ id k, t.tickets.lookup id = some k → 0 < k.handles ∨ (t.entries.lookup id).isSome
  sourced : ∀ id p k, t.entries.lookup id = some p → t.tickets.lookup id = some k →
    k.source = p.source
  grouped : ∀ s, t.bySource.lookup s ≠ some []

theorem budgeted_new (limit perSource : ℕ) : (new limit perSource).Budgeted := by
  constructor
  · constructor <;> simp [new]
  all_goals simp [new]

/-! ## Quotas -/

/-- The columns of the quota, with the owners of the tickets. -/
structure SameQuota (t t' : PublicationTable) : Prop where
  total : t'.ticketTotal = t.ticketTotal
  counts : t'.ticketCounts = t.ticketCounts
  limit : t'.limit = t.limit
  perSource : t'.perSource = t.perSource
  charges : ∀ g : TicketState → ℕ, (∀ k k' : TicketState, k'.source = k.source → g k' = g k) →
    t'.tickets.total g = t.tickets.total g

theorem SameQuota.refl (t : PublicationTable) : t.SameQuota t :=
  ⟨rfl, rfl, rfl, rfl, fun _ _ => rfl⟩

theorem SameQuota.trans {t'' : PublicationTable} (h : t.SameQuota t') (h' : t'.SameQuota t'') :
    t.SameQuota t'' :=
  ⟨h'.total.trans h.total, h'.counts.trans h.counts, h'.limit.trans h.limit,
    h'.perSource.trans h.perSource, fun g hg => (h'.charges g hg).trans (h.charges g hg)⟩

theorem SameQuota.counted (h : t.SameQuota t') (hc : t.Counted) : t'.Counted where
  total := by rw [h.total, hc.total, h.charges _ fun _ _ _ => rfl]
  counts s := by
    rw [h.counts, hc.counts, h.charges]
    intro k k' hk
    simp only [TicketState.charge, hk]
  positive s := by
    rw [h.counts]
    exact hc.positive s
  total_le := by
    rw [h.total, h.limit]
    exact hc.total_le
  counts_le s := by
    rw [h.counts, h.perSource]
    exact hc.counts_le s

/-- A ticket is replaced by one of the same source. -/
theorem sameQuota_replace {k : TicketState} (k' : TicketState) (hk : t.tickets.lookup id = some k)
    (hs : k'.source = k.source) :
    t.SameQuota { t with tickets := AList.insert id k' t.tickets } := by
  refine ⟨rfl, rfl, rfl, rfl, fun g hg => ?_⟩
  have := Assoc.total_replace g k' hk
  rw [hg k k' hs] at this
  show Assoc.total g (AList.insert id k' t.tickets) = _
  omega

theorem setStatus_quota (t : PublicationTable) (id : ℕ) (status : PublicationStatus) :
    t.SameQuota (t.setStatus id status) := by
  unfold setStatus
  split
  · exact .refl t
  · rename_i k hk
    exact sameQuota_replace { k with status } hk rfl

theorem readySource_quota (t : PublicationTable) (source : ActorRef) :
    t.SameQuota (t.readySource source) := by
  unfold readySource
  split_ifs
  · exact ⟨rfl, rfl, rfl, rfl, fun _ _ => rfl⟩
  · exact .refl t

theorem removeIndexes_quota (t : PublicationTable) (p : Publication) :
    t.SameQuota (t.removeIndexes p) := by
  refine .trans ?_ (readySource_quota _ _)
  have hdrop : t.SameQuota ((t.dropDeadline p).dropSnapshot p) := by
    unfold dropDeadline dropSnapshot
    split <;> split <;> exact ⟨rfl, rfl, rfl, rfl, fun _ _ => rfl⟩
  apply hdrop.trans
  apply SameQuota.trans (show SameQuota _ (((t.dropDeadline p).dropSnapshot p).dropQueued
    p.source p.ticket) from ?_) ?_
  · unfold dropQueued
    split
    · exact .refl _
    · dsimp only
      split_ifs <;> exact ⟨rfl, rfl, rfl, rfl, fun _ _ => rfl⟩
  · unfold unready
    split_ifs
    · exact ⟨rfl, rfl, rfl, rfl, fun _ _ => rfl⟩
    · exact .refl _

theorem Counted.releasePermit (h : t.Counted) (id : ℕ) : (t.releasePermit id).Counted := by
  unfold PublicationTable.releasePermit
  split
  · exact h
  · rename_i k hk
    have htotal := Assoc.total_erase (fun _ : TicketState => 1) hk
    have hcharge := fun s => Assoc.total_erase (TicketState.charge s) hk
    have hsource := h.counts k.source
    have hpos := Assoc.le_total (TicketState.charge k.source) hk
    have hone : k.charge k.source = 1 := if_pos rfl
    -- the permit of a living ticket is counted, so nothing underflows
    have hlookup : ∀ s, ((if (t.ticketCounts.lookup k.source).getD 0 - 1 = 0 then
        t.ticketCounts.erase k.source
      else AList.insert k.source ((t.ticketCounts.lookup k.source).getD 0 - 1)
        t.ticketCounts).lookup s).getD 0 =
          if s = k.source then (t.ticketCounts.lookup k.source).getD 0 - 1
          else (t.ticketCounts.lookup s).getD 0 := by
      intro s
      split_ifs with hz hs hs
      · simp [hs, hz]
      · simp [hs]
      · simp [hs]
      · simp [hs]
    refine ⟨?_, fun s => ?_, fun s => ?_, ?_, fun s => ?_⟩
    · show t.ticketTotal - 1 = _
      rw [h.total]
      show _ = Assoc.total _ (t.tickets.erase id)
      omega
    · refine (hlookup s).trans ?_
      show _ = Assoc.total _ (t.tickets.erase id)
      have := hcharge s
      split_ifs with hs
      · subst hs
        omega
      · rw [h.counts s]
        have hzero : k.charge s = 0 := if_neg (Ne.symm hs)
        omega
    · dsimp only
      split_ifs with hz
      · rw [Assoc.lookup_erase_ite]
        split_ifs
        · simp
        · exact h.positive s
      · rw [Assoc.lookup_insert_ite]
        split_ifs
        · simpa using hz
        · exact h.positive s
    · exact (Nat.sub_le _ 1).trans h.total_le
    · refine (hlookup s).trans_le ?_
      split_ifs with hs
      · exact (Nat.sub_le _ 1).trans (h.counts_le _)
      · exact h.counts_le s

theorem Counted.settle (h : t.Counted) (id : ℕ) : (t.settle id).Counted := by
  unfold PublicationTable.settle
  split
  · exact h.releasePermit id
  · exact h

theorem Counted.reserve (h : t.Counted) (hs : t.Sound) (source : ActorRef) (staged : Bool) :
    (t.reserve source staged).2.Counted := by
  unfold PublicationTable.reserve
  by_cases h1 : u64Max ≤ t.nextId
  · rw [if_pos h1]
    exact h
  by_cases h2 : t.limit ≤ t.ticketTotal ∨ t.perSource ≤ (t.ticketCounts.lookup source).getD 0
  · rw [if_neg h1, if_pos h2]
    exact h
  rw [if_neg h1, if_neg h2]
  obtain ⟨hlim, hper⟩ := not_or.mp h2
  have hnew : t.tickets.lookup t.nextId = none := by
    by_contra hne
    obtain ⟨k, hk⟩ := Option.ne_none_iff_exists'.mp hne
    exact absurd (hs.known t.nextId k.status (by simp [statusOf, hk])) (lt_irrefl _)
  refine ⟨?_, fun s => ?_, fun s => ?_, ?_, fun s => ?_⟩
  · show t.ticketTotal + 1 = Assoc.total _ _
    rw [Assoc.total_fresh _ _ hnew, h.total]
  · show ((AList.insert source _ t.ticketCounts).lookup s).getD 0 = Assoc.total _ _
    rw [Assoc.total_fresh _ _ hnew, Assoc.lookup_insert_ite]
    by_cases hss : s = source
    · simp [hss, h.counts, TicketState.charge]
    · simp [hss, h.counts, TicketState.charge, Ne.symm hss]
  · simp only [Assoc.lookup_insert_ite]
    split_ifs
    · simp
    · exact h.positive s
  · show t.ticketTotal + 1 ≤ t.limit
    omega
  · simp only [Assoc.lookup_insert_ite]
    split_ifs
    · simp only [Option.getD_some]
      omega
    · exact h.counts_le s

/-! ## Entries -/

/-- Entries keep their source and payload, and living tickets their handles. -/
theorem Budgeted.relabel (h : t.Budgeted) (hcounted : t'.Counted)
    (hdue : t'.deadlines = t.deadlines) (hqueues : t'.bySource = t.bySource)
    (hsnap : t'.snapshotEntries = t'.entries.total Publication.captured)
    (hentries : ∀ i, Option.Rel (fun p p' : Publication => p'.source = p.source ∧
      p'.stored = p.stored) (t.entries.lookup i) (t'.entries.lookup i))
    (htickets : ∀ i k', t'.tickets.lookup i = some k' →
      ∃ k, t.tickets.lookup i = some k ∧ k'.source = k.source ∧ k'.handles = k.handles) :
    t'.Budgeted where
  counted := hcounted
  due d id := by
    rw [hdue, h.due]
    have hrel := hentries id
    constructor
    · rintro ⟨p, hp, hd⟩
      rw [hp] at hrel
      generalize t'.entries.lookup id = y at hrel
      cases hrel with
      | some hr => exact ⟨_, rfl, hr.2 ▸ hd⟩
    · rintro ⟨p', hp', hd⟩
      rw [hp'] at hrel
      generalize t.entries.lookup id = y at hrel
      cases hrel with
      | some hr => exact ⟨_, rfl, hr.2 ▸ hd⟩
  due_nodup := hdue ▸ h.due_nodup
  snapshot := hsnap
  alive id k' hk' := by
    obtain ⟨k, hk, -, hh⟩ := htickets id k' hk'
    rcases h.alive id k hk with hpos | hpend
    · exact .inl (hh ▸ hpos)
    · have hrel := hentries id
      obtain ⟨p, hp⟩ := Option.isSome_iff_exists.mp hpend
      rw [hp] at hrel
      generalize t'.entries.lookup id = y at hrel
      cases hrel with
      | some => exact .inr rfl
  sourced id p' k' hp' hk' := by
    obtain ⟨k, hk, hs, -⟩ := htickets id k' hk'
    have hrel := hentries id
    rw [hp'] at hrel
    generalize hy : t.entries.lookup id = y at hrel
    cases hrel with
    | some hr => rw [hs, hr.1, h.sourced id _ k hy hk]
  grouped s := by
    rw [hqueues]
    exact h.grouped s

theorem sameEntries_refl (t : PublicationTable) (i : ℕ) :
    Option.Rel (fun p p' : Publication => p'.source = p.source ∧ p'.stored = p.stored)
      (t.entries.lookup i) (t.entries.lookup i) := by
  rcases t.entries.lookup i with - | p
  · exact .none
  · exact .some ⟨rfl, rfl⟩

theorem sameEntries_insert {q : Publication} (hp : t.entries.lookup id = some p)
    (hq : q.source = p.source ∧ q.stored = p.stored) (i : ℕ) :
    Option.Rel (fun p p' : Publication => p'.source = p.source ∧ p'.stored = p.stored)
      (t.entries.lookup i) ((AList.insert id q t.entries).lookup i) := by
  rw [Assoc.lookup_insert_ite]
  split_ifs with hi
  · subst hi
    rw [hp]
    exact .some hq
  · exact sameEntries_refl t i

theorem setStatus_tickets (t : PublicationTable) (id : ℕ) (status : PublicationStatus) (i : ℕ)
    (k' : TicketState) (hk' : (t.setStatus id status).tickets.lookup i = some k') :
    ∃ k, t.tickets.lookup i = some k ∧ k'.source = k.source ∧ k'.handles = k.handles := by
  unfold setStatus at hk'
  split at hk'
  · exact ⟨k', hk', rfl, rfl⟩
  · rename_i k hk
    simp only [Assoc.lookup_insert_ite] at hk'
    split_ifs at hk' with hi
    · cases hk'
      exact ⟨k, hi ▸ hk, rfl, rfl⟩
    · exact ⟨k', hk', rfl, rfl⟩

theorem setStatus_columns (t : PublicationTable) (id : ℕ) (status : PublicationStatus) :
    (t.setStatus id status).deadlines = t.deadlines ∧
      (t.setStatus id status).snapshotEntries = t.snapshotEntries := by
  unfold setStatus
  split <;> exact ⟨rfl, rfl⟩

theorem readySource_columns (t : PublicationTable) (source : ActorRef) :
    (t.readySource source).deadlines = t.deadlines ∧
      (t.readySource source).snapshotEntries = t.snapshotEntries := by
  unfold readySource
  split_ifs <;> exact ⟨rfl, rfl⟩

theorem settle_columns (t : PublicationTable) (id : ℕ) :
    (t.settle id).deadlines = t.deadlines ∧
      (t.settle id).snapshotEntries = t.snapshotEntries ∧
      ∀ i k, (t.settle id).tickets.lookup i = some k →
        t.tickets.lookup i = some k ∧ (i = id → 0 < k.handles) := by
  unfold settle
  split
  · rename_i source status hk
    unfold releasePermit
    rw [hk]
    refine ⟨rfl, rfl, fun i k hi => ?_⟩
    simp only [Assoc.lookup_erase_ite] at hi
    split_ifs at hi with hid
    exact ⟨hi, fun he => absurd he hid⟩
  · rename_i hk
    refine ⟨rfl, rfl, fun i k hi => ⟨hi, fun hid => ?_⟩⟩
    subst hid
    obtain ⟨source, status, handles⟩ := k
    refine Nat.pos_of_ne_zero fun hz => hk source status ?_
    rw [hi]
    simp_all

theorem removeIndexes_columns (t : PublicationTable) (p : Publication) :
    (t.removeIndexes p).deadlines = (t.dropDeadline p).deadlines ∧
      (t.removeIndexes p).snapshotEntries = (t.dropSnapshot p).snapshotEntries ∧
      ∀ s, (t.removeIndexes p).bySource.lookup s ≠ some [] ∨ t.bySource.lookup s = some [] := by
  have hready := readySource_columns
    ((((t.dropDeadline p).dropSnapshot p).dropQueued p.source p.ticket).unready p.source) p.source
  have hun : ∀ t : PublicationTable, (t.unready p.source).deadlines = t.deadlines ∧
      (t.unready p.source).snapshotEntries = t.snapshotEntries ∧
      (t.unready p.source).bySource = t.bySource := by
    intro t
    unfold unready
    split_ifs <;> exact ⟨rfl, rfl, rfl⟩
  have hqueue : ∀ t : PublicationTable, (t.dropQueued p.source p.ticket).deadlines = t.deadlines ∧
      (t.dropQueued p.source p.ticket).snapshotEntries = t.snapshotEntries ∧
      ∀ s, (t.dropQueued p.source p.ticket).bySource.lookup s ≠ some [] ∨
        t.bySource.lookup s = some [] := by
    intro t
    unfold dropQueued
    split
    · exact ⟨rfl, rfl, fun s => (eq_or_ne _ _).symm⟩
    · dsimp only
      split_ifs with he
      · refine ⟨rfl, rfl, fun s => ?_⟩
        simp only [Assoc.lookup_erase_ite]
        split_ifs
        · simp
        · exact (eq_or_ne _ _).symm
      · refine ⟨rfl, rfl, fun s => ?_⟩
        simp only [Assoc.lookup_insert_ite]
        split_ifs
        · exact .inl fun h => he (Option.some.inj h)
        · exact (eq_or_ne _ _).symm
  have hdrop : ((t.dropDeadline p).dropSnapshot p).deadlines = (t.dropDeadline p).deadlines ∧
      ((t.dropDeadline p).dropSnapshot p).snapshotEntries = (t.dropSnapshot p).snapshotEntries ∧
      ((t.dropDeadline p).dropSnapshot p).bySource = t.bySource := by
    unfold dropDeadline dropSnapshot
    split <;> split <;> exact ⟨rfl, rfl, rfl⟩
  obtain ⟨u1, u2, u3⟩ := hun (((t.dropDeadline p).dropSnapshot p).dropQueued p.source p.ticket)
  obtain ⟨q1, q2, q3⟩ := hqueue ((t.dropDeadline p).dropSnapshot p)
  obtain ⟨d1, d2, d3⟩ := hdrop
  refine ⟨hready.1.trans (u1.trans (q1.trans d1)), hready.2.trans (u2.trans (q2.trans d2)),
    fun s => ?_⟩
  have hb := (readySource_frame
    ((((t.dropDeadline p).dropSnapshot p).dropQueued p.source p.ticket).unready p.source)
    p.source).2.1
  have := q3 s
  rw [d3] at this
  unfold removeIndexes
  rw [hb, u3]
  exact this

theorem Budgeted.conclude (h : t.Budgeted) (hs : t.Sound) (hp : t.entries.lookup id = some p)
    (outcome : PublicationOutcome) : (t.conclude p outcome).Budgeted := by
  have hkey : p.ticket = id := (hs.key id p hp).1
  subst hkey
  obtain ⟨-, hent, -, -, -, -⟩ := hs.conclude hp outcome
  set t₀ : PublicationTable := { t with entries := t.entries.erase p.ticket } with ht₀
  set t₁ := t₀.removeIndexes p with ht₁
  set t₂ := t₁.setStatus p.ticket (.terminal (p.closing outcome)) with ht₂
  have hfinal : t.conclude p outcome = t₂.settle p.ticket := rfl
  obtain ⟨r1, r2, r3⟩ := removeIndexes_columns t₀ p
  obtain ⟨-, rt, -, -⟩ := removeIndexes_frame t₀ p
  obtain ⟨s1, s2⟩ := setStatus_columns t₁ p.ticket (.terminal (p.closing outcome))
  obtain ⟨-, sb, -⟩ := setStatus_frame t₁ p.ticket (.terminal (p.closing outcome))
  obtain ⟨e1, e2, e3⟩ := settle_columns t₂ p.ticket
  obtain ⟨-, eb, -⟩ := settle_frame t₂ p.ticket
  have hcounted : (t.conclude p outcome).Counted := by
    have h₀ : t.SameQuota t₀ := ⟨rfl, rfl, rfl, rfl, fun _ _ => rfl⟩
    have h₂ : t.SameQuota t₂ :=
      h₀.trans ((removeIndexes_quota t₀ p).trans (setStatus_quota t₁ _ _))
    exact (h₂.counted h.counted).settle p.ticket
  have htickets : ∀ i k', (t.conclude p outcome).tickets.lookup i = some k' →
      ∃ k, t.tickets.lookup i = some k ∧ k'.source = k.source ∧ k'.handles = k.handles ∧
        (i = p.ticket → 0 < k'.handles) := by
    intro i k' hk'
    obtain ⟨hk₂, hpos⟩ := e3 i k' hk'
    obtain ⟨k, hk, hks, hkh⟩ := setStatus_tickets t₁ _ _ i k' hk₂
    exact ⟨k, rt ▸ hk, hks, hkh, hpos⟩
  have hdue : (t.conclude p outcome).deadlines = (t₀.dropDeadline p).deadlines :=
    e1.trans (s1.trans r1)
  refine ⟨hcounted, fun d i => ?_, ?_, ?_, fun i k' hk' => ?_, fun i q k' hq hk' => ?_,
    fun s => ?_⟩
  · rw [hdue, hent]
    simp only [Assoc.lookup_erase_ite]
    unfold dropDeadline
    split
    · rename_i hd
      show (d, i) ∈ t.deadlines ↔ _
      rw [h.due]
      rcases eq_or_ne i p.ticket with rfl | hi
      · simp [hp, hd]
      · simp [hi]
    · rename_i d₀ hd
      show (d, i) ∈ t.deadlines.erase (d₀, p.ticket) ↔ _
      rw [h.due_nodup.mem_erase_iff, h.due]
      rcases eq_or_ne i p.ticket with rfl | hi
      · simp only [hp, Option.some.injEq, if_true, reduceCtorEq, false_and, exists_false,
          iff_false, not_and, not_exists]
        rintro hne q rfl hdq
        rw [hd] at hdq
        exact hne (by rw [Option.some.inj hdq])
      · simp [hi]
  · rw [hdue]
    unfold dropDeadline
    split
    · exact h.due_nodup
    · exact h.due_nodup.erase _
  · have hsnap : (t.conclude p outcome).snapshotEntries = (t₀.dropSnapshot p).snapshotEntries :=
      e2.trans (s2.trans r2)
    have htot := Assoc.total_erase Publication.captured hp
    rw [hsnap, hent]
    unfold dropSnapshot
    have hs := h.snapshot
    split
    · rename_i hr
      have : p.captured = 0 := by simp [Publication.captured, hr]
      show t.snapshotEntries = _
      omega
    · rename_i routes hr
      have : p.captured = routes.length := by simp [Publication.captured, hr]
      show t.snapshotEntries - routes.length = _
      omega
  · obtain ⟨k, hk, -, hkh, hpos⟩ := htickets i k' hk'
    by_cases hi : i = p.ticket
    · exact .inl (hpos hi)
    · rw [hent, Assoc.lookup_erase_ite, if_neg hi, hkh]
      exact h.alive i k hk
  · obtain ⟨k, hk, hks, -⟩ := htickets i k' hk'
    rw [hent, Assoc.lookup_erase_ite] at hq
    split_ifs at hq
    rw [hks]
    exact h.sourced i q k hq hk
  · have hb : (t.conclude p outcome).bySource = t₁.bySource := eb.trans sb
    rw [hb]
    exact (r3 s).resolve_right (h.grouped s)

theorem Budgeted.update (h : t.Budgeted) (hp : t.entries.lookup id = some p)
    (hkey : p.ticket = id) {q : Publication} (hq : q.source = p.source ∧ q.stored = p.stored)
    (ht : q.ticket = p.ticket) {n : ℕ}
    (hn : n + p.captured = t.snapshotEntries + q.captured) :
    ({ t.update q with snapshotEntries := n } : PublicationTable).Budgeted := by
  subst hkey
  have hquota : t.SameQuota { t.update q with snapshotEntries := n } :=
    ⟨rfl, rfl, rfl, rfl, fun _ _ => rfl⟩
  refine h.relabel (hquota.counted h.counted) rfl rfl ?_
    (fun i => ?_) fun i k hk => ⟨k, hk, rfl, rfl⟩
  · show n = Assoc.total _ (AList.insert q.ticket q t.entries)
    have := Assoc.total_replace Publication.captured q hp
    rw [ht]
    have hs := h.snapshot
    omega
  · show Option.Rel _ _ ((AList.insert q.ticket q t.entries).lookup i)
    rw [ht]
    exact sameEntries_insert hp hq i

theorem Budgeted.unstage (h : t.Budgeted) (id : ℕ) : (t.unstage id).Budgeted := by
  unfold PublicationTable.unstage
  split
  · exact h
  · rename_i p hp
    set t₀ : PublicationTable :=
      { t with entries := AList.insert id { p with staged := false } t.entries } with ht₀
    obtain ⟨s1, s2⟩ := setStatus_columns t₀ id .queued
    obtain ⟨se, sb, -⟩ := setStatus_frame t₀ id .queued
    obtain ⟨r1, r2⟩ := readySource_columns (t₀.setStatus id .queued) p.source
    obtain ⟨re, rb, rt, -⟩ := readySource_frame (t₀.setStatus id .queued) p.source
    have hquota : t.SameQuota t₀ := ⟨rfl, rfl, rfl, rfl, fun _ _ => rfl⟩
    refine h.relabel (SameQuota.counted
      (hquota.trans ((setStatus_quota t₀ id .queued).trans (readySource_quota _ p.source)))
      h.counted) (r1.trans s1) (rb.trans sb) ?_ (fun i => ?_) fun i k hk => ?_
    · rw [r2, s2, re, se]
      have := Assoc.total_replace Publication.captured { p with staged := false } hp
      have hsame : ({ p with staged := false } : Publication).captured = p.captured := rfl
      have hs := h.snapshot
      show t.snapshotEntries = Assoc.total _ (AList.insert id _ t.entries)
      omega
    · rw [re, se]
      exact sameEntries_insert hp (q := { p with staged := false }) ⟨rfl, rfl⟩ i
    · exact setStatus_tickets t₀ id .queued i k (rt ▸ hk)

theorem Budgeted.requeue (h : t.Budgeted) (p : Publication) : (t.requeue p).Budgeted := by
  set t₀ : PublicationTable :=
    { t with ready := t.ready.tail, readySet := t.readySet.erase p.source } with ht₀
  set status := PublicationStatus.routing p.report
  obtain ⟨s1, s2⟩ := setStatus_columns t₀ p.ticket status
  obtain ⟨se, sb, -⟩ := setStatus_frame t₀ p.ticket status
  obtain ⟨r1, r2⟩ := readySource_columns (t₀.setStatus p.ticket status) p.source
  obtain ⟨re, rb, rt, -⟩ := readySource_frame (t₀.setStatus p.ticket status) p.source
  have hquota : t.SameQuota t₀ := ⟨rfl, rfl, rfl, rfl, fun _ _ => rfl⟩
  have hent : (t.requeue p).entries = t.entries := re.trans se
  refine h.relabel (SameQuota.counted
    (hquota.trans ((setStatus_quota t₀ p.ticket status).trans (readySource_quota _ p.source)))
    h.counted) (r1.trans s1) (rb.trans sb) ?_ (fun i => ?_) fun i k hk => ?_
  · rw [hent]
    exact (r2.trans s2).trans h.snapshot
  · rw [hent]
    exact sameEntries_refl t i
  · exact setStatus_tickets t₀ p.ticket status i k (rt ▸ hk)

theorem Budgeted.reserve (h : t.Budgeted) (hs : t.Sound) (source : ActorRef) (staged : Bool) :
    (t.reserve source staged).2.Budgeted := by
  have hcounted := h.counted.reserve hs source staged
  have hnew : t.entries.lookup t.nextId = none := by
    by_contra hne
    obtain ⟨p, hp⟩ := Option.ne_none_iff_exists'.mp hne
    exact absurd (hs.key _ p hp).2 (lt_irrefl _)
  unfold PublicationTable.reserve at hcounted ⊢
  by_cases h1 : u64Max ≤ t.nextId
  · rw [if_pos h1]
    exact h
  by_cases h2 : t.limit ≤ t.ticketTotal ∨ t.perSource ≤ (t.ticketCounts.lookup source).getD 0
  · rw [if_neg h1, if_pos h2]
    exact h
  rw [if_neg h1, if_neg h2] at hcounted ⊢
  refine ⟨hcounted, h.due, h.due_nodup, h.snapshot, fun i k hk => ?_, fun i p k hp hk => ?_,
    h.grouped⟩
  · simp only [Assoc.lookup_insert_ite] at hk
    by_cases hi : i = t.nextId
    · rw [if_pos hi] at hk
      cases hk
      exact .inl Nat.one_pos
    · rw [if_neg hi] at hk
      exact h.alive i k hk
  · simp only [Assoc.lookup_insert_ite] at hk
    by_cases hi : i = t.nextId
    · have hp' : t.entries.lookup i = some p := hp
      rw [hi, hnew] at hp'
      cases hp'
    · rw [if_neg hi] at hk
      exact h.sourced i p k hp hk

theorem reserve_ticket (hok : (t.reserve source staged).1 = .ok id) :
    ∃ status, (t.reserve source staged).2.tickets.lookup id = some ⟨source, status, 1⟩ := by
  unfold reserve at hok ⊢
  by_cases h1 : u64Max ≤ t.nextId
  · simp [h1] at hok
  by_cases h2 : t.limit ≤ t.ticketTotal ∨ t.perSource ≤ (t.ticketCounts.lookup source).getD 0
  · simp [h1, h2] at hok
  rw [if_neg h1, if_neg h2] at hok ⊢
  cases hok
  exact ⟨_, AList.lookup_insert _⟩

theorem Budgeted.accept (h : t.Budgeted) (hs : t.Sound)
    (hok : (t.reserve p.source p.staged).1 = .ok p.ticket) (hroutes : p.routes = none) :
    ((t.reserve p.source p.staged).2.insert p).Budgeted := by
  have hres := h.reserve hs p.source p.staged
  obtain ⟨status, htick⟩ := reserve_ticket hok
  obtain ⟨hid, -, -, -, -, -⟩ := hs.accept hok
  have hent : (t.reserve p.source p.staged).2.entries = t.entries := by
    rcases reserve_frame t p.source p.staged with ⟨he, -⟩ | ⟨-, he, -⟩
    · rw [he]
    · exact he
  have hnew : (t.reserve p.source p.staged).2.entries.lookup p.ticket = none := by
    rw [hent]
    by_contra hne
    obtain ⟨q, hq⟩ := Option.ne_none_iff_exists'.mp hne
    have := (hs.key _ q hq).2
    omega
  generalize (t.reserve p.source p.staged).2 = t₀ at hres htick hnew
  -- the table before the source becomes ready
  have hbase : ∃ t₁ : PublicationTable, t₀.insert p = t₁.readySource p.source ∧
      t₀.SameQuota t₁ ∧ t₁.tickets = t₀.tickets ∧ t₁.snapshotEntries = t₀.snapshotEntries ∧
      t₁.entries = AList.insert p.ticket p t₀.entries ∧
      t₁.bySource = AList.insert p.source (t₀.queueOf p.source ++ [p.ticket]) t₀.bySource ∧
      t₁.deadlines = p.stored.options.deadline.elim t₀.deadlines
        fun d => (d, p.ticket) :: t₀.deadlines := by
    unfold PublicationTable.insert addDeadline
    rcases p.stored.options.deadline with - | d
    · exact ⟨_, rfl, ⟨rfl, rfl, rfl, rfl, fun _ _ => rfl⟩, rfl, rfl, rfl, rfl, rfl⟩
    · exact ⟨_, rfl, ⟨rfl, rfl, rfl, rfl, fun _ _ => rfl⟩, rfl, rfl, rfl, rfl, rfl⟩
  obtain ⟨t₁, hins, hquota, ht, hsnap, he, hb, hd⟩ := hbase
  obtain ⟨r1, r2⟩ := readySource_columns t₁ p.source
  obtain ⟨re, rb, rt, -⟩ := readySource_frame t₁ p.source
  rw [hins]
  refine ⟨(hquota.trans (readySource_quota t₁ p.source)).counted hres.counted, fun d i => ?_, ?_,
    ?_, fun i k hk => ?_, fun i q k hq hk => ?_, fun s => ?_⟩
  · rw [r1, hd, re, he, Assoc.lookup_insert_ite]
    have hno : ∀ d, (d, p.ticket) ∉ t₀.deadlines := fun d hm => by
      obtain ⟨q, hq, -⟩ := (hres.due d p.ticket).mp hm
      simp [hnew] at hq
    rcases eq_or_ne i p.ticket with rfl | hi
    · rcases hpd : p.stored.options.deadline with - | d₀
      · simp [hpd, hno]
      · simp [hpd, hno, eq_comm]
    · rcases p.stored.options.deadline with - | d₀
      · simp [hi, hres.due]
      · simp [hi, hres.due]
  · rw [r1, hd]
    rcases p.stored.options.deadline with - | d₀
    · exact hres.due_nodup
    · refine List.nodup_cons.mpr ⟨fun hm => ?_, hres.due_nodup⟩
      obtain ⟨q, hq, -⟩ := (hres.due d₀ p.ticket).mp hm
      simp [hnew] at hq
  · rw [r2, hsnap, re, he, Assoc.total_fresh _ _ hnew, hres.snapshot]
    simp [Publication.captured, hroutes]
  · rw [rt, ht] at hk
    rw [re, he, Assoc.lookup_insert_ite]
    split_ifs
    · exact .inr rfl
    · exact hres.alive i k hk
  · rw [rt, ht] at hk
    rw [re, he, Assoc.lookup_insert_ite] at hq
    split_ifs at hq with hi
    · cases hq
      rw [hi, htick] at hk
      cases hk
      rfl
    · exact hres.sourced i q k hq hk
  · rw [rb, hb, Assoc.lookup_insert_ite]
    split_ifs
    · simp
    · exact hres.grouped s

/-! ## Handles -/

/-- The handles of one ticket change, and it stays alive. -/
theorem Budgeted.rehandle (h : t.Budgeted) {k : TicketState} (hk : t.tickets.lookup id = some k)
    (n : ℕ) (hn : 0 < n ∨ (t.entries.lookup id).isSome) :
    ({ t with tickets := AList.insert id { k with handles := n } t.tickets } :
      PublicationTable).Budgeted := by
  refine ⟨(sameQuota_replace { k with handles := n } hk rfl).counted h.counted, h.due, h.due_nodup, h.snapshot,
    fun i k' hk' => ?_, fun i q k' hq hk' => ?_, h.grouped⟩
  · simp only [Assoc.lookup_insert_ite] at hk'
    split_ifs at hk' with hi
    · cases hk'
      exact hi ▸ hn
    · exact h.alive i k' hk'
  · simp only [Assoc.lookup_insert_ite] at hk'
    split_ifs at hk' with hi
    · cases hk'
      exact h.sourced i q k hq (hi ▸ hk)
    · exact h.sourced i q k' hq hk'

theorem Budgeted.cloneHandle (h : t.Budgeted) (id : ℕ) : (t.cloneHandle id).Budgeted := by
  unfold PublicationTable.cloneHandle
  split
  · rename_i source status handles hk
    exact h.rehandle hk (handles + 2) (.inl (Nat.succ_pos _))
  · exact h

theorem Budgeted.dropHandle (h : t.Budgeted) (id : ℕ) : (t.dropHandle id).Budgeted := by
  unfold PublicationTable.dropHandle
  split
  · rename_i source status handles hk
    dsimp only
    split_ifs with hlast
    · -- the last owner of a concluded ticket returns its permit
      set t₁ : PublicationTable :=
        { t with tickets := AList.insert id ⟨source, status, handles⟩ t.tickets } with ht₁
      have hk₁ : t₁.tickets.lookup id = some ⟨source, status, handles⟩ := AList.lookup_insert _
      have hcounted : (t₁.releasePermit id).Counted :=
        Counted.releasePermit ((sameQuota_replace ⟨source, status, handles⟩ hk rfl).counted h.counted) id
      unfold releasePermit at hcounted ⊢
      rw [hk₁] at hcounted ⊢
      refine ⟨hcounted, h.due, h.due_nodup, h.snapshot, fun i k' hk' => ?_,
        fun i q k' hq hk' => ?_, h.grouped⟩
      · simp only [ht₁, Assoc.lookup_erase_ite, Assoc.lookup_insert_ite] at hk'
        split_ifs at hk'
        exact h.alive i k' hk'
      · simp only [ht₁, Assoc.lookup_erase_ite, Assoc.lookup_insert_ite] at hk'
        split_ifs at hk'
        exact h.sourced i q k' hq hk'
    · refine h.rehandle hk handles ?_
      rcases Nat.eq_zero_or_pos handles with hz | hz
      · refine .inr ?_
        rw [Option.isSome_iff_ne_none]
        intro hn
        exact hlast ⟨hz, by simp [hn]⟩
      · exact .inl hz
  · exact h

end PublicationTable

/-! ## The table in a run -/

theorem PublicationTable.pending_eq (t : PublicationTable) :
    t.pending = t.entries.total fun _ => 1 := by
  simp [pending, Assoc.total, AList.keys, List.keys]

structure Core.Budgeted (c : Core) : Prop where
  table : c.publications.Budgeted
  ledger : c.ledger.publicationAdmitted = c.publications.pending +
    c.ledger.publicationCompleted + c.ledger.publicationCancelled +
    c.ledger.publicationExpired + c.ledger.publicationFailed

variable {world : ℕ} {c c' : Core} {m : Move}

/-- Moves that keep the number of pending publications. -/
theorem Core.Budgeted.keep (h : c.Budgeted) (ht : c'.publications.Budgeted)
    (hp : c'.publications.pending = c.publications.pending)
    (h1 : c'.ledger.publicationAdmitted = c.ledger.publicationAdmitted := by rfl)
    (h2 : c'.ledger.publicationCompleted = c.ledger.publicationCompleted := by rfl)
    (h3 : c'.ledger.publicationCancelled = c.ledger.publicationCancelled := by rfl)
    (h4 : c'.ledger.publicationExpired = c.ledger.publicationExpired := by rfl)
    (h5 : c'.ledger.publicationFailed = c.ledger.publicationFailed := by rfl) : c'.Budgeted :=
  ⟨ht, by rw [h1, h2, h3, h4, h5, hp, h.ledger]⟩

theorem Core.Budgeted.step (h : c.Budgeted) (hpub : c.Publishing) (hs : Step world c m c') :
    c'.Budgeted := by
  have hsound := hpub.sound
  have hreplace : ∀ (id : ℕ) (p q : Publication), c.publications.entries.lookup id = some p →
      Assoc.total (fun _ : Publication => 1) (AList.insert id q c.publications.entries) =
        c.publications.pending := by
    intro id p q hp
    have := Assoc.total_replace (fun _ => 1) q hp
    rw [PublicationTable.pending_eq]
    omega
  cases hs
  case conclude id outcome p hp _ =>
    obtain ⟨-, he, -⟩ := hsound.conclude hp outcome
    refine ⟨h.table.conclude hsound hp outcome, ?_⟩
    have hl := h.ledger
    have := Assoc.total_erase (fun _ : Publication => 1) hp
    simp only [PublicationTable.pending_eq, he] at hl ⊢
    cases outcome <;> simp only [Ledger.conclude] <;> omega
  case endOperation id outcome _ _ =>
    refine ⟨h.table, ?_⟩
    cases outcome <;> exact h.ledger
  case reserveTicket source staged =>
    refine h.keep (h.table.reserve hsound source staged) ?_
    rcases c.publications.reserve_frame source staged with ⟨he, -⟩ | ⟨-, he, -⟩
    · rw [he]
    · simp only [PublicationTable.pending, he]
  case cloneHandle id =>
    refine h.keep (h.table.cloneHandle id) ?_
    simp only [PublicationTable.pending, (c.publications.cloneHandle_frame id).1]
  case dropHandle id =>
    refine h.keep (h.table.dropHandle id) ?_
    simp only [PublicationTable.pending, (c.publications.dropHandle_frame id).1]
  case accept p n b s hok hr _ _ _ _ _ _ _ _ _ =>
    obtain ⟨htick, -, hlook, -, -⟩ := hsound.accept hok
    refine ⟨h.table.accept hsound hok hr, ?_⟩
    have hl := h.ledger
    have hent : ((c.publications.reserve p.source p.staged).2.insert p).pending =
        c.publications.pending + 1 := by
      have hnew : c.publications.entries.lookup p.ticket = none := by
        by_contra hne
        obtain ⟨q, hq⟩ := Option.ne_none_iff_exists'.mp hne
        have := (hsound.key _ q hq).2
        omega
      have hkeys : ((c.publications.reserve p.source p.staged).2.insert p).pending =
          (AList.insert p.ticket p c.publications.entries).keys.length :=
        Assoc.keys_length_congr fun i => by rw [hlook, Assoc.lookup_insert_ite]
      rw [hkeys, AList.keys, AList.entries_insert_of_notMem (AList.lookup_eq_none.mp hnew)]
      rfl
    show c.ledger.publicationAdmitted + 1 = ((c.publications.reserve p.source p.staged).2.insert
      p).pending + c.ledger.publicationCompleted + c.ledger.publicationCancelled +
        c.ledger.publicationExpired + c.ledger.publicationFailed
    rw [hent]
    omega
  case flush r id n b s rest _ _ _ _ =>
    refine h.keep (h.table.unstage id) (Assoc.keys_length_congr fun i => ?_)
    show (((c.publications.unstage id).entries).lookup i).isSome = _
    rw [(hsound.unstage id).2.1 i]
    split_ifs with hi
    · rw [hi, Option.isSome_map]
    · rfl
  case capture id routes p hp _ _ hnone hroutes =>
    refine h.keep (h.table.update (q := { p with
      routes := some routes
      report := { p.report with matched := routes.length } }) hp (hsound.key id p hp).1
      ⟨rfl, rfl⟩ rfl ?_) ?_
    · simp [Publication.captured, hnone]
    · rw [PublicationTable.pending_eq]
      exact hreplace p.ticket p _ (by rwa [(hsound.key id p hp).1])
  case attempt id route target p routes hp _ hroutes _ =>
    refine h.keep (h.table.update (q := p.attempted false) (n := c.publications.snapshotEntries) hp
      (hsound.key id p hp).1 ⟨rfl, rfl⟩ rfl rfl) ?_
    rw [PublicationTable.pending_eq]
    exact hreplace p.ticket p _ (by rwa [(hsound.key id p hp).1])
  case deliver id route target mail p routes b sub hp _ hroutes _ _ _ _ _ _ =>
    refine h.keep (h.table.update (q := p.attempted true) (n := c.publications.snapshotEntries) hp
      (hsound.key id p hp).1 ⟨rfl, rfl⟩ rfl rfl) ?_
    rw [PublicationTable.pending_eq]
    exact hreplace p.ticket p _ (by rwa [(hsound.key id p hp).1])
  case requeue id p ready hp _ hready =>
    refine h.keep (h.table.requeue p) ?_
    simp only [PublicationTable.pending, (hsound.requeue hp hready).2.1]
  all_goals exact ⟨h.table, h.ledger⟩

end Actorplane
