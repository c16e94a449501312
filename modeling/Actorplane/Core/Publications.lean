import Actorplane.Core.Moves

/-!
# The publication table

Queues list the pending publications of a source in ascending order, the ready
queue holds the sources whose oldest publication is routable, and every pending
publication has a ticket that is not terminal. Each operation of the table keeps
this, and its effect on entries, queues and tickets is stated once.
-/

namespace Actorplane

namespace PublicationTable

variable {t : PublicationTable} {id : ℕ} {p : Publication} {s source : ActorRef}

/-- The status a holder of the ticket reads. -/
def statusOf (t : PublicationTable) (id : ℕ) : Option PublicationStatus :=
  (t.tickets.lookup id).map (·.status)

structure Sound (t : PublicationTable) : Prop where
  key : ∀ id p, t.entries.lookup id = some p → p.ticket = id ∧ id < t.nextId
  queue : ∀ s id, id ∈ t.queueOf s ↔ ∃ p, t.entries.lookup id = some p ∧ p.source = s
  sorted : ∀ s, (t.queueOf s).Pairwise (· < ·)
  ready_mem : ∀ s, s ∈ t.ready ↔ t.routable s = true
  readySet_mem : ∀ s, s ∈ t.readySet ↔ t.routable s = true
  ready_nodup : t.ready.Nodup
  readySet_nodup : t.readySet.Nodup
  ticketed : ∀ id p, t.entries.lookup id = some p →
    ∃ status, t.statusOf id = some status ∧ ∀ report, status ≠ .terminal report
  known : ∀ id status, t.statusOf id = some status → id < t.nextId

theorem sound_new (limit perSource : ℕ) : (new limit perSource).Sound := by
  constructor <;> simp [new, queueOf, routable, statusOf]

/-! ## Frames -/

theorem routable_congr {t' : PublicationTable} (he : t'.entries = t.entries)
    (hb : t'.bySource = t.bySource) : t'.routable s = t.routable s := by
  simp only [routable, queueOf, he, hb]

theorem releasePermit_frame (t : PublicationTable) (id : ℕ) :
    (t.releasePermit id).entries = t.entries ∧ (t.releasePermit id).bySource = t.bySource ∧
      (t.releasePermit id).ready = t.ready ∧ (t.releasePermit id).readySet = t.readySet ∧
      (t.releasePermit id).nextId = t.nextId ∧
      ∀ i, (t.releasePermit id).statusOf i = if i = id then none else t.statusOf i := by
  unfold releasePermit
  split
  · rename_i hn
    refine ⟨rfl, rfl, rfl, rfl, rfl, fun i => ?_⟩
    by_cases hi : i = id
    · subst hi
      simp [statusOf, hn]
    · simp [hi]
  · refine ⟨rfl, rfl, rfl, rfl, rfl, fun i => ?_⟩
    simp only [statusOf, Assoc.lookup_erase_ite]
    split_ifs <;> rfl

theorem setStatus_frame (t : PublicationTable) (id : ℕ) (status : PublicationStatus) :
    (t.setStatus id status).entries = t.entries ∧
      (t.setStatus id status).bySource = t.bySource ∧ (t.setStatus id status).ready = t.ready ∧
      (t.setStatus id status).readySet = t.readySet ∧
      (t.setStatus id status).nextId = t.nextId ∧
      ∀ i, (t.setStatus id status).statusOf i =
        if i = id then (t.statusOf id).map fun _ => status else t.statusOf i := by
  unfold setStatus
  split
  · rename_i hn
    refine ⟨rfl, rfl, rfl, rfl, rfl, fun i => ?_⟩
    by_cases hi : i = id
    · subst hi
      simp [statusOf, hn]
    · simp [hi]
  · rename_i k hk
    refine ⟨rfl, rfl, rfl, rfl, rfl, fun i => ?_⟩
    by_cases hi : i = id
    · simp [statusOf, hi, hk]
    · simp [statusOf, hi]

/-- Settling may drop the ticket of an identity that is not pending. -/
theorem settle_frame (t : PublicationTable) (id : ℕ) :
    (t.settle id).entries = t.entries ∧ (t.settle id).bySource = t.bySource ∧
      (t.settle id).ready = t.ready ∧ (t.settle id).readySet = t.readySet ∧
      (t.settle id).nextId = t.nextId ∧
      ∀ i, (t.settle id).statusOf i = t.statusOf i ∨
        i = id ∧ (t.settle id).statusOf i = none := by
  unfold settle
  split
  · obtain ⟨h1, h2, h3, h4, h5, h6⟩ := releasePermit_frame t id
    refine ⟨h1, h2, h3, h4, h5, fun i => ?_⟩
    rw [h6]
    by_cases hi : i = id <;> simp [hi]
  · exact ⟨rfl, rfl, rfl, rfl, rfl, fun _ => .inl rfl⟩

theorem readySource_frame (t : PublicationTable) (source : ActorRef) :
    (t.readySource source).entries = t.entries ∧
      (t.readySource source).bySource = t.bySource ∧
      (t.readySource source).tickets = t.tickets ∧ (t.readySource source).nextId = t.nextId := by
  unfold readySource
  split_ifs <;> exact ⟨rfl, rfl, rfl, rfl⟩

/-- Exactness of the ready queue, apart from one source that may be missing from it. -/
structure ReadyBut (t : PublicationTable) (source : ActorRef) : Prop where
  ready : ∀ s, s ≠ source → (s ∈ t.ready ↔ t.routable s = true)
  readySet : ∀ s, s ≠ source → (s ∈ t.readySet ↔ t.routable s = true)
  same : source ∈ t.ready ↔ source ∈ t.readySet
  routable : source ∈ t.readySet → t.routable source = true
  ready_nodup : t.ready.Nodup
  readySet_nodup : t.readySet.Nodup

theorem ReadyBut.readySource (h : t.ReadyBut source) :
    (∀ s, s ∈ (t.readySource source).ready ↔ (t.readySource source).routable s = true) ∧
      (∀ s, s ∈ (t.readySource source).readySet ↔ (t.readySource source).routable s = true) ∧
      (t.readySource source).ready.Nodup ∧ (t.readySource source).readySet.Nodup := by
  obtain ⟨he, hb, -, -⟩ := readySource_frame t source
  have hr : ∀ s, (t.readySource source).routable s = t.routable s := fun s => routable_congr he hb
  simp only [hr]
  unfold PublicationTable.readySource
  split_ifs with hc
  · obtain ⟨hrt, hn⟩ := hc
    have hn' : source ∉ t.ready := fun hm => hn (h.same.mp hm)
    refine ⟨fun s => ?_, fun s => ?_, ?_, ?_⟩
    · by_cases hs : s = source
      · simp [hs, hrt]
      · simp [hs, h.ready s hs]
    · by_cases hs : s = source
      · simp [hs, hrt]
      · simp [hs, h.readySet s hs]
    · exact List.nodup_append.mpr ⟨h.ready_nodup, by simp, by
        rintro x hx _ hy rfl
        exact hn' (List.mem_singleton.mp hy ▸ hx)⟩
    · exact List.nodup_cons.mpr ⟨hn, h.readySet_nodup⟩
  · have hsource : source ∈ t.readySet ↔ t.routable source = true :=
      ⟨h.routable, fun hrt => by_contra fun hn => hc ⟨hrt, hn⟩⟩
    refine ⟨fun s => ?_, fun s => ?_, h.ready_nodup, h.readySet_nodup⟩
    · by_cases hs : s = source
      · rw [hs, h.same, hsource]
      · exact h.ready s hs
    · by_cases hs : s = source
      · rw [hs, hsource]
      · exact h.readySet s hs

theorem dropQueued_frame (t : PublicationTable) (source : ActorRef) (id : ℕ) :
    (t.dropQueued source id).entries = t.entries ∧ (t.dropQueued source id).ready = t.ready ∧
      (t.dropQueued source id).readySet = t.readySet ∧
      (t.dropQueued source id).tickets = t.tickets ∧ (t.dropQueued source id).nextId = t.nextId ∧
      ∀ s, (t.dropQueued source id).queueOf s =
        if s = source then (t.queueOf s).filter (· ≠ id) else t.queueOf s := by
  unfold dropQueued
  split
  · rename_i hn
    refine ⟨rfl, rfl, rfl, rfl, rfl, fun s => ?_⟩
    by_cases hs : s = source
    · subst hs
      simp [queueOf, hn]
    · simp [hs]
  · rename_i queue hq
    dsimp only
    split_ifs with he
    · refine ⟨rfl, rfl, rfl, rfl, rfl, fun s => ?_⟩
      by_cases hs : s = source
      · subst hs
        simpa [queueOf, hq] using he
      · simp [queueOf, hs]
    · refine ⟨rfl, rfl, rfl, rfl, rfl, fun s => ?_⟩
      by_cases hs : s = source
      · subst hs
        simp [queueOf, hq]
      · simp [queueOf, hs]

theorem removeIndexes_frame (t : PublicationTable) (p : Publication) :
    (t.removeIndexes p).entries = t.entries ∧ (t.removeIndexes p).tickets = t.tickets ∧
      (t.removeIndexes p).nextId = t.nextId ∧
      ∀ s, (t.removeIndexes p).queueOf s =
        if s = p.source then (t.queueOf s).filter (· ≠ p.ticket) else t.queueOf s := by
  have hdrop : ∀ t : PublicationTable, ((t.dropDeadline p).dropSnapshot p).entries = t.entries ∧
      ((t.dropDeadline p).dropSnapshot p).bySource = t.bySource ∧
      ((t.dropDeadline p).dropSnapshot p).tickets = t.tickets ∧
      ((t.dropDeadline p).dropSnapshot p).nextId = t.nextId := by
    intro t
    unfold dropDeadline dropSnapshot
    split <;> split <;> exact ⟨rfl, rfl, rfl, rfl⟩
  obtain ⟨d1, d2, d3, d4⟩ := hdrop t
  obtain ⟨q1, -, -, q4, q5, q6⟩ :=
    dropQueued_frame ((t.dropDeadline p).dropSnapshot p) p.source p.ticket
  have hun : ∀ t : PublicationTable, (t.unready p.source).entries = t.entries ∧
      (t.unready p.source).bySource = t.bySource ∧ (t.unready p.source).tickets = t.tickets ∧
      (t.unready p.source).nextId = t.nextId := by
    intro t
    unfold unready
    split_ifs <;> exact ⟨rfl, rfl, rfl, rfl⟩
  obtain ⟨u1, u2, u3, u4⟩ := hun (((t.dropDeadline p).dropSnapshot p).dropQueued p.source p.ticket)
  obtain ⟨r1, r2, r3, r4⟩ := readySource_frame
    ((((t.dropDeadline p).dropSnapshot p).dropQueued p.source p.ticket).unready p.source) p.source
  refine ⟨r1.trans (u1.trans (q1.trans d1)), r3.trans (u3.trans (q4.trans d3)),
    r4.trans (u4.trans (q5.trans d4)), fun s => ?_⟩
  have hq : (t.removeIndexes p).queueOf s =
      (((t.dropDeadline p).dropSnapshot p).dropQueued p.source p.ticket).queueOf s := by
    simp only [removeIndexes, queueOf, r2, u2]
  rw [hq, q6]
  simp only [queueOf, d2]

theorem routable_eq {t' : PublicationTable} (hq : t'.queueOf s = t.queueOf s)
    (he : ∀ i ∈ t.queueOf s,
      (t'.entries.lookup i).map Publication.staged = (t.entries.lookup i).map Publication.staged) :
    t'.routable s = t.routable s := by
  unfold routable
  rw [hq]
  rcases hh : (t.queueOf s).head? with - | i
  · rfl
  · have := he i (List.mem_of_head? hh)
    rcases h1 : t'.entries.lookup i with - | p <;> rcases h2 : t.entries.lookup i with - | q <;>
      simp_all

/-! ## Apart from the ready queue -/

/-- Pending publications, their queues and their tickets. -/
structure Listed (t : PublicationTable) : Prop where
  key : ∀ id p, t.entries.lookup id = some p → p.ticket = id ∧ id < t.nextId
  queue : ∀ s id, id ∈ t.queueOf s ↔ ∃ p, t.entries.lookup id = some p ∧ p.source = s
  sorted : ∀ s, (t.queueOf s).Pairwise (· < ·)
  ticketed : ∀ id p, t.entries.lookup id = some p →
    ∃ status, t.statusOf id = some status ∧ ∀ report, status ≠ .terminal report
  known : ∀ id status, t.statusOf id = some status → id < t.nextId

theorem Sound.listed (h : t.Sound) : t.Listed :=
  ⟨h.key, h.queue, h.sorted, h.ticketed, h.known⟩

/-- The one source that may be missing is put into the ready queue. -/
theorem Listed.readySource (h : t.Listed) (hrb : t.ReadyBut source) :
    (t.readySource source).Sound := by
  obtain ⟨he, hb, ht, hn⟩ := readySource_frame t source
  obtain ⟨r1, r2, r3, r4⟩ := hrb.readySource
  have hqueue : ∀ s, (t.readySource source).queueOf s = t.queueOf s := fun s => by
    rw [queueOf, hb, queueOf]
  have hstatus : ∀ i, (t.readySource source).statusOf i = t.statusOf i := fun i => by
    rw [statusOf, ht, statusOf]
  refine ⟨fun i q hq => ?_, fun s i => ?_, fun s => hqueue s ▸ h.sorted s, r1, r2, r3, r4,
    fun i q hq => ?_, fun i x hx => ?_⟩
  · rw [hn]
    exact h.key i q (he ▸ hq)
  · rw [hqueue, he]
    exact h.queue s i
  · rw [hstatus]
    exact h.ticketed i q (he ▸ hq)
  · rw [hn]
    exact h.known i x (hstatus i ▸ hx)

/-- A change after which only one source may have become routable. -/
theorem Sound.readyBut (h : t.Sound) {t' : PublicationTable} (hr : t'.ready = t.ready)
    (hrs : t'.readySet = t.readySet) (hother : ∀ s, s ≠ source → t'.routable s = t.routable s)
    (hstill : t.routable source = true → t'.routable source = true) : t'.ReadyBut source := by
  refine ⟨fun s hs => ?_, fun s hs => ?_, ?_, fun hm => ?_, hr ▸ h.ready_nodup,
    hrs ▸ h.readySet_nodup⟩
  · rw [hr, hother s hs]
    exact h.ready_mem s
  · rw [hrs, hother s hs]
    exact h.readySet_mem s
  · rw [hr, hrs]
    exact (h.ready_mem _).trans (h.readySet_mem _).symm
  · exact hstill ((h.readySet_mem _).mp (hrs ▸ hm))

/-- One entry is rewritten under its own identity and source, and its status with it. -/
theorem Listed.rewrite (h : t.Listed) {t' : PublicationTable} {q : Publication}
    {status : PublicationStatus} (hp : t.entries.lookup id = some p)
    (hq : q.ticket = p.ticket ∧ q.source = p.source)
    (hlook : ∀ i, t'.entries.lookup i = if i = id then some q else t.entries.lookup i)
    (hqueue : ∀ s, t'.queueOf s = t.queueOf s) (hnext : t'.nextId = t.nextId)
    (hstatus : ∀ i, t'.statusOf i = if i = id then some status else t.statusOf i)
    (hlive : ∀ report, status ≠ .terminal report) : t'.Listed := by
  have hkey := h.key id p hp
  refine ⟨fun i x hx => ?_, fun s i => ?_, fun s => hqueue s ▸ h.sorted s, fun i x hx => ?_,
    fun i x hx => ?_⟩
  · rw [hnext]
    rw [hlook] at hx
    split_ifs at hx with hi
    · cases hx
      exact ⟨(hq.1.trans hkey.1).trans hi.symm, hi ▸ hkey.2⟩
    · exact h.key i x hx
  · rw [hqueue, hlook, h.queue]
    by_cases hi : i = id
    · subst hi
      simp [hp, hq.2]
    · simp [hi]
  · rw [hstatus]
    rw [hlook] at hx
    split_ifs at hx ⊢
    · exact ⟨status, rfl, hlive⟩
    · exact h.ticketed i x hx
  · rw [hnext]
    rw [hstatus] at hx
    split_ifs at hx with hi
    · exact hi ▸ hkey.2
    · exact h.known i x hx

/-- Every identity in a queue was given out before. -/
theorem Listed.queue_lt (h : t.Listed) {i : ℕ} (hi : i ∈ t.queueOf s) : i < t.nextId := by
  obtain ⟨q, hq, -⟩ := (h.queue s i).mp hi
  exact (h.key i q hq).2

/-- A new publication takes the next identity and the end of its source's queue. -/
theorem Listed.enqueue (h : t.Listed) {t' : PublicationTable} {status : PublicationStatus}
    (hp : p.ticket = t.nextId)
    (hlook : ∀ i, t'.entries.lookup i = if i = p.ticket then some p else t.entries.lookup i)
    (hqueue : ∀ s, t'.queueOf s =
      if s = p.source then t.queueOf s ++ [p.ticket] else t.queueOf s)
    (hnext : t'.nextId = t.nextId + 1)
    (hstatus : ∀ i, t'.statusOf i = if i = p.ticket then some status else t.statusOf i)
    (hlive : ∀ report, status ≠ .terminal report) : t'.Listed := by
  refine ⟨fun i q hq => ?_, fun s i => ?_, fun s => ?_, fun i q hq => ?_, fun i x hx => ?_⟩
  · rw [hnext]
    rw [hlook] at hq
    split_ifs at hq with hi
    · cases hq
      exact ⟨hi.symm, by omega⟩
    · obtain ⟨k1, k2⟩ := h.key i q hq
      exact ⟨k1, by omega⟩
  · rw [hqueue, hlook]
    have hnot : ∀ s, p.ticket ∉ t.queueOf s := fun s hm =>
      absurd (hp ▸ h.queue_lt hm) (lt_irrefl _)
    by_cases hi : i = p.ticket
    · subst hi
      by_cases hs : s = p.source
      · simp [hs]
      · simp [hs, hnot s, eq_comm]
    · by_cases hs : s = p.source
      · subst hs
        simp [hi, h.queue]
      · simp [hs, hi, h.queue]
  · rw [hqueue]
    split_ifs
    · refine List.pairwise_append.mpr ⟨h.sorted s, by simp, fun i hi j hj => ?_⟩
      rw [List.mem_singleton.mp hj, hp]
      exact h.queue_lt hi
    · exact h.sorted s
  · rw [hstatus]
    rw [hlook] at hq
    split_ifs at hq ⊢
    · exact ⟨status, rfl, hlive⟩
    · exact h.ticketed i q hq
  · rw [hnext]
    rw [hstatus] at hx
    split_ifs at hx with hi
    · omega
    · have := h.known i x hx
      omega

/-! ## Taking a publication out -/

theorem Sound.notReady (h : t.Sound) (p : Publication) (id : ℕ)
    (hp : t.entries.lookup id = some p) :
    ((((({ t with entries := t.entries.erase id } : PublicationTable).dropDeadline p).dropSnapshot
      p).dropQueued p.source id).unready p.source).ReadyBut p.source := by
  have hbase : ∃ t₀ : PublicationTable,
      (({ t with entries := t.entries.erase id } : PublicationTable).dropDeadline p).dropSnapshot p =
        t₀ ∧ t₀.entries = t.entries.erase id ∧ t₀.bySource = t.bySource ∧ t₀.ready = t.ready ∧
        t₀.readySet = t.readySet := by
    refine ⟨_, rfl, ?_⟩
    unfold dropDeadline dropSnapshot
    split <;> split <;> exact ⟨rfl, rfl, rfl, rfl⟩
  obtain ⟨t₀, ht₀, he, hb, hr, hrs⟩ := hbase
  rw [ht₀]
  obtain ⟨q1, q2, q3, -, -, q6⟩ := dropQueued_frame t₀ p.source id
  have hother : ∀ s, s ≠ p.source →
      (t₀.dropQueued p.source id).routable s = t.routable s := by
    intro s hs
    refine routable_eq ?_ fun i hi => ?_
    · rw [q6, if_neg hs, queueOf, hb]
      rfl
    · obtain ⟨q, hq, hqs⟩ := (h.queue s i).mp hi
      have hne : i ≠ id := by
        rintro rfl
        rw [hp] at hq
        cases hq
        exact hs hqs.symm
      rw [q1, he, Assoc.lookup_erase_ite, if_neg hne]
  have hun : ∀ s, (((t₀.dropQueued p.source id).unready p.source).routable s =
      (t₀.dropQueued p.source id).routable s) := by
    intro s
    unfold unready
    split_ifs <;> rfl
  have hready : ∀ s, (s ∈ ((t₀.dropQueued p.source id).unready p.source).ready ↔
      s ≠ p.source ∧ s ∈ t.ready) ∧
      (s ∈ ((t₀.dropQueued p.source id).unready p.source).readySet ↔
        s ≠ p.source ∧ s ∈ t.readySet) := by
    intro s
    have hiff : p.source ∈ t.ready ↔ p.source ∈ t.readySet :=
      (h.ready_mem _).trans (h.readySet_mem _).symm
    unfold unready
    rw [q3, hrs]
    split_ifs with hm
    · simp only [q2, hr, List.mem_filter, h.readySet_nodup.mem_erase_iff]
      simp [and_comm]
    · have hns : ∀ s, s ∈ t.readySet → s ≠ p.source := fun s hs he => hm (he ▸ hs)
      have hnr : ∀ s, s ∈ t.ready → s ≠ p.source := fun s hs he => hm (hiff.mp (he ▸ hs))
      rw [q2, q3, hr, hrs]
      exact ⟨⟨fun hs => ⟨hnr s hs, hs⟩, And.right⟩, ⟨fun hs => ⟨hns s hs, hs⟩, And.right⟩⟩
  refine ⟨fun s hs => ?_, fun s hs => ?_, ?_, ?_, ?_, ?_⟩
  · rw [(hready s).1, hun, hother s hs, h.ready_mem]
    exact and_iff_right hs
  · rw [(hready s).2, hun, hother s hs, h.readySet_mem]
    exact and_iff_right hs
  · rw [(hready _).1, (hready _).2]
    simp
  · rw [(hready _).2]
    simp
  · unfold unready
    split_ifs
    · exact (q2 ▸ hr ▸ h.ready_nodup).filter _
    · exact q2 ▸ hr ▸ h.ready_nodup
  · unfold unready
    split_ifs
    · exact (q3 ▸ hrs ▸ h.readySet_nodup).erase _
    · exact q3 ▸ hrs ▸ h.readySet_nodup

/-- Concluding removes the entry, takes it out of its queue, and settles its ticket. -/
theorem Sound.conclude (h : t.Sound) (hp : t.entries.lookup id = some p)
    (outcome : PublicationOutcome) :
    (t.conclude p outcome).Sound ∧ (t.conclude p outcome).entries = t.entries.erase id ∧
      (∀ s, (t.conclude p outcome).queueOf s = (t.queueOf s).filter (· ≠ id)) ∧
      (t.conclude p outcome).nextId = t.nextId ∧
      ((t.conclude p outcome).statusOf id = none ∨
        (t.conclude p outcome).statusOf id = some (.terminal (p.closing outcome))) ∧
      ∀ i, i ≠ id → (t.conclude p outcome).statusOf i = t.statusOf i := by
  have hkey : p.ticket = id := (h.key id p hp).1
  subst hkey
  set t₀ : PublicationTable := { t with entries := t.entries.erase p.ticket } with ht₀
  have hrb := h.notReady p p.ticket hp
  obtain ⟨i1, i2, i3, i4⟩ := removeIndexes_frame t₀ p
  obtain ⟨r1, r2, r3, r4⟩ := hrb.readySource
  obtain ⟨s1, s2, s3, s4, s5, s6⟩ :=
    setStatus_frame (t₀.removeIndexes p) p.ticket (.terminal (p.closing outcome))
  obtain ⟨e1, e2, e3, e4, e5, e6⟩ := settle_frame
    ((t₀.removeIndexes p).setStatus p.ticket (.terminal (p.closing outcome))) p.ticket
  have hent : (t.conclude p outcome).entries = t.entries.erase p.ticket := e1.trans (s1.trans i1)
  have hbs : (t.conclude p outcome).bySource = (t₀.removeIndexes p).bySource := e2.trans s2
  have hqueue : ∀ s, (t.conclude p outcome).queueOf s = (t.queueOf s).filter (· ≠ p.ticket) := by
    intro s
    have hq : (t.conclude p outcome).queueOf s = (t₀.removeIndexes p).queueOf s := by
      rw [queueOf, hbs]
      rfl
    rw [hq, i4]
    split_ifs with hs
    · rfl
    · refine (List.filter_eq_self.mpr fun i hi => ?_).symm
      obtain ⟨q, hq, hqs⟩ := (h.queue s i).mp hi
      simp only [ne_eq, decide_not, Bool.not_eq_eq_eq_not, Bool.not_true, decide_eq_false_iff_not]
      rintro rfl
      rw [hp] at hq
      cases hq
      exact hs hqs.symm
  have hnext : (t.conclude p outcome).nextId = t.nextId := e5.trans (s5.trans i3)
  have hrout : ∀ s, (t.conclude p outcome).routable s = (t₀.removeIndexes p).routable s :=
    fun s => routable_congr (e1.trans s1) hbs
  have hbase : ∀ i, (t₀.removeIndexes p).statusOf i = t.statusOf i := by
    intro i
    rw [statusOf, i2]
    rfl
  have hstatus : ∀ i, i ≠ p.ticket → (t.conclude p outcome).statusOf i = t.statusOf i := by
    intro i hi
    rcases e6 i with he | ⟨he, -⟩
    · exact he.trans ((s6 i).trans ((if_neg hi).trans (hbase i)))
    · exact absurd he hi
  refine ⟨⟨fun i q hq => ?_, fun s i => ?_, fun s => ?_, fun s => ?_, fun s => ?_, ?_, ?_,
    fun i q hq => ?_, fun i st hst => ?_⟩, hent, hqueue, hnext, ?_, hstatus⟩
  · rw [hent, Assoc.lookup_erase_ite] at hq
    split_ifs at hq
    rw [hnext]
    exact h.key i q hq
  · rw [hqueue, hent, Assoc.lookup_erase_ite, List.mem_filter, h.queue]
    by_cases hi : i = p.ticket <;> simp [hi]
  · rw [hqueue]
    exact (h.sorted s).filter _
  · exact (e3.trans s3 ▸ r1 s).trans (iff_of_eq (congrArg (· = true) (hrout s).symm))
  · exact (e4.trans s4 ▸ r2 s).trans (iff_of_eq (congrArg (· = true) (hrout s).symm))
  · exact e3.trans s3 ▸ r3
  · exact e4.trans s4 ▸ r4
  · rw [hent, Assoc.lookup_erase_ite] at hq
    split_ifs at hq with hi
    rw [hstatus i hi]
    exact h.ticketed i q hq
  · rw [hnext]
    by_cases hi : i = p.ticket
    · exact hi ▸ (h.key _ p hp).2
    · exact h.known i st (hstatus i hi ▸ hst)
  · obtain ⟨st, hst, -⟩ := h.ticketed _ p hp
    rcases e6 p.ticket with he | ⟨-, he⟩
    · refine .inr (he.trans ((s6 _).trans ?_))
      simp [hbase, hst]
    · exact .inl he

/-! ## Changing an entry in place -/

/-- Rewriting a pending publication without its identity, source and staging. -/
theorem Sound.update (h : t.Sound) (hp : t.entries.lookup id = some p) {q : Publication}
    (hq : q.ticket = p.ticket ∧ q.source = p.source ∧ q.staged = p.staged) (n : ℕ) :
    ({ t.update q with snapshotEntries := n } : PublicationTable).Sound := by
  have hkey : p.ticket = id := (h.key id p hp).1
  obtain ⟨hqt, hqs, hqg⟩ := hq
  have hqid : q.ticket = id := hqt.trans hkey
  set t' : PublicationTable := { t.update q with snapshotEntries := n } with ht'
  have hlook : ∀ i, t'.entries.lookup i = if i = id then some q else t.entries.lookup i := by
    intro i
    rw [← hqid]
    exact Assoc.lookup_insert_ite _ _ _ _
  have hrout : ∀ s, t'.routable s = t.routable s := by
    refine fun s => routable_eq rfl fun i _ => ?_
    rw [hlook]
    split_ifs with hi
    · rw [hi, hp]
      simp [hqg]
    · rfl
  refine ⟨fun i x hx => ?_, fun s i => ?_, h.sorted, fun s => ?_, fun s => ?_, h.ready_nodup,
    h.readySet_nodup, fun i x hx => ?_, h.known⟩
  · rw [hlook] at hx
    split_ifs at hx with hi
    · cases hx
      exact ⟨hqid.trans hi.symm, hi ▸ (h.key id p hp).2⟩
    · exact h.key i x hx
  · rw [hlook]
    refine (h.queue s i).trans ?_
    by_cases hi : i = id
    · subst hi
      simp [hp, hqs]
    · simp [hi]
  · rw [hrout]
    exact h.ready_mem s
  · rw [hrout]
    exact h.readySet_mem s
  · rw [hlook] at hx
    split_ifs at hx with hi
    · exact hi ▸ h.ticketed id p hp
    · exact h.ticketed i x hx

/-- Releasing a staged publication makes it routable once it is the oldest. -/
theorem Sound.unstage (h : t.Sound) (id : ℕ) :
    (t.unstage id).Sound ∧
      (∀ i, (t.unstage id).entries.lookup i =
        if i = id then (t.entries.lookup id).map fun p => { p with staged := false }
        else t.entries.lookup i) ∧
      (∀ s, (t.unstage id).queueOf s = t.queueOf s) ∧ (t.unstage id).nextId = t.nextId ∧
      ∀ i, (t.unstage id).statusOf i =
        if i = id ∧ (t.entries.lookup id).isSome then some .queued else t.statusOf i := by
  unfold PublicationTable.unstage
  split
  · rename_i hn
    refine ⟨h, fun i => ?_, fun _ => rfl, rfl, fun i => ?_⟩
    · split_ifs with hi
      · rw [hi, hn]
        rfl
      · rfl
    · simp [hn]
  · rename_i p hp
    set t₁ : PublicationTable :=
      { t with entries := AList.insert id { p with staged := false } t.entries } with ht₁
    obtain ⟨s1, s2, s3, s4, s5, s6⟩ := setStatus_frame t₁ id .queued
    obtain ⟨f1, f2, f3, f4⟩ := readySource_frame (t₁.setStatus id .queued) p.source
    have hlook : ∀ i, (t₁.setStatus id .queued).entries.lookup i =
        if i = id then some { p with staged := false } else t.entries.lookup i := by
      intro i
      rw [s1]
      exact Assoc.lookup_insert_ite _ _ _ _
    have hqueue : ∀ s, (t₁.setStatus id .queued).queueOf s = t.queueOf s := by
      intro s
      simp only [queueOf, s2]
      rfl
    obtain ⟨st, hst, -⟩ := h.ticketed id p hp
    have hstatus : ∀ i, (t₁.setStatus id .queued).statusOf i =
        if i = id then some .queued else t.statusOf i := by
      intro i
      have hst₁ : t₁.statusOf id = some st := hst
      rw [s6, hst₁]
      rfl
    have hother : ∀ s, s ≠ p.source → (t₁.setStatus id .queued).routable s = t.routable s := by
      intro s hs
      refine routable_eq (hqueue s) fun i hi => ?_
      obtain ⟨q, hq, hqs⟩ := (h.queue s i).mp hi
      rw [hlook, if_neg]
      rintro rfl
      rw [hp] at hq
      cases hq
      exact hs hqs.symm
    have hstill : t.routable p.source = true →
        (t₁.setStatus id .queued).routable p.source = true := by
      unfold routable
      rw [hqueue]
      rcases (t.queueOf p.source).head? with - | i
      · simp
      · simp only [hlook]
        by_cases hi : i = id
        · simp [hi]
        · simp [hi]
    have hlisted : (t₁.setStatus id .queued).Listed :=
      h.listed.rewrite (q := { p with staged := false }) hp ⟨rfl, rfl⟩ hlook hqueue s5 hstatus
        (by simp)
    refine ⟨hlisted.readySource (h.readyBut s3 s4 hother hstill), fun i => ?_, fun s => ?_,
      f4.trans s5, fun i => ?_⟩
    · rw [f1, hlook, hp]
      rfl
    · rw [queueOf, f2]
      exact hqueue s
    · have hst₂ := hstatus i
      rw [statusOf, f3, hp]
      rw [statusOf] at hst₂
      simpa using hst₂

/-- An unfinished head goes back behind the other ready sources. -/
theorem Sound.requeue (h : t.Sound) (hp : t.entries.lookup id = some p) {ready : List ActorRef}
    (hr : t.ready = p.source :: ready) :
    (t.requeue p).Sound ∧ (t.requeue p).entries = t.entries ∧
      (∀ s, (t.requeue p).queueOf s = t.queueOf s) ∧ (t.requeue p).nextId = t.nextId ∧
      ∀ i, (t.requeue p).statusOf i = if i = id then some (.routing p.report) else t.statusOf i := by
  have hkey := h.key id p hp
  unfold PublicationTable.requeue
  rw [hkey.1]
  set t₁ : PublicationTable :=
    { t with ready := t.ready.tail, readySet := t.readySet.erase p.source } with ht₁
  obtain ⟨s1, s2, s3, s4, s5, s6⟩ := setStatus_frame t₁ id (.routing p.report)
  obtain ⟨f1, f2, f3, f4⟩ := readySource_frame (t₁.setStatus id (.routing p.report)) p.source
  have hnd := h.ready_nodup
  rw [hr] at hnd
  obtain ⟨hnot, hnd⟩ := List.nodup_cons.mp hnd
  have hmem : ∀ s, s ∈ t₁.ready ↔ s ≠ p.source ∧ s ∈ t.ready := by
    intro s
    simp only [ht₁, hr, List.tail_cons, List.mem_cons]
    constructor
    · intro hs
      exact ⟨fun he => hnot (he ▸ hs), .inr hs⟩
    · rintro ⟨hne, rfl | hs⟩
      · exact absurd rfl hne
      · exact hs
  have hmemSet : ∀ s, s ∈ t₁.readySet ↔ s ≠ p.source ∧ s ∈ t.readySet :=
    fun s => h.readySet_nodup.mem_erase_iff
  have hrout : ∀ s, (t₁.setStatus id (.routing p.report)).routable s = t.routable s :=
    fun s => routable_congr s1 s2
  have hrb : (t₁.setStatus id (.routing p.report)).ReadyBut p.source := by
    refine ⟨fun s hs => ?_, fun s hs => ?_, ?_, fun hm => ?_, ?_, ?_⟩
    · rw [s3, hmem, hrout, h.ready_mem]
      exact and_iff_right hs
    · rw [s4, hmemSet, hrout, h.readySet_mem]
      exact and_iff_right hs
    · rw [s3, s4, hmem, hmemSet]
      simp
    · rw [s4, hmemSet] at hm
      exact absurd rfl hm.1
    · rw [s3, ht₁, hr]
      exact hnd
    · rw [s4]
      exact h.readySet_nodup.erase _
  obtain ⟨st, hst, -⟩ := h.ticketed id p hp
  have hstatus : ∀ i, (t₁.setStatus id (.routing p.report)).statusOf i =
      if i = id then some (.routing p.report) else t.statusOf i := by
    intro i
    have hst₁ : t₁.statusOf id = some st := hst
    rw [s6, hst₁]
    rfl
  have hqueue : ∀ s, (t₁.setStatus id (.routing p.report)).queueOf s = t.queueOf s := by
    intro s
    simp only [queueOf, s2]
    rfl
  have hlook : ∀ i, (t₁.setStatus id (.routing p.report)).entries.lookup i =
      if i = id then some p else t.entries.lookup i := by
    intro i
    rw [s1]
    split_ifs with hi
    · exact hi ▸ hp
    · rfl
  have hlisted : (t₁.setStatus id (.routing p.report)).Listed :=
    h.listed.rewrite hp ⟨rfl, rfl⟩ hlook hqueue s5 hstatus (by simp)
  refine ⟨hlisted.readySource hrb, f1.trans s1, fun s => ?_, f4.trans s5, fun i => ?_⟩
  · rw [queueOf, f2]
    exact hqueue s
  · rw [statusOf, f3]
    exact hstatus i

/-! ## Tickets and new publications -/

/-- Handles of callers come and go; the ticket of a pending publication stays. -/
theorem Sound.handles (h : t.Sound) {t' : PublicationTable} (he : t'.entries = t.entries)
    (hb : t'.bySource = t.bySource) (hr : t'.ready = t.ready) (hrs : t'.readySet = t.readySet)
    (hn : t'.nextId = t.nextId)
    (hst : ∀ i, t'.statusOf i = t.statusOf i ∨ t'.statusOf i = none ∧ t.entries.lookup i = none) :
    t'.Sound := by
  have hrout : ∀ s, t'.routable s = t.routable s := fun s => routable_congr he hb
  have hqueue : ∀ s, t'.queueOf s = t.queueOf s := fun s => by rw [queueOf, hb, queueOf]
  refine ⟨fun i q hq => hn ▸ h.key i q (he ▸ hq), fun s i => ?_, fun s => hqueue s ▸ h.sorted s,
    fun s => ?_, fun s => ?_, hr ▸ h.ready_nodup, hrs ▸ h.readySet_nodup, fun i q hq => ?_,
    fun i x hx => ?_⟩
  · rw [hqueue, he]
    exact h.queue s i
  · rw [hr, hrout]
    exact h.ready_mem s
  · rw [hrs, hrout]
    exact h.readySet_mem s
  · rw [he] at hq
    rcases hst i with hi | ⟨-, hi⟩
    · exact hi ▸ h.ticketed i q hq
    · simp [hi] at hq
  · rw [hn]
    rcases hst i with hi | ⟨hi, -⟩
    · exact h.known i x (hi ▸ hx)
    · simp [hi] at hx

theorem cloneHandle_frame (t : PublicationTable) (id : ℕ) :
    (t.cloneHandle id).entries = t.entries ∧ (t.cloneHandle id).bySource = t.bySource ∧
      (t.cloneHandle id).ready = t.ready ∧ (t.cloneHandle id).readySet = t.readySet ∧
      (t.cloneHandle id).nextId = t.nextId ∧
      ∀ i, (t.cloneHandle id).statusOf i = t.statusOf i := by
  unfold cloneHandle
  split
  · rename_i k hk
    refine ⟨rfl, rfl, rfl, rfl, rfl, fun i => ?_⟩
    by_cases hi : i = id
    · subst hi
      simp [statusOf, hk]
    · simp [statusOf, hi]
  · exact ⟨rfl, rfl, rfl, rfl, rfl, fun _ => rfl⟩

theorem dropHandle_frame (t : PublicationTable) (id : ℕ) :
    (t.dropHandle id).entries = t.entries ∧ (t.dropHandle id).bySource = t.bySource ∧
      (t.dropHandle id).ready = t.ready ∧ (t.dropHandle id).readySet = t.readySet ∧
      (t.dropHandle id).nextId = t.nextId ∧
      ∀ i, (t.dropHandle id).statusOf i = t.statusOf i ∨
        (t.dropHandle id).statusOf i = none ∧ t.entries.lookup i = none := by
  unfold dropHandle
  split
  · rename_i source status handles hk
    dsimp only
    have hstatus : ∀ i, ({ t with
        tickets := AList.insert id ⟨source, status, handles⟩ t.tickets } :
          PublicationTable).statusOf i = t.statusOf i := by
      intro i
      by_cases hi : i = id
      · subst hi
        simp [statusOf, hk]
      · simp [statusOf, hi]
    split_ifs with hc
    · obtain ⟨h1, h2, h3, h4, h5, h6⟩ := releasePermit_frame
        { t with tickets := AList.insert id ⟨source, status, handles⟩ t.tickets } id
      refine ⟨h1, h2, h3, h4, h5, fun i => ?_⟩
      rw [h6]
      split_ifs with hi
      · exact .inr ⟨rfl, hi ▸ Option.isNone_iff_eq_none.mp hc.2⟩
      · exact .inl (hstatus i)
    · exact ⟨rfl, rfl, rfl, rfl, rfl, fun i => .inl (hstatus i)⟩
  · exact ⟨rfl, rfl, rfl, rfl, rfl, fun _ => .inl rfl⟩

theorem reserve_frame (t : PublicationTable) (source : ActorRef) (staged : Bool) :
    (t.reserve source staged).2 = t ∧ (∀ id, (t.reserve source staged).1 ≠ .ok id) ∨
      (t.reserve source staged).1 = .ok t.nextId ∧
        (t.reserve source staged).2.entries = t.entries ∧
        (t.reserve source staged).2.bySource = t.bySource ∧
        (t.reserve source staged).2.ready = t.ready ∧
        (t.reserve source staged).2.readySet = t.readySet ∧
        (t.reserve source staged).2.nextId = t.nextId + 1 ∧
        ∀ i, (t.reserve source staged).2.statusOf i =
          if i = t.nextId then some (if staged then .staged else .queued) else t.statusOf i := by
  unfold reserve
  by_cases h1 : u64Max ≤ t.nextId
  · exact .inl (by simp [h1])
  by_cases h2 : t.limit ≤ t.ticketTotal ∨ t.perSource ≤ (t.ticketCounts.lookup source).getD 0
  · exact .inl (by simp [h1, h2])
  · rw [if_neg h1, if_neg h2]
    refine .inr ⟨rfl, rfl, rfl, rfl, rfl, rfl, fun i => ?_⟩
    by_cases hi : i = t.nextId
    · simp [statusOf, hi]
    · simp [statusOf, hi]

theorem Sound.reserve (h : t.Sound) (source : ActorRef) (staged : Bool) :
    (t.reserve source staged).2.Sound := by
  rcases reserve_frame t source staged with ⟨he, -⟩ | ⟨-, he, hb, hr, hrs, hn, hst⟩
  · rwa [he]
  · have hrout : ∀ s, (t.reserve source staged).2.routable s = t.routable s :=
      fun s => routable_congr he hb
    have hqueue : ∀ s, (t.reserve source staged).2.queueOf s = t.queueOf s := fun s => by
      rw [queueOf, hb, queueOf]
    refine ⟨fun i q hq => ?_, fun s i => ?_, fun s => hqueue s ▸ h.sorted s, fun s => ?_,
      fun s => ?_, hr ▸ h.ready_nodup, hrs ▸ h.readySet_nodup, fun i q hq => ?_, fun i x hx => ?_⟩
    · obtain ⟨h1, h2⟩ := h.key i q (he ▸ hq)
      exact ⟨h1, by omega⟩
    · rw [hqueue, he]
      exact h.queue s i
    · rw [hr, hrout]
      exact h.ready_mem s
    · rw [hrs, hrout]
      exact h.readySet_mem s
    · rw [hst, if_neg (h.key i q (he ▸ hq)).2.ne]
      exact h.ticketed i q (he ▸ hq)
    · rw [hst] at hx
      by_cases hi : i = t.nextId
      · omega
      · have := h.known i x (by rwa [if_neg hi] at hx)
        omega

/-- A new publication goes to the end of its source's queue. -/
theorem Sound.accept (h : t.Sound) (hok : (t.reserve p.source p.staged).1 = .ok p.ticket) :
    p.ticket = t.nextId ∧ ((t.reserve p.source p.staged).2.insert p).Sound ∧
      (∀ i, ((t.reserve p.source p.staged).2.insert p).entries.lookup i =
        if i = p.ticket then some p else t.entries.lookup i) ∧
      (∀ s, ((t.reserve p.source p.staged).2.insert p).queueOf s =
        if s = p.source then t.queueOf s ++ [p.ticket] else t.queueOf s) ∧
      ((t.reserve p.source p.staged).2.insert p).nextId = t.nextId + 1 ∧
      ∀ i, ((t.reserve p.source p.staged).2.insert p).statusOf i =
        if i = p.ticket then some (if p.staged then .staged else .queued) else t.statusOf i := by
  rcases reserve_frame t p.source p.staged with ⟨-, hno⟩ | ⟨hid, he, hb, hr, hrs, hn, hst⟩
  · exact absurd hok (hno _)
  have hticket : p.ticket = t.nextId := by
    rw [hid] at hok
    exact (Except.ok.inj hok).symm
  set t₀ := (t.reserve p.source p.staged).2 with ht₀
  have hbase : ∃ t₁ : PublicationTable, t₀.insert p = t₁.readySource p.source ∧
      t₁.entries = AList.insert p.ticket p t₀.entries ∧
      t₁.bySource = AList.insert p.source (t₀.queueOf p.source ++ [p.ticket]) t₀.bySource ∧
      t₁.ready = t₀.ready ∧ t₁.readySet = t₀.readySet ∧ t₁.tickets = t₀.tickets ∧
      t₁.nextId = t₀.nextId := by
    refine ⟨_, rfl, ?_⟩
    unfold addDeadline
    split <;> exact ⟨rfl, rfl, rfl, rfl, rfl, rfl⟩
  obtain ⟨t₁, hins, h1, h2, h3, h4, h5, h6⟩ := hbase
  rw [hins]
  obtain ⟨f1, f2, f3, f4⟩ := readySource_frame t₁ p.source
  have hq₀ : ∀ s, t₀.queueOf s = t.queueOf s := fun s => by rw [queueOf, hb, queueOf]
  have hlook : ∀ i, t₁.entries.lookup i = if i = p.ticket then some p else t.entries.lookup i := by
    intro i
    rw [h1, Assoc.lookup_insert_ite, he]
  have hqueue : ∀ s, t₁.queueOf s =
      if s = p.source then t.queueOf s ++ [p.ticket] else t.queueOf s := by
    intro s
    rw [queueOf, h2, Assoc.lookup_insert_ite]
    split_ifs with hs
    · rw [hs, hq₀]
      rfl
    · rw [hb]
      rfl
  have hstatus : ∀ i, t₁.statusOf i =
      if i = p.ticket then some (if p.staged then .staged else .queued) else t.statusOf i := by
    intro i
    rw [hticket, ← hst i, statusOf, h5]
    rfl
  have hlt : ∀ s, ∀ i ∈ t.queueOf s, i ≠ p.ticket := by
    intro s i hi
    rw [hticket]
    exact (h.listed.queue_lt hi).ne
  have hother : ∀ s, s ≠ p.source → t₁.routable s = t.routable s := by
    intro s hs
    refine routable_eq (by rw [hqueue, if_neg hs]) fun i hi => ?_
    rw [hlook, if_neg (hlt s i hi)]
  have hstill : t.routable p.source = true → t₁.routable p.source = true := by
    unfold routable
    rw [hqueue, if_pos rfl]
    have hq := hlt p.source
    rcases hqs : t.queueOf p.source with - | ⟨i, q⟩
    · simp
    · rw [hqs] at hq
      simp [hlook, hq i (by simp)]
  have hlisted : t₁.Listed :=
    h.listed.enqueue hticket hlook hqueue (h6.trans hn) hstatus (by split_ifs <;> simp)
  refine ⟨hticket,
    hlisted.readySource (h.readyBut (h3.trans hr) (h4.trans hrs) hother hstill),
    fun i => by rw [f1, hlook], fun s => ?_, f4.trans (h6.trans hn), fun i => ?_⟩
  · rw [queueOf, f2]
    exact hqueue s
  · rw [statusOf, f3]
    exact hstatus i

end PublicationTable

end Actorplane
