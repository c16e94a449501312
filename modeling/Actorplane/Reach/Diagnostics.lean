import Actorplane.Model.Diagnostics

/-!
# Paging through the diagnostic history

A history numbers the entries it takes from one on and retains the latest of
them. A reader that asks for what comes after the last sequence number it was
given sees every entry once, in order, or is told of a gap that covers it.
-/

namespace Actorplane

/-! ## The history and its reader -/

/-- A history, the entries that were ever recorded with a sequence number, and a reader that
passes on the last sequence number it was given. -/
structure Paging where
  history : History
  records : ℕ
  issued : List DiagnosticEntry
  cursor : ℕ
  returned : List DiagnosticEntry
  gaps : List DiagnosticGap

inductive Paging.Event
  | record (code : DiagnosticCode) (actor : Option ActorRef) (operation : Option OperationId)
      (failure : Option FailureRecord) (envelope : Option Envelope)
  | read (limit : ℕ)

namespace Paging

def new (capacity start : ℕ) : Paging where
  history := .new capacity
  records := 0
  issued := []
  cursor := start
  returned := []
  gaps := []

/-- What the reader has after an answer. -/
def receive (s : Paging) (read : DiagnosticRead) : Paging :=
  { s with
    cursor := (read.entries.getLast?.map (·.sequence)).getD s.cursor
    returned := s.returned ++ read.entries
    gaps := s.gaps ++ read.gap.toList }

def step (capacity : ℕ) (s : Paging) : Event → Paging
  | .record code actor operation failure envelope =>
    let history := s.history.recordEntry code actor operation failure envelope
    { s with
      history := history
      records := s.records + 1
      issued :=
        if s.history.capacity = 0 ∨ s.history.exhausted then s.issued
        else s.issued ++ history.entries.getLast?.toList }
  | .read limit =>
    match diagnostics capacity s.history s.cursor limit with
    | .error _ => s
    | .ok read => s.receive read

def run (capacity start : ℕ) (events : List Event) : Paging :=
  events.foldl (step capacity) (new capacity start)

/-! ## What a history retains -/

/-- The entries issued so far are numbered from one on, the latest are retained, and the others
are counted. -/
structure Retains (capacity : ℕ) (s : Paging) : Prop where
  capacity_eq : s.history.capacity = capacity
  numbered : s.issued.map (·.sequence) = List.range' 1 s.issued.length
  latest : s.history.entries = s.issued.drop (s.issued.length - capacity)
  next_eq : s.history.exhausted = false → s.history.next = s.issued.length + 1
  next_le : s.history.next ≤ u64Max
  exhausted : s.history.exhausted → s.issued.length = u64Max
  empty : capacity = 0 → s.issued = []
  retained_le : s.history.entries.length ≤ s.records
  dropped : s.history.dropped = min (s.records - s.history.entries.length) u64Max

variable {capacity : ℕ} {s : Paging}

theorem retains_new (capacity start : ℕ) : (new capacity start).Retains capacity := by
  constructor <;> simp [new, History.new, u64Max]

theorem Retains.length_eq (h : s.Retains capacity) :
    s.history.entries.length = min s.issued.length capacity := by
  rw [h.latest, List.length_drop]
  omega

theorem Retains.sequence_getElem (h : s.Retains capacity) {i : ℕ} (hi : i < s.issued.length) :
    s.issued[i].sequence = i + 1 := by
  have : (s.issued.map (·.sequence))[i]? = some (i + 1) := by
    rw [h.numbered, List.getElem?_range' hi]
    congr 1
    omega
  simpa [hi] using this

theorem Retains.exists_index (h : s.Retains capacity) {e : DiagnosticEntry}
    (he : e ∈ s.issued) :
    ∃ i, ∃ hi : i < s.issued.length, s.issued[i] = e ∧ e.sequence = i + 1 := by
  obtain ⟨i, hi, rfl⟩ := List.getElem_of_mem he
  exact ⟨i, hi, rfl, h.sequence_getElem hi⟩

theorem Retains.first_eq (h : s.Retains capacity) :
    s.history.first = s.issued.length - capacity + 1 := by
  unfold History.first
  rw [h.latest]
  by_cases hk : s.issued.length - capacity < s.issued.length
  · rw [List.head?_drop, List.getElem?_eq_getElem hk]
    simp [h.sequence_getElem hk]
  · have hnil : s.issued.length = 0 := by
      by_contra hne
      have hzero : capacity = 0 := by omega
      simp [h.empty hzero] at hne
    have hexhausted : s.history.exhausted = false := by
      rw [Bool.eq_false_iff]
      intro hx
      have := h.exhausted hx
      rw [hnil] at this
      exact absurd this (by decide)
    simp [List.length_eq_zero_iff.mp hnil, h.next_eq hexhausted]

/-- An issued entry is retained exactly when its number is not below the first. -/
theorem Retains.mem_entries_iff (h : s.Retains capacity) {e : DiagnosticEntry}
    (he : e ∈ s.issued) : e ∈ s.history.entries ↔ s.history.first ≤ e.sequence := by
  obtain ⟨i, hi, rfl, hseq⟩ := h.exists_index he
  rw [h.first_eq, hseq, h.latest]
  constructor
  · intro hmem
    obtain ⟨j, hj, heq⟩ := List.getElem_of_mem hmem
    rw [List.length_drop] at hj
    rw [List.getElem_drop] at heq
    have := h.sequence_getElem (i := s.issued.length - capacity + j) (by omega)
    rw [heq, hseq] at this
    omega
  · intro hle
    rw [List.mem_drop_iff_getElem]
    exact ⟨i - (s.issued.length - capacity), by omega, by congr 1; omega⟩

theorem Retains.mem_issued (h : s.Retains capacity) {e : DiagnosticEntry}
    (he : e ∈ s.history.entries) : e ∈ s.issued := by
  rw [h.latest] at he
  exact List.mem_of_mem_drop he

theorem Retains.issued_le (h : s.Retains capacity) : s.issued.length ≤ u64Max := by
  cases hx : s.history.exhausted with
  | true => exact (h.exhausted hx).le
  | false =>
    have := h.next_eq hx
    have := h.next_le
    omega

/-! ### Recording -/

section Record

variable (code : DiagnosticCode) (actor : Option ActorRef) (operation : Option OperationId)
  (failure : Option FailureRecord) (envelope : Option Envelope)

/-- The entry a record adds. -/
def entry (sequence : ℕ) : DiagnosticEntry where
  sequence := sequence
  code := code
  actor := actor
  operation := operation
  eventId := (envelope.map (·.eventId)).or (failure.bind (·.eventId))
  correlationId := envelope.bind (·.correlationId)
  causationId := envelope.bind (·.causationId)
  failure := failure

variable {code actor operation failure envelope}

theorem step_refused (h : s.history.capacity = 0 ∨ s.history.exhausted = true) :
    s.step capacity (.record code actor operation failure envelope) =
      { s with
        history := { s.history with dropped := History.saturatingSucc s.history.dropped }
        records := s.records + 1 } := by
  simp only [step, History.recordEntry, if_pos h]

theorem step_taken (h : ¬(s.history.capacity = 0 ∨ s.history.exhausted = true)) :
    let e := entry code actor operation failure envelope s.history.next
    s.step capacity (.record code actor operation failure envelope) =
      { s with
        history :=
          { s.history with
            next := if s.history.next = u64Max then s.history.next else s.history.next + 1
            dropped :=
              if s.history.entries.length = s.history.capacity then
                History.saturatingSucc s.history.dropped
              else s.history.dropped
            entries :=
              (if s.history.entries.length = s.history.capacity then s.history.entries.tail
                else s.history.entries) ++ [e]
            exhausted := s.history.next = u64Max }
        records := s.records + 1
        issued := s.issued ++ [e] } := by
  simp only [step, History.recordEntry, if_neg h, entry]
  by_cases hfull : s.history.entries.length = s.history.capacity <;> simp [hfull]

theorem Retains.refused (h : s.Retains capacity)
    (hrefused : s.history.capacity = 0 ∨ s.history.exhausted = true) :
    (s.step capacity (.record code actor operation failure envelope)).Retains capacity := by
  rw [step_refused hrefused]
  have hle := h.retained_le
  have hdropped := h.dropped
  exact
    { h with
      retained_le := by dsimp only; omega
      dropped := by dsimp only [History.saturatingSucc]; omega }

theorem Retains.taken (h : s.Retains capacity)
    (htaken : ¬(s.history.capacity = 0 ∨ s.history.exhausted = true)) :
    (s.step capacity (.record code actor operation failure envelope)).Retains capacity := by
  rw [step_taken htaken]
  have hx : s.history.exhausted = false := by simpa using fun hx => htaken (Or.inr hx)
  have hpos : capacity ≠ 0 := fun h0 => htaken (Or.inl (h.capacity_eq.trans h0))
  have hnext := h.next_eq hx
  have hle := h.retained_le
  have hdropped := h.dropped
  have hlength := h.length_eq
  have hcapacity := h.capacity_eq
  constructor
  · exact hcapacity
  · simp [h.numbered, entry, hnext, List.range'_concat]
    omega
  · by_cases hfull : s.history.entries.length = s.history.capacity
    · have : s.issued.length + 1 - capacity = s.issued.length - capacity + 1 := by omega
      simp only [if_pos hfull, List.length_append, List.length_singleton, this]
      rw [h.latest, List.tail_drop, List.drop_append_of_le_length (by omega)]
    · have hzero : s.issued.length - capacity = 0 := by omega
      have : s.issued.length + 1 - capacity = 0 := by omega
      simp only [if_neg hfull, List.length_append, List.length_singleton, this]
      rw [h.latest, hzero]
      rfl
  · intro hx'
    have : s.history.next ≠ u64Max := by simpa using hx'
    dsimp only
    rw [if_neg this, hnext, List.length_append, List.length_singleton]
  · have := h.next_le
    dsimp only
    split_ifs <;> omega
  · intro hx'
    have : s.history.next = u64Max := by simpa using hx'
    simp
    omega
  · exact fun h0 => absurd h0 hpos
  · by_cases hfull : s.history.entries.length = s.history.capacity <;> simp [hfull] <;> omega
  · dsimp only [History.saturatingSucc]
    rw [hdropped]
    generalize u64Max = limit
    by_cases hfull : s.history.entries.length = s.history.capacity
    · rw [if_pos hfull, if_pos hfull, List.length_append, List.length_tail, List.length_singleton]
      omega
    · rw [if_neg hfull, if_neg hfull, List.length_append, List.length_singleton]
      omega

end Record

/-! ### Reading -/

theorem Retains.entries_ascending (h : s.Retains capacity) :
    s.history.entries.Pairwise fun e e' => e.sequence < e'.sequence := by
  rw [h.latest]
  apply List.Pairwise.sublist (List.drop_sublist _ _)
  rw [← List.pairwise_map (f := fun e : DiagnosticEntry => e.sequence), h.numbered]
  exact List.pairwise_lt_range'

/-- In a list that is numbered from `first` on, what lies beyond a number is a rest of the list. -/
theorem filter_numbered {l : List DiagnosticEntry} {first : ℕ} (after : ℕ)
    (h : l.map (·.sequence) = List.range' first l.length) :
    l.filter (fun e => after < e.sequence) = l.drop (after + 1 - first) := by
  induction l generalizing first with
  | nil => simp
  | cons e l ih =>
    rw [List.map_cons, List.length_cons, List.range'_succ, List.cons.injEq] at h
    obtain ⟨here, later⟩ := h
    have rest := ih later
    rw [List.filter_cons, here, rest]
    by_cases beyond : after < first
    · have all : after + 1 - first = 0 := by omega
      have all' : after + 1 - (first + 1) = 0 := by omega
      simp [beyond, all, all']
    · have behind : after + 1 - first = after + 1 - (first + 1) + 1 := by omega
      simp [beyond, behind]

/-- A read hands over the first retained entries beyond the number it was given. -/
theorem Retains.read_entries (h : s.Retains capacity) (after limit : ℕ) :
    (s.history.read after limit).entries =
      (s.issued.drop (max after (s.issued.length - capacity))).take limit := by
  have numbered : s.history.entries.map (·.sequence) =
      List.range' (s.issued.length - capacity + 1) s.history.entries.length := by
    rw [h.latest, List.map_drop, h.numbered, List.drop_range', List.length_drop]
    congr 1
    omega
  unfold History.read
  dsimp only
  rw [filter_numbered after numbered, h.latest, List.drop_drop]
  congr 2
  omega

theorem Retains.read_ascending (h : s.Retains capacity) (after limit : ℕ) :
    (s.history.read after limit).entries.Pairwise fun e e' => e.sequence < e'.sequence :=
  h.entries_ascending.sublist ((List.take_sublist _ _).trans List.filter_sublist)

theorem mem_of_mem_read {after limit : ℕ} {e : DiagnosticEntry}
    (he : e ∈ (s.history.read after limit).entries) :
    e ∈ s.history.entries ∧ after < e.sequence := by
  simpa using List.mem_filter.mp (List.mem_of_mem_take he)

/-- A retained entry beyond the cursor is returned, or comes after all that is returned. -/
theorem Retains.read_prefix (h : s.Retains capacity) {after : ℕ} (limit : ℕ)
    {e : DiagnosticEntry} (he : e ∈ s.history.entries) (hafter : after < e.sequence) :
    e ∈ (s.history.read after limit).entries ∨
      ∀ e' ∈ (s.history.read after limit).entries, e'.sequence < e.sequence := by
  have hmem : e ∈ s.history.entries.filter fun e => after < e.sequence :=
    List.mem_filter.mpr ⟨he, by simpa using hafter⟩
  have hsorted := h.entries_ascending.sublist
    (List.filter_sublist (p := fun e : DiagnosticEntry => after < e.sequence))
  rw [← List.take_append_drop limit (s.history.entries.filter _)] at hmem hsorted
  rcases List.mem_append.mp hmem with htake | hdrop
  · exact Or.inl htake
  · exact Or.inr fun e' he' => (List.pairwise_append.mp hsorted).2.2 e' he' e hdrop

/-- A gap is reported exactly when an entry beyond the cursor has been overwritten. -/
theorem Retains.gap_iff (h : s.Retains capacity) (after limit : ℕ) :
    (s.history.read after limit).gap ≠ none ↔
      ∃ e ∈ s.issued, after < e.sequence ∧ e ∉ s.history.entries := by
  have hfirst := h.first_eq
  have hissued := h.issued_le
  have hempty : capacity = 0 → s.issued.length = 0 := fun h0 => by simp [h.empty h0]
  have hpositive : 0 < u64Max := by decide
  have hgap : (s.history.read after limit).gap ≠ none ↔ after + 1 < s.history.first := by
    simp only [History.read, History.saturatingSucc]
    split_ifs with hlt
    · simp
      omega
    · simp
      omega
  rw [hgap]
  constructor
  · intro hlt
    have hi : s.issued.length - capacity - 1 < s.issued.length := by omega
    have hseq := h.sequence_getElem hi
    refine ⟨_, List.getElem_mem hi, by omega, ?_⟩
    rw [h.mem_entries_iff (List.getElem_mem hi)]
    omega
  · rintro ⟨e, he, hafter, hgone⟩
    rw [h.mem_entries_iff he] at hgone
    omega

/-- A gap reaches beyond every entry that has been overwritten. -/
theorem Retains.gap_covers (h : s.Retains capacity) {after limit : ℕ} {gap : DiagnosticGap}
    (hgap : (s.history.read after limit).gap = some gap) {e : DiagnosticEntry}
    (he : e ∈ s.issued) (hgone : e ∉ s.history.entries) : e.sequence < gap.firstAvailable := by
  simp only [History.read] at hgap
  split_ifs at hgap
  rw [h.mem_entries_iff he] at hgone
  rw [← Option.some.inj hgap]
  exact not_le.mp hgone

/-! ## What the reader has seen -/

/-- Up to its cursor the reader was given every entry once, in order, or was told of a gap. -/
structure Covers (start : ℕ) (s : Paging) : Prop where
  ascending : s.returned.Pairwise fun e e' => e.sequence < e'.sequence
  issued : ∀ e ∈ s.returned, e ∈ s.issued
  within : ∀ e ∈ s.returned, start < e.sequence ∧ e.sequence ≤ s.cursor
  start_le : start ≤ s.cursor
  cursor : s.cursor = start ∨ s.cursor ≤ s.issued.length
  covered : ∀ e ∈ s.issued, start < e.sequence → e.sequence ≤ s.cursor →
    e ∈ s.returned ∨ ∃ gap ∈ s.gaps, e.sequence < gap.firstAvailable

theorem covers_new (capacity start : ℕ) : (new capacity start).Covers start := by
  constructor <;> simp [new]

theorem Covers.record {start : ℕ} (h : s.Covers start) (hs : s.Retains capacity)
    {code : DiagnosticCode} {actor : Option ActorRef} {operation : Option OperationId}
    {failure : Option FailureRecord} {envelope : Option Envelope} :
    (s.step capacity (.record code actor operation failure envelope)).Covers start := by
  by_cases hrefused : s.history.capacity = 0 ∨ s.history.exhausted = true
  · rw [step_refused hrefused]
    exact { h with }
  · rw [step_taken hrefused]
    have hx : s.history.exhausted = false := by simpa using fun hx => hrefused (Or.inr hx)
    have hnext := hs.next_eq hx
    have hcursor := h.cursor
    exact
      { h with
        issued := fun e he => List.mem_append_left _ (h.issued e he)
        cursor := by
          dsimp only
          rw [List.length_append]
          omega
        covered := by
          intro e he hstart hle
          rcases List.mem_append.mp he with he | he
          · exact h.covered e he hstart hle
          · -- The new entry is numbered beyond the cursor.
            obtain rfl := List.mem_singleton.mp he
            simp only [entry] at hstart hle
            omega }

/-- The cursor after a read is beyond all it returns. -/
theorem receive_cursor {read : DiagnosticRead}
    (hsorted : read.entries.Pairwise fun e e' => e.sequence < e'.sequence)
    (hafter : ∀ e ∈ read.entries, s.cursor < e.sequence) :
    s.cursor ≤ (s.receive read).cursor ∧
      (∀ e ∈ read.entries, e.sequence ≤ (s.receive read).cursor) ∧
      ((s.receive read).cursor = s.cursor ∨
        ∃ e ∈ read.entries, (s.receive read).cursor = e.sequence) := by
  unfold receive
  dsimp only
  cases hlast : read.entries.getLast? with
  | none =>
    have hnil := List.getLast?_eq_none_iff.mp hlast
    simp [hnil]
  | some last =>
    have hmem := List.mem_of_getLast? hlast
    refine ⟨(hafter last hmem).le, ?_, Or.inr ⟨last, hmem, rfl⟩⟩
    intro e he
    obtain ⟨rest, hrest⟩ := List.getLast?_eq_some_iff.mp hlast
    rw [hrest] at he hsorted
    rcases List.mem_append.mp he with he | he
    · exact ((List.pairwise_append.mp hsorted).2.2 e he last List.mem_cons_self).le
    · rw [List.mem_singleton.mp he]
      exact le_rfl

theorem Covers.receive {start : ℕ} (h : s.Covers start) (hs : s.Retains capacity) (limit : ℕ) :
    (s.receive (s.history.read s.cursor limit)).Covers start := by
  have hsorted := hs.read_ascending s.cursor limit
  have hafter : ∀ e ∈ (s.history.read s.cursor limit).entries, s.cursor < e.sequence :=
    fun e he => (mem_of_mem_read he).2
  obtain ⟨hle, hmax, hcursor⟩ := receive_cursor hsorted hafter
  constructor
  · apply List.pairwise_append.mpr
    refine ⟨h.ascending, hsorted, ?_⟩
    intro e he e' he'
    exact (h.within e he).2.trans_lt (hafter e' he')
  · intro e he
    rcases List.mem_append.mp he with he | he
    · exact h.issued e he
    · exact hs.mem_issued (mem_of_mem_read he).1
  · intro e he
    rcases List.mem_append.mp he with he | he
    · exact ⟨(h.within e he).1, (h.within e he).2.trans hle⟩
    · exact ⟨h.start_le.trans_lt (hafter e he), hmax e he⟩
  · exact h.start_le.trans hle
  · rcases hcursor with hcursor | ⟨e, he, hcursor⟩
    · rw [hcursor]
      exact h.cursor
    · obtain ⟨i, hi, _, hseq⟩ := hs.exists_index (hs.mem_issued (mem_of_mem_read he).1)
      right
      rw [hcursor, hseq]
      exact hi
  · intro e he hstart hcovered
    by_cases hold : e.sequence ≤ s.cursor
    · rcases h.covered e he hstart hold with hreturned | ⟨gap, hgap, hlt⟩
      · exact Or.inl (List.mem_append_left _ hreturned)
      · exact Or.inr ⟨gap, List.mem_append_left _ hgap, hlt⟩
    · have hbeyond : s.cursor < e.sequence := not_le.mp hold
      by_cases hretained : e ∈ s.history.entries
      · left
        apply List.mem_append_right
        rcases hs.read_prefix limit hretained hbeyond with hmem | hall
        · exact hmem
        · rcases hcursor with hcursor | ⟨last, hlast, hcursor⟩
          · omega
          · have := hall last hlast
            omega
      · right
        have hgap := (hs.gap_iff s.cursor limit).mpr ⟨e, he, hbeyond, hretained⟩
        obtain ⟨gap, hgap⟩ := Option.ne_none_iff_exists'.mp hgap
        exact ⟨gap, List.mem_append_right _ (by simp [hgap]), hs.gap_covers hgap he hretained⟩

theorem diagnostics_ok {after limit : ℕ} {read : DiagnosticRead}
    (h : diagnostics capacity s.history after limit = .ok read) :
    read = s.history.read after limit := by
  unfold diagnostics at h
  split_ifs at h
  exact (Except.ok.inj h).symm

theorem Retains.step_read (h : s.Retains capacity) (limit : ℕ) :
    (s.step capacity (.read limit)).returned = s.returned ++
      if limit ≤ capacity then
        (s.issued.drop (max s.cursor (s.issued.length - capacity))).take limit else [] := by
  unfold step diagnostics
  dsimp only
  by_cases answered : limit ≤ capacity
  · rw [if_pos answered, if_neg (not_lt.mpr answered), ← h.read_entries]
    rfl
  · rw [if_neg answered, if_pos (not_le.mp answered), List.append_nil]

theorem step_keeps {start : ℕ} (hs : s.Retains capacity) (h : s.Covers start) (event : Event) :
    (s.step capacity event).Retains capacity ∧ (s.step capacity event).Covers start := by
  cases event with
  | record code actor operation failure envelope =>
    refine ⟨?_, h.record hs⟩
    by_cases hrefused : s.history.capacity = 0 ∨ s.history.exhausted = true
    · exact hs.refused hrefused
    · exact hs.taken hrefused
  | read limit =>
    unfold step
    dsimp only
    cases hread : diagnostics capacity s.history s.cursor limit with
    | error e => exact ⟨hs, h⟩
    | ok read =>
      obtain rfl := diagnostics_ok hread
      exact ⟨{ hs with }, h.receive hs limit⟩

theorem run_keeps (capacity start : ℕ) (events : List Event) :
    (run capacity start events).Retains capacity ∧ (run capacity start events).Covers start := by
  refine List.foldlRecOn (motive := fun s => s.Retains capacity ∧ s.Covers start) events
    (step capacity) ?_ ?_
  · exact ⟨retains_new capacity start, covers_new capacity start⟩
  · intro s h event _
    exact step_keeps h.1 h.2 event

/-- An entry the reader will not be given any more: it is behind the cursor, or overwritten. -/
def Missed (start : ℕ) (s : Paging) (e : DiagnosticEntry) : Prop :=
  e ∈ s.issued ∧ start < e.sequence ∧ e ∉ s.returned ∧
    (e.sequence ≤ s.cursor ∨ e ∉ s.history.entries)

/-- After an answered read, every missed entry has been covered by a reported gap. -/
theorem Covers.missed {start limit : ℕ} (h : s.Covers start) (hs : s.Retains capacity)
    {e : DiagnosticEntry} (hmissed : (s.receive (s.history.read s.cursor limit)).Missed start e) :
    ∃ gap ∈ (s.receive (s.history.read s.cursor limit)).gaps, e.sequence < gap.firstAvailable := by
  obtain ⟨hissued, hstart, hreturned, hbehind⟩ := hmissed
  have hcovers := h.receive hs limit
  by_cases hle : e.sequence ≤ (s.receive (s.history.read s.cursor limit)).cursor
  · exact (hcovers.covered e hissued hstart hle).resolve_left hreturned
  · have hgone : e ∉ s.history.entries := hbehind.resolve_left hle
    have hcursor := (receive_cursor (hs.read_ascending s.cursor limit)
      fun e he => (mem_of_mem_read he).2).1
    obtain ⟨gap, hgap⟩ := Option.ne_none_iff_exists'.mp
      ((hs.gap_iff s.cursor limit).mpr ⟨e, hissued, by omega, hgone⟩)
    exact ⟨gap, List.mem_append_right _ (by simp [hgap]), hs.gap_covers hgap hissued hgone⟩

/-- Whatever is recorded and read, in whatever order: the entries retained are the latest issued,
at most as many as the capacity, numbered without a repetition from one on; every other record is
counted, up to saturation; a reader sees the entries once and in order; a read that is answered
hands over the first retained entries beyond the reader's number; after it, every entry that was
missed is covered by a gap; and a gap is reported exactly when an entry beyond the requested number
has been overwritten. -/
theorem run_paging (capacity start : ℕ) (events : List Event) :
    let s := run capacity start events
    (s.history.entries = s.issued.drop (s.issued.length - capacity) ∧
      s.history.entries.length ≤ capacity ∧
      s.issued.map (·.sequence) = List.range' 1 s.issued.length ∧
      s.issued.length ≤ u64Max) ∧
    (s.history.entries.length ≤ s.records ∧
      s.history.dropped = min (s.records - s.history.entries.length) u64Max) ∧
    ((s.returned.map (·.sequence)).Pairwise (· < ·) ∧
      ∀ e ∈ s.returned, e ∈ s.issued ∧ start < e.sequence) ∧
    (∀ limit, (s.step capacity (.read limit)).returned = s.returned ++
      if limit ≤ capacity then
        (s.issued.drop (max s.cursor (s.issued.length - capacity))).take limit else []) ∧
    (∀ limit ≤ capacity, ∀ e, (s.step capacity (.read limit)).Missed start e →
      ∃ gap ∈ (s.step capacity (.read limit)).gaps, e.sequence < gap.firstAvailable) ∧
    ∀ after limit, (s.history.read after limit).gap ≠ none ↔
      ∃ e ∈ s.issued, after < e.sequence ∧ e ∉ s.history.entries := by
  intro s
  obtain ⟨hs, h⟩ := run_keeps capacity start events
  refine ⟨⟨hs.latest, ?_, hs.numbered, hs.issued_le⟩, ⟨hs.retained_le, hs.dropped⟩,
    ⟨List.pairwise_map.mpr h.ascending, fun e he => ⟨h.issued e he, (h.within e he).1⟩⟩,
    hs.step_read, ?_, hs.gap_iff⟩
  · exact hs.length_eq.trans_le (min_le_right _ _)
  · intro limit hlimit e
    have hread : s.step capacity (.read limit) = s.receive (s.history.read s.cursor limit) := by
      simp only [step, diagnostics, if_neg (not_lt.mpr hlimit)]
    rw [hread]
    exact h.missed hs

end Paging

end Actorplane
