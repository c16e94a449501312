import Actorplane.Core.Publications
import Actorplane.Core.Routes

/-!
# The history of publications

What the publication history says about one publication, and the invariant that
ties it to the table: a pending publication has attempted a prefix of the routes
it captured, and a concluded one has a single report that accounts for all of them.
-/

namespace Actorplane

variable {world : ℕ} {log : List Event} {id : ℕ} {c c' : Core} {m : Move} {p : Publication}

/-! ## Reading the history -/

/-- Route, target and delivery of every attempt of a publication. -/
def attemptsOf (log : List Event) (id : ℕ) : List (ℕ × ActorRef × Option ℕ) :=
  log.filterMap fun
    | .attempted p _ route target delivery => if p = id then some (route, target, delivery) else none
    | _ => none

def capturesOf (log : List Event) (id : ℕ) : List (List (ℕ × ActorRef)) :=
  log.filterMap fun
    | .captured p routes => if p = id then some routes else none
    | _ => none

def reportsOf (log : List Event) (id : ℕ) : List DeliveryReport :=
  log.filterMap fun
    | .concluded p report => if p = id then some report else none
    | _ => none

def sourcesOf (log : List Event) (id : ℕ) : List ActorRef :=
  log.filterMap fun
    | .accepted p source => if p = id then some source else none
    | _ => none

@[simp] theorem attemptsOf_append (log log' : List Event) (id : ℕ) :
    attemptsOf (log ++ log') id = attemptsOf log id ++ attemptsOf log' id :=
  List.filterMap_append

@[simp] theorem capturesOf_append (log log' : List Event) (id : ℕ) :
    capturesOf (log ++ log') id = capturesOf log id ++ capturesOf log' id :=
  List.filterMap_append

@[simp] theorem reportsOf_append (log log' : List Event) (id : ℕ) :
    reportsOf (log ++ log') id = reportsOf log id ++ reportsOf log' id :=
  List.filterMap_append

@[simp] theorem sourcesOf_append (log log' : List Event) (id : ℕ) :
    sourcesOf (log ++ log') id = sourcesOf log id ++ sourcesOf log' id :=
  List.filterMap_append

/-- Captured routes, attempts made and the running report of one publication. -/
structure Progress (log : List Event) (id : ℕ) (routes : Option (List (ℕ × ActorRef)))
    (cursor : ℕ) (report : DeliveryReport) : Prop where
  captures : capturesOf log id = routes.toList
  ascending : ((routes.getD []).map Prod.fst).Pairwise (· < ·)
  attempts : (attemptsOf log id).map (fun a => (a.1, a.2.1)) = (routes.getD []).take cursor
  cursor_le : cursor ≤ (routes.getD []).length
  matched : report.matched = (routes.getD []).length
  admitted : report.admitted = (attemptsOf log id).countP (·.2.2.isSome)
  total : report.admitted + report.rejected = cursor

/-- Events that do not concern the publication change nothing in its progress. -/
theorem Progress.frame {log' : List Event} {routes : Option (List (ℕ × ActorRef))} {cursor : ℕ}
    {report : DeliveryReport} (h : Progress log id routes cursor report)
    (hc : capturesOf log' id = capturesOf log id)
    (ha : attemptsOf log' id = attemptsOf log id) : Progress log' id routes cursor report where
  captures := hc.trans h.captures
  ascending := h.ascending
  attempts := ha ▸ h.attempts
  cursor_le := h.cursor_le
  matched := h.matched
  admitted := ha ▸ h.admitted
  total := h.total

/-- What the report of a concluded publication accounts for. -/
structure Accounted (log : List Event) (id : ℕ) (report : DeliveryReport) : Prop where
  total : report.admitted + report.rejected = report.matched
  admitted : report.admitted = (attemptsOf log id).countP (·.2.2.isSome)
  matched : report.matched = ((capturesOf log id).head?.getD []).length
  captured_once : (capturesOf log id).length ≤ 1
  attempts : (attemptsOf log id).map (fun a => (a.1, a.2.1)) <+: (capturesOf log id).head?.getD []
  ascending : (((capturesOf log id).head?.getD []).map Prod.fst).Pairwise (· < ·)
  routed : report.outcome = .routed → ∃ routes, capturesOf log id = [routes] ∧
    (attemptsOf log id).map (fun a => (a.1, a.2.1)) = routes

theorem Accounted.frame {log' : List Event} {report : DeliveryReport}
    (h : Accounted log id report) (hc : capturesOf log' id = capturesOf log id)
    (ha : attemptsOf log' id = attemptsOf log id) : Accounted log' id report := by
  constructor
  · exact h.total
  · exact ha ▸ h.admitted
  · exact hc ▸ h.matched
  · exact hc ▸ h.captured_once
  · exact ha ▸ hc ▸ h.attempts
  · exact hc ▸ h.ascending
  · exact ha ▸ hc ▸ h.routed

/-- Closing a publication counts the unattempted tail as rejected. -/
theorem Progress.closing (h : Progress log id p.routes p.cursor p.report)
    {outcome : PublicationOutcome} (hall : outcome = .routed → p.Exhausted) :
    Accounted log id (p.closing outcome) := by
  have hhead : (capturesOf log id).head?.getD [] = p.routes.getD [] := by
    rw [h.captures]
    cases p.routes <;> rfl
  have hpre : (p.routes.getD []).take p.cursor <+: p.routes.getD [] := List.take_prefix _ _
  have hle := h.cursor_le
  have hm := h.matched
  have ht := h.total
  have hclose : (p.closing outcome).outcome = outcome ∧
      (p.closing outcome).admitted = p.report.admitted ∧
      (p.closing outcome).matched = p.report.matched ∧
      (p.closing outcome).rejected = p.report.rejected + (p.report.matched - p.cursor) := by
    unfold Publication.closing
    cases hr : p.routes with
    | none =>
      rw [hr] at hm hle
      simp only [Option.getD_none, List.length_nil] at hm hle
      refine ⟨rfl, rfl, rfl, ?_⟩
      show p.report.rejected = _
      omega
    | some routes => exact ⟨rfl, rfl, rfl, rfl⟩
  obtain ⟨k0, k1, k2, k3⟩ := hclose
  refine ⟨?_, k1 ▸ h.admitted, ?_, ?_, ?_, ?_, fun hrouted => ?_⟩
  · rw [k1, k2, k3]
    omega
  · rw [hhead, k2, hm]
  · rw [h.captures]
    cases p.routes <;> simp
  · rw [hhead, h.attempts]
    exact hpre
  · rw [hhead]
    exact h.ascending
  · obtain ⟨routes, hr, hcur⟩ := hall (k0.symm.trans hrouted)
    refine ⟨routes, by rw [h.captures, hr]; rfl, ?_⟩
    rw [h.attempts, hr, hcur]
    exact List.take_length

/-! ## The invariant -/

/-- No event of the history concerns the publication. -/
structure Silent (log : List Event) (id : ℕ) : Prop where
  captures : capturesOf log id = []
  attempts : attemptsOf log id = []
  reports : reportsOf log id = []
  sources : sourcesOf log id = []

structure Core.Publishing (c : Core) : Prop where
  sound : c.publications.Sound
  pending : ∀ id p, c.publications.entries.lookup id = some p →
    Progress c.published id p.routes p.cursor p.report ∧ reportsOf c.published id = [] ∧
      sourcesOf c.published id = [p.source]
  concluded : ∀ id report, report ∈ reportsOf c.published id →
    reportsOf c.published id = [report] ∧ c.publications.entries.lookup id = none ∧
      (∃ source, sourcesOf c.published id = [source]) ∧ Accounted c.published id report
  silent : ∀ id, c.publications.nextId ≤ id → Silent c.published id
  status : ∀ id status, c.publications.statusOf id = some status →
    (∃ report, status = .terminal report ∧ report ∈ reportsOf c.published id) ∨
      (∀ report, status ≠ .terminal report) ∧ reportsOf c.published id = []

/-- Histories that agree on a publication. -/
structure SameHistory (log log' : List Event) (id : ℕ) : Prop where
  captures : capturesOf log' id = capturesOf log id
  attempts : attemptsOf log' id = attemptsOf log id
  reports : reportsOf log' id = reportsOf log id
  sources : sourcesOf log' id = sourcesOf log id

/-- An event that names another publication. -/
theorem sameHistory_append {e : Event}
    (h : match e with
      | .accepted p _ => p ≠ id
      | .captured p _ => p ≠ id
      | .attempted p _ _ _ _ => p ≠ id
      | .concluded p _ => p ≠ id
      | _ => True) : SameHistory log (log ++ [e]) id := by
  constructor <;> cases e <;>
    simp_all [capturesOf, attemptsOf, reportsOf, sourcesOf]

/-- The invariant follows if everything but one publication keeps its history and entry. -/
theorem Core.Publishing.change (h : c.Publishing) (key : ℕ) (hs : c'.publications.Sound)
    (hn : c.publications.nextId ≤ c'.publications.nextId)
    (hlog : ∀ i, i ≠ key → SameHistory c.published c'.published i)
    (hent : ∀ i, i ≠ key →
      c'.publications.entries.lookup i = c.publications.entries.lookup i)
    (hst : ∀ i, i ≠ key → ∀ status, c'.publications.statusOf i = some status →
      c.publications.statusOf i = some status ∨
        (∀ report, status ≠ .terminal report) ∧ c.publications.nextId ≤ i)
    (hpending : ∀ p, c'.publications.entries.lookup key = some p →
      Progress c'.published key p.routes p.cursor p.report ∧ reportsOf c'.published key = [] ∧
        sourcesOf c'.published key = [p.source])
    (hconcluded : ∀ report, report ∈ reportsOf c'.published key →
      reportsOf c'.published key = [report] ∧ c'.publications.entries.lookup key = none ∧
        (∃ source, sourcesOf c'.published key = [source]) ∧ Accounted c'.published key report)
    (hsilent : c'.publications.nextId ≤ key → Silent c'.published key)
    (hstatus : ∀ status, c'.publications.statusOf key = some status →
      (∃ report, status = .terminal report ∧ report ∈ reportsOf c'.published key) ∨
        (∀ report, status ≠ .terminal report) ∧ reportsOf c'.published key = []) :
    c'.Publishing := by
  refine ⟨hs, fun i p hp => ?_, fun i report hr => ?_, fun i hi => ?_, fun i status hi => ?_⟩
  · by_cases he : i = key
    · exact he ▸ hpending p (he ▸ hp)
    · obtain ⟨h1, h2, h3⟩ := h.pending i p (hent i he ▸ hp)
      have hl := hlog i he
      exact ⟨h1.frame hl.captures hl.attempts, hl.reports.trans h2, hl.sources.trans h3⟩
  · by_cases he : i = key
    · exact he ▸ hconcluded report (he ▸ hr)
    · have hl := hlog i he
      obtain ⟨h1, h2, ⟨s, h3⟩, h4⟩ := h.concluded i report (hl.reports ▸ hr)
      exact ⟨hl.reports.trans h1, (hent i he).trans h2, ⟨s, hl.sources.trans h3⟩,
        h4.frame hl.captures hl.attempts⟩
  · by_cases he : i = key
    · exact he ▸ hsilent (he ▸ hi)
    · have hl := hlog i he
      obtain ⟨h1, h2, h3, h4⟩ := h.silent i (hn.trans hi)
      exact ⟨hl.captures.trans h1, hl.attempts.trans h2, hl.reports.trans h3, hl.sources.trans h4⟩
  · by_cases he : i = key
    · exact he ▸ hstatus status (he ▸ hi)
    · rw [(hlog i he).reports]
      rcases hst i he status hi with hold | ⟨hno, hfresh⟩
      · exact h.status i status hold
      · exact .inr ⟨hno, (h.silent i hfresh).reports⟩

theorem Core.Publishing.concluding (h : c.Publishing)
    (hp : c.publications.entries.lookup id = some p) {outcome : PublicationOutcome}
    (hall : outcome = .routed → p.Exhausted)
    (hpub : c'.publications = c.publications.conclude p outcome)
    (hlog : c'.published = c.published ++ [.concluded p.ticket (p.closing outcome)]) :
    c'.Publishing := by
  have hkey := (h.sound.key id p hp).1
  subst hkey
  obtain ⟨h1, h2, -, h4, h5, h6⟩ := h.sound.conclude hp outcome
  obtain ⟨k1, k2, k3⟩ := h.pending _ p hp
  have hcap : capturesOf c'.published p.ticket = capturesOf c.published p.ticket := by
    simp [hlog, capturesOf]
  have hatt : attemptsOf c'.published p.ticket = attemptsOf c.published p.ticket := by
    simp [hlog, attemptsOf]
  have hrep : reportsOf c'.published p.ticket = [p.closing outcome] := by
    rw [hlog, reportsOf_append, k2]
    simp [reportsOf]
  have hsrc : sourcesOf c'.published p.ticket = [p.source] := by
    rw [hlog, sourcesOf_append, k3]
    simp [sourcesOf]
  have hnone : c'.publications.entries.lookup p.ticket = none := by
    rw [hpub, h2]
    simp
  refine h.change p.ticket (hpub ▸ h1) (by rw [hpub, h4]) (fun i hi => ?_) (fun i hi => ?_)
    (fun i hi status hs => ?_) (fun q hq => ?_) (fun report hr => ?_) (fun hle => ?_)
    fun status hs => ?_
  · rw [hlog]
    exact sameHistory_append (Ne.symm hi)
  · rw [hpub, h2, Assoc.lookup_erase_ite, if_neg hi]
  · exact .inl (h6 i hi ▸ hpub ▸ hs)
  · simp [hnone] at hq
  · rw [hrep] at hr ⊢
    rw [List.mem_singleton.mp hr]
    exact ⟨rfl, hnone, ⟨_, hsrc⟩, (k1.closing hall).frame hcap hatt⟩
  · rw [hpub, h4] at hle
    exact absurd (h.sound.key _ p hp).2 (by omega)
  · rw [hpub] at hs
    rcases h5 with h5 | h5
    · simp [h5] at hs
    · rw [h5] at hs
      cases hs
      exact .inl ⟨_, rfl, by simp [hrep]⟩

/-- Tickets that no entry refers to come and go. -/
theorem Core.Publishing.tickets (h : c.Publishing) (hs : c'.publications.Sound)
    (hlog : c'.published = c.published)
    (hent : c'.publications.entries = c.publications.entries)
    (hn : c.publications.nextId ≤ c'.publications.nextId)
    (hst : ∀ i status, c'.publications.statusOf i = some status →
      c.publications.statusOf i = some status ∨
        (∀ report, status ≠ .terminal report) ∧ c.publications.nextId ≤ i) :
    c'.Publishing := by
  refine ⟨hs, ?_, ?_, fun i hi => ?_, fun i status hi => ?_⟩
  · rw [hent, hlog]
    exact h.pending
  · rw [hent, hlog]
    exact h.concluded
  · rw [hlog]
    exact h.silent i (hn.trans hi)
  · rw [hlog]
    rcases hst i status hi with hold | ⟨hno, hfresh⟩
    · exact h.status i status hold
    · exact .inr ⟨hno, (h.silent i hfresh).reports⟩

theorem Core.Publishing.accepting (h : c.Publishing)
    (hok : (c.publications.reserve p.source p.staged).1 = .ok p.ticket) (hr : p.routes = none)
    (hc : p.cursor = 0) (ha : p.report.admitted = 0) (hj : p.report.rejected = 0)
    (hm : p.report.matched = 0)
    (hpub : c'.publications = (c.publications.reserve p.source p.staged).2.insert p)
    (hlog : c'.published = c.published ++ [.accepted p.ticket p.source]) : c'.Publishing := by
  obtain ⟨h0, h1, h2, -, h4, h5⟩ := h.sound.accept hok
  obtain ⟨k1, k2, k3, k4⟩ := h.silent p.ticket h0.ge
  have hcap : capturesOf c'.published p.ticket = [] := by
    rw [hlog, capturesOf_append, k1]
    rfl
  have hatt : attemptsOf c'.published p.ticket = [] := by
    rw [hlog, attemptsOf_append, k2]
    rfl
  have hrep : reportsOf c'.published p.ticket = [] := by
    rw [hlog, reportsOf_append, k3]
    rfl
  have hsrc : sourcesOf c'.published p.ticket = [p.source] := by
    rw [hlog, sourcesOf_append, k4]
    simp [sourcesOf]
  refine h.change p.ticket (hpub ▸ h1) (by rw [hpub, h4]; omega) (fun i hi => ?_)
    (fun i hi => ?_) (fun i hi status hs => ?_) (fun q hq => ?_) (fun report hm => ?_)
    (fun hle => ?_) fun status hs => ?_
  · rw [hlog]
    exact sameHistory_append (Ne.symm hi)
  · rw [hpub, h2, if_neg hi]
  · rw [hpub, h5, if_neg hi] at hs
    exact .inl hs
  · rw [hpub, h2, if_pos rfl] at hq
    cases hq
    refine ⟨⟨?_, ?_, ?_, ?_, ?_, ?_, ?_⟩, hrep, hsrc⟩
    · simp [hcap, hr]
    · simp [hr]
    · simp [hatt, hr]
    · simp [hr, hc]
    · simp [hr, hm]
    · simp [hatt, ha]
    · omega
  · simp [hrep] at hm
  · rw [hpub, h4] at hle
    omega
  · rw [hpub, h5, if_pos rfl] at hs
    cases hs
    refine .inr ⟨fun report => ?_, hrep⟩
    split_ifs <;> simp

/-- An entry is rewritten and one event about it is recorded. -/
theorem Core.Publishing.advancing (h : c.Publishing)
    (hp : c.publications.entries.lookup id = some p) {q : Publication} {n : ℕ} {e : Event}
    (hq : q.ticket = p.ticket ∧ q.source = p.source ∧ q.staged = p.staged)
    (hpub : c'.publications = { c.publications.update q with snapshotEntries := n })
    (hlog : c'.published = c.published ++ [e])
    (he : ∀ i, i ≠ id → SameHistory c.published (c.published ++ [e]) i)
    (hprogress : Progress c.published id p.routes p.cursor p.report →
      Progress (c.published ++ [e]) id q.routes q.cursor q.report)
    (hrep : reportsOf [e] id = []) (hsrc : sourcesOf [e] id = []) : c'.Publishing := by
  have hkey := (h.sound.key id p hp).1
  obtain ⟨k1, k2, k3⟩ := h.pending _ p hp
  have hqid : q.ticket = id := hq.1.trans hkey
  have hlook : ∀ i, c'.publications.entries.lookup i =
      if i = id then some q else c.publications.entries.lookup i := by
    intro i
    rw [hpub, ← hqid]
    exact Assoc.lookup_insert_ite _ _ _ _
  have hrep' : reportsOf c'.published id = [] := by rw [hlog, reportsOf_append, k2, hrep]; rfl
  have hsrc' : sourcesOf c'.published id = [p.source] := by
    rw [hlog, sourcesOf_append, k3, hsrc]
    rfl
  refine h.change id (hpub ▸ h.sound.update hp hq n) (hpub ▸ le_rfl)
    (fun i hi => hlog ▸ he i hi) (fun i hi => ?_) (fun i hi status hs => ?_) (fun x hx => ?_)
    (fun report hr => ?_) (fun hle => ?_) fun status hs => ?_
  · rw [hlook, if_neg hi]
  · rw [hpub] at hs
    exact .inl hs
  · rw [hlook, if_pos rfl] at hx
    cases hx
    exact ⟨hlog ▸ hprogress k1, hrep', hsrc'.trans (by rw [hq.2.1])⟩
  · simp [hrep'] at hr
  · rw [hpub] at hle
    exact absurd (h.sound.key id p hp).2 (not_lt.mpr hle)
  · rw [hpub] at hs
    rcases h.status id status hs with ⟨report, -, hr⟩ | ⟨hno, -⟩
    · simp [k2] at hr
    · exact .inr ⟨hno, hrep'⟩

theorem Progress.capture {report : DeliveryReport} {cursor : ℕ} (h : Progress log id none cursor report)
    {routes : List (ℕ × ActorRef)} (ha : (routes.map Prod.fst).Pairwise (· < ·)) :
    Progress (log ++ [.captured id routes]) id (some routes) cursor
      { report with matched := routes.length } := by
  have hzero : cursor = 0 := by simpa using h.cursor_le
  have hcap := h.captures
  have hatt := h.attempts
  have hatt' : attemptsOf (log ++ [.captured id routes]) id = attemptsOf log id := by
    simp [attemptsOf]
  subst hzero
  refine ⟨?_, ha, ?_, by simp, by simp, hatt' ▸ h.admitted, h.total⟩
  · rw [capturesOf_append, hcap]
    simp [capturesOf]
  · rw [hatt', hatt]
    simp

theorem Progress.attempt {routes : List (ℕ × ActorRef)} {cursor route : ℕ}
    {report report' : DeliveryReport} {source target : ActorRef} {delivery : Option ℕ}
    (h : Progress log id (some routes) cursor report)
    (hr : routes[cursor]? = some (route, target)) (hm : report'.matched = report.matched)
    (ha : report'.admitted = report.admitted + (if delivery.isSome then 1 else 0))
    (hj : report'.rejected = report.rejected + (if delivery.isSome then 0 else 1)) :
    Progress (log ++ [.attempted id source route target delivery]) id (some routes) (cursor + 1)
      report' := by
  have hlt := (List.getElem?_eq_some_iff.mp hr).1
  have hatt : attemptsOf (log ++ [.attempted id source route target delivery]) id =
      attemptsOf log id ++ [(route, target, delivery)] := by
    simp [attemptsOf]
  have htotal := h.total
  have hadm := h.admitted
  refine ⟨?_, h.ascending, ?_, hlt, hm.trans h.matched, ?_, ?_⟩
  · rw [capturesOf_append, h.captures]
    simp [capturesOf]
  · rw [hatt, List.map_append, h.attempts]
    simp [List.take_add_one, hr]
  · rw [hatt, List.countP_append, ha, hadm]
    simp
  · rw [ha, hj]
    split_ifs <;> omega

/-- The oldest staged publication of a source is released. -/
theorem Core.Publishing.unstaging (h : c.Publishing)
    (hpub : c'.publications = c.publications.unstage id) (hlog : c'.published = c.published) :
    c'.Publishing := by
  obtain ⟨h1, h2, -, h4, h5⟩ := h.sound.unstage id
  rw [← hpub] at h1 h2 h4 h5
  refine ⟨h1, fun i p hp => ?_, fun i report hm => ?_, fun i hi => ?_, fun i status hi => ?_⟩
  · rw [hlog]
    rw [h2] at hp
    split_ifs at hp with he
    · obtain ⟨q, hq, rfl⟩ := Option.map_eq_some_iff.mp hp
      exact he ▸ h.pending id q hq
    · exact h.pending i p hp
  · rw [hlog] at hm ⊢
    obtain ⟨k1, k2, k3, k4⟩ := h.concluded i report hm
    refine ⟨k1, ?_, k3, k4⟩
    rw [h2]
    split_ifs with he
    · rw [← he, k2]
      rfl
    · exact k2
  · rw [hlog]
    exact h.silent i (h4 ▸ hi)
  · rw [hlog]
    rw [h5] at hi
    split_ifs at hi with he
    · cases hi
      obtain ⟨q, hq⟩ := Option.isSome_iff_exists.mp he.2
      exact .inr ⟨by simp, he.1 ▸ (h.pending id q hq).2.1⟩
    · exact h.status i status hi

/-- An unfinished publication waits for its next turn. -/
theorem Core.Publishing.requeuing (h : c.Publishing)
    (hp : c.publications.entries.lookup id = some p) {ready : List ActorRef}
    (hready : c.publications.ready = p.source :: ready)
    (hpub : c'.publications = c.publications.requeue p) (hlog : c'.published = c.published) :
    c'.Publishing := by
  obtain ⟨h1, h2, -, h4, h5⟩ := h.sound.requeue hp hready
  rw [← hpub] at h1 h2 h4 h5
  refine ⟨h1, ?_, ?_, fun i hi => ?_, fun i status hi => ?_⟩
  · rw [h2, hlog]
    exact h.pending
  · rw [h2, hlog]
    exact h.concluded
  · rw [hlog]
    exact h.silent i (h4 ▸ hi)
  · rw [hlog]
    rw [h5] at hi
    split_ifs at hi with he
    · cases hi
      exact .inr ⟨by simp, he ▸ (h.pending id p hp).2.1⟩
    · exact h.status i status hi

theorem Core.Publishing.step (h : c.Publishing) (hr : c.Routed) (hs : Step world c m c') :
    c'.Publishing := by
  cases hs
  case conclude id outcome p hp hall => exact h.concluding hp hall rfl rfl
  case reserveTicket source staged =>
    have hsound := h.sound.reserve source staged
    rcases c.publications.reserve_frame source staged with ⟨he, -⟩ | ⟨-, he, -, -, -, hn, hst⟩
    · exact h.tickets hsound rfl (congrArg _ he) (congrArg PublicationTable.nextId he).ge
        fun i status hi => .inl (he ▸ hi)
    · refine h.tickets hsound rfl he (hn.symm ▸ Nat.le_succ _) fun i status hi => ?_
      rw [hst] at hi
      by_cases hin : i = c.publications.nextId
      · rw [if_pos hin] at hi
        cases hi
        refine .inr ⟨fun report => ?_, hin.ge⟩
        split_ifs <;> simp
      · exact .inl (by rwa [if_neg hin] at hi)
  case cloneHandle id =>
    obtain ⟨h1, h2, h3, h4, h5, h6⟩ := c.publications.cloneHandle_frame id
    exact h.tickets (h.sound.handles h1 h2 h3 h4 h5 fun i => .inl (h6 i)) rfl h1 h5.ge
      fun i status hi => .inl (h6 i ▸ hi)
  case dropHandle id =>
    obtain ⟨h1, h2, h3, h4, h5, h6⟩ := c.publications.dropHandle_frame id
    refine h.tickets (h.sound.handles h1 h2 h3 h4 h5 h6) rfl h1 h5.ge fun i status hi => ?_
    rcases h6 i with he | ⟨he, -⟩
    · exact .inl (he ▸ hi)
    · simp [he] at hi
  case accept p n b s hok hr hc ha hj hm _ _ _ _ _ =>
    exact h.accepting hok hr hc ha hj hm rfl rfl
  case flush r id n b s rest _ _ _ _ =>
    exact h.unstaging rfl rfl
  case capture id routes p hp _ _ hnone hroutes =>
    have hkey := (h.sound.key id p hp).1
    refine h.advancing (q := { p with
      routes := some routes
      report := { p.report with matched := routes.length } }) hp ⟨rfl, rfl, rfl⟩ rfl rfl
      (fun i hi => sameHistory_append (hkey ▸ Ne.symm hi)) (fun hpr => ?_) (by simp [reportsOf])
      (by simp [sourcesOf])
    rw [hnone] at hpr
    rw [hkey]
    exact hpr.capture (hroutes ▸ hr.indexed.snapshot_strict _ _)
  case attempt id route target p routes hp _ hroutes hget =>
    have hkey := (h.sound.key id p hp).1
    refine h.advancing (q := p.attempted false) (n := c.publications.snapshotEntries) hp
      ⟨rfl, rfl, rfl⟩ rfl rfl (fun i hi => sameHistory_append (hkey ▸ Ne.symm hi)) (fun hpr => ?_)
      (by simp [reportsOf]) (by simp [sourcesOf])
    rw [hroutes] at hpr
    rw [hkey]
    simp only [Publication.attempted, hroutes]
    exact hpr.attempt hget rfl rfl rfl
  case deliver id route target mail p routes b sub hp _ hroutes hget _ _ _ _ _ =>
    have hkey := (h.sound.key id p hp).1
    refine h.advancing (q := p.attempted true) (n := c.publications.snapshotEntries) hp
      ⟨rfl, rfl, rfl⟩ rfl rfl (fun i hi => sameHistory_append (hkey ▸ Ne.symm hi)) (fun hpr => ?_)
      (by simp [reportsOf]) (by simp [sourcesOf])
    rw [hroutes] at hpr
    rw [hkey]
    simp only [Publication.attempted, hroutes]
    exact hpr.attempt hget rfl rfl rfl
  case requeue id p ready hp _ hready =>
    exact h.requeuing hp hready rfl rfl
  all_goals exact ⟨h.sound, h.pending, h.concluded, h.silent, h.status⟩

end Actorplane
