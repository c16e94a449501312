import Actorplane.Locked.Attempts
import Actorplane.Reach.Ledgers

/-!
# Publications along runs

A publication captures the routes of its source and port once, in its first turn,
and attempts them once each in ascending order. Its report accounts for what was
enqueued, and never changes.
-/

namespace Actorplane

variable {world : ℕ} {c c' : Core} {m : Move} {P : Move → Prop}

/-! ## What a move records about publications -/

def Move.records : Move → Event → Prop
  | .conclude id _ _, .concluded id' _ => id' = id
  | .accept p, .accepted id source => id = p.ticket ∧ source = p.source
  | .capture id routes _, .captured id' routes' => id' = id ∧ routes' = routes
  | .attempt id route target delivery, .attempted id' _ route' target' event =>
    id' = id ∧ route' = route ∧ target' = target ∧ event = delivery.map Mail.eventId
  | _, _ => False

theorem Core.Publishing.records (h : c.Publishing) (hs : Step world c m c') :
    ∃ new, c'.published = c.published ++ new ∧ ∀ e ∈ new, m.records e := by
  have hkey : ∀ {id : ℕ} {p : Publication}, c.publications.entries.lookup id = some p →
      p.ticket = id := fun hp => (h.sound.key _ _ hp).1
  cases hs
  case conclude id outcome p hp _ =>
    exact ⟨_, rfl, by simpa [Move.records] using hkey hp⟩
  case accept p _ _ _ _ _ _ _ _ _ _ _ _ _ _ => exact ⟨_, rfl, by simp [Move.records]⟩
  case capture id routes p hp _ _ _ _ =>
    exact ⟨_, rfl, by simpa [Move.records] using hkey hp⟩
  case attempt id route target p routes hp _ _ _ =>
    exact ⟨_, rfl, by simpa [Move.records] using hkey hp⟩
  case deliver id route target mail p routes b sub hp _ _ _ _ _ _ _ _ =>
    exact ⟨_, rfl, by simpa [Move.records] using hkey hp⟩
  all_goals exact ⟨[], (List.append_nil _).symm, by simp⟩

theorem Steps.records (hs : Steps world P c c') (hv : c.Valid world) :
    ∃ new, c'.published = c.published ++ new ∧ ∀ e ∈ new, ∃ m, P m ∧ m.records e := by
  induction hs with
  | refl => exact ⟨[], (List.append_nil _).symm, by simp⟩
  | tail hsteps hp hst ih =>
    obtain ⟨new, hnew, hall⟩ := ih
    obtain ⟨more, hmore, hone⟩ := (hsteps.valid hv).publishing.records hst
    refine ⟨new ++ more, by rw [hmore, hnew, List.append_assoc], fun e he => ?_⟩
    rcases List.mem_append.mp he with he | he
    · exact hall e he
    · exact ⟨_, hp, hone e he⟩

/-- Publication histories only grow. -/
theorem Steps.published_grows (hs : Steps world P c c') (hv : c.Valid world) :
    c.published <+: c'.published := by
  obtain ⟨new, hnew, -⟩ := hs.records hv
  exact ⟨new, hnew.symm⟩

/-- The captures and attempts of one publication. -/
structure Traced (log : List Event) (id : ℕ) : Prop where
  once : (capturesOf log id).length ≤ 1
  ascending : (((capturesOf log id).head?.getD []).map Prod.fst).Pairwise (· < ·)
  attempts : (attemptsOf log id).map (fun a => (a.1, a.2.1)) <+: (capturesOf log id).head?.getD []

theorem Progress.traced {log : List Event} {id : ℕ} {routes : Option (List (ℕ × ActorRef))}
    {cursor : ℕ} {report : DeliveryReport} (h : Progress log id routes cursor report) :
    Traced log id := by
  have hhead : (capturesOf log id).head?.getD [] = routes.getD [] := by
    rw [h.captures]
    cases routes <;> rfl
  refine ⟨?_, hhead ▸ h.ascending, ?_⟩
  · rw [h.captures]
    cases routes <;> simp
  · rw [hhead, h.attempts]
    exact List.take_prefix _ _

/-- A move that adds to the trace of a publication leaves it pending. -/
theorem Core.Publishing.touches (h : c.Publishing) (hs : Step world c m c') (id : ℕ) :
    (capturesOf c'.published id = capturesOf c.published id ∧
      attemptsOf c'.published id = attemptsOf c.published id) ∨
      ∃ p, c'.publications.entries.lookup id = some p := by
  have hkey : ∀ {i : ℕ} {p : Publication}, c.publications.entries.lookup i = some p →
      p.ticket = i := fun hp => (h.sound.key _ _ hp).1
  have hupdate : ∀ {q : Publication}, (c.publications.update q).entries.lookup q.ticket = some q := by
    simp [PublicationTable.update]
  cases hs
  case capture i routes p hp _ _ _ _ =>
    by_cases hi : p.ticket = id
    · rw [← hi]
      exact .inr ⟨_, hupdate⟩
    · exact .inl ⟨by simp [capturesOf, hi], by simp [attemptsOf]⟩
  case attempt i route target p routes hp _ _ _ =>
    by_cases hi : p.ticket = id
    · exact .inr ⟨p.attempted false, hi ▸ hupdate⟩
    · exact .inl ⟨by simp [capturesOf], by simp [attemptsOf, hi]⟩
  case deliver i route target mail p routes b sub hp _ _ _ _ _ _ _ _ =>
    by_cases hi : p.ticket = id
    · exact .inr ⟨p.attempted true, hi ▸ hupdate⟩
    · exact .inl ⟨by simp [capturesOf], by simp [attemptsOf, hi]⟩
  all_goals exact .inl ⟨by simp [capturesOf, Core.enqueue, Core.release, Core.setNode, Core.setHold],
    by simp [attemptsOf, Core.enqueue, Core.release, Core.setNode, Core.setHold]⟩

theorem Steps.traced (hs : Steps world P c c') (hv : c.Valid world)
    (h : ∀ id, Traced c.published id) (id : ℕ) : Traced c'.published id := by
  induction hs with
  | refl => exact h id
  | tail hsteps _ hst ih =>
    have hv := hsteps.valid hv
    rcases hv.publishing.touches hst id with ⟨hc, ha⟩ | ⟨p, hp⟩
    · exact ⟨hc ▸ ih.once, hc ▸ ih.ascending, hc ▸ ha ▸ ih.attempts⟩
    · exact ((hv.step hst).publishing.pending id p hp).1.traced

/-- The deliveries of one publication are among those of all. -/
theorem sublist_deliveredIds (log : List Event) (id : ℕ) :
    ((attemptsOf log id).filterMap (·.2.2)).Sublist (deliveredIds log) := by
  induction log with
  | nil => exact .refl _
  | cons e log ih =>
    cases e
    case attempted p s route target delivery =>
      by_cases hp : p = id
      · cases delivery with
        | none => simpa [attemptsOf, deliveredIds, hp] using ih
        | some x => simpa [attemptsOf, deliveredIds, hp] using ih
      · cases delivery with
        | none => simpa [attemptsOf, deliveredIds, hp] using ih
        | some x => simpa [attemptsOf, deliveredIds, hp] using ih.cons x
    all_goals simpa [attemptsOf, deliveredIds] using ih

namespace World

variable {w : World} {st : State}

/-- The publication events of a state, in order. -/
def published (st : State) : List Event := st.log.filter Event.isPublication

/-- The routes of a source and port, with their targets. -/
def Lists (st : State) (source : ActorRef) (port : Option ℕ) (routes : List (ℕ × ActorRef)) : Prop :=
  (routes.map Prod.fst).Pairwise (· < ·) ∧ ∀ i target, (i, target) ∈ routes ↔
    ∃ sub, st.subs.get i = some sub ∧ sub.source = source ∧ sub.sourcePort = port ∧
      sub.target = target

/-- A route is there, its owner runs, and its target takes the publication. -/
def Receivable (w : World) (st : State) (p : Publication) (route : ℕ) (target : ActorRef) : Prop :=
  (∃ sub, st.subs.get route = some sub ∧ w.RunningActor st sub.owner) ∧
    ∃ a, w.checkRef target st = .ok a ∧ (a.state = .active ∨ a.state = .quiescing ∧
      (p.completion = true ∨ ∃ cutoff, a.publicationCutoff = some cutoff ∧ p.ticket ≤ cutoff))

/-- What a call may record about publications. -/
def Records (w : World) (st : State) (action : Action) : Event → Prop
  | .accepted _ source => ∃ port completion, action.publishes = some (source, port, completion)
  | .captured id routes => action = .routeBatch ∧ ∃ p, st.core.turn = some p ∧ p.ticket = id ∧
      p.routes = none ∧ Lists st p.source p.sourcePort routes
  | .attempted id _ route target delivery => action = .routeBatch ∧ ∃ p, st.core.turn = some p ∧
      p.ticket = id ∧ (delivery.isSome = true → w.Receivable st p route target)
  | .concluded _ _ => True
  | _ => False

/-- The end of a turn in the history, by the outcome of the publication if it has one. -/
def Closes (id : ℕ) : Option PublicationOutcome → List Event → Prop
  | none, events => events = []
  | some outcome, events => ∃ report : DeliveryReport, report.outcome = outcome ∧
      events = [.concluded id report]

/-- What the turn of a publication records: its conclusion if the turn stops at once; otherwise
the capture if there was none, the next attempts, each with the result of its checks, and the
conclusion if the deadline passed or no route is left. -/
inductive TurnRecords (w : World) (st : State) (p : Publication) (now : Instant) :
    List Event → Prop
  | barred {outcome : PublicationOutcome} {ending : List Event} : w.Barred st p outcome →
      Closes p.ticket (some outcome) ending → TurnRecords w st p now ending
  | works {routes : List (ℕ × ActorRef)} {capture ending : List Event}
      {outcome : Option PublicationOutcome} : w.Live st p → w.Works st p routes capture →
      (w.nextAttempts st).map (fun x => (x.route, x.target)) <+: routes.drop p.cursor →
      w.Ends p routes (w.nextAttempts st).length now outcome → Closes p.ticket outcome ending →
      TurnRecords w st p now (capture ++ (w.nextAttempts st).map (Attempt.event w) ++ ending)

/-- The history of one publication. -/
structure Attempts (log : List Event) (id : ℕ) : Prop extends Traced log id where
  enqueued : ∀ a ∈ attemptsOf log id, ∀ e, a.2.2 = some e → Event.admitted e a.2.1 ∈ log
  distinct : ((attemptsOf log id).filterMap (·.2.2)).Nodup

/-- The final report of a publication; a routed one has attempted its whole snapshot. -/
structure Reported (log : List Event) (id : ℕ) (report : DeliveryReport) : Prop where
  total : report.admitted + report.rejected = report.matched
  matched : report.matched = ((capturesOf log id).head?.getD []).length
  admitted : report.admitted = (attemptsOf log id).countP (·.2.2.isSome)
  routed : report.outcome = .routed → ∃ routes, capturesOf log id = [routes] ∧
    (attemptsOf log id).map (fun a => (a.1, a.2.1)) = routes
  only : ∀ report', Event.concluded id report' ∈ log → report' = report

theorem filterMap_published {β : Type} {f : Event → Option β}
    (hf : ∀ e, e.isPublication = false → f e = none) :
    st.core.published.filterMap f = st.log.filterMap f := by
  show (st.log.filter Event.isPublication).filterMap f = _
  rw [List.filterMap_filter]
  refine List.filterMap_congr fun e _ => ?_
  split_ifs with he
  · rfl
  · exact (hf e (by simpa using he)).symm

theorem capturesOf_published (id : ℕ) : capturesOf st.core.published id = capturesOf st.log id :=
  filterMap_published fun e he => by cases e <;> first | rfl | cases he

theorem attemptsOf_published (id : ℕ) : attemptsOf st.core.published id = attemptsOf st.log id :=
  filterMap_published fun e he => by cases e <;> first | rfl | cases he

theorem mem_published {e : Event} (he : e.isPublication = true) :
    e ∈ st.core.published ↔ e ∈ st.log := by
  show e ∈ st.log.filter _ ↔ _
  simp [he]

theorem mem_mail {e : Event} (he : e.isMail = true) : e ∈ st.core.mail ↔ e ∈ st.log := by
  show e ∈ st.log.filter _ ↔ _
  simp [he]

theorem mem_reportsOf {log : List Event} {id : ℕ} {report : DeliveryReport} :
    report ∈ reportsOf log id ↔ Event.concluded id report ∈ log := by
  unfold reportsOf
  rw [List.mem_filterMap]
  constructor
  · rintro ⟨e, he, hr⟩
    cases e <;> simp at hr
    obtain ⟨rfl, rfl⟩ := hr
    exact he
  · exact fun h => ⟨_, h, by simp⟩

theorem mem_attemptsOf {log : List Event} {id : ℕ} {a : ℕ × ActorRef × Option ℕ}
    (h : a ∈ attemptsOf log id) : ∃ source, Event.attempted id source a.1 a.2.1 a.2.2 ∈ log := by
  obtain ⟨e, he, hr⟩ := List.mem_filterMap.mp h
  cases e <;> simp at hr
  obtain ⟨rfl, rfl⟩ := hr
  exact ⟨_, he⟩

theorem traced_init (id : ℕ) : Traced w.init.core.published id := by
  have h : w.init.core.published = [] := rfl
  rw [h]
  constructor <;> simp [capturesOf, attemptsOf]

theorem Rests.attempts (h : w.Rests st) {id : ℕ} (ht : Traced st.core.published id) :
    Attempts st.log id := by
  have hc := @capturesOf_published st id
  have ha := @attemptsOf_published st id
  refine ⟨⟨hc ▸ ht.once, hc ▸ ht.ascending, hc ▸ ha ▸ ht.attempts⟩, fun a hmem e he => ?_, ?_⟩
  · rw [← ha] at hmem
    obtain ⟨source, hlog⟩ := mem_attemptsOf hmem
    rw [he] at hlog
    exact (mem_mail rfl).mp (h.valid.delivers _ _ _ _ _ hlog)
  · rw [← ha]
    exact (h.valid.ordered.deliveries.imp ne_of_lt).sublist (sublist_deliveredIds _ id)

theorem Rests.reported (h : w.Rests st) {id : ℕ} {report : DeliveryReport}
    (hr : Event.concluded id report ∈ st.log) : Reported st.log id report := by
  have hmem : report ∈ reportsOf st.core.published id := mem_reportsOf.mpr ((mem_published rfl).mpr hr)
  obtain ⟨hone, -, -, hacc⟩ := h.valid.publishing.concluded id report hmem
  refine ⟨hacc.total, ?_, ?_, ?_, fun report' hr' => ?_⟩
  · rw [← capturesOf_published]
    exact hacc.matched
  · rw [← attemptsOf_published]
    exact hacc.admitted
  · rw [← capturesOf_published, ← attemptsOf_published]
    exact hacc.routed
  · have hmem' : report' ∈ reportsOf st.core.published id :=
      mem_reportsOf.mpr ((mem_published rfl).mpr hr')
    rw [hone] at hmem'
    exact List.mem_singleton.mp hmem'

theorem Rests.lists (h : w.Rests st) (source : ActorRef) (port : Option ℕ) :
    Lists st source port (st.core.subs.snapshot source port) :=
  ⟨h.valid.routed.indexed.snapshot_strict source port, fun _ _ =>
    h.valid.routed.indexed.mem_snapshot⟩

/-- What a call adds to the publication history. -/
theorem Rests.records (h : w.Rests st) (action : Action) :
    ∃ new, (w.step action st).2.core.published = st.core.published ++ new ∧
      ∀ e ∈ new, w.Records st action e := by
  obtain ⟨new, hnew, hall⟩ := (step_evolves h.valid action).steps.records h.valid
  refine ⟨new, hnew, fun e he => ?_⟩
  obtain ⟨m, hm, hrec⟩ := hall e he
  cases m with
  | conclude id source outcome => cases e <;> trivial
  | accept p =>
    have hmake := makes_of_moves hm not_false
    cases e with
    | accepted id source =>
      obtain ⟨-, rfl⟩ := hrec
      exact ⟨_, _, hmake⟩
    | _ => exact hrec.elim
  | capture id routes n =>
    have hmake : action = .routeBatch := makes_of_moves hm not_false
    subst hmake
    cases e with
    | captured id' routes' =>
      obtain ⟨rfl, rfl⟩ := hrec
      obtain ⟨p, hp, hid, hr, rfl⟩ := hm
      exact ⟨rfl, p, hp, hid, hr, h.lists _ _⟩
    | _ => exact hrec.elim
  | attempt id route target delivery =>
    have hmake : action = .routeBatch := makes_of_moves hm not_false
    subst hmake
    cases e with
    | attempted id' source route' target' event =>
      obtain ⟨rfl, rfl, rfl, rfl⟩ := hrec
      obtain ⟨p, hp, hid, -, hdel⟩ := hm
      refine ⟨rfl, p, hp, hid, fun hsome => ?_⟩
      obtain ⟨mail, rfl⟩ := Option.isSome_iff_exists.mp (by simpa using hsome : delivery.isSome = true)
      obtain ⟨-, ⟨sub, hsub, hown⟩, n, hn, hstate⟩ := hdel mail rfl
      obtain ⟨a, ha, rfl⟩ := h.check_iff_seated.mp hn
      exact ⟨⟨sub, hsub, h.running hown⟩, a, ha, hstate⟩
    | _ => exact hrec.elim
  | _ => cases e <;> exact hrec.elim

/-- What the turn of a publication leaves behind. -/
theorem Rests.turned (h : w.Rests st) {p : Publication} (hp : st.core.turn = some p) :
    (w.step .routeBatch st).2.publications.entries.lookup p.ticket = none ∨
      (capturesOf (w.step .routeBatch st).2.log p.ticket).length = 1 := by
  obtain ⟨he, hturn⟩ := routeBatch_spec h.valid
  rcases hturn p hp with hnone | ⟨q, hq, hr⟩
  · exact .inl hnone
  · right
    have hcap := ((he.valid h.valid).publishing.pending _ q hq).1.captures
    rw [capturesOf_published] at hcap
    show (capturesOf (w.routeBatch st).2.log p.ticket).length = 1
    rw [hcap]
    cases hroutes : q.routes with
    | none => exact absurd hroutes hr
    | some routes => rfl

theorem closes_closing (p : Publication) (outcome : Option PublicationOutcome) :
    Closes p.ticket outcome
      (outcome.map fun outcome => Event.concluded p.ticket (p.closing outcome)).toList := by
  cases outcome with
  | none => rfl
  | some outcome =>
    refine ⟨p.closing outcome, ?_, rfl⟩
    unfold Publication.closing
    cases p.routes <;> rfl

/-- What the turn of a publication adds to the history. -/
theorem Rests.turnRecords (h : w.Rests st) {p : Publication} (hp : st.core.turn = some p) :
    ∃ new, published (w.step .routeBatch st).2 = published st ++ new ∧
      w.TurnRecords st p (w.clock ((w.step .routeBatch st).2.reads - 1)) new := by
  have next : w.nextAttempts st = w.turnAttempts p (taking st p) := nextAttempts_eq hp
  have step : (w.step .routeBatch st).2 =
      (w.endTurn (w.routeTurn p (taking st p))).touchActivity := routeBatch_turn h.valid hp
  obtain ⟨ended, -, reads⟩ := w.endTurn_core (w.routeTurn p (taking st p))
  have history : published (w.step .routeBatch st).2 = _ := (congrArg published step).trans ended
  have read : (w.step .routeBatch st).2.reads = _ := (congrArg State.reads step).trans reads
  rw [history, read]
  have owned : (taking st p).core.Owned w.id := h.valid.owned
  rcases routeTurn_taken (w := w) (p := p) owned with
    ⟨outcome, barred, -, result, same, core⟩ | ⟨live, routes, capture, works, taken⟩
  · rw [result, same, core]
    exact ⟨_, rfl, .barred barred.of_taking (closes_closing p (some outcome))⟩
  · have events : (w.routeTurn p (taking st p)).2.2.2.core.published =
        published st ++ capture ++ (w.nextAttempts st).map (Attempt.event w) :=
      next ▸ taken.published
    have destinations := taken.destinations
    have ends := taken.ends
    have closes := closes_closing (w.routeTurn p (taking st p)).2.2.1
      (w.routeTurn p (taking st p)).1
    rw [← next] at destinations ends
    rw [taken.turns.ticket] at closes ⊢
    rw [events, List.append_assoc, List.append_assoc, ← List.append_assoc capture]
    exact ⟨_, rfl, .works (live_taking.mp live) works.of_taking destinations ends closes⟩

/-- A ticket that was terminal stays terminal with the same report, until it is forgotten. -/
theorem Rests.report_stable (h : w.Rests st) (actions : List Action) {id : ℕ}
    {report : DeliveryReport} {status : PublicationStatus}
    (hr : st.publications.statusOf id = some (.terminal report))
    (hs : (w.exec st actions).publications.statusOf id = some status) :
    status = .terminal report := by
  have hmem : report ∈ reportsOf st.core.published id := by
    rcases h.valid.publishing.status id _ hr with ⟨report', he, hmem⟩ | ⟨hno, -⟩
    · cases he
      exact hmem
    · exact absurd rfl (hno report)
  have hafter : report ∈ reportsOf (w.exec st actions).core.published id :=
    mem_reportsOf.mpr (((h.steps actions).published_grows h.valid).subset (mem_reportsOf.mp hmem))
  have h' := h.exec actions
  rcases h'.valid.publishing.status id status hs with ⟨report', rfl, hmem'⟩ | ⟨-, hnil⟩
  · obtain ⟨hone, -⟩ := h'.valid.publishing.concluded id report hafter
    rw [hone] at hmem'
    rw [List.mem_singleton.mp hmem']
  · rw [hnil] at hafter
    cases hafter

/-- Every accepted publication is delivered to the routes of one snapshot, and its report says
how. -/
theorem snapshot_delivery (w : World) (before after : List Action) (action : Action) :
    (∀ id, Attempts (w.exec w.init before).log id) ∧
    (∀ id report, Event.concluded id report ∈ (w.exec w.init before).log →
      Reported (w.exec w.init before).log id report) ∧
    (∀ id report, (w.exec w.init before).publications.statusOf id = some (.terminal report) →
      Event.concluded id report ∈ (w.exec w.init before).log ∧
        ∀ status, (w.exec w.init (before ++ after)).publications.statusOf id = some status →
          status = .terminal report) ∧
    (∃ new, published (w.exec w.init (before ++ [action])) =
        published (w.exec w.init before) ++ new ∧
      ∀ e ∈ new, w.Records (w.exec w.init before) action e) ∧
    ∀ p, (w.exec w.init before).core.turn = some p →
      ((w.exec w.init (before ++ [.routeBatch])).publications.entries.lookup p.ticket = none ∨
        (capturesOf (w.exec w.init (before ++ [.routeBatch])).log p.ticket).length = 1) ∧
      ∃ new, published (w.exec w.init (before ++ [.routeBatch])) =
          published (w.exec w.init before) ++ new ∧
        w.TurnRecords (w.exec w.init before) p
          (w.clock ((w.exec w.init (before ++ [.routeBatch])).reads - 1)) new := by
  have h : w.Rests (w.exec w.init before) := rests before
  simp only [exec_append]
  refine ⟨fun id => ?_, fun id report hr => h.reported hr, fun id report hr => ⟨?_, fun status hs =>
    h.report_stable after hr hs⟩, h.records action,
    fun p hp => ⟨h.turned hp, h.turnRecords hp⟩⟩
  · have hi : w.Rests w.init := rests_init
    exact h.attempts ((hi.steps before).traced hi.valid traced_init id)
  · rcases h.valid.publishing.status id _ hr with ⟨report', he, hmem⟩ | ⟨hno, -⟩
    · cases he
      exact (mem_published rfl).mp (mem_reportsOf.mp hmem)
    · exact absurd rfl (hno report)

end World

end Actorplane
