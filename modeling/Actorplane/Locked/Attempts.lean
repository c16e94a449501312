import Actorplane.Locked.Turns

/-!
# The attempts of a turn

The destination loop of a turn, told as the list of its attempts. Each attempt keeps the
state that it meets, so it is known which checks it passes and what it adds to the mailbox of
its target and to the history.
-/

namespace Actorplane

/-- One destination of a turn, with the publication and the state before the attempt. -/
structure Attempt where
  publication : Publication
  route : ℕ
  target : ActorRef
  state : State

/-- The slot holds an actor with a delivery in its mailbox. -/
def Core.Filled (c : Core) (i : ℕ) : Prop := ∃ b, c.boxes[i]? = some b ∧ b.queue ≠ []

theorem Publication.Turns.refl (p : Publication) : p.Turns p := ⟨rfl, rfl, rfl, rfl, rfl⟩

theorem Publication.Turns.trans {p q q' : Publication} (h : p.Turns q) (h' : q.Turns q') : p.Turns q' where
  ticket := h'.ticket.trans h.ticket
  source := h'.source.trans h.source
  sourcePort := h'.sourcePort.trans h.sourcePort
  completion := h'.completion.trans h.completion
  stored := h'.stored.trans h.stored

theorem Core.Filled.congr {c c' : Core} (h : c'.boxes = c.boxes) (i : ℕ) :
    c'.Filled i ↔ c.Filled i := by
  unfold Core.Filled
  rw [h]

namespace World

variable (w : World)

/-- The checks of an admission, in their order. -/
def admitChecks (r : ActorRef) (stored : Stored) (sub : Option ℕ) (completion : Bool)
    (st : State) : Except Error Unit := do
  checkDeadline stored.options (w.now st)
  w.validateSource stored.options st.tick completion
  let event ← (nextEventId st.tick).1
  let counted := (nextEventId st.tick).2
  let _ ← w.envelopeFor r stored sub event (w.now st) counted
  w.admissible r stored completion counted

/-- The attempts of the destination loop. -/
def attempts : ℕ → List (ℕ × ActorRef) → Publication → State → List Attempt
  | 0, _, _, _ => []
  | _, [], _, _ => []
  | batch + 1, (route, target) :: rest, publication, st =>
    if isDue (w.now st) publication.stored.options.deadline then []
    else
      let (publication', st') := w.attemptRoute publication route target st.tick
      ⟨publication, route, target, st.tick⟩ :: attempts batch rest publication' st'

/-- The attempts of a turn on the publication taken out of the table. -/
def turnAttempts (publication : Publication) (st : State) : List Attempt :=
  match w.turnOutcome publication st with
  | (some _, _) => []
  | (none, st) =>
    match w.captureRoutes publication st with
    | (.error _, _) => []
    | (.ok publication, st) =>
      w.attempts w.cfg.routingBatchSize
        ((publication.routes.getD []).drop publication.cursor) publication st

/-- The state that the turn of the publication works on. -/
def taking (st : State) (p : Publication) : State :=
  { st with publications := st.publications.taken p }

/-- The attempts of the next turn. -/
def nextAttempts (st : State) : List Attempt :=
  match st.core.turn with
  | none => []
  | some p => w.turnAttempts p (taking st p)

end World

namespace Attempt

variable (w : World) (x : Attempt)

/-- The route fence, and the checks of the admission. -/
def checks : Except Error Unit := do
  w.routeFence x.publication x.route x.target x.state
  w.admitChecks x.target x.publication.stored (some x.route) true x.state

/-- The event of the delivery, if the attempt passes its checks. -/
def delivery : Option ℕ :=
  match x.checks w with
  | .ok _ => some x.state.nextEvent
  | .error _ => none

def event : Event :=
  .attempted x.publication.ticket x.publication.source x.route x.target (x.delivery w)

end Attempt

namespace World

variable {w : World} {st : State} {p : Publication} {r : ActorRef} {i : ℕ} {batch : ℕ}

/-! ## One attempt -/

/-- An admission succeeds if its checks do. -/
theorem admitMessage_checks (stored : Stored) (sub : Option ℕ) (completion : Bool)
    (operation : Option OperationId) :
    (w.admitMessage r stored sub completion operation st).1 =
      (w.admitChecks r stored sub completion st).map fun _ => st.nextEvent := by
  unfold admitMessage admitChecks
  dsimp only
  cases checkDeadline stored.options (w.now st) with
  | error e => rfl
  | ok u =>
  cases w.validateSource stored.options st.tick completion with
  | error e => rfl
  | ok u' =>
  unfold nextEventId
  split_ifs
  · rfl
  dsimp only [bind, Except.bind]
  cases w.envelopeFor r stored sub st.tick.nextEvent (w.now st)
      { st.tick with nextEvent := st.tick.nextEvent + 1 } with
  | error e => rfl
  | ok envelope =>
  dsimp only
  cases w.admissible r stored completion { st.tick with nextEvent := st.tick.nextEvent + 1 } <;> rfl

/-- What an attempt leaves behind. -/
structure Tried (w : World) (x : Attempt) (q : Publication) (c : Core) : Prop where
  publication : q = x.publication.attempted (x.delivery w).isSome
  owned : c.Owned w.id
  nodes : c.nodes = x.state.core.nodes
  published : c.published = x.state.core.published ++ [x.event w]
  filled : ∀ i, c.Filled i ↔ x.state.core.Filled i ∨ x.checks w = .ok () ∧ x.target.slot = i

theorem refused_tried {x : Attempt} {e : Error} {c : Core} (ho : x.state.core.Owned w.id)
    (h : x.checks w = .error e) (hb : Burnt x.state.core c) :
    Tried w x (x.publication.attempted false)
      { c with published := c.published ++ [.attempted x.publication.ticket x.publication.source
          x.route x.target none] } := by
  have nothing : x.delivery w = none := by
    unfold Attempt.delivery
    rw [h]
  have same : c.boxes = x.state.core.boxes ∧ c.published = x.state.core.published ∧
      c.nodes = x.state.core.nodes ∧ c.Owned w.id := by
    rcases hb with rfl | rfl <;> exact ⟨rfl, rfl, rfl, ho⟩
  obtain ⟨boxes, published, nodes, owned⟩ := same
  constructor
  · rw [nothing]
    rfl
  · exact owned
  · exact nodes
  · unfold Attempt.event
    rw [nothing, published]
  · intro i
    rw [h]
    unfold Core.Filled
    rw [show ({ c with published := _ } : Core).boxes = x.state.core.boxes from boxes]
    simp

theorem admitted_tried {x : Attempt} {m : Mail} {c : Core} (ho : x.state.core.Owned w.id)
    (h : x.checks w = .ok ()) (ha : Admitted x.state.core c x.target m true) :
    Tried w x (x.publication.attempted true)
      { c with published := c.published ++ [.attempted x.publication.ticket x.publication.source
          x.route x.target (some m.eventId)] } := by
  have given : x.delivery w = some m.eventId := by
    unfold Attempt.delivery
    rw [h, ha.event]
    rfl
  obtain ⟨b, found, rfl⟩ := ha.box
  constructor
  · rw [given]
    rfl
  · exact ho
  · rfl
  · unfold Attempt.event
    rw [given]
    rfl
  · intro i
    rw [h]
    unfold Core.Filled
    rw [show ({ x.state.core.enqueue x.target b m with published := _ } : Core).boxes =
      x.state.core.boxes.set x.target.slot { b with queue := b.queue ++ [m] } from rfl,
      List.getElem?_set]
    split_ifs with here bound
    · subst here
      simp
    · exact absurd (List.getElem?_eq_some_iff.mp found).1 bound
    · simp [here]

theorem attemptRoute_tried (ho : st.core.Owned w.id) (route : ℕ) (target : ActorRef) :
    Tried w ⟨p, route, target, st⟩ (w.attemptRoute p route target st).1
      (w.attemptRoute p route target st).2.core := by
  set x : Attempt := ⟨p, route, target, st⟩ with hx
  unfold attemptRoute
  set q : Publication := { p with cursor := p.cursor + 1 } with hq
  dsimp only
  cases fence : w.routeFence q route target st with
  | error e =>
    have failed : x.checks w = .error e := by
      unfold Attempt.checks
      rw [show w.routeFence x.publication x.route x.target x.state = .error e from fence]
      rfl
    dsimp only
    rw [State.core_note_published _ rfl, core_reject]
    exact refused_tried (x := x) ho failed (.inl rfl)
  | ok u =>
    have passed : x.checks w = w.admitChecks target q.stored (some route) true st := by
      unfold Attempt.checks
      rw [show w.routeFence x.publication x.route x.target x.state = .ok u from fence]
      rfl
    have result := @admitMessage_checks w st target q.stored (some route) true none
    rw [← passed] at result
    dsimp only
    rcases admitMessage_spec (w := w) (r := target) ho q.stored (some route) true none with
      ⟨e, refused, burnt⟩ | ⟨id, admitted, adds⟩
    · rcases call : w.admitMessage target q.stored (some route) true none st with ⟨e' | id, st'⟩
      · rw [call] at result burnt
        have failed : x.checks w = .error e' := by
          cases hc : x.checks w with
          | error e'' =>
            rw [hc] at result
            exact congrArg _ (Except.error.inj result).symm
          | ok u =>
            rw [hc] at result
            cases result
        dsimp only
        rw [State.core_note_published _ rfl, core_reject]
        exact refused_tried (x := x) ho failed burnt
      · rw [call] at refused
        cases refused
    · rcases call : w.admitMessage target q.stored (some route) true none st with ⟨e' | id', st'⟩
      · rw [call] at admitted
        cases admitted
      · rw [call] at result admitted adds
        obtain rfl : id' = id := Except.ok.inj admitted
        have fine : x.checks w = .ok () := by
          cases hc : x.checks w with
          | error e =>
            rw [hc] at result
            cases result
          | ok u => rfl
        dsimp only
        rw [State.core_note_published _ rfl]
        exact admitted_tried (x := x) ho fine adds

/-! ## The loop -/

/-- What the destination loop leaves behind: its attempts are the next destinations, as many as
the turn may make unless the deadline passes. -/
structure Looped (w : World) (batch : ℕ) (rest : List (ℕ × ActorRef)) (p : Publication)
    (st : State) (result : Option PublicationOutcome × ℕ × Publication × State) : Prop where
  owned : result.2.2.2.core.Owned w.id
  turns : p.Turns result.2.2.1
  routes : result.2.2.1.routes = p.routes
  cursor : result.2.2.1.cursor = p.cursor + (w.attempts batch rest p st).length
  published : result.2.2.2.core.published =
    st.core.published ++ (w.attempts batch rest p st).map (Attempt.event w)
  filled : ∀ i, result.2.2.2.core.Filled i ↔ st.core.Filled i ∨
    ∃ x ∈ w.attempts batch rest p st, x.checks w = .ok () ∧ x.target.slot = i
  destinations : (w.attempts batch rest p st).map (fun x => (x.route, x.target)) <+: rest
  attempt : ∀ x ∈ w.attempts batch rest p st, p.Turns x.publication ∧
    x.state.core.Owned w.id ∧ x.state.core.nodes = st.core.nodes ∧
    isDue (w.clock (x.state.reads - 1)) p.stored.options.deadline = false
  outcome : result.1 = none ∧
      (w.attempts batch rest p st).length = min batch rest.length ∨
    result.1 = some .expired ∧
      (w.attempts batch rest p st).length < min batch rest.length ∧
      isDue (w.clock (result.2.2.2.reads - 1)) p.stored.options.deadline = true

theorem Looped.nil {rest : List (ℕ × ActorRef)} (ho : st.core.Owned w.id)
    (h : w.attempts batch rest p st = []) (idle : batch = 0 ∨ rest = []) :
    Looped w batch rest p st (none, 0, p, st) where
  owned := ho
  turns := .refl p
  routes := rfl
  cursor := by rw [h]; rfl
  published := by simp [h]
  filled := by simp [h]
  destinations := by simp [h]
  attempt := by simp [h]
  outcome := .inl ⟨rfl, by rcases idle with rfl | rfl <;> simp [h]⟩

theorem attemptRoutes_looped (ho : st.core.Owned w.id) (batch : ℕ)
    (rest : List (ℕ × ActorRef)) :
    Looped w batch rest p st (w.attemptRoutes batch rest p st) := by
  induction batch generalizing rest p st with
  | zero => exact .nil ho (by cases rest <;> rfl) (.inl rfl)
  | succ batch ih =>
    cases rest with
    | nil => exact .nil ho rfl (.inr rfl)
    | cons head rest =>
    obtain ⟨route, target⟩ := head
    by_cases due : isDue (w.now st) p.stored.options.deadline = true
    · have none : w.attempts (batch + 1) ((route, target) :: rest) p st = [] := by
        unfold attempts
        rw [if_pos due]
      unfold attemptRoutes
      dsimp only
      rw [if_pos due]
      exact {
        owned := ho
        turns := .refl p
        routes := rfl
        cursor := by rw [none]; rfl
        published := by simp [none]
        filled := by simp [none]
        destinations := by simp [none]
        attempt := by simp [none]
        outcome := .inr ⟨rfl, by simp [none], due⟩ }
    -- one attempt, then the rest of the loop from what it left behind
    have ticked : st.tick.core.Owned w.id := ho
    have tried := attemptRoute_tried (w := w) (p := p) ticked route target
    rcases call : w.attemptRoute p route target st.tick with ⟨q, st'⟩
    rw [call] at tried
    obtain ⟨same, owned, nodes, published, filled⟩ := tried
    have some : w.attempts (batch + 1) ((route, target) :: rest) p st =
        ⟨p, route, target, st.tick⟩ :: w.attempts batch rest q st' := by
      rw [attempts, if_neg due, call]
    have later := @ih st' q owned rest
    have turns : p.Turns q := by
      rw [show q = _ from same]
      exact turns_attempted p _
    unfold attemptRoutes
    dsimp only
    rw [if_neg due, call]
    dsimp only
    constructor
    · exact later.owned
    · exact turns.trans later.turns
    · rw [later.routes, show q = _ from same]
      rfl
    · rw [later.cursor, show q.cursor = p.cursor + 1 from congrArg _ same, some, List.length_cons]
      show p.cursor + 1 + _ = _
      omega
    · rw [later.published, show st'.core.published = _ from published, some, List.map_cons, List.append_assoc]
      rfl
    · intro i
      rw [later.filled, show st'.core.Filled i ↔ _ from filled i, some]
      simp only [List.mem_cons, exists_eq_or_imp, or_assoc]
      rfl
    · rw [some, List.map_cons]
      exact List.prefix_cons_inj _ |>.mpr later.destinations
    · rw [some]
      intro x mem
      rcases List.mem_cons.mp mem with rfl | mem
      · exact ⟨.refl p, ho, rfl, by simpa [State.tick, now] using due⟩
      · obtain ⟨kept, valid, still, early⟩ := later.attempt x mem
        exact ⟨turns.trans kept, valid, still.trans nodes, turns.stored ▸ early⟩
    · rw [some, List.length_cons, List.length_cons]
      refine later.outcome.imp ?_ ?_
      · rintro ⟨res, count⟩
        exact ⟨res, by omega⟩
      · rintro ⟨res, count, due⟩
        exact ⟨res, by omega, turns.stored ▸ due⟩

/-! ## The turn -/

/-- The source runs, and the deadline has not passed. -/
def Live (w : World) (st : State) (p : Publication) : Prop :=
  w.runs p.source st = true ∧ isDue (w.now st) p.stored.options.deadline = false

/-- Why a turn ends its publication before the first attempt. -/
inductive Barred (w : World) (st : State) (p : Publication) : PublicationOutcome → Prop
  | cancelled : w.runs p.source st = false → Barred w st p .cancelled
  | expired : w.runs p.source st = true →
      isDue (w.now st) p.stored.options.deadline = true → Barred w st p .expired
  | fanoutLimit : Live w st p → p.routes = none →
      w.cfg.maxPublicationFanout < st.subs.sourceCount p.source p.sourcePort →
      Barred w st p .fanoutLimit
  | snapshotFull : Live w st p → p.routes = none →
      st.subs.sourceCount p.source p.sourcePort ≤ w.cfg.maxPublicationFanout →
      w.cfg.maxRoutingSnapshotEntries - st.publications.snapshotEntries <
        st.subs.sourceCount p.source p.sourcePort →
      Barred w st p .snapshotFull

/-- The routes a turn works on, and what it records of their capture. -/
inductive Works (w : World) (st : State) (p : Publication) : List (ℕ × ActorRef) → List Event → Prop
  | again {routes : List (ℕ × ActorRef)} : p.routes = some routes → Works w st p routes []
  | first : p.routes = none →
      st.subs.sourceCount p.source p.sourcePort ≤ w.cfg.maxPublicationFanout →
      st.subs.sourceCount p.source p.sourcePort ≤
        w.cfg.maxRoutingSnapshotEntries - st.publications.snapshotEntries →
      Works w st p (snapshotRoutes p st) [.captured p.ticket (snapshotRoutes p st)]

theorem captureRoutes_cases (live : Live w st p) :
    (∃ outcome, w.captureRoutes p st.tick = (.error outcome, st.tick) ∧ Barred w st p outcome) ∨
      ∃ q st' routes capture, w.captureRoutes p st.tick = (.ok q, st') ∧ Works w st p routes capture ∧
        q.routes = some routes ∧ q.cursor = p.cursor ∧ p.Turns q ∧
        st'.core.published = st.core.published ++ capture ∧ st'.core.nodes = st.core.nodes ∧
        st'.core.boxes = st.core.boxes ∧ (st.core.Owned w.id → st'.core.Owned w.id) := by
  unfold captureRoutes
  cases given : p.routes with
  | some routes =>
    exact .inr ⟨p, st.tick, routes, [], rfl, .again given, given, rfl, .refl p, by simp, rfl,
      rfl, fun h => h⟩
  | none =>
    dsimp only
    split_ifs with wide full
    · exact .inl ⟨_, rfl, .fanoutLimit live given wide⟩
    · exact .inl ⟨_, rfl, .snapshotFull live given (Nat.le_of_not_lt wide) full⟩
    · refine .inr ⟨_, _, snapshotRoutes p st, _, rfl, .first given (Nat.le_of_not_lt wide)
        (Nat.le_of_not_lt full), rfl, rfl,
        ⟨rfl, rfl, rfl, rfl, rfl⟩, ?_, rfl, rfl, fun h => h⟩
      rw [State.core_note_published _ rfl]
      rfl

theorem executionWalk_congr {st' : State} (h : st'.actors = st.actors) (fuel : ℕ) (a : Actor)
    (starting quiescing : Bool) :
    w.executionWalk st' fuel a starting quiescing = w.executionWalk st fuel a starting quiescing := by
  induction fuel generalizing a starting quiescing with
  | zero => rfl
  | succ fuel ih =>
    unfold executionWalk checkRef
    simp only [h, ih]

theorem runs_congr {st' : State} (h : st'.actors = st.actors) : w.runs r st' = w.runs r st := by
  unfold runs executionStateLocked checkRef
  simp only [h, executionWalk_congr h]

/-! Taking the publication out of the table decides nothing. -/

theorem runs_taking : w.runs r (taking st p) = w.runs r st := runs_congr rfl

theorem now_taking : w.now (taking st p) = w.now st := rfl

theorem live_taking : Live w (taking st p) p ↔ Live w st p := by
  unfold Live
  rw [runs_taking, now_taking]

theorem sourceCount_taking (r : ActorRef) (port : Option ℕ) :
    (taking st p).subs.sourceCount r port = st.subs.sourceCount r port := rfl

theorem snapshotEntries_taking :
    (taking st p).publications.snapshotEntries = st.publications.snapshotEntries := rfl

theorem snapshotRoutes_taking : snapshotRoutes p (taking st p) = snapshotRoutes p st := rfl

theorem Barred.of_taking {outcome : PublicationOutcome} (h : Barred w (taking st p) p outcome) :
    Barred w st p outcome := by
  cases h with
  | cancelled runs => exact .cancelled (runs_taking ▸ runs)
  | expired runs due =>
    rw [now_taking] at due
    exact .expired (runs_taking ▸ runs) due
  | fanoutLimit live given wide =>
    rw [sourceCount_taking] at wide
    exact .fanoutLimit (live_taking.mp live) given wide
  | snapshotFull live given narrow full =>
    rw [sourceCount_taking] at narrow full
    rw [snapshotEntries_taking] at full
    exact .snapshotFull (live_taking.mp live) given narrow full

theorem Works.of_taking {routes : List (ℕ × ActorRef)} {capture : List Event}
    (h : Works w (taking st p) p routes capture) : Works w st p routes capture := by
  cases h with
  | again given => exact .again given
  | first given narrow room =>
    rw [sourceCount_taking] at narrow room
    rw [snapshotEntries_taking] at room
    rw [snapshotRoutes_taking]
    exact .first given narrow room

/-- How a turn ends after `n` attempts, if its last reading of the clock was `now`. -/
inductive Ends (w : World) (p : Publication) (routes : List (ℕ × ActorRef)) (n : ℕ)
    (now : Instant) : Option PublicationOutcome → Prop
  | pauses : n = min w.cfg.routingBatchSize (routes.length - p.cursor) →
      p.cursor + n ≠ routes.length → Ends w p routes n now none
  | routed : n = min w.cfg.routingBatchSize (routes.length - p.cursor) →
      p.cursor + n = routes.length → Ends w p routes n now (some .routed)
  | expired : n < min w.cfg.routingBatchSize (routes.length - p.cursor) →
      isDue now p.stored.options.deadline = true → Ends w p routes n now (some .expired)

/-- What a turn that gets to its routes leaves behind. -/
structure Taken (w : World) (st : State) (p : Publication) (routes : List (ℕ × ActorRef))
    (capture : List Event) (result : Option PublicationOutcome × ℕ × Publication × State) :
    Prop where
  turns : p.Turns result.2.2.1
  published : result.2.2.2.core.published =
    st.core.published ++ capture ++ (w.turnAttempts p st).map (Attempt.event w)
  filled : ∀ i, result.2.2.2.core.Filled i ↔ st.core.Filled i ∨
    ∃ x ∈ w.turnAttempts p st, x.checks w = .ok () ∧ x.target.slot = i
  destinations : (w.turnAttempts p st).map (fun x => (x.route, x.target)) <+: routes.drop p.cursor
  attempt : ∀ x ∈ w.turnAttempts p st, p.Turns x.publication ∧
    x.state.core.Owned w.id ∧ x.state.core.nodes = st.core.nodes ∧
    isDue (w.clock (x.state.reads - 1)) p.stored.options.deadline = false
  ends : Ends w p routes (w.turnAttempts p st).length (w.clock (result.2.2.2.reads - 1)) result.1

/-- A turn ends at once, or it works on the routes of its publication. -/
theorem routeTurn_taken (ho : st.core.Owned w.id) :
    (∃ outcome, Barred w st p outcome ∧ w.turnAttempts p st = [] ∧
        (w.routeTurn p st).1 = some outcome ∧ (w.routeTurn p st).2.2.1 = p ∧
        (w.routeTurn p st).2.2.2.core = st.core) ∨
      Live w st p ∧ ∃ routes capture, Works w st p routes capture ∧
        Taken w st p routes capture (w.routeTurn p st) := by
  cases runs : w.runs p.source st with
  | false =>
    have outcome : w.turnOutcome p st = (some .cancelled, st) := by
      unfold turnOutcome
      rw [runs]
      rfl
    unfold routeTurn turnAttempts
    rw [outcome]
    exact .inl ⟨_, .cancelled runs, rfl, rfl, rfl, rfl⟩
  | true =>
  cases due : isDue (w.now st) p.stored.options.deadline with
  | true =>
    have outcome : w.turnOutcome p st = (some .expired, st.tick) := by
      unfold turnOutcome
      dsimp only
      rw [runs, due]
      rfl
    unfold routeTurn turnAttempts
    rw [outcome]
    exact .inl ⟨_, .expired runs due, rfl, rfl, rfl, rfl⟩
  | false =>
  have outcome : w.turnOutcome p st = (none, st.tick) := by
    unfold turnOutcome
    dsimp only
    rw [runs, due]
    rfl
  have live : Live w st p := ⟨runs, due⟩
  rcases captureRoutes_cases live with
    ⟨reason, stopped, barred⟩ | ⟨q, st', routes, capture, captured, works, given, cursor, turns,
      published, nodes, boxes, owned⟩
  · unfold routeTurn turnAttempts
    rw [outcome]
    dsimp only
    rw [stopped]
    exact .inl ⟨reason, barred, rfl, rfl, rfl, rfl⟩
  · have tries : w.turnAttempts p st =
        w.attempts w.cfg.routingBatchSize (routes.drop p.cursor) q st' := by
      unfold turnAttempts
      rw [outcome]
      dsimp only
      rw [captured]
      dsimp only
      rw [given, cursor]
      rfl
    have looped := attemptRoutes_looped (p := q) (owned ho) w.cfg.routingBatchSize
      (routes.drop p.cursor)
    have turn : w.routeTurn p st =
        let loop := w.attemptRoutes w.cfg.routingBatchSize (routes.drop p.cursor) q st'
        (if loop.1 = none ∧ loop.2.2.1.cursor = routes.length then some .routed else loop.1,
          loop.2.1, loop.2.2.1, loop.2.2.2) := by
      unfold routeTurn
      rw [outcome]
      dsimp only
      rw [captured]
      dsimp only
      rw [given, cursor]
      rfl
    rw [turn]
    refine .inr ⟨live, routes, capture, works, ?_⟩
    constructor
    · exact turns.trans looped.turns
    · rw [tries, ← published]
      exact looped.published
    · intro i
      rw [tries, ← Core.Filled.congr boxes i]
      exact looped.filled i
    · rw [tries]
      exact looped.destinations
    · rw [tries]
      intro x mem
      obtain ⟨same, valid, still, early⟩ := looped.attempt x mem
      exact ⟨turns.trans same, valid, still.trans nodes, turns.stored ▸ early⟩
    · have count := looped.cursor
      have ended := looped.outcome
      rw [List.length_drop, turns.stored] at ended
      rw [cursor] at count
      rw [tries]
      dsimp only
      rcases ended with ⟨done, all⟩ | ⟨late, some, due⟩
      · rw [done, count]
        split_ifs with exhausted
        · exact .routed all exhausted.2
        · exact .pauses all fun h => exhausted ⟨rfl, h⟩
      · rw [late, if_neg (by simp)]
        exact .expired some due

/-- The end of the turn, from what the destination loop left behind. -/
def endTurn (w : World) (result : Option PublicationOutcome × ℕ × Publication × State) : State :=
  match result.1 with
  | some outcome => w.finishPublicationLocked result.2.2.1 outcome result.2.2.2
  | none => requeuePublication result.2.2.1 result.2.2.2

theorem endTurn_core (result : Option PublicationOutcome × ℕ × Publication × State) :
    (w.endTurn result).core.published = result.2.2.2.core.published ++
        (result.1.map fun outcome =>
          Event.concluded result.2.2.1.ticket (result.2.2.1.closing outcome)).toList ∧
      (w.endTurn result).core.boxes = result.2.2.2.core.boxes ∧
      (w.endTurn result).reads = result.2.2.2.reads := by
  obtain ⟨outcome, k, q, st⟩ := result
  cases outcome with
  | none => exact ⟨(List.append_nil _).symm, rfl, rfl⟩
  | some outcome =>
    have core := @core_finishPublicationLocked w st q outcome
    have published := congrArg Core.published core
    have boxes := congrArg Core.boxes core
    refine ⟨published, boxes, ?_⟩
    show (w.finishPublicationLocked q outcome st).reads = st.reads
    unfold finishPublicationLocked
    dsimp only
    split_ifs <;> rfl

theorem routeBatch_idle (hv : st.core.Valid w.id) (h : st.core.turn = none) :
    (w.routeBatch st).2.core = st.core := by
  unfold routeBatch
  cases ready : st.publications.ready with
  | nil => rfl
  | cons source rest =>
    obtain ⟨p, id, -, -, turn, -⟩ := turning_start hv ready
    rw [h] at turn
    cases turn

theorem routeBatch_turn (hv : st.core.Valid w.id) (h : st.core.turn = some p) :
    (w.routeBatch st).2 = (w.endTurn (w.routeTurn p (taking st p))).touchActivity := by
  unfold routeBatch
  cases ready : st.publications.ready with
  | nil =>
    have : st.core.publications.ready = [] := ready
    simp [Core.turn, this] at h
  | cons source rest =>
    obtain ⟨q, id, head, found, turn, -⟩ := turning_start hv ready
    obtain rfl : q = p := Option.some.inj (turn.symm.trans h)
    have key : q.ticket = id := (hv.publishing.sound.key id q found).1
    have owner : q.source = source := by
      obtain ⟨q', found', same⟩ :=
        (hv.publishing.sound.queue source id).mp (List.mem_of_mem_head? head)
      obtain rfl : q' = q := Option.some.inj (found'.symm.trans found)
      exact same
    subst key owner
    have take : taking st q = { st with
        publications :=
          { st.publications with
            ready := rest
            readySet := st.publications.readySet.erase q.source
            entries := st.publications.entries.erase q.ticket } } := by
      unfold taking PublicationTable.taken
      rw [ready]
      rfl
    dsimp only
    rw [show ({ st.publications with
      ready := rest
      readySet := st.publications.readySet.erase q.source } : PublicationTable).queueOf q.source =
        st.publications.queueOf q.source from rfl, head]
    dsimp only
    rw [found]
    dsimp only
    rw [← take]
    unfold endTurn
    rcases w.routeTurn q (taking st q) with ⟨- | outcome, k, q', st'⟩ <;> rfl

theorem nextAttempts_eq (h : st.core.turn = some p) :
    w.nextAttempts st = w.turnAttempts p (taking st p) := by
  unfold nextAttempts
  rw [h]

theorem nextAttempts_idle (h : st.core.turn = none) : w.nextAttempts st = [] := by
  unfold nextAttempts
  rw [h]

/-- The attempts of a turn meet the actors that were there before it. -/
theorem nextAttempts_state (hv : st.core.Valid w.id) {x : Attempt} (mem : x ∈ w.nextAttempts st) :
    x.state.core.Owned w.id ∧ x.state.core.nodes = st.core.nodes := by
  cases h : st.core.turn with
  | none =>
    rw [nextAttempts_idle h] at mem
    cases mem
  | some p =>
    rw [nextAttempts_eq h] at mem
    have owned : (taking st p).core.Owned w.id := hv.owned
    rcases routeTurn_taken (w := w) (p := p) owned with
      ⟨-, -, nothing, -⟩ | ⟨-, _, _, -, taken⟩
    · rw [nothing] at mem
      cases mem
    · obtain ⟨-, owned, nodes, -⟩ := taken.attempt x mem
      exact ⟨owned, nodes⟩

/-- A turn fills the mailboxes of those attempts that pass their checks, and no others. -/
theorem routeBatch_filled (hv : st.core.Valid w.id) (i : ℕ) :
    (w.routeBatch st).2.core.Filled i ↔ st.core.Filled i ∨
      ∃ x ∈ w.nextAttempts st, x.checks w = .ok () ∧ x.target.slot = i := by
  cases h : st.core.turn with
  | none =>
    rw [routeBatch_idle hv h, nextAttempts_idle h]
    simp
  | some p =>
    rw [nextAttempts_eq h, routeBatch_turn hv h, State.core_touchActivity]
    obtain ⟨-, boxes, -⟩ := w.endTurn_core (w.routeTurn p (taking st p))
    rw [Core.Filled.congr boxes]
    have owned : (taking st p).core.Owned w.id := hv.owned
    rcases routeTurn_taken (w := w) (p := p) owned with
      ⟨-, -, nothing, -, -, core⟩ | ⟨-, _, _, -, taken⟩
    · rw [nothing, core]
      simp only [List.not_mem_nil, false_and, exists_false, or_false]
      exact Core.Filled.congr rfl i
    · exact taken.filled i

end World

end Actorplane
