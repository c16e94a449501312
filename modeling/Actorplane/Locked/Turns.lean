import Actorplane.Locked.Routing

/-!
# Routing turns

A turn takes its publication out of the table and works on a copy. On the core the
publication stays in the table and in front of its source's queue until the turn
ends: `Turning` relates the two views, and every attempt keeps it.
-/

namespace Actorplane

variable {world : ℕ} {c c' c'' : Core} {r : ActorRef} {n : Node}

namespace Core

variable (c : Core)

/-- The publication of the next turn: the oldest one of the first ready source. -/
def turn : Option Publication :=
  c.publications.ready.head?.bind fun source =>
    (c.publications.queueOf source).head?.bind c.publications.entries.lookup

/-- The destinations that the next turn may attempt. -/
def destinations (batch : ℕ) : List (ℕ × ActorRef) :=
  match c.turn with
  | none => []
  | some p =>
    ((p.routes.getD (c.subs.snapshot p.source p.sourcePort)).drop p.cursor).take batch

end Core

/-- What the route fence and the admission have checked for one destination. -/
structure Receives (c : Core) (p : Publication) (route : ℕ) (target : ActorRef) : Prop where
  route : ∃ sub, c.subs.get route = some sub ∧ Running c.nodes sub.owner
  target : ∃ n, Seated c.nodes target n ∧ (n.state = .active ∨ n.state = .quiescing ∧
    (p.completion = true ∨ ∃ cutoff, n.cutoff = some cutoff ∧ p.ticket ≤ cutoff))

/-- The moves of a routing turn. -/
def Move.byTurn (batch : ℕ) (c : Core) : Move → Prop
  | .conclude id source _ => ∃ p, c.turn = some p ∧ p.ticket = id ∧ p.source = source
  | .capture id routes _ => ∃ p, c.turn = some p ∧ p.ticket = id ∧ p.routes = none ∧
      routes = c.subs.snapshot p.source p.sourcePort
  | .requeue id => ∃ p, c.turn = some p ∧ p.ticket = id
  | .attempt id route target delivery => ∃ p, c.turn = some p ∧ p.ticket = id ∧
      (route, target) ∈ c.destinations batch ∧
      ∀ m, delivery = some m → m.subscription = some route ∧ Receives c p route target
  | .burn => True
  | _ => False

namespace World

variable {w : World} {st : State} {a : Actor}

/-- The part of the fence that looks at the target. -/
theorem targetFence_ok (ho : st.core.Owned w.id) {p : Publication} {target : ActorRef}
    (h : (do
      let a ← w.checkRef target st
      let execution ← w.executionStateLocked target st
      let late : Bool :=
        match a.publicationCutoff with
        | none => true
        | some cutoff => cutoff < p.ticket
      if execution = .quiescing ∧ !p.completion ∧ late then throw .actorStopped : Except Error Unit) =
        .ok ()) :
    ∃ n s, Seated st.core.nodes target n ∧ Effective st.core.nodes target n s ∧
      (s = .quiescing → p.completion = true ∨ ∃ cutoff, n.cutoff = some cutoff ∧
        p.ticket ≤ cutoff) := by
  obtain ⟨a, ha, h⟩ := bind_ok.mp h
  obtain ⟨s, hs, h⟩ := bind_ok.mp h
  obtain ⟨n, hn, heff⟩ := seated_of_execution ho hs
  refine ⟨n, s, hn, heff, fun hq => ?_⟩
  have hcut : n.cutoff = a.publicationCutoff := by rw [hn.unique (seated_of_check ho ha)]; rfl
  by_contra hne
  obtain ⟨hcomp, hno⟩ := not_or.mp hne
  dsimp only at h
  rcases hc : a.publicationCutoff with - | cutoff
  · rw [hc, if_pos ⟨hq, by simpa using hcomp, rfl⟩] at h
    cases h
  · have hlate : cutoff < p.ticket := by
      by_contra hle
      exact hno ⟨cutoff, hcut.trans hc, by omega⟩
    rw [hc, if_pos ⟨hq, by simpa using hcomp, decide_eq_true hlate⟩] at h
    cases h

theorem routeFence_ok (ho : st.core.Owned w.id) {p : Publication} {route : ℕ} {target : ActorRef}
    (h : w.routeFence p route target st = .ok ()) :
    (∃ sub, st.core.subs.get route = some sub ∧ Running st.core.nodes sub.owner) ∧
      ∃ n s, Seated st.core.nodes target n ∧ Effective st.core.nodes target n s ∧
        (s = .quiescing → p.completion = true ∨ ∃ cutoff, n.cutoff = some cutoff ∧
          p.ticket ≤ cutoff) := by
  unfold routeFence at h
  split at h
  · cases h
  · rename_i sub hsub
    obtain ⟨s, hs, h⟩ := bind_ok.mp h
    obtain ⟨n, hn, heff⟩ := seated_of_execution ho hs
    cases s
    case active => exact ⟨⟨sub, hsub, heff.running hn (.inl rfl)⟩, targetFence_ok ho h⟩
    case quiescing => exact ⟨⟨sub, hsub, heff.running hn (.inr rfl)⟩, targetFence_ok ho h⟩
    all_goals cases h

end World

/-! ## The publication of the turn -/

theorem erase_insert_self {κ ν : Type} [DecidableEq κ] (m : Assoc κ ν) (k : κ) (v : ν) :
    (AList.insert k v m).erase k = m.erase k := by
  refine AList.ext ?_
  simp [Assoc.entries_erase, AList.insert, List.kinsert, List.kerase_cons_eq]

/-- The table without the publication of the turn. -/
def PublicationTable.taken (t : PublicationTable) (p : Publication) : PublicationTable :=
  { t with
    entries := t.entries.erase p.ticket
    ready := t.ready.tail
    readySet := t.readySet.erase p.source }

/-- The publication is where the last capture or attempt has put it. -/
def PublicationTable.Fronted (t : PublicationTable) (p : Publication) : Prop :=
  AList.insert p.ticket p t.entries = t.entries

/-- What a turn keeps of its publication. -/
structure Publication.Turns (p₀ p : Publication) : Prop where
  ticket : p.ticket = p₀.ticket
  source : p.source = p₀.source
  sourcePort : p.sourcePort = p₀.sourcePort
  completion : p.completion = p₀.completion
  stored : p.stored = p₀.stored

theorem Receives.congr {c c' : Core} {p q : Publication} {route : ℕ} {target : ActorRef}
    (h : Receives c p route target) (hn : c'.nodes = c.nodes) (hs : c'.subs = c.subs)
    (hq : q.Turns p) : Receives c' q route target := by
  refine ⟨?_, ?_⟩
  · rw [hn, hs]
    exact h.route
  · rw [hn, ← hq.completion, ← hq.ticket]
    exact h.target

/-- During a turn that began on the core `c₀`: the state works on a copy `p` of the
publication, which the core `c` still lists. -/
structure Turning (world batch : ℕ) (c₀ : Core) (st : State) (p : Publication) (c : Core) :
    Prop where
  evolves : Evolves world (Move.byTurn batch c₀) c₀ c
  core : st.core = { c with publications := c.publications.taken p }
  entry : c.publications.entries.lookup p.ticket = some p
  head : c.publications.queueOf p.source = p.ticket :: (c.publications.queueOf p.source).tail
  ready : c.publications.ready = p.source :: c.publications.ready.tail
  nodes : c.nodes = c₀.nodes
  subs : c.subs = c₀.subs
  turn : ∃ p₀, c₀.turn = some p₀ ∧ p₀.Turns p

namespace Turning

variable {batch : ℕ} {c₀ : Core} {st st' : State} {p q : Publication}

/-- Reads of the clock change nothing. -/
theorem congr (h : Turning world batch c₀ st p c) (hc : st'.core = st.core) :
    Turning world batch c₀ st' p c :=
  ⟨h.evolves, hc.trans h.core, h.entry, h.head, h.ready, h.nodes, h.subs, h.turn⟩

theorem owned (h : Turning world batch c₀ st p c) (hv : c₀.Valid world) : st.core.Owned world := by
  rw [h.core]
  exact (h.evolves.valid hv).owned

/-- A move of the turn that updates the publication. -/
theorem update {m : Move} (h : Turning world batch c₀ st p c) (hv : c₀.Valid world)
    (hs : Step world c m c') (hm : m.byTurn batch c₀) (hdrain : ∀ slot, m ≠ .undrain slot)
    (hloose : ∀ x, ¬m.loosens c x) (hq : p.Turns q)
    (hpub : ∃ k, c'.publications = { c.publications.update q with snapshotEntries := k })
    (hnodes : c'.nodes = c.nodes) (hsubs : c'.subs = c.subs)
    (hcore : st'.core = { c' with publications := c'.publications.taken q }) :
    Turning world batch c₀ st' q c' ∧ c'.publications.Fronted q := by
  obtain ⟨k, hk⟩ := hpub
  obtain ⟨p₀, hp₀, ht⟩ := h.turn
  have hqueue : c'.publications.queueOf = c.publications.queueOf := by rw [hk]; rfl
  refine ⟨⟨h.evolves.trans (.single (h.evolves.valid hv) hm hs hdrain hloose), hcore, ?_, ?_, ?_,
    hnodes.trans h.nodes, hsubs.trans h.subs, p₀, hp₀, ?_⟩, ?_⟩
  · rw [hk]
    simp [PublicationTable.update]
  · rw [hqueue, hq.source, hq.ticket]
    exact h.head
  · rw [hk, hq.source]
    exact h.ready
  · exact ⟨hq.ticket.trans ht.ticket, hq.source.trans ht.source, hq.sourcePort.trans ht.sourcePort,
      hq.completion.trans ht.completion, hq.stored.trans ht.stored⟩
  · rw [hk]
    exact AList.insert_insert c.publications.entries

/-- The table of the state is the one without the updated publication, too. -/
theorem taken_update (hq : p.Turns q) (t : PublicationTable) : (t.update q).taken q = t.taken p := by
  unfold PublicationTable.update PublicationTable.taken
  simp only [erase_insert_self, hq.ticket, hq.source]

/-- A refused admission costs an event identity at most. -/
theorem burnt (h : Turning world batch c₀ st p c) (hv : c₀.Valid world)
    (hb : Burnt st.core st'.core) : ∃ c', Turning world batch c₀ st' p c' := by
  rcases hb with hb | hb
  · exact ⟨c, h.congr hb⟩
  · refine ⟨{ c with nextEvent := c.nextEvent + 1 }, h.evolves.trans ?_, ?_, h.entry, h.head,
      h.ready, h.nodes, h.subs, h.turn⟩
    · exact .single (h.evolves.valid hv) (m := .burn) trivial .burn (by simp)
        (by simp [Move.loosens])
    · rw [hb, h.core]

end Turning

namespace World

variable {w : World} {st : State} {a : Actor} {batch : ℕ} {c₀ : Core} {p : Publication}

theorem turns_attempted (p : Publication) (delivered : Bool) : p.Turns (p.attempted delivered) :=
  ⟨rfl, rfl, rfl, rfl, rfl⟩

/-- The destination of the next attempt. -/
structure NextDestination (batch : ℕ) (c₀ : Core) (p : Publication) (route : ℕ)
    (target : ActorRef) : Prop where
  listed : ∃ routes, p.routes = some routes ∧ routes[p.cursor]? = some (route, target)
  allowed : (route, target) ∈ c₀.destinations batch

theorem refuseRoute_turning (hv : c₀.Valid w.id) (h : Turning w.id batch c₀ st p c) {route : ℕ}
    {target : ActorRef} (hd : NextDestination batch c₀ p route target) (e : Error) :
    ∃ c', Turning w.id batch c₀ ((reject e target st).note
        (.attempted p.ticket p.source route target none)) (p.attempted false) c' ∧
      c'.publications.Fronted (p.attempted false) := by
  obtain ⟨routes, hr, hi⟩ := hd.listed
  obtain ⟨p₀, hp₀, ht⟩ := h.turn
  refine ⟨_, h.update (m := .attempt p.ticket route target none) hv
    (.attempt p routes h.entry h.head hr hi)
    ⟨p₀, hp₀, ht.ticket.symm, hd.allowed, by simp⟩ (by simp) (by simp [Move.loosens])
    (turns_attempted p false) ⟨c.publications.snapshotEntries, rfl⟩ rfl rfl ?_⟩
  rw [State.core_note_published _ rfl, core_reject, h.core,
    ← Turning.taken_update (turns_attempted p false)]

theorem admitRoute_turning {st' : State} (hv : c₀.Valid w.id) (h : Turning w.id batch c₀ st p c)
    {route : ℕ} {target : ActorRef} (hd : NextDestination batch c₀ p route target) {m : Mail}
    (hm : m.subscription = some route) (hrec : Receives c p route target)
    (hadm : Admitted st.core st'.core target m true) :
    ∃ c', Turning w.id batch c₀ (st'.note
        (.attempted p.ticket p.source route target (some m.eventId))) (p.attempted true) c' ∧
      c'.publications.Fronted (p.attempted true) := by
  obtain ⟨routes, hr, hi⟩ := hd.listed
  obtain ⟨p₀, hp₀, ht⟩ := h.turn
  obtain ⟨b, hb, hc⟩ := hadm.box
  have hrun := hadm.running
  have hevent := hadm.event
  rw [h.core] at hb hrun hevent
  obtain ⟨sub, hsub, -⟩ := hrec.route
  have hs : Step w.id c (.attempt p.ticket route target (some m))
      { c.enqueue target b m with
        publications := c.publications.update (p.attempted true)
        published :=
          c.published ++ [.attempted p.ticket p.source route target (some m.eventId)] } :=
    .deliver p routes b sub h.entry h.head hr hi hsub hrun hb hevent hm
  refine ⟨_, h.update (m := .attempt p.ticket route target (some m)) hv hs
    ⟨p₀, hp₀, ht.ticket.symm, hd.allowed, ?_⟩ (by simp) (by simp [Move.loosens])
    (turns_attempted p true) ⟨c.publications.snapshotEntries, rfl⟩ rfl rfl ?_⟩
  · rintro m' he
    cases he
    exact ⟨hm, hrec.congr h.nodes.symm h.subs.symm
      ⟨ht.ticket, ht.source, ht.sourcePort, ht.completion, ht.stored⟩⟩
  · rw [State.core_note_published _ rfl, hc, h.core,
      ← Turning.taken_update (turns_attempted p true)]
    rfl

theorem attemptRoute_turning (hv : c₀.Valid w.id) (h : Turning w.id batch c₀ st p c) {route : ℕ}
    {target : ActorRef} (hd : NextDestination batch c₀ p route target) :
    (∃ delivered, (w.attemptRoute p route target st).1 = p.attempted delivered) ∧
      ∃ c', Turning w.id batch c₀ (w.attemptRoute p route target st).2
          (w.attemptRoute p route target st).1 c' ∧
        c'.publications.Fronted (w.attemptRoute p route target st).1 := by
  have ho := h.owned hv
  unfold attemptRoute
  set q : Publication := { p with cursor := p.cursor + 1 }
  dsimp only
  rcases hf : w.routeFence q route target st with e | u
  · exact ⟨⟨false, rfl⟩, refuseRoute_turning hv h hd e⟩
  obtain ⟨hsub, n, s, hn, heff, hq⟩ := routeFence_ok ho hf
  dsimp only
  rcases admitMessage_spec (w := w) (r := target) ho q.stored (some route) true none with
    ⟨e, he, hb⟩ | ⟨id, hid, hadm⟩
  · rcases ha : w.admitMessage target q.stored (some route) true none st with ⟨e' | id, st₁⟩
    · rw [ha] at hb
      obtain ⟨c₁, h₁⟩ := h.burnt hv hb
      exact ⟨⟨false, rfl⟩, refuseRoute_turning hv h₁ hd e'⟩
    · simp [ha] at he
  · rcases ha : w.admitMessage target q.stored (some route) true none st with ⟨e | id', st₁⟩
    · simp [ha] at hid
    · rw [ha] at hid hadm
      obtain rfl : id' = id := Except.ok.inj hid
      have hrec : Receives c p route target := by
        rw [h.core] at hsub hn heff hadm
        refine ⟨hsub, n, hn, ?_⟩
        obtain ⟨k, hk, hstate⟩ := hadm.admits
        rw [hk.unique hn] at hstate
        refine hstate.imp_right fun hst => ⟨hst.2, hq ?_⟩
        cases heff <;> simp_all
      exact ⟨⟨true, rfl⟩, admitRoute_turning hv h hd rfl hrec hadm⟩

/-- The loop over the destinations of a turn. -/
theorem attemptRoutes_turning {k : ℕ} (hv : c₀.Valid w.id) {routes : List (ℕ × ActorRef)}
    (batch : ℕ) (rest : List (ℕ × ActorRef)) (h : Turning w.id k c₀ st p c)
    (hr : p.routes = some routes) (hrest : rest = routes.drop p.cursor)
    (hdest : ∀ x ∈ rest.take batch, x ∈ c₀.destinations k) :
    (w.attemptRoutes batch rest p st).1 ≠ some .routed ∧
      (w.attemptRoutes batch rest p st).2.2.1.routes = some routes ∧
      ∃ c', Turning w.id k c₀ (w.attemptRoutes batch rest p st).2.2.2
          (w.attemptRoutes batch rest p st).2.2.1 c' ∧
        ((w.attemptRoutes batch rest p st).1 = none →
          c'.publications.Fronted (w.attemptRoutes batch rest p st).2.2.1 ∨
            c' = c ∧ (w.attemptRoutes batch rest p st).2.2.1 = p ∧ (batch = 0 ∨ rest = [])) := by
  induction batch generalizing rest p st c with
  | zero => exact ⟨nofun, hr, c, h, fun _ => .inr ⟨rfl, rfl, .inl rfl⟩⟩
  | succ batch ih =>
    rcases rest with - | ⟨⟨route, target⟩, rest⟩
    · exact ⟨nofun, hr, c, h, fun _ => .inr ⟨rfl, rfl, .inr rfl⟩⟩
    unfold attemptRoutes
    dsimp only
    split_ifs with hdue
    · exact ⟨by simp, hr, c, h.congr rfl, by simp⟩
    have hi : routes[p.cursor]? = some (route, target) := by
      have := congrArg (fun l => l[0]?) hrest
      simpa using this.symm
    have hd : NextDestination k c₀ p route target :=
      ⟨⟨routes, hr, hi⟩, hdest _ (by simp)⟩
    obtain ⟨⟨delivered, hp'⟩, c₁, h₁, hfront⟩ :=
      @attemptRoute_turning _ w st.tick _ _ _ hv (h.congr rfl) _ _ hd
    rcases hcall : w.attemptRoute p route target st.tick with ⟨p₁, st₁⟩
    rw [hcall] at hp' h₁ hfront
    dsimp only at hp' h₁ hfront ⊢
    subst hp'
    obtain ⟨hne, hr', c', h', hnone⟩ := ih rest h₁ hr (by
      rw [show (p.attempted delivered).cursor = p.cursor + 1 from rfl, ← List.drop_drop, ← hrest]
      rfl) fun x hx => hdest x (by simp [hx])
    refine ⟨hne, hr', c', h', fun hres => .inl ?_⟩
    rcases hnone hres with hf | ⟨rfl, hp, -⟩
    · exact hf
    · rw [hp]
      exact hfront

/-- The first turn of a publication captures its routes. -/
theorem captureRoutes_turning (hv : c.Valid w.id) (h : Turning w.id batch c st p c)
    (hturn : c.turn = some p) :
    (∃ outcome, outcome ≠ .routed ∧ w.captureRoutes p st = (.error outcome, st)) ∨
      ∃ q, (w.captureRoutes p st).1 = .ok q ∧ q.cursor = p.cursor ∧
        q.routes = some (p.routes.getD (c.subs.snapshot p.source p.sourcePort)) ∧
        ∃ c', Turning w.id batch c (w.captureRoutes p st).2 q c' ∧
          (c'.publications.Fronted q ∨ c' = c ∧ q = p) := by
  unfold captureRoutes
  rcases hr : p.routes with - | routes
  · have hsubs : st.subs = c.subs := by
      show st.core.subs = _
      rw [h.core]
    have hcount : st.subs.sourceCount p.source p.sourcePort =
        (c.subs.snapshot p.source p.sourcePort).length := by
      rw [hv.routed.indexed.snapshot_length, hsubs]
    dsimp only
    split_ifs
    · exact .inl ⟨.fanoutLimit, nofun, rfl⟩
    · exact .inl ⟨.snapshotFull, nofun, rfl⟩
    rw [hcount]
    set routes := c.subs.snapshot p.source p.sourcePort with hroutes
    have hsnap : snapshotRoutes p st = routes := by
      rw [hroutes, ← hsubs]
      rfl
    have hroutable : c.publications.routable p.source = true :=
      (hv.publishing.sound.ready_mem p.source).mp (by rw [h.ready]; simp)
    have hs := @Step.capture w.id _ _ routes p h.entry hroutable h.head hr hroutes
    rw [hsnap]
    set q : Publication :=
      { p with
        routes := some routes
        report := { p.report with matched := routes.length } } with hq
    have hturns : p.Turns q := ⟨rfl, rfl, rfl, rfl, rfl⟩
    have hcore : (({ st with
        publications :=
          { st.publications with
            snapshotEntries := st.publications.snapshotEntries + routes.length } } : State).note
              (.captured p.ticket routes)).core =
        { c with
          publications := ({ c.publications.update q with
            snapshotEntries := c.publications.snapshotEntries + routes.length } :
              PublicationTable).taken q
          published := c.published ++ [.captured p.ticket routes] } := by
      have hpub : st.publications = c.publications.taken p := by
        show st.core.publications = _
        rw [h.core]
      rw [State.core_note_published _ rfl, State.core_with_publications, hpub, h.core,
        ← Turning.taken_update hturns]
      rfl
    obtain ⟨h₁, h₂⟩ := h.update hv hs ⟨p, hturn, rfl, hr, hroutes⟩ (by simp)
      (by simp [Move.loosens]) hturns ⟨_, rfl⟩ rfl rfl hcore
    exact .inr ⟨q, rfl, rfl, rfl, _, h₁, .inl h₂⟩
  · exact .inr ⟨p, rfl, rfl, hr, c, h, .inr ⟨rfl, rfl⟩⟩

theorem core_turnOutcome : (w.turnOutcome p st).2.core = st.core := by
  unfold turnOutcome
  split_ifs <;> rfl

theorem turnOutcome_ne_routed : (w.turnOutcome p st).1 ≠ some .routed := by
  unfold turnOutcome
  dsimp only
  split_ifs <;> nofun

/-- A whole turn, up to its outcome. -/
theorem routeTurn_turning (hv : c.Valid w.id)
    (h : Turning w.id w.cfg.routingBatchSize c st p c) (hturn : c.turn = some p) :
    ∃ c', Turning w.id w.cfg.routingBatchSize c (w.routeTurn p st).2.2.2
        (w.routeTurn p st).2.2.1 c' ∧
      ((w.routeTurn p st).1 = none → c'.publications.Fronted (w.routeTurn p st).2.2.1 ∧
        (w.routeTurn p st).2.2.1.routes ≠ none) ∧
      ((w.routeTurn p st).1 = some .routed → (w.routeTurn p st).2.2.1.Exhausted) := by
  unfold routeTurn
  have hc := @core_turnOutcome w st p
  have hne := @turnOutcome_ne_routed w st p
  rcases hcall : w.turnOutcome p st with ⟨- | outcome, st₁⟩
  all_goals rw [hcall] at hc hne
  swap
  · exact ⟨c, h.congr hc, by simp, fun hres => absurd hres hne⟩
  have h₁ : Turning w.id w.cfg.routingBatchSize c st₁ p c := h.congr hc
  dsimp only
  rcases captureRoutes_turning hv h₁ hturn with
    ⟨outcome, hne, ho⟩ | ⟨q, hok, hcur, hr, c₂, h₂, hf⟩
  · rw [ho]
    exact ⟨c, h₁, by simp, fun hres => absurd (Option.some.inj hres) hne⟩
  rcases hcap : w.captureRoutes p st₁ with ⟨e | q', st₂⟩
  · simp [hcap] at hok
  rw [hcap] at hok h₂
  obtain rfl : q' = q := Except.ok.inj hok
  dsimp only at h₂ ⊢
  set routes := p.routes.getD (c.subs.snapshot p.source p.sourcePort) with hroutes
  rw [hr, Option.getD_some, hcur]
  have hdest : ∀ x ∈ (routes.drop p.cursor).take w.cfg.routingBatchSize,
      x ∈ c.destinations w.cfg.routingBatchSize := by
    intro x hx
    rw [Core.destinations, hturn]
    exact hx
  obtain ⟨hne, hr', c₃, h₃, hnone⟩ := attemptRoutes_turning hv w.cfg.routingBatchSize
    (routes.drop p.cursor) h₂ hr (by rw [hcur]) hdest
  refine ⟨c₃, h₃, fun hres => ?_, fun hres => ?_⟩
  swap
  · split_ifs at hres with hall
    · exact ⟨routes, hr', hall.2⟩
    · exact absurd hres hne
  split_ifs at hres with hall
  refine ⟨?_, by simp [hr']⟩
  rcases hnone hres with hfront | ⟨rfl, hq, hempty⟩
  · exact hfront
  · rw [hq] at hall ⊢
    rcases hf with hf | ⟨-, rfl⟩
    · exact hf
    · -- nothing was left to attempt
      exfalso
      have hbatch : w.cfg.routingBatchSize ≠ 0 := by
        have := w.valid
        unfold Config.Valid at this
        omega
      obtain ⟨hprog, -⟩ := (h₂.evolves.valid hv).publishing.pending _ _ h₂.entry
      have hle := hprog.cursor_le
      rw [hr] at hle
      rcases hempty with h0 | hnil
      · exact hbatch h0
      · have := List.drop_eq_nil_iff.mp hnil
        exact hall ⟨hres, le_antisymm hle this⟩

end World

/-! ## The end of a turn -/

namespace PublicationTable

variable {t : PublicationTable} {p : Publication}

/-- The table with another ready queue. -/
def withReady (t : PublicationTable) (ready readySet : List ActorRef) : PublicationTable :=
  { t with ready := ready, readySet := readySet }

theorem dropDeadline_withReady (t : PublicationTable) (p : Publication) (l s : List ActorRef) :
    (t.withReady l s).dropDeadline p = (t.dropDeadline p).withReady l s := by
  unfold dropDeadline
  rcases p.stored.options.deadline with - | d <;> rfl

theorem dropSnapshot_withReady (t : PublicationTable) (p : Publication) (l s : List ActorRef) :
    (t.withReady l s).dropSnapshot p = (t.dropSnapshot p).withReady l s := by
  unfold dropSnapshot
  rcases p.routes with - | routes <;> rfl

theorem dropQueued_withReady (t : PublicationTable) (source : ActorRef) (id : ℕ)
    (l s : List ActorRef) :
    (t.withReady l s).dropQueued source id = (t.dropQueued source id).withReady l s := by
  unfold dropQueued
  have hsame : (t.withReady l s).bySource = t.bySource := rfl
  rw [hsame]
  rcases t.bySource.lookup source with - | queue
  · rfl
  · dsimp only
    split_ifs <;> rfl

/-- Concluding a publication does not need its source in the ready queue. -/
theorem removeIndexes_taken (hs : t.Sound) (hr : t.ready = p.source :: t.ready.tail) :
    (t.taken p).removeIndexes p =
      ({ t with entries := t.entries.erase p.ticket } : PublicationTable).removeIndexes p := by
  have hmem : p.source ∈ t.readySet :=
    (hs.readySet_mem _).mpr ((hs.ready_mem _).mp (by rw [hr]; simp))
  have hno : p.source ∉ t.readySet.erase p.source := hs.readySet_nodup.not_mem_erase
  have htail : t.ready.filter (· ≠ p.source) = t.ready.tail := by
    have hn := hs.ready_nodup
    rw [hr] at hn ⊢
    rw [List.filter_cons_of_neg (by simp), List.tail_cons, List.filter_eq_self]
    rintro x hx
    simp only [ne_eq, decide_eq_true_eq]
    rintro rfl
    exact (List.nodup_cons.mp hn).1 hx
  -- only the ready queue differs, and the source leaves it either way
  have key : ∀ t' : PublicationTable,
      (t'.withReady t.ready.tail (t.readySet.erase p.source)).unready p.source =
        (t'.withReady t.ready t.readySet).unready p.source := by
    intro t'
    unfold unready withReady
    dsimp only
    rw [if_neg hno, if_pos hmem, htail]
  set t₁ : PublicationTable := { t with entries := t.entries.erase p.ticket }
  have h₁ : t.taken p = t₁.withReady t.ready.tail (t.readySet.erase p.source) := rfl
  have h₂ : t₁ = t₁.withReady t.ready t.readySet := rfl
  rw [h₁]
  conv_rhs => rw [h₂]
  unfold removeIndexes
  simp only [dropDeadline_withReady, dropSnapshot_withReady, dropQueued_withReady, key]

/-- Putting the publication back at the end of a turn. -/
theorem requeue_taken (hf : t.Fronted p) :
    { (t.taken p).setStatus p.ticket (.routing p.report) with
      entries := AList.insert p.ticket p
        ((t.taken p).setStatus p.ticket (.routing p.report)).entries } =
      ({ t with ready := t.ready.tail, readySet := t.readySet.erase p.source } :
        PublicationTable).setStatus p.ticket (.routing p.report) := by
  have hentries : AList.insert p.ticket p (t.entries.erase p.ticket) = t.entries := by
    refine Eq.trans (AList.ext ?_) hf
    simp only [AList.insert, Assoc.entries_erase, List.kinsert_def]
    rw [List.kerase_of_notMem_keys (List.notMem_keys_kerase _ t.entries.nodupKeys)]
  unfold setStatus taken
  dsimp only
  rcases t.tickets.lookup p.ticket with - | k <;> simp only [hentries]

end PublicationTable

namespace World

variable {w : World} {st : State}

/-- At the start of a turn the publication has just been taken out of the table. -/
theorem turning_start {ready : List ActorRef} {source : ActorRef} (hv : st.core.Valid w.id)
    (hready : st.publications.ready = source :: ready) :
    ∃ p id, (st.publications.queueOf source).head? = some id ∧
      st.publications.entries.lookup id = some p ∧ st.core.turn = some p ∧
      ∀ st' : State, st'.core = { st.core with
        publications :=
          { st.publications with
            ready := ready
            readySet := st.publications.readySet.erase source
            entries := st.publications.entries.erase id } } →
        Turning w.id w.cfg.routingBatchSize st.core st' p st.core := by
  have hsound := hv.publishing.sound
  have hroutable := (hsound.ready_mem source).mp (show source ∈ st.publications.ready by
    rw [hready]
    simp)
  unfold PublicationTable.routable at hroutable
  rcases hhead : (st.core.publications.queueOf source).head? with - | id
  · simp [hhead] at hroutable
  rcases hp : st.core.publications.entries.lookup id with - | p
  · simp [hhead, hp] at hroutable
  have hmem : id ∈ st.core.publications.queueOf source := List.mem_of_mem_head? hhead
  obtain ⟨p', hp', rfl⟩ := (hsound.queue source id).mp hmem
  obtain rfl : p' = p := Option.some.inj (hp'.symm.trans hp)
  obtain rfl : p'.ticket = id := (hsound.key id p' hp).1
  have hturn : st.core.turn = some p' := by
    have : st.core.publications.ready.head? = some p'.source := by
      show st.publications.ready.head? = _
      rw [hready]
      rfl
    simp [Core.turn, this, hhead, hp]
  refine ⟨p', p'.ticket, hhead, hp, hturn, fun st' hst' => ⟨.refl _, ?_, hp, ?_, ?_, rfl, rfl,
    p', hturn, rfl, rfl, rfl, rfl, rfl⟩⟩
  · rw [hst']
    have : ready = st.core.publications.ready.tail := by
      show ready = st.publications.ready.tail
      rw [hready]
      rfl
    rw [this]
    rfl
  · exact (List.cons_head?_tail hhead).symm
  · show st.publications.ready = p'.source :: st.publications.ready.tail
    rw [hready]
    rfl

/-- What a turn makes of its publication. -/
inductive Turned (c' : Core) (p : Publication) : Prop
  | concluded : c'.publications.entries.lookup p.ticket = none → Turned c' p
  | requeued (q : Publication) : c'.publications.entries.lookup p.ticket = some q →
      q.routes ≠ none → Turned c' p

theorem routeBatch_spec (hv : st.core.Valid w.id) :
    Evolves w.id (Move.byTurn w.cfg.routingBatchSize st.core) st.core (w.routeBatch st).2.core ∧
      ∀ p, st.core.turn = some p → Turned (w.routeBatch st).2.core p := by
  unfold routeBatch
  rcases hready : st.publications.ready with - | ⟨source, ready⟩
  · refine ⟨.refl _, fun p hp => ?_⟩
    have : st.core.publications.ready = [] := hready
    simp [Core.turn, this] at hp
  obtain ⟨p, id, hhead, hp, hturn, hstart⟩ := turning_start hv hready
  set st₁ : State := { st with
    publications :=
      { st.publications with
        ready := ready
        readySet := st.publications.readySet.erase source } } with hst₁
  have hhead₁ : (st₁.publications.queueOf source).head? = some id := hhead
  have hp₁ : st₁.publications.entries.lookup id = some p := hp
  dsimp only
  rw [hhead₁]
  dsimp only
  rw [hp₁]
  dsimp only
  set st₂ : State := { st₁ with
    publications := { st₁.publications with entries := st₁.publications.entries.erase id } } with hst₂
  obtain ⟨c', h', hnone, hall⟩ := routeTurn_turning hv (hstart st₂ rfl) hturn
  rcases hcall : w.routeTurn p st₂ with ⟨- | outcome, k, q, st'⟩
  · rw [hcall] at h' hnone
    obtain ⟨hf, hroutes⟩ := hnone rfl
    dsimp only at h' hroutes ⊢
    obtain ⟨p₀, hp₀, ht⟩ := h'.turn
    have hs : Step w.id c' (.requeue q.ticket) { c' with publications := c'.publications.requeue q } :=
      .requeue q c'.publications.ready.tail h'.entry h'.head h'.ready
    have hc : (requeuePublication q st').core = { c' with publications := c'.publications.requeue q } := by
      have hpub : st'.publications = c'.publications.taken q := by
        show st'.core.publications = _
        rw [h'.core]
      unfold requeuePublication
      dsimp only
      rw [State.core_with_publications, hpub, PublicationTable.requeue_taken hf, h'.core]
      rfl
    have hlook : ({ c' with publications := c'.publications.requeue q } : Core).publications.entries.lookup
        q.ticket = some q := by
      have hentries : (c'.publications.requeue q).entries = c'.publications.entries := by
        rw [PublicationTable.requeue, (PublicationTable.readySource_frame _ _).1,
          (PublicationTable.setStatus_frame _ _ _).1]
      show (c'.publications.requeue q).entries.lookup q.ticket = some q
      rw [hentries]
      exact h'.entry
    rw [State.core_touchActivity, hc]
    refine ⟨h'.evolves.trans (.single (h'.evolves.valid hv) (m := .requeue q.ticket)
      ⟨p₀, hp₀, ht.ticket.symm⟩ hs (by simp) (by simp [Move.loosens])), fun x hx => ?_⟩
    obtain rfl : p₀ = x := Option.some.inj (hp₀.symm.trans hx)
    exact .requeued q (ht.ticket ▸ hlook) hroutes
  · rw [hcall] at h' hall
    dsimp only at h' hall ⊢
    obtain ⟨p₀, hp₀, ht⟩ := h'.turn
    have hv' := h'.evolves.valid hv
    have hs := @Step.conclude w.id _ _ outcome q h'.entry fun he => hall (congrArg some he)
    have hc : (w.finishPublicationLocked q outcome st').core =
        { c' with
          publications := c'.publications.conclude q outcome
          ledger := c'.ledger.conclude outcome
          published := c'.published ++ [.concluded q.ticket (q.closing outcome)] } := by
      have hpub : st'.publications = c'.publications.taken q := by
        show st'.core.publications = _
        rw [h'.core]
      rw [core_finishPublicationLocked, hpub,
        PublicationTable.removeIndexes_taken hv'.publishing.sound h'.ready, h'.core]
      rfl
    have hentries := (hv'.publishing.sound.conclude h'.entry outcome).2.1
    rw [State.core_touchActivity, hc]
    refine ⟨h'.evolves.trans (.single hv' (m := .conclude q.ticket q.source outcome)
      ⟨p₀, hp₀, ht.ticket.symm, ht.source.symm⟩ hs (by simp) (by simp [Move.loosens])),
      fun x hx => .concluded ?_⟩
    obtain rfl : p₀ = x := Option.some.inj (hp₀.symm.trans hx)
    rw [← ht.ticket]
    show (c'.publications.conclude q outcome).entries.lookup q.ticket = none
    rw [hentries]
    exact AList.lookup_erase _ _

theorem routeBatch_evolves (hv : st.core.Valid w.id) :
    Evolves w.id (Move.byTurn w.cfg.routingBatchSize st.core) st.core (w.routeBatch st).2.core :=
  (routeBatch_spec hv).1

end World

end Actorplane
