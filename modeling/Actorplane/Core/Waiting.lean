import Actorplane.Core.Invariant

/-!
# The order of the ready queue

Sources leave the ready queue from any place, and join it at its end. So nobody
comes to stand before a source that keeps its place. A source whose publication
is concluded loses its place even when it stays ready.
-/

namespace Actorplane

variable {A B s : ActorRef}

/-- Only a last element can be new behind another one. -/
theorem pair_of_append {l : List ActorRef} (hs : s ≠ B) (h : [A, B].Sublist (l ++ [s])) :
    [A, B].Sublist l := by
  obtain ⟨l₁, l₂, he, h₁, h₂⟩ := List.sublist_append_iff.mp h
  rcases List.sublist_singleton.mp h₂ with rfl | rfl
  · rw [he, List.append_nil]
    exact h₁
  · have hlast := congrArg List.getLast? he
    simp at hlast
    exact absurd hlast.symm hs

namespace PublicationTable

variable {t t' : PublicationTable}

/-- The ready queue loses sources, and one of them or a new one joins at the end. -/
structure Queues (t t' : PublicationTable) (source : ActorRef) : Prop where
  kept : ∃ l, l.Sublist t.ready ∧ (∀ x ∈ t.ready, x ≠ source → x ∈ l) ∧
    (t'.ready = l ∨ t'.ready = l ++ [source])

/-- A source that is ready keeps its place. -/
def Joins (t t' : PublicationTable) (source : ActorRef) : Prop :=
  t'.ready = t.ready ∨ source ∉ t.ready ∧ t'.ready = t.ready ++ [source]

theorem Joins.queues (h : t.Joins t' s) : t.Queues t' s :=
  ⟨t.ready, .refl _, fun _ hx _ => hx, h.imp_right And.right⟩

/-- A ready source other than the one at work keeps whom it stands behind. -/
theorem Queues.place (h : t.Queues t' s) (hB : B ∈ t.ready) (hs : s ≠ B) :
    B ∈ t'.ready ∧ ([A, B].Sublist t'.ready → [A, B].Sublist t.ready) := by
  obtain ⟨l, hsub, hkeep, he⟩ := h.kept
  have hBl : B ∈ l := hkeep B hB (Ne.symm hs)
  rcases he with he | he
  · rw [he]
    exact ⟨hBl, fun h => h.trans hsub⟩
  · rw [he]
    exact ⟨List.mem_append_left _ hBl, fun h => (pair_of_append hs h).trans hsub⟩

theorem Joins.place (h : t.Joins t' s) (hB : B ∈ t.ready) :
    B ∈ t'.ready ∧ ([A, B].Sublist t'.ready → [A, B].Sublist t.ready) := by
  by_cases hs : s = B
  · subst hs
    have he := h.resolve_right fun h => h.1 hB
    rw [he]
    exact ⟨hB, id⟩
  · exact h.queues.place hB hs

theorem readySource_ready (t : PublicationTable) (source : ActorRef) :
    (t.readySource source).ready = t.ready ∨
      (t.readySource source).ready = t.ready ++ [source] := by
  unfold readySource
  split_ifs
  · exact .inr rfl
  · exact .inl rfl

theorem readySource_joins (h : s ∈ t.ready → s ∈ t.readySet) : t.Joins (t.readySource s) s := by
  unfold readySource
  split_ifs with hr
  · exact .inr ⟨fun hs => hr.2 (h hs), rfl⟩
  · exact .inl rfl

theorem Sound.accept_joins (h : t.Sound) {p : Publication}
    (hok : (t.reserve p.source p.staged).1 = .ok p.ticket) :
    t.Joins ((t.reserve p.source p.staged).2.insert p) p.source := by
  rcases reserve_frame t p.source p.staged with ⟨-, hno⟩ | ⟨-, -, -, hr, hrs, -⟩
  · exact absurd hok (hno _)
  set t₀ := (t.reserve p.source p.staged).2
  have hbase : ∃ t₁ : PublicationTable, t₀.insert p = t₁.readySource p.source ∧
      t₁.ready = t.ready ∧ t₁.readySet = t.readySet := by
    refine ⟨_, rfl, ?_⟩
    unfold addDeadline
    split <;> exact ⟨hr, hrs⟩
  obtain ⟨t₁, he, hr₁, hrs₁⟩ := hbase
  have hjoin := @readySource_joins p.source t₁ (by
    rw [hr₁, hrs₁]
    intro hmem
    exact (h.readySet_mem _).mpr ((h.ready_mem _).mp hmem))
  rw [he]
  unfold Joins at hjoin ⊢
  rwa [hr₁] at hjoin

theorem Sound.unstage_joins (h : t.Sound) (id : ℕ) : ∃ s, t.Joins (t.unstage id) s := by
  unfold PublicationTable.unstage
  cases hp : t.entries.lookup id with
  | none => exact ⟨⟨0, 0, 0⟩, .inl rfl⟩
  | some p =>
    dsimp only
    refine ⟨p.source, ?_⟩
    set t₁ := ({ t with entries := AList.insert id { p with staged := false } t.entries } :
      PublicationTable).setStatus id .queued
    obtain ⟨-, -, hr, hrs, -⟩ := setStatus_frame
      { t with entries := AList.insert id { p with staged := false } t.entries } id .queued
    have hjoin := @readySource_joins p.source t₁ (by
      rw [hr, hrs]
      intro hmem
      exact (h.readySet_mem _).mpr ((h.ready_mem _).mp hmem))
    unfold Joins at hjoin ⊢
    rwa [hr] at hjoin

theorem removeIndexes_queues (t : PublicationTable) (p : Publication) :
    t.Queues (t.removeIndexes p) p.source := by
  have hdrop : ∃ t₁ : PublicationTable, t.removeIndexes p =
      (t₁.unready p.source).readySource p.source ∧ t₁.ready = t.ready := by
    refine ⟨_, rfl, ?_⟩
    obtain ⟨-, hr, -⟩ := dropQueued_frame ((t.dropDeadline p).dropSnapshot p) p.source p.ticket
    rw [hr]
    unfold dropDeadline dropSnapshot
    split <;> split <;> rfl
  obtain ⟨t₁, he, hr₁⟩ := hdrop
  have hl : (t₁.unready p.source).ready.Sublist t.ready ∧
      ∀ x ∈ t.ready, x ≠ p.source → x ∈ (t₁.unready p.source).ready := by
    unfold unready
    split_ifs
    · rw [← hr₁]
      refine ⟨List.filter_sublist, fun x hx hne => ?_⟩
      exact List.mem_filter.mpr ⟨hx, by simpa using hne⟩
    · rw [← hr₁]
      exact ⟨.refl _, fun x hx _ => hx⟩
  refine ⟨(t₁.unready p.source).ready, hl.1, hl.2, ?_⟩
  rw [he]
  exact readySource_ready _ _

theorem conclude_queues (t : PublicationTable) (p : Publication) (outcome : PublicationOutcome) :
    t.Queues (t.conclude p outcome) p.source := by
  set t₀ : PublicationTable := { t with entries := t.entries.erase p.ticket } with ht₀
  have hready : (t.conclude p outcome).ready = (t₀.removeIndexes p).ready := by
    obtain ⟨-, -, h1, -⟩ := settle_frame ((t₀.removeIndexes p).setStatus p.ticket
      (.terminal (p.closing outcome))) p.ticket
    obtain ⟨-, -, h2, -⟩ := setStatus_frame (t₀.removeIndexes p) p.ticket
      (.terminal (p.closing outcome))
    rw [← h2, ← h1]
    rfl
  obtain ⟨l, hsub, hkeep, he⟩ := (t₀.removeIndexes_queues p).kept
  exact ⟨l, hsub, hkeep, by rwa [hready]⟩

theorem requeue_ready (t : PublicationTable) (p : Publication) :
    (t.requeue p).ready = t.ready.tail ∨ (t.requeue p).ready = t.ready.tail ++ [p.source] := by
  unfold requeue
  obtain ⟨-, -, hr, -⟩ := setStatus_frame
    { t with ready := t.ready.tail, readySet := t.readySet.erase p.source } p.ticket
    (.routing p.report)
  have hjoin := readySource_ready (({ t with
    ready := t.ready.tail
    readySet := t.readySet.erase p.source } : PublicationTable).setStatus p.ticket
      (.routing p.report)) p.source
  rwa [hr] at hjoin

/-- The source of the turn leaves the front, and may join again. -/
theorem requeue_queues (t : PublicationTable) (p : Publication) {ready : List ActorRef}
    (h : t.ready = p.source :: ready) : t.Queues (t.requeue p) p.source := by
  have hready : (t.requeue p).ready = ready ∨ (t.requeue p).ready = ready ++ [p.source] := by
    rw [show ready = t.ready.tail by rw [h, List.tail_cons]]
    exact t.requeue_ready p
  refine ⟨ready, ?_, fun x hx hne => ?_, hready⟩
  · rw [h]
    exact List.sublist_cons_self _ _
  · rw [h] at hx
    exact (List.mem_cons.mp hx).resolve_left hne

end PublicationTable

/-! ## Moves -/

variable {world : ℕ} {c c' : Core} {m : Move} {P : Move → Prop}

/-- A ready source keeps its place while none of its own publications is concluded, or is put
back at the end of its turn. -/
theorem Core.Publishing.place (h : c.Publishing) (hs : Step world c m c')
    (hB : B ∈ c.publications.ready) (hcon : ∀ id o, m ≠ .conclude id B o)
    (hreq : ∀ id p, m = .requeue id → c.publications.entries.lookup id = some p → p.source ≠ B) :
    B ∈ c'.publications.ready ∧
      ([A, B].Sublist c'.publications.ready → [A, B].Sublist c.publications.ready) := by
  have hsame : c'.publications.ready = c.publications.ready → B ∈ c'.publications.ready ∧
      ([A, B].Sublist c'.publications.ready → [A, B].Sublist c.publications.ready) := by
    intro he
    rw [he]
    exact ⟨hB, id⟩
  cases hs
  case conclude id outcome p _ _ =>
    apply (c.publications.conclude_queues p outcome).place hB
    rintro rfl
    exact hcon id outcome rfl
  case reserveTicket source staged =>
    rcases c.publications.reserve_frame source staged with ⟨he, -⟩ | ⟨-, -, -, hr, -⟩
    · exact hsame (congrArg PublicationTable.ready he)
    · exact hsame hr
  case cloneHandle id => exact hsame (c.publications.cloneHandle_frame id).2.2.1
  case dropHandle id => exact hsame (c.publications.dropHandle_frame id).2.2.1
  case accept p _ _ _ hok _ _ _ _ _ _ _ _ _ _ => exact (h.sound.accept_joins hok).place hB
  case flush id _ _ _ _ _ _ _ _ =>
    obtain ⟨s, hjoin⟩ := h.sound.unstage_joins id
    exact hjoin.place hB
  case requeue id p ready hp _ hready =>
    exact (c.publications.requeue_queues p hready).place hB (hreq id p rfl hp)
  all_goals exact hsame rfl

/-- Where a pending publication was before. -/
theorem Core.Publishing.entry_back (h : c.Publishing) (hs : Step world c m c') {id : ℕ}
    {p' : Publication} (hp' : c'.publications.entries.lookup id = some p') :
    m = .accept p' ∨ ∃ p, c.publications.entries.lookup id = some p ∧ p.source = p'.source ∧
      p.stored = p'.stored ∧ (p'.staged = true → p.staged = true) := by
  have hsame : c'.publications.entries = c.publications.entries → ∃ p,
      c.publications.entries.lookup id = some p ∧ p.source = p'.source ∧ p.stored = p'.stored ∧
        (p'.staged = true → p.staged = true) := by
    intro he
    rw [he] at hp'
    exact ⟨p', hp', rfl, rfl, fun h => h⟩
  have hupdate : ∀ (i : ℕ) (p q : Publication), c.publications.entries.lookup i = some p →
      q.ticket = p.ticket → q.source = p.source → q.stored = p.stored → q.staged = p.staged →
      (c.publications.update q).entries.lookup id = some p' → ∃ p,
        c.publications.entries.lookup id = some p ∧ p.source = p'.source ∧
          p.stored = p'.stored ∧ (p'.staged = true → p.staged = true) := by
    intro i p q hp h1 h2 h3 h4 hq
    simp only [PublicationTable.update, Assoc.lookup_insert_ite] at hq
    split_ifs at hq with hi
    · cases hq
      rw [hi, h1, (h.sound.key i p hp).1]
      exact ⟨p, hp, h2.symm, h3.symm, fun h => h4 ▸ h⟩
    · exact ⟨p', hq, rfl, rfl, fun h => h⟩
  cases hs
  case conclude i outcome p hp _ =>
    have he := (h.sound.conclude hp outcome).2.1
    simp only [he, Assoc.lookup_erase_ite] at hp'
    split_ifs at hp'
    exact .inr ⟨p', hp', rfl, rfl, fun h => h⟩
  case reserveTicket source staged =>
    rcases c.publications.reserve_frame source staged with ⟨he, -⟩ | ⟨-, he, -⟩
    · exact .inr (hsame (congrArg PublicationTable.entries he))
    · exact .inr (hsame he)
  case cloneHandle i => exact .inr (hsame (c.publications.cloneHandle_frame i).1)
  case dropHandle i => exact .inr (hsame (c.publications.dropHandle_frame i).1)
  case accept p _ _ _ hok _ _ _ _ _ _ _ _ _ _ =>
    obtain ⟨-, -, he, -⟩ := h.sound.accept hok
    rw [he] at hp'
    split_ifs at hp'
    · cases hp'
      exact .inl rfl
    · exact .inr ⟨p', hp', rfl, rfl, fun h => h⟩
  case flush r i _ _ _ _ _ _ _ _ =>
    obtain ⟨-, he, -⟩ := h.sound.unstage i
    simp only [he] at hp'
    split_ifs at hp' with hi
    · obtain ⟨p, hp, rfl⟩ := Option.map_eq_some_iff.mp hp'
      exact .inr ⟨p, hi ▸ hp, rfl, rfl, fun h => by cases h⟩
    · exact .inr ⟨p', hp', rfl, rfl, fun h => h⟩
  case capture i routes p hp _ _ _ _ =>
    exact .inr (hupdate i p { p with
      routes := some routes
      report := { p.report with matched := routes.length } } hp rfl rfl rfl rfl hp')
  case attempt i route target p routes hp _ _ _ =>
    exact .inr (hupdate i p (p.attempted false) hp rfl rfl rfl rfl hp')
  case deliver i route target x p routes b sub hp _ _ _ _ _ _ _ _ =>
    exact .inr (hupdate i p (p.attempted true) hp rfl rfl rfl rfl hp')
  case requeue i p ready hp _ hready =>
    exact .inr (hsame (h.sound.requeue hp hready).2.1)
  all_goals exact .inr (hsame rfl)

/-- What is pending after moves that accept nothing was pending before. -/
theorem Steps.entry_back (hs : Steps world P c c') (hv : c.Valid world)
    (haccept : ∀ q, ¬P (.accept q)) {id : ℕ} {p' : Publication}
    (hp' : c'.publications.entries.lookup id = some p') :
    ∃ p, c.publications.entries.lookup id = some p ∧ p.source = p'.source ∧
      p.stored = p'.stored := by
  induction hs generalizing p' with
  | refl => exact ⟨p', hp', rfl, rfl⟩
  | tail hsteps hm hst ih =>
    rcases (hsteps.valid hv).publishing.entry_back hst hp' with rfl | ⟨q, hq, h1, h2, -⟩
    · exact absurd hm (haccept p')
    · obtain ⟨p, hp, h3, h4⟩ := ih hq
      exact ⟨p, hp, h3.trans h1, h4.trans h2⟩

/-- The source of a pending publication has not been stopped. -/
def Core.Sourced (c : Core) : Prop :=
  ∀ id p, c.publications.entries.lookup id = some p → Present c.nodes p.source

theorem Core.Sourced.step (h : c.Sourced) (ho : c.Owned world) (hp : c.Publishing)
    (hs : Step world c m c') : c'.Sourced := by
  intro id p' hp'
  have hstay : Present c.nodes p'.source → ¬m.stops p'.source → Present c'.nodes p'.source :=
    fun hpres hm => ho.present hs hm hpres
  rcases hp.entry_back hs hp' with rfl | ⟨p, hlook, hsource, -, -⟩
  · apply hstay
    · cases hs
      case accept n _ _ _ _ _ _ _ _ _ _ _ _ _ => exact ⟨n, ‹Seated c.nodes _ n›, ‹_›, ‹_›⟩
    · exact not_false
  · apply hstay (hsource ▸ h id p hlook)
    intro hm
    -- a stopped actor has no publication left
    have hmem := (hp.sound.queue p'.source id).mpr ⟨p, hlook, hsource⟩
    cases m <;> simp only [Move.stops] at hm
    case stop r =>
      subst hm
      cases hs
      case stop _ _ _ _ _ _ _ _ _ hqueue _ _ _ _ =>
        rw [hqueue] at hmem
        cases hmem

theorem Steps.sourced (hs : Steps world P c c') (hv : c.Valid world) (h : c.Sourced) :
    c'.Sourced := by
  induction hs with
  | refl => exact h
  | tail hsteps _ hst ih =>
    have hv := hsteps.valid hv
    exact ih.step hv.owned hv.publishing hst

/-- A ready source keeps its place along moves that conclude none of its publications and are
not its turn. -/
theorem Steps.place (hs : Steps world P c c') (hv : c.Valid world)
    (hB : B ∈ c.publications.ready)
    (haccept : ∀ q, P (.accept q) → (∀ id s o, ¬P (.conclude id s o)) ∧ ∀ id, ¬P (.requeue id))
    (hreq : ∀ id p, P (.requeue id) → c.publications.entries.lookup id = some p → p.source ≠ B)
    (hcon : ∀ id o p, P (.conclude id B o) → c.publications.entries.lookup id = some p →
      p.source ≠ B) :
    B ∈ c'.publications.ready ∧
      ([A, B].Sublist c'.publications.ready → [A, B].Sublist c.publications.ready) := by
  have key : (B ∈ c'.publications.ready ∧
      ([A, B].Sublist c'.publications.ready → [A, B].Sublist c.publications.ready)) ∧
      ∀ id p', c'.publications.entries.lookup id = some p' → (∃ q, P (.accept q)) ∨ ∃ p,
        c.publications.entries.lookup id = some p ∧ p.source = p'.source := by
    induction hs with
    | refl => exact ⟨⟨hB, id⟩, fun id p' hp' => .inr ⟨p', hp', rfl⟩⟩
    | tail hsteps hm hst ih =>
      obtain ⟨⟨hB', hsub⟩, hback⟩ := ih
      have hv := hsteps.valid hv
      have hplace := hv.publishing.place (A := A) hst hB' (fun id o he => ?_)
        (fun id p he hp hsource => ?_)
      · refine ⟨⟨hplace.1, fun h => hsub (hplace.2 h)⟩, fun id p' hp' => ?_⟩
        rcases hv.publishing.entry_back hst hp' with rfl | ⟨q, hq, hsource, -, -⟩
        · exact .inl ⟨p', hm⟩
        · refine (hback id q hq).imp_right ?_
          rintro ⟨p, hp, hs⟩
          exact ⟨p, hp, hs.trans hsource⟩
      · -- a publication of the source was pending from the start
        subst he
        cases hst
        case conclude q hq _ =>
          rcases hback id q hq with ⟨x, hx⟩ | ⟨p, hp, hsource⟩
          · exact (haccept x hx).1 _ _ _ hm
          · exact hcon id o p hm hp hsource
      · subst he
        rcases hback id p hp with ⟨x, hx⟩ | ⟨p₀, hp₀, hs⟩
        · exact (haccept x hx).2 _ hm
        · exact hreq id p₀ hm hp₀ (hs.trans hsource)
  exact key.1

end Actorplane
