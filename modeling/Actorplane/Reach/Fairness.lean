import Actorplane.Core.Waiting
import Actorplane.Reach.Publishing

/-!
# Turns of the sources

The router serves the first source of the ready queue. Between two turns of one
source, another one that stays ready gets a turn, as long as none of its
publications falls due: a publication that expires costs its source the place.
-/

namespace Actorplane

namespace World

variable {w : World} {st : State} {A B : ActorRef}

/-- The source that the next turn serves. -/
def nextSource (st : State) : Option ActorRef := st.publications.ready.head?

/-- The time by which the expiry pass of a call measures deadlines. -/
def passTime (w : World) (st : State) : Action → Option Instant
  | .maintain now => some now
  | .activate _ => some (w.now st)
  | .requestDrain r deadline => some (w.now (w.drainLocked r deadline st).2)
  | .drainAll deadline => some (w.now (w.drainRootsLocked deadline st))
  | _ => none

/-- No pending publication of the source is due at the expiry pass of the call. -/
def Spared (w : World) (st : State) (action : Action) (source : ActorRef) : Prop :=
  ∀ t, w.passTime st action = some t → ∀ id p, st.publications.entries.lookup id = some p →
    p.source = source → ∀ d, p.stored.options.deadline = some d → t < d

/-- A ready source has a publication, so it has not ended. -/
theorem ready_present (hv : st.core.Valid w.id) (hs : st.core.Sourced)
    (hB : B ∈ st.core.publications.ready) : ¬Ended st.core.nodes B := by
  have hr := (hv.publishing.sound.ready_mem B).mp hB
  unfold PublicationTable.routable at hr
  rcases hhead : (st.core.publications.queueOf B).head? with - | id
  · simp [hhead] at hr
  obtain ⟨p, hp, rfl⟩ := (hv.publishing.sound.queue B id).mp (List.mem_of_head? hhead)
  obtain ⟨n, hn, h1, h2⟩ := hs id p hp
  rintro ⟨k, hk, hst⟩
  rw [hn.unique hk] at h1 h2
  rcases hst with hst | hst
  · exact h1 hst
  · exact h2 hst

/-- Outside its turn a publication is concluded by the end of its source, or because it is due. -/
theorem conclude_of_moves {action : Action} {id : ℕ} {o : PublicationOutcome}
    (h : w.moves action st (.conclude id B o)) (hturn : action ≠ .routeBatch)
    (hdrain : ¬action.drains) :
    ((w.step action st).2 = st ∨ Ended (w.step action st).2.core.nodes B) ∨ ∃ p d t,
      st.publications.entries.lookup id = some p ∧ p.stored.options.deadline = some d ∧ d ≤ t ∧
        w.passTime st action = some t := by
  cases action with
  | routeBatch => exact absurd rfl hturn
  | requestDrain r deadline => exact absurd trivial hdrain
  | drainAll deadline => exact absurd trivial hdrain
  | maintain now =>
    rcases h with ⟨-, p, d, hp, hd, hle⟩ | ⟨root, h⟩ | ⟨-, h⟩
    · exact .inr ⟨p, d, now, hp, hd, hle, rfl⟩
    · cases h
    · exact .inl (.inr h)
  | activate r =>
    rcases h with h | ⟨-, p, d, hp, hd, hle⟩ | h
    · cases h
    · exact .inr ⟨p, d, _, hp, hd, hle, rfl⟩
    · exact h.elim
  | reportFailure =>
    rcases h with h | ⟨-, h⟩
    · cases h
    · exact .inl (.inr h)
  | finishFailure lease action =>
    rcases h with h | ⟨-, h⟩
    · cases h
    · left
      show (outstanding _ _ _ _).2 = st ∨ Ended (outstanding _ _ _ _).2.core.nodes B
      unfold outstanding
      split_ifs
      · exact .inr h
      · exact .inl rfl
  | claimFailure | dropFailure =>
    rcases h with h | ⟨-, h⟩
    · cases h
    · exact h.elim
  | acquireService | acquireServiceFrom =>
    rcases h with h | ⟨r, h | h⟩ | ⟨-, h⟩
    · cases h
    · cases h
    · cases h
    · exact h.elim
  | releaseService | stop | close => exact .inl (.inr h.2)
  | allocate =>
    obtain ⟨r, h⟩ := h
    cases h
  | cloneTicket | dropTicket | registerService => cases h
  | send | sendPort | sendHeld | sendHeldFrom =>
    rcases h with h | ⟨x, h, -⟩
    · cases h
    · cases h
  | request | resumeRequest =>
    rcases h with (h | ⟨x, h, -⟩) | ⟨i, h | h | h⟩ <;> cases h
  | completeOperation | cancelOperation | takeOperation =>
    rcases h with h | ⟨i, x, h⟩ | ⟨i, h⟩ <;> cases h
  | _ => exact h.elim

/-- A call that accepts a publication concludes none, and is no turn. -/
theorem accept_alone {action : Action} {q : Publication} (h : w.moves action st (.accept q)) :
    (∀ id s o, ¬w.moves action st (.conclude id s o)) ∧
      ∀ id, ¬w.moves action st (.requeue id) := by
  have hmake : action.publishes = some (q.source, q.sourcePort, q.completion) :=
    makes_of_moves h not_false
  cases action with
  | publish | publishPort | deliveryPublish | taskPublish =>
    exact ⟨fun _ _ _ h => h, fun _ h => h⟩
  | _ => cases hmake

end World

variable {world : ℕ} {c c₁ c' : Core} {now : Instant} {A B : ActorRef}

theorem Move.byDrain.not_accept {D : ActorRef → Prop} {q : Publication} :
    ¬Move.byDrain D (.accept q) := by
  rintro (⟨root, h | h⟩ | h)
  · cases h
  · cases h
  · exact h

/-- Drain requests end no publication of a source that they do not fence. -/
theorem Drains.place (h : Drains world c c₁) (hv : c.Valid world)
    (hB : B ∈ c.publications.ready) (halive : ¬Ended c₁.nodes B) :
    B ∈ c₁.publications.ready ∧
      ([A, B].Sublist c₁.publications.ready → [A, B].Sublist c.publications.ready) := by
  apply h.steps.place hv hB
  · exact fun q hq => absurd hq Move.byDrain.not_accept
  · rintro id p (⟨root, hx | hx⟩ | hx)
    · cases hx
    · cases hx
    · exact hx.elim
  · rintro id o p (⟨root, hx | hx⟩ | hx)
    · cases hx
    · cases hx
    · exact absurd hx.2 halive

/-- Maintenance only ends what is due, and the publications of the sources it fences. -/
theorem Maintains.place (h : Maintains world now c c') (hv : c.Valid world)
    (hB : B ∈ c.publications.ready) (halive : ¬Ended c'.nodes B)
    (hspared : ∀ id p, c.publications.entries.lookup id = some p → p.source = B →
      ∀ d, p.stored.options.deadline = some d → now < d) :
    B ∈ c'.publications.ready ∧
      ([A, B].Sublist c'.publications.ready → [A, B].Sublist c.publications.ready) := by
  apply h.steps.place hv hB
  · rintro q (hx | ⟨root, hx⟩ | hx)
    · exact hx.elim
    · cases hx
    · exact hx.elim
  · rintro id p (hx | ⟨root, hx⟩ | hx)
    · exact hx.elim
    · cases hx
    · exact hx.elim
  · rintro id o p (⟨-, q, d, hq, hd, hle⟩ | ⟨root, hx⟩ | hx) hp hsource
    · rw [hp] at hq
      cases hq
      exact absurd hle (not_le.mpr (hspared id p hp hsource d hd))
    · cases hx
    · exact halive hx.2

namespace World

variable {w : World} {st : State} {A B : ActorRef}

/-- A source that stays ready and has nothing due keeps its place through every call but a turn. -/
theorem Rests.place (h : w.Rests st) {action : Action} (hturn : action ≠ .routeBatch)
    (hs' : (w.step action st).2.core.Sourced) (hB : B ∈ st.core.publications.ready)
    (hB' : B ∈ (w.step action st).2.core.publications.ready) (hspared : w.Spared st action B) :
    [A, B].Sublist (w.step action st).2.core.publications.ready →
      [A, B].Sublist st.core.publications.ready := by
  have halive := ready_present (h.step action).valid hs' hB'
  have hboth : ∀ (c₁ : Core) (now : Instant), Drains w.id st.core c₁ →
      Maintains w.id now c₁ (w.step action st).2.core →
      (∀ id p, st.core.publications.entries.lookup id = some p → p.source = B →
        ∀ d, p.stored.options.deadline = some d → now < d) →
      [A, B].Sublist (w.step action st).2.core.publications.ready →
        [A, B].Sublist st.core.publications.ready := by
    intro c₁ now hd hm hdue hab
    have hv₁ := hd.valid h.valid
    have halive₁ : ¬Ended c₁.nodes B := fun he =>
      halive (hm.steps.ended (fun q => Move.byMaintenance.not_allocate) hv₁ he)
    obtain ⟨hB₁, h₁⟩ := hd.place (A := A) h.valid hB halive₁
    apply h₁
    refine (hm.place (A := A) hv₁ hB₁ halive fun id p hp hsource d hdead => ?_).2 hab
    -- what is pending after the request was pending before
    obtain ⟨p₀, hp₀, h1, h2⟩ := hd.steps.entry_back h.valid (fun q => Move.byDrain.not_accept) hp
    exact hdue id p₀ hp₀ (h1.trans hsource) d (h2 ▸ hdead)
  by_cases hdrain : action.drains
  · cases action with
    | requestDrain r deadline =>
      obtain ⟨c₁, hreq, hc | hm⟩ := requestDrain_spec (w := w) (r := r) h.valid deadline
      · have hfinal : (w.step (.requestDrain r deadline) st).2.core = c₁ := hc
        rw [hfinal] at halive ⊢
        exact ((hreq.drains h.valid).place h.valid hB halive).2
      · exact hboth c₁ _ (hreq.drains h.valid) hm fun id p hp hsource d hd =>
          hspared _ rfl id p hp hsource d hd
    | drainAll deadline =>
      obtain ⟨c₁, hreq, hm⟩ := drainAll_spec (w := w) h.valid deadline
      exact hboth c₁ _ (hreq.drains h.valid) hm fun id p hp hsource d hd =>
        hspared _ rfl id p hp hsource d hd
    | _ => exact hdrain.elim
  · intro hab
    by_cases hstill : (w.step action st).2 = st
    · rwa [hstill] at hab
    have hsteps := (step_evolves h.valid action).steps
    refine (hsteps.place (A := A) h.valid hB (fun q hq => accept_alone hq)
      (fun id p hx => absurd (makes_of_moves hx not_false) hturn) ?_).2 hab
    intro id o p hx hp hsource
    rcases conclude_of_moves hx hturn hdrain with (he | he) | ⟨q, d, t, hq, hd, hle, ht⟩
    · exact hstill he
    · exact halive he
    · rw [show st.publications.entries.lookup id = some p from hp] at hq
      cases hq
      exact absurd hle (not_le.mpr (hspared t ht id p hp hsource d hd))

/-! ## A turn -/

/-- A turn puts its source behind all others. -/
theorem routeBatch_behind (hv : st.core.Valid w.id) (hA : nextSource st = some A) (hne : A ≠ B) :
    ¬[A, B].Sublist (w.routeBatch st).2.core.publications.ready := by
  unfold nextSource at hA
  rcases hready : st.publications.ready with - | ⟨source, ready⟩
  · simp [hready] at hA
  obtain rfl : source = A := by simpa [hready] using hA
  -- whatever the turn leaves of the queue, the source is not in it
  have hgone : ∀ l l' : List ActorRef, source ∉ l → l' = l ∨ l' = l ++ [source] →
      ¬[source, B].Sublist l' := by
    intro l l' hl hl' hab
    have hmem : [source, B].Sublist l := by
      rcases hl' with rfl | rfl
      · exact hab
      · exact pair_of_append hne hab
    exact hl (hmem.subset (by simp))
  unfold routeBatch
  rw [hready]
  obtain ⟨p, id, hhead, hp, hturn, hstart⟩ := turning_start hv hready
  set st₁ : State := { st with
    publications :=
      { st.publications with
        ready := ready
        readySet := st.publications.readySet.erase source } } with hst₁
  have hhead₁ : (st₁.publications.queueOf source).head? = some id := hhead
  have hp₁ : st₁.publications.entries.lookup id = some p := hp
  dsimp only
  rw [hhead₁]
  dsimp only
  rw [hp₁]
  dsimp only
  set st₂ : State := { st₁ with
    publications := { st₁.publications with entries := st₁.publications.entries.erase id } }
    with hst₂
  obtain ⟨c', h', -⟩ := routeTurn_turning hv (hstart st₂ rfl) hturn
  rcases hcall : w.routeTurn p st₂ with ⟨- | outcome, k, q, st'⟩
  all_goals
    rw [hcall] at h'
    dsimp only at h' ⊢
    obtain ⟨p₀, hp₀, ht⟩ := h'.turn
    obtain rfl : p₀ = p := Option.some.inj (hp₀.symm.trans hturn)
    have hsource : q.source = source := by
      rw [ht.source]
      have := (hstart st₂ rfl).ready
      rw [show st.core.publications.ready = source :: ready from hready] at this
      exact (List.cons.inj this).1.symm
    have hready' : st'.publications.ready = c'.publications.ready.tail := by
      show st'.core.publications.ready = _
      rw [h'.core]
      rfl
    have hnot : source ∉ st'.publications.ready := by
      have hnodup := (h'.evolves.valid hv).publishing.sound.ready_nodup
      rw [h'.ready, hsource] at hnodup
      rw [hready']
      exact (List.nodup_cons.mp hnodup).1
    rw [State.core_touchActivity]
  · show ¬[source, B].Sublist (requeuePublication q st').publications.ready
    apply hgone st'.publications.ready _ hnot
    obtain ⟨-, -, hr, -⟩ := st'.publications.setStatus_frame q.ticket (.routing q.report)
    have hjoin := ({ st'.publications.setStatus q.ticket (.routing q.report) with
      entries := AList.insert q.ticket q
        (st'.publications.setStatus q.ticket (.routing q.report)).entries } :
      PublicationTable).readySource_ready q.source
    rw [hsource] at hjoin
    rw [← hr]
    unfold requeuePublication
    rw [hsource]
    exact hjoin
  · rw [core_finishPublicationLocked]
    obtain ⟨l, hsub, -, he⟩ := (st'.publications.removeIndexes_queues q).kept
    obtain ⟨-, -, h1, -⟩ := PublicationTable.settle_frame
      ((st'.publications.removeIndexes q).setStatus q.ticket (.terminal (q.closing outcome))) q.ticket
    obtain ⟨-, -, h2, -⟩ := PublicationTable.setStatus_frame (st'.publications.removeIndexes q)
      q.ticket (.terminal (q.closing outcome))
    rw [hsource, ← h2, ← h1] at he
    exact hgone l _ (fun hmem => hnot (hsub.subset hmem)) he

/-- The publication of a turn is the first one of the first source. -/
theorem turn_of_nextSource (hv : st.core.Valid w.id) (hA : nextSource st = some A) :
    ∃ p, st.core.turn = some p ∧ p.source = A ∧
      st.core.publications.entries.lookup p.ticket = some p := by
  unfold nextSource at hA
  rcases hready : st.publications.ready with - | ⟨source, ready⟩
  · simp [hready] at hA
  obtain rfl : source = A := by simpa [hready] using hA
  obtain ⟨p, id, -, -, hturn, hstart⟩ := turning_start hv hready
  have h := hstart { st with
    publications :=
      { st.publications with
        ready := ready
        readySet := st.publications.readySet.erase source
        entries := st.publications.entries.erase id } } rfl
  have he := h.ready
  rw [show st.core.publications.ready = source :: ready from hready] at he
  exact ⟨p, hturn, (List.cons.inj he).1.symm, h.entry⟩

/-- A source keeps its place through the turns of others. -/
theorem routeBatch_place {X : ActorRef} (hv : st.core.Valid w.id) (hX : nextSource st = some X)
    (hne : X ≠ B) (hB : B ∈ st.core.publications.ready) :
    [A, B].Sublist (w.routeBatch st).2.core.publications.ready →
      [A, B].Sublist st.core.publications.ready := by
  obtain ⟨p, hturn, rfl, hentry⟩ := turn_of_nextSource hv hX
  have hp : ∀ q, st.core.turn = some q → q = p := by
    intro q hq
    exact Option.some.inj (hq.symm.trans hturn)
  refine ((routeBatch_evolves hv).steps.place (A := A) hv hB (fun q hq => hq.elim) ?_ ?_).2
  · rintro id q ⟨p₀, hp₀, rfl⟩ hq
    rw [hp p₀ hp₀, hentry] at hq
    cases hq
    exact hne
  · rintro id o q ⟨p₀, hp₀, -, hs⟩ -
    rw [hp p₀ hp₀] at hs
    exact absurd hs hne

/-- Between two turns of a source, another one that stays ready and has nothing due gets a turn. -/
theorem round_robin (w : World) (before stretch : List Action) (A B : ActorRef) (hne : A ≠ B)
    (hfirst : nextSource (w.exec w.init before) = some A)
    (hsecond : nextSource (w.exec w.init (before ++ .routeBatch :: stretch)) = some A)
    (hready : ∀ part, part <+: .routeBatch :: stretch →
      B ∈ (w.exec w.init (before ++ part)).publications.ready)
    (hspared : ∀ part action, part ++ [action] <+: .routeBatch :: stretch →
      w.Spared (w.exec w.init (before ++ part)) action B) :
    ∃ part, part ++ [.routeBatch] <+: stretch ∧
      nextSource (w.exec w.init (before ++ .routeBatch :: part)) = some B := by
  by_contra hno
  have hsourced : ∀ actions, (w.exec w.init actions).core.Sourced := by
    intro actions
    have hi : w.Rests w.init := rests_init
    exact (hi.steps actions).sourced hi.valid (by
      intro id p hp
      simp [World.init, State.core, PublicationTable.new] at hp)
  -- after its first turn the source stays behind the other one
  have hbehind : ∀ part, part <+: stretch →
      ¬[A, B].Sublist (w.exec w.init (before ++ .routeBatch :: part)).core.publications.ready := by
    intro part
    induction part using List.reverseRecOn with
    | nil =>
      intro _
      have h : w.Rests (w.exec w.init before) := rests before
      rw [exec_append]
      exact routeBatch_behind h.valid hfirst hne
    | append_singleton part action ih =>
      intro hpart
      have hpre : part <+: stretch := (List.prefix_append part [action]).trans hpart
      have hcall : .routeBatch :: (part ++ [action]) <+: .routeBatch :: stretch :=
        List.cons_prefix_cons.mpr ⟨rfl, hpart⟩
      have hstate : w.exec w.init (before ++ .routeBatch :: (part ++ [action])) =
          (w.step action (w.exec w.init (before ++ .routeBatch :: part))).2 := by
        rw [← List.cons_append, ← List.append_assoc, exec_append]
        rfl
      have hB := hready (.routeBatch :: part) (List.cons_prefix_cons.mpr ⟨rfl, hpre⟩)
      have hB' := hready (.routeBatch :: (part ++ [action])) hcall
      have hs' := hsourced (before ++ .routeBatch :: (part ++ [action]))
      rw [hstate] at hB' hs' ⊢
      have h : w.Rests (w.exec w.init (before ++ .routeBatch :: part)) := rests _
      intro hab
      apply ih hpre
      by_cases hturn : action = .routeBatch
      · subst hturn
        rcases hnext : nextSource (w.exec w.init (before ++ .routeBatch :: part)) with - | X
        · unfold nextSource at hnext
          rw [List.head?_eq_none_iff.mp hnext] at hB
          cases hB
        · refine routeBatch_place h.valid hnext (fun he => hno ⟨part, hpart, ?_⟩) hB hab
          rw [hnext, he]
      · exact h.place hturn hs' hB hB' (hspared (.routeBatch :: part) action hcall) hab
  -- but it is served again, so it stands in front
  have hlast := hbehind stretch (List.prefix_refl _)
  have hB := hready (.routeBatch :: stretch) (List.prefix_refl _)
  apply hlast
  show [A, B].Sublist (w.exec w.init (before ++ .routeBatch :: stretch)).publications.ready
  unfold nextSource at hsecond
  rcases hq : (w.exec w.init (before ++ .routeBatch :: stretch)).publications.ready
    with - | ⟨X, rest⟩
  · rw [hq] at hB
    cases hB
  · rw [hq] at hB hsecond
    obtain rfl : X = A := by simpa using hsecond
    apply List.Sublist.cons_cons
    apply List.singleton_sublist.mpr
    exact (List.mem_cons.mp hB).resolve_left (Ne.symm hne)

/-- Two sources with two publications each take turns. -/
theorem round_robin_alternates :
    let w : World := ⟨1, {}, by decide, fun _ => 0, fun _ => 0⟩
    ∃ part, part ++ [.routeBatch] <+: [Action.routeBatch] ∧
      nextSource (w.exec w.init ([.allocate .native none, .allocate .native none,
        .activate ⟨1, 0, 1⟩, .activate ⟨1, 1, 1⟩, .publish ⟨1, 0, 1⟩ (.pulse 1) {},
        .publish ⟨1, 0, 1⟩ (.pulse 2) {}, .publish ⟨1, 1, 1⟩ (.pulse 3) {},
        .publish ⟨1, 1, 1⟩ (.pulse 4) {}] ++ .routeBatch :: part)) = some ⟨1, 1, 1⟩ := by
  intro w
  apply round_robin w _ [.routeBatch] ⟨1, 0, 1⟩ ⟨1, 1, 1⟩
  · decide
  · decide
  · decide
  · intro part hpart
    have hmem := (List.mem_inits part _).mpr hpart
    simp only [List.inits] at hmem
    fin_cases hmem <;> decide
  · intro part action hpart t ht
    have hmem : action ∈ [Action.routeBatch, .routeBatch] := hpart.subset (by simp)
    simp only [List.mem_cons, List.not_mem_nil, or_false, or_self] at hmem
    subst hmem
    cases ht

end World

end Actorplane
