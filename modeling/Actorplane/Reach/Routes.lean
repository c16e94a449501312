import Actorplane.Reach.Publishing

/-!
# Routes along runs

No two routes join one source and port to the same target, whichever of the two
creation paths made them. A publication captures its routes at one moment, so it
reaches every target at most once.
-/

namespace Actorplane

variable {world : ℕ} {c c' : Core} {m : Move} {P : Move → Prop}

namespace RouteTable

variable {t : RouteTable} {id : ℕ} {route : Sub} {source target : ActorRef}

/-- A source and port are joined to a target by one route at most. -/
def Distinct (t : RouteTable) : Prop :=
  ∀ i j s s', t.get i = some s → t.get j = some s' → s.source = s'.source →
    s.sourcePort = s'.sourcePort → s.target = s'.target → i = j

theorem distinct_new : RouteTable.new.Distinct := by
  intro i j s s' hi
  simp [RouteTable.new, get] at hi

theorem Distinct.erase (h : t.Distinct) : (t.erase id route).Distinct := by
  intro i j s s' hi hj
  rw [get_erase] at hi hj
  split_ifs at hi hj
  exact h i j s s' hi hj

theorem Distinct.insert (h : t.Distinct)
    (hno : ∀ i s, t.get i = some s → s.source = route.source → s.sourcePort = route.sourcePort →
      s.target ≠ route.target) : (t.insert id route).Distinct := by
  intro i j s s' hi hj hs hp ht
  rw [get_insert] at hi hj
  split_ifs at hi hj with h1 h2 h2
  · rw [h1, h2]
  · cases hi
    exact absurd ht.symm (hno j s' hj hs.symm hp.symm)
  · cases hj
    exact absurd ht (hno i s hi hs hp)
  · exact h i j s s' hi hj hs hp ht

/-- The duplicate check of `subscribe` looks at every port of the source. -/
theorem sourceTargetExists_false (h : t.Indexed) (hno : t.sourceTargetExists source target = false)
    {i : ℕ} {s : Sub} (hi : t.get i = some s) (hs : s.source = source) : s.target ≠ target := by
  intro ht
  have hmem : i ∈ t.sourceActorIds source := by
    simp only [sourceActorIds, mem_ascending, h.bySourceActor.mem]
    exact ⟨s, hi, hs⟩
  have hfalse := List.any_eq_false.mp hno i hmem
  simp [hi, ht] at hfalse

/-- The duplicate check of `link` looks at one port of the source. -/
theorem typedDuplicate_false (h : t.Indexed) {source target : PortRef}
    (hno : t.typedDuplicate source target = false) {i : ℕ} {s : Sub} (hi : t.get i = some s)
    (hs : s.source = source.owner) (hp : s.sourcePort = some source.index) :
    s.target ≠ target.owner := by
  intro ht
  have hmem : i ∈ t.sourceIds source.owner (some source.index) :=
    h.mem_sourceIds.mpr ⟨s, hi, hs, hp⟩
  have hfalse := List.any_eq_false.mp hno i hmem
  simp [hi, ht] at hfalse

end RouteTable

/-- Only a new route can be a duplicate. -/
theorem Step.distinct (hs : Step world c m c') (hm : ∀ route, m ≠ .connect route)
    (h : c.subs.Distinct) : c'.subs.Distinct := by
  cases hs
  case unroute id route hget => exact h.erase
  case connect route _ _ _ => exact absurd rfl (hm route)
  all_goals exact h

theorem Steps.distinct (hs : Steps world P c c') (hP : ∀ m, P m → ∀ route, m ≠ .connect route)
    (h : c.subs.Distinct) : c'.subs.Distinct := by
  induction hs with
  | refl => exact h
  | tail _ hm hst ih => exact hst.distinct (hP _ hm) ih

namespace World

variable {w : World} {st : State}

theorem subscribable_distinct {source target : ActorRef}
    (h : w.subscribable source target st = .ok ()) :
    st.subs.sourceTargetExists source target = false := by
  unfold subscribable at h
  obtain ⟨s, -, h⟩ := bind_ok.mp h
  obtain ⟨t, -, h⟩ := bind_ok.mp h
  obtain ⟨-, h⟩ := guard_ok.mp h
  obtain ⟨-, h⟩ := guard_ok.mp h
  by_contra hdup
  rw [if_pos (by simpa using hdup)] at h
  cases h

theorem linkable_distinct {owner : ActorRef} {source target : PortRef}
    (h : w.linkable owner source target st = .ok ()) :
    st.subs.typedDuplicate source target = false := by
  unfold linkable at h
  obtain ⟨-, -, h⟩ := bind_ok.mp h
  obtain ⟨-, -, h⟩ := bind_ok.mp h
  obtain ⟨-, -, h⟩ := bind_ok.mp h
  obtain ⟨src, -, h⟩ := bind_ok.mp h
  obtain ⟨dst, -, h⟩ := bind_ok.mp h
  obtain ⟨-, h⟩ := guard_ok.mp h
  obtain ⟨-, h⟩ := guard_ok.mp h
  obtain ⟨-, h⟩ := guard_ok.mp h
  by_contra hdup
  rw [if_pos (by simpa using hdup)] at h
  cases h

theorem subscribe_distinct (hi : st.subs.Indexed) (h : st.subs.Distinct)
    (source target : ActorRef) : (w.subscribe source target st).2.subs.Distinct := by
  unfold subscribe
  rcases hok : w.subscribable source target st with e | u
  · exact h
  · apply h.insert
    intro i s hget hs _
    exact RouteTable.sourceTargetExists_false hi (subscribable_distinct hok) hget hs

theorem link_distinct (hi : st.subs.Indexed) (h : st.subs.Distinct) (owner : ActorRef)
    (source target : PortRef) : (w.link owner source target st).2.subs.Distinct := by
  unfold link
  rcases hok : w.linkable owner source target st with e | u
  · exact h
  · apply h.insert
    intro i s hget hs hp
    exact RouteTable.typedDuplicate_false hi (linkable_distinct hok) hget hs hp

theorem Rests.distinct_step (h : w.Rests st) (hd : st.subs.Distinct) (action : Action) :
    (w.step action st).2.subs.Distinct := by
  by_cases hc : action.connects
  · cases action with
    | subscribe source target => exact subscribe_distinct h.valid.routed.indexed hd source target
    | link owner source target => exact link_distinct h.valid.routed.indexed hd owner source target
    | _ => exact hc.elim
  · apply (step_evolves h.valid action).steps.distinct _ hd
    rintro m hm route rfl
    exact hc (makes_of_moves hm not_false)

/-- A captured snapshot names every target once. -/
def Separate (log : List Event) : Prop :=
  ∀ id routes, Event.captured id routes ∈ log → (routes.map Prod.snd).Nodup

theorem Lists.separate {source : ActorRef} {port : Option ℕ} {routes : List (ℕ × ActorRef)}
    (h : Lists st source port routes) (hd : st.subs.Distinct) : (routes.map Prod.snd).Nodup := by
  rw [List.nodup_map_iff_inj_on]
  · rintro ⟨i, x⟩ hx ⟨j, y⟩ hy hxy
    obtain ⟨s, hs, h1, h2, h3⟩ := (h.2 i x).mp hx
    obtain ⟨s', hs', h1', h2', h3'⟩ := (h.2 j y).mp hy
    have hij : i = j :=
      hd i j s s' hs hs' (h1.trans h1'.symm) (h2.trans h2'.symm) (h3.trans (hxy.trans h3'.symm))
    exact Prod.ext hij hxy
  · exact List.Nodup.of_map Prod.fst (h.1.imp ne_of_lt)

/-- What holds of the routes between two calls. -/
structure Unique (st : State) : Prop where
  distinct : st.subs.Distinct
  separate : Separate st.log

theorem Rests.unique_step (h : w.Rests st) (hu : Unique st) (action : Action) :
    Unique (w.step action st).2 := by
  constructor
  · exact h.distinct_step hu.distinct action
  · obtain ⟨new, hnew, hall⟩ := h.records action
    intro id routes hmem
    rw [← mem_published rfl, hnew, List.mem_append] at hmem
    rcases hmem with hmem | hmem
    · exact hu.separate id routes ((mem_published rfl).mp hmem)
    · obtain ⟨-, p, -, -, -, hlists⟩ := hall _ hmem
      exact hlists.separate hu.distinct

theorem unique_init : Unique w.init := by
  constructor
  · exact RouteTable.distinct_new
  · intro id routes hmem
    simp [World.init] at hmem

theorem Rests.unique (h : w.Rests st) (hu : Unique st) (actions : List Action) :
    Unique (w.exec st actions) := by
  induction actions generalizing st with
  | nil => exact hu
  | cons action actions ih => exact ih (h.step action) (h.unique_step hu action)

/-- How often a publication was admitted to a target. -/
def admissions (log : List Event) (id : ℕ) (target : ActorRef) : ℕ :=
  (attemptsOf log id).countP fun a => a.2.1 = target && a.2.2.isSome

theorem Attempts.admissions_le {log : List Event} {id : ℕ} (h : Attempts log id)
    (hs : Separate log) (target : ActorRef) : admissions log id target ≤ 1 := by
  have hroutes : ((((capturesOf log id).head?.getD []).map Prod.snd)).Nodup := by
    rcases hc : capturesOf log id with - | ⟨routes, rest⟩
    · simp
    · have hmem : routes ∈ capturesOf log id := by rw [hc]; simp
      obtain ⟨e, he, hr⟩ := List.mem_filterMap.mp hmem
      cases e <;> simp at hr
      obtain ⟨rfl, rfl⟩ := hr
      exact hs _ _ he
  have hprefix := h.attempts.map Prod.snd
  rw [List.map_map] at hprefix
  have htargets := hroutes.sublist hprefix.sublist
  have hcount := List.nodup_iff_count_le_one.mp htargets target
  rw [List.count, List.countP_map] at hcount
  apply le_trans _ hcount
  apply List.countP_mono_left
  intro a _ ha
  simp only [Bool.and_eq_true, decide_eq_true_eq] at ha
  simpa using ha.1

/-- The four indexes are the projections of the routes, no two routes join the same source, port
and target, and no publication is admitted twice to one target. -/
theorem route_table (w : World) (actions : List Action) :
    let st := w.exec w.init actions
    st.subs.Indexed ∧
      (∀ a id, id ∈ st.subs.actorRouteIds a ↔
        ∃ s, st.subs.get id = some s ∧ (s.owner = a ∨ s.source = a ∨ s.target = a)) ∧
      (∀ i j s s', st.subs.get i = some s → st.subs.get j = some s' → s.source = s'.source →
        s.sourcePort = s'.sourcePort → s.target = s'.target → i = j) ∧
      ∀ id target, admissions st.log id target ≤ 1 := by
  intro st
  have h : w.Rests st := rests actions
  have hi : w.Rests w.init := rests_init
  have hu : Unique st := hi.unique unique_init actions
  refine ⟨h.valid.routed.indexed, fun a id => h.valid.routed.indexed.mem_actorRouteIds,
    hu.distinct, fun id target => ?_⟩
  have ht : Traced st.core.published id := (hi.steps actions).traced hi.valid traced_init id
  exact (h.attempts ht).admissions_le hu.separate target

/-! ## The fence of a route that is gone -/

/-- Identities below the next one are never given out again. -/
structure Lapses (c c' : Core) : Prop where
  issued : c.nextSub ≤ c'.nextSub
  kept : ∀ id, id < c.nextSub → c'.subs.get id = c.subs.get id ∨ c'.subs.get id = none

theorem Lapses.refl (c : Core) : Lapses c c := ⟨le_rfl, fun _ _ => .inl rfl⟩

theorem Lapses.trans {c c' c'' : Core} (h : Lapses c c') (h' : Lapses c' c'') : Lapses c c'' := by
  constructor
  · exact h.issued.trans h'.issued
  · intro id hid
    rcases h'.kept id (hid.trans_le h.issued) with he | he
    · rw [he]
      exact h.kept id hid
    · exact .inr he

theorem lapses_step {world : ℕ} {c c' : Core} {m : Move} (hs : Step world c m c') :
    Lapses c c' := by
  cases hs
  case unroute id route hget =>
    constructor
    · exact le_rfl
    · intro i _
      by_cases hi : i = id
      · exact .inr (by simp [RouteTable.get_erase, hi])
      · exact .inl (by simp [RouteTable.get_erase, hi])
  case connect route _ _ _ =>
    constructor
    · exact Nat.le_succ _
    · intro i hi
      exact .inl (by simp [RouteTable.get_insert, hi.ne])
  all_goals exact ⟨le_rfl, fun _ _ => .inl rfl⟩

theorem lapses_steps {world : ℕ} {c c' : Core} {P : Move → Prop} (hs : Steps world P c c') :
    Lapses c c' := by
  induction hs with
  | refl => exact .refl _
  | tail _ _ hst ih => exact ih.trans (lapses_step hst)

theorem Rests.lapses (h : w.Rests st) (actions : List Action) :
    Lapses st.core (w.exec st actions).core := lapses_steps (h.steps actions)

/-- A current actor that is neither stopping nor stopped. -/
def Standing (w : World) (st : State) (r : ActorRef) : Prop :=
  ∃ a, w.checkRef r st = .ok a ∧ a.state ≠ .stopping ∧ a.state ≠ .stopped

theorem Rests.standing (h : w.Rests st) {r : ActorRef} (hr : Present st.core.nodes r) :
    w.Standing st r := by
  obtain ⟨n, hn, hs⟩ := hr
  obtain ⟨a, ha, rfl⟩ := h.check_iff_seated.mp hn
  exact ⟨a, ha, hs⟩

theorem Rests.unsubscribed (h : w.Rests st) {id : ℕ} (hid : id < st.nextSub)
    {actions : List Action} (ha : Action.unsubscribe id ∈ actions) :
    (w.exec st actions).subs.get id = none := by
  induction actions generalizing st with
  | nil => cases ha
  | cons action actions ih =>
    have hone : Lapses st.core (w.step action st).2.core :=
      lapses_steps (step_evolves h.valid action).steps
    rcases List.mem_cons.mp ha with rfl | ha
    · have hgone : (w.step (.unsubscribe id) st).2.subs.get id = none :=
        (unsubscribe_spec h.valid id).2
      rcases ((h.step _).lapses actions).kept id (hid.trans_le hone.issued) with he | he
      · exact he.trans hgone
      · exact he
    · exact ih (h.step action) (hid.trans_le hone.issued) ha

/-- The identity that a call gives to a new route. -/
def made : Action → Outcome → Option ℕ
  | .subscribe _ _, .number (.ok id) => some id
  | .link _ _ _, .number (.ok id) => some id
  | _, _ => none

/-- The identities of the routes made along a run. -/
def routesMade (w : World) (st : State) : List Action → List ℕ
  | [] => []
  | a :: actions => (made a (w.step a st).1).toList ++ routesMade w (w.step a st).2 actions

theorem made_ok {action : Action} {outcome : Outcome} {id : ℕ}
    (hm : made action outcome = some id) : outcome = .number (.ok id) := by
  unfold made at hm
  split at hm
  · cases hm
    rfl
  · cases hm
    rfl
  · cases hm

theorem made_eq {action : Action} {id : ℕ} (hm : made action (w.step action st).1 = some id) :
    id = st.nextSub ∧ (w.step action st).2.nextSub = st.nextSub + 1 := by
  have hok := made_ok hm
  cases action with
  | subscribe source target =>
    have hid : (w.subscribe source target st).1 = .ok id := Outcome.number.inj hok
    show id = st.nextSub ∧ (w.subscribe source target st).2.nextSub = st.nextSub + 1
    unfold subscribe at hid ⊢
    rcases he : w.subscribable source target st with e | u
    · rw [he] at hid
      cases hid
    · rw [he] at hid
      cases hid
      exact ⟨rfl, rfl⟩
  | link owner source target =>
    have hid : (w.link owner source target st).1 = .ok id := Outcome.number.inj hok
    show id = st.nextSub ∧ (w.link owner source target st).2.nextSub = st.nextSub + 1
    unfold link at hid ⊢
    rcases he : w.linkable owner source target st with e | u
    · rw [he] at hid
      cases hid
    · rw [he] at hid
      cases hid
      exact ⟨rfl, rfl⟩
  | _ => cases hm

theorem Rests.made_ascending (h : w.Rests st) (actions : List Action) :
    (∀ id ∈ routesMade w st actions, st.nextSub ≤ id) ∧
      (routesMade w st actions).Pairwise (· < ·) := by
  induction actions generalizing st with
  | nil => exact ⟨by simp [routesMade], by simp [routesMade]⟩
  | cons action actions ih =>
    obtain ⟨hge, hasc⟩ := ih (h.step action)
    have hone : st.nextSub ≤ (w.step action st).2.nextSub :=
      (lapses_steps (step_evolves h.valid action).steps).issued
    unfold routesMade
    rcases hm : made action (w.step action st).1 with - | id
    · exact ⟨fun i hi => hone.trans (hge i hi), hasc⟩
    · obtain ⟨rfl, hnext⟩ := made_eq hm
      constructor
      · intro i hi
        rcases List.mem_cons.mp hi with rfl | hi
        · exact le_rfl
        · exact hone.trans (hge i hi)
      · apply List.pairwise_cons.mpr
        constructor
        · intro i hi
          have := hge i hi
          omega
        · exact hasc

/-- Routes join current actors that are neither stopping nor stopped, their identities are never
reused, and no delivery of a route that was removed, or whose owner, source or target has been
stopped, is ever claimed. -/
theorem route_fence (w : World) (before during after : List Action) :
    let st := w.exec w.init before
    let st₁ := w.exec st during
    let st₂ := w.exec st₁ after
    (∀ id s, st.subs.get id = some s →
      w.Standing st s.owner ∧ w.Standing st s.source ∧ w.Standing st s.target) ∧
    (routesMade w w.init before).Pairwise (· < ·) ∧
    ∀ id s, st.subs.get id = some s →
      (.unsubscribe id ∈ during ∨ ¬w.Standing st₁ s.owner ∨ ¬w.Standing st₁ s.source ∨
        ¬w.Standing st₁ s.target) →
      ∀ r l, (w.claim r st₂).1 = .ok (some l) → l.delivery.subscription ≠ some id := by
  intro st st₁ st₂
  have hi : w.Rests w.init := rests_init
  have h : w.Rests st := rests before
  have h₁ : w.Rests st₁ := h.exec during
  have h₂ : w.Rests st₂ := h₁.exec after
  refine ⟨fun id s hs => ?_, (hi.made_ascending before).2, fun id s hs hcut r l hl hsub => ?_⟩
  · obtain ⟨k1, k2, k3⟩ := h.valid.routed.present id s hs
    exact ⟨h.standing k1, h.standing k2, h.standing k3⟩
  · have hid : id < st.nextSub := h.valid.routed.fresh id s hs
    have hlapse := h.lapses during
    have hgone : st₁.subs.get id = none := by
      rcases hcut with hun | hend
      · exact h.unsubscribed hid hun
      · rcases hlapse.kept id hid with he | he
        · have hget : st₁.subs.get id = some s := he.trans hs
          obtain ⟨k1, k2, k3⟩ := h₁.valid.routed.present id s hget
          rcases hend with hno | hno | hno
          · exact absurd (h₁.standing k1) hno
          · exact absurd (h₁.standing k2) hno
          · exact absurd (h₁.standing k3) hno
        · exact he
    have hlate : st₂.subs.get id = none := by
      rcases (h₁.lapses after).kept id (hid.trans_le hlapse.issued) with he | he
      · exact he.trans hgone
      · exact he
    exact ((claim_spec h₂.valid).2 l hl).route id hsub hlate

end World

end Actorplane
