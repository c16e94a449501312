import Actorplane.Supervision.Frames
import Actorplane.Supervision.Registry

/-!
# Fences on the roster

A fence silences the children of the actors it ends, takes their leases and services
away, and retires them. Whoever loses something has ended when the fence is done.
-/

namespace Actorplane

variable {t : Roster} {r x : ActorRef} {m m' : Member} {X : ActorRef → Prop}

/-! ## Seats -/

namespace Roster

theorem Seats.unique (h : t.Seats r m) (h' : t.Seats r m') : m = m' :=
  Option.some.inj (h.1.symm.trans h'.1)

theorem Seats.slot_eq (h : t.Seats r m) (h' : t.Seats x m') (hs : r.slot = x.slot) : r = x := by
  have same : m = m' := Option.some.inj (h.1.symm.trans (hs ▸ h'.1))
  rw [← h.2, ← h'.2, same]

/-- What is seated after one record was updated. -/
theorem seats_modify {f : Member → Member} (hf : ∀ m, (f m).reference = m.reference) :
    (t.modify r f).Seats x m' ↔ ∃ m, t.Seats x m ∧ m' = if x.slot = r.slot then f m else m := by
  unfold Seats modify
  simp only [List.getElem?_modify]
  cases found : t.members[x.slot]? with
  | none => simp
  | some m =>
    by_cases here : r.slot = x.slot
    · simp only [here, if_true, Option.map_eq_map, Option.map_some, Option.some.injEq]
      constructor
      · rintro ⟨rfl, seat⟩
        exact ⟨m, ⟨rfl, (hf m).symm.trans seat⟩, rfl⟩
      · rintro ⟨m₀, ⟨rfl, seat⟩, rfl⟩
        exact ⟨rfl, (hf m).trans seat⟩
    · have there : ¬x.slot = r.slot := fun h => here h.symm
      simp only [here, there, if_false, Option.map_eq_map, Option.map_some, Option.some.injEq]
      constructor
      · rintro ⟨rfl, seat⟩
        exact ⟨m, ⟨rfl, seat⟩, rfl⟩
      · rintro ⟨m₀, ⟨rfl, seat⟩, rfl⟩
        exact ⟨rfl, seat⟩

/-- A notification lasts as long as nobody takes it. -/
theorem Pending.modify {supervisor source : ActorRef} {n : Notification} {f : Member → Member}
    (h : t.Pending supervisor source n) (hf : ∀ m, (f m).reference = m.reference)
    (hp : ∀ m, (f m).parent = m.parent)
    (hn : ∀ m, t.Seats source m → source.slot = r.slot → (f m).notification = m.notification) :
    (t.modify r f).Pending supervisor source n := by
  obtain ⟨m, q, source_seat, parent, notified, supervisor_seat, distinct⟩ := h
  refine ⟨_, _, (seats_modify hf).mpr ⟨m, source_seat, rfl⟩, ?_, ?_,
    (seats_modify hf).mpr ⟨q, supervisor_seat, rfl⟩, distinct⟩
  · split_ifs
    · rw [hp, parent]
    · exact parent
  · split_ifs with here
    · rw [hn m source_seat here, notified]
    · exact notified

theorem Pending.retire {supervisor source : ActorRef} {n : Notification}
    (h : t.Pending supervisor source n) (r : ActorRef) :
    (t.retire r).Pending supervisor source n := by
  unfold Roster.retire
  cases t.members[r.slot]? with
  | none => exact h
  | some m =>
    dsimp only
    have stopped := h.modify (r := r) (f := (Member.enter · .stopped)) (fun _ => rfl) (fun _ => rfl)
      fun _ _ _ => rfl
    cases m.parent with
    | none => exact stopped
    | some p => exact stopped.modify (fun _ => rfl) (fun _ => rfl) fun _ _ _ => rfl

/-- Only the children in `S` tell the actor about a failure. -/
def QuietBut (t : Roster) (r : ActorRef) (S : ActorRef → Prop) : Prop :=
  ∀ q k, t.Seats q k → k.parent = some r → k.notification = none ∨ S q

theorem quietBut_none : t.QuietBut r (fun _ => False) ↔ t.Quiet r := by
  unfold QuietBut Quiet
  simp only [or_false]

theorem QuietBut.modify {S : ActorRef → Prop} {f : Member → Member} (h : t.QuietBut r S)
    (hf : ∀ m, (f m).reference = m.reference) (hp : ∀ m, (f m).parent = m.parent)
    (hn : ∀ m, (f m).notification = m.notification ∨ (f m).notification = none) :
    (t.modify x f).QuietBut r S := by
  intro q k hk parent
  obtain ⟨m, seat, rfl⟩ := (seats_modify hf).mp hk
  split_ifs at parent ⊢
  · rw [hp] at parent
    rcases hn m with same | silent
    · rw [same]
      exact h q m seat parent
    · exact .inl silent
  · exact h q m seat parent

theorem QuietBut.retire {S : ActorRef → Prop} (h : t.QuietBut r S) (x : ActorRef) :
    (t.retire x).QuietBut r S := by
  unfold Roster.retire
  cases t.members[x.slot]? with
  | none => exact h
  | some m =>
    dsimp only
    have stopped : (t.modify x (Member.enter · .stopped)).QuietBut r S :=
      h.modify (fun _ => rfl) (fun _ => rfl) fun _ => .inl rfl
    cases m.parent with
    | none => exact stopped
    | some p => exact stopped.modify (fun _ => rfl) (fun _ => rfl) fun _ => .inl rfl

/-- A silenced child tells nobody. -/
theorem QuietBut.silence {S : ActorRef → Prop} (h : t.QuietBut r fun q => q = x ∨ S q) :
    (t.modify x Member.silence).QuietBut r S := by
  intro q k hk parent
  obtain ⟨m, seat, rfl⟩ := (seats_modify (f := Member.silence) fun _ => rfl).mp hk
  split_ifs at parent ⊢ with here
  · exact .inl rfl
  · rcases h q m seat parent with silent | rfl | mem
    · exact .inl silent
    · exact absurd rfl here
    · exact .inr mem

theorem Pending.hush {supervisor source other : ActorRef} {n n' : Notification}
    (h : t.Pending supervisor source n) (h' : t.Pending supervisor other n')
    (distinct : source ≠ other) : (t.hush supervisor other).Pending supervisor source n := by
  unfold Roster.hush
  obtain ⟨m, -, seat, -⟩ := h'
  have silenced : (t.modify other Member.silence).Pending supervisor source n := by
    apply h.modify
    · exact fun _ => rfl
    · exact fun _ => rfl
    · intro k hk here
      exact absurd (hk.slot_eq seat here) distinct
  apply silenced.modify
  · exact fun _ => rfl
  · exact fun _ => rfl
  · exact fun _ _ _ => rfl

end Roster

namespace State

variable {st : State}

theorem seats_iff : st.roster.Seats r m ↔
    ∃ a, st.actors[r.slot]? = some a ∧ a.reference = r ∧ a.member = m := by
  unfold Roster.Seats
  simp only [roster, List.getElem?_map, Option.map_eq_some_iff]
  constructor
  · rintro ⟨⟨a, ha, rfl⟩, hr⟩
    exact ⟨a, ha, hr, rfl⟩
  · rintro ⟨a, ha, hr, rfl⟩
    exact ⟨⟨a, ha, rfl⟩, hr⟩

/-- The seats of the roster are those of the core. -/
theorem seats_of_seated {n : Node} (h : Seated st.core.nodes r n) :
    ∃ a, st.roster.Seats r a.member ∧ st.actors[r.slot]? = some a ∧ a.node = n := by
  obtain ⟨a, ha, rfl⟩ := actors_get_of_node h.1
  exact ⟨a, seats_iff.mpr ⟨a, ha, h.2, rfl⟩, ha, rfl⟩

theorem seated_of_seats (h : st.roster.Seats r m) :
    ∃ a, Seated st.core.nodes r a.node ∧ st.actors[r.slot]? = some a ∧ a.member = m := by
  obtain ⟨a, ha, hr, rfl⟩ := seats_iff.mp h
  exact ⟨a, ⟨core_nodes_get ha, hr⟩, ha, rfl⟩

end State

/-! ## What a fence may change -/

/-- The changes of a fence: what they take, they take from the actors in `D`. -/
def Change.fences (D : ActorRef → Prop) : Change → Prop
  | .silence supervisor _ => D supervisor
  | .release scope | .revoke scope => D scope
  | .unregister service => D service
  | .enter r state => state = .stopping ∧ D r
  | .retire _ => True
  | _ => False

theorem Change.fences.mono {D D' : ActorRef → Prop} {c : Change} (h : c.fences D)
    (hD : ∀ x, D x → D' x) : c.fences D' := by
  cases c with
  | silence supervisor source => exact hD _ h
  | release scope => exact hD _ h
  | revoke scope => exact hD _ h
  | unregister service => exact hD _ h
  | enter r state => exact ⟨h.1, hD _ h.2⟩
  | retire r => trivial
  | _ => exact h.elim

def Change.retires : Change → Prop
  | .retire _ => True
  | _ => False

theorem Roster.Pending.retires {cfg : Config} {t t' : Roster} {supervisor source : ActorRef}
    {n : Notification} (h : t.Pending supervisor source n) (ht : Alters cfg Change.retires t t') :
    t'.Pending supervisor source n := by
  apply ht.invariant h
  intro t c pending hc _
  cases c with
  | retire r => exact pending.retire r
  | _ => exact hc.elim

theorem Alters.services {cfg : Config} {t t' : Roster} (h : Alters cfg Change.retires t t') :
    t'.services = t.services := by
  apply h.invariant (I := fun t' => t'.services = t.services) rfl
  intro t' c same hc _
  cases c with
  | retire r => exact (Roster.services_retire r).trans same
  | _ => exact hc.elim

/-- Nobody tells a quiet actor about a failure while it is fenced. -/
theorem Alters.quiet {cfg : Config} {t t' : Roster} {D : ActorRef → Prop} {r : ActorRef}
    {S : ActorRef → Prop} (h : Alters cfg (Change.fences D) t t') (ht : t.QuietBut r S) :
    t'.QuietBut r S := by
  apply h.invariant (I := fun t => t.QuietBut r S) ht
  intro t c quiet hc _
  cases c with
  | silence supervisor source =>
    have silenced : (t.modify source Member.silence).QuietBut r S :=
      quiet.modify (fun _ => rfl) (fun _ => rfl) fun _ => .inr rfl
    exact silenced.modify (fun _ => rfl) (fun _ => rfl) fun _ => .inl rfl
  | enter x state => exact quiet.modify (fun _ => rfl) (fun _ => rfl) fun _ => .inl rfl
  | retire x => exact quiet.retire x
  | release scope => exact quiet
  | revoke scope => exact quiet
  | unregister service => exact quiet
  | _ => exact hc.elim

/-- A part of a fence: the actors in `X` have yet to end, the others it touched have ended. -/
structure Falls (w : World) (X : ActorRef → Prop) (st st' : State) : Prop where
  alters : Alters w.cfg (Change.fences fun x => X x ∨ Ended st'.core.nodes x) st.roster st'.roster
  reduces : st.core.Reduces st'.core
  keeps : st.services.Keeps st'.services

namespace Falls

variable {w : World} {X Y : ActorRef → Prop} {st st' st'' : State}

theorem of_services
    (h : Alters w.cfg (Change.fences fun x => X x ∨ Ended st'.core.nodes x) st.roster st'.roster)
    (hr : st.core.Reduces st'.core) (hs : st'.services = st.services) : Falls w X st st' := by
  refine ⟨h, hr, ?_⟩
  rw [hs]
  exact .refl _

theorem still (h : st'.roster = st.roster) (hr : st.core.Reduces st'.core) :
    Falls w X st st' := of_services (Alters.still h) hr (congrArg Roster.services h)

theorem refl (st : State) : Falls w X st st := still rfl (.refl _)

theorem tidy (h : Falls w X st st') (ht : st.services.Tidy) : st'.services.Tidy :=
  h.alters.tidy ht

theorem leases (h : Falls w X st st') {scope : ActorRef} {l : ServiceLease}
    (hl : st'.services.leases.lookup scope = some l) : st.services.leases.lookup scope = some l :=
  h.reduces.services.leases scope l hl

theorem trans (h : Falls w X st st') (h' : Falls w X st' st'') : Falls w X st st'' where
  alters := by
    have first := h.alters.mono fun _ hx => hx.mono fun _ => Or.imp_right h'.reduces.ended
    exact first.trans h'.alters
  reduces := h.reduces.trans h'.reduces
  keeps := h.keeps.trans h'.keeps fun _ _ => h'.leases

theorem widen (h : Falls w X st st') (hXY : ∀ x, X x → Y x) : Falls w Y st st' where
  alters := h.alters.mono fun _ hx => hx.mono fun _ => Or.imp_left (hXY _)
  reduces := h.reduces
  keeps := h.keeps

/-- Once they have ended, nobody is left to end. -/
theorem close (h : Falls w X st st') (hX : ∀ x, X x → Ended st'.core.nodes x) :
    Falls w (fun _ => False) st st' where
  alters := h.alters.mono fun _ hx => hx.mono fun x => fun hx => .inr (hx.elim (hX x) id)
  reduces := h.reduces
  keeps := h.keeps

end Falls

namespace World

variable {w : World} {st : State} {a : Actor}

/-! ## Finalization -/

theorem roster_finalizeActor (ho : st.core.Owned w.id) (ha : st.actors[r.slot]? = some a)
    (hr : a.reference = r) (hs : a.state ≠ .stopped) :
    (w.finalizeActor r st).roster = st.roster.retire r := by
  have seated : Seated st.core.nodes r a.node := ⟨State.core_nodes_get ha, hr⟩
  set stop : Actor → Actor := fun a => { a with state := .stopped } with hstop
  set st₀ := w.refreshPythonReadyLocked r (st.modifyActor r stop)
  set st₁ : State := ({ st₀ with
    liveActors := st₀.liveActors - 1
    operations := (st₀.operations.retireOwner r).2
    free := r.slot :: st₀.free } : State).note (.finalized r) with hst₁
  have roster₁ : st₁.roster = st.roster.modify r (Member.enter · .stopped) := by
    rw [hst₁, State.roster_note rfl]
    have stopped := @State.roster_modify st r stop (Member.enter · .stopped) fun _ => rfl
    exact stopped
  have found : st₁.actors[r.slot]? = some (stop a) := State.modifyActor_get stop ha
  have member : st.roster.members[r.slot]? = some a.member := by simp [State.roster, ha]
  have rolled : w.finalizeActor r st = rollUp r st₁ := rfl
  rw [rolled, rollUp, found, Roster.retire, member]
  dsimp only
  cases parent : (stop a).parent with
  | none =>
    have parent : a.member.parent = none := parent
    rw [parent]
    exact roster₁
  | some p =>
    have parent' : a.member.parent = some p := parent
    obtain ⟨n, supervisor, -⟩ := ho.parent r a.node p seated hs parent
    obtain ⟨x, hx, rfl⟩ := State.actors_get_of_node supervisor.1
    have distinct := ho.parent_slot_ne seated hs parent supervisor
    have hx₁ : st₁.actors[p.slot]? = some x := by
      show (st.actors.modify r.slot stop)[p.slot]? = some x
      simp [Ne.symm distinct, hx]
    have same : x.reference = p := supervisor.2
    dsimp only
    rw [hx₁, parent']
    dsimp only
    rw [if_neg (not_not.mpr same), State.roster_modify (g := (Member.inherit · a.member)), roster₁]
    intro b
    subst hr
    rfl

theorem may_retire (ho : st.core.Owned w.id) (ha : st.actors[r.slot]? = some a)
    (hr : a.reference = r) (hf : finalizable st a = true) : st.roster.May w.cfg (.retire r) := by
  unfold finalizable at hf
  simp only [Bool.and_eq_true, decide_eq_true_eq, Bool.not_eq_true', List.all_eq_true,
    Option.isNone_iff_eq_none] at hf
  obtain ⟨⟨⟨⟨⟨⟨stopping, -⟩, -⟩, silent⟩, -⟩, -⟩, done⟩ := hf
  have seated : Seated st.core.nodes r a.node := ⟨State.core_nodes_get ha, hr⟩
  refine ⟨a.member, State.seats_iff.mpr ⟨a, ha, hr, rfl⟩, stopping, silent, ?_, ?_⟩
  · intro q hq k hk
    obtain ⟨b, child, -, rfl⟩ := State.seated_of_seats hk
    exact childDone_iff.mp (done q hq) _ child
  · intro p hp
    have live : a.node.state ≠ .stopped := by
      show a.state ≠ .stopped
      rw [stopping]
      decide
    obtain ⟨n, supervisor, running, -⟩ := ho.parent r a.node p seated live hp
    obtain ⟨b, seat, -, rfl⟩ := State.seats_of_seated supervisor
    exact ⟨b.member, seat, running, ho.parent_slot_ne seated live hp supervisor⟩

theorem tryFinalize_alters (ho : st.core.Owned w.id) (fuel : ℕ) :
    Alters w.cfg Change.retires st.roster (w.tryFinalize fuel r st).roster := by
  induction fuel generalizing st r with
  | zero => exact .refl _
  | succ fuel ih =>
    unfold tryFinalize
    dsimp only
    set st₁ := w.markActivityDependentsLocked r (w.refreshPythonReadyLocked r st)
    have core : st₁.core = st.core := rfl
    have roster : st₁.roster = st.roster := rfl
    rw [← roster]
    have ho₁ : st₁.core.Owned w.id := ho
    cases found : st₁.actors[r.slot]? with
    | none => exact .refl _
    | some a =>
      dsimp only
      split_ifs with stale ready
      · exact .refl _
      · have current : a.reference = r := not_not.mp stale
        have stopping : a.state ≠ .stopped := by
          unfold finalizable at ready
          simp only [Bool.and_eq_true, decide_eq_true_eq] at ready
          rw [ready.1.1.1.1.1.1]
          decide
        have step := finalize_step ho₁ found current ready
        have retired : Alters w.cfg Change.retires st₁.roster (w.finalizeActor r st₁).roster := by
          rw [roster_finalizeActor ho₁ found current stopping]
          exact @Alters.single w.cfg _ st₁.roster (.retire r) trivial
            (may_retire ho₁ found current ready)
        cases a.parent with
        | none => exact retired
        | some p => exact retired.trans (@ih p _ (ho₁.step step))
      · exact .refl _

theorem tryFinalize_retires (hv : st.core.Valid w.id) :
    Alters w.cfg Change.retires st.roster (w.tryFinalize walkFuel r st).roster ∧
      st.core.Reduces (w.tryFinalize walkFuel r st).core := by
  have settles := tryFinalize_settles (w := w) (P := Move.fencing) (r := r) hv fun _ => trivial
  exact ⟨tryFinalize_alters hv.owned walkFuel, settles.steps.reduces (fun _ h => h) hv⟩

theorem tryFinalize_falls (hv : st.core.Valid w.id) :
    Falls w X st (w.tryFinalize walkFuel r st) := by
  obtain ⟨retires, reduces⟩ := tryFinalize_retires (r := r) hv
  refine .of_services (retires.mono ?_) reduces retires.services
  intro c hc
  cases c with
  | retire x => trivial
  | _ => exact hc.elim

/-! ## Notifications -/

theorem roster_silenced (supervisor source : ActorRef) :
    (silenced supervisor source st).roster = st.roster.after (.silence supervisor source) := by
  have taken := @State.roster_modify st source (fun a => { a with notification := none })
    Member.silence fun _ => rfl
  have counted := @State.roster_modify
    (st.modifyActor source fun a => { a with notification := none }) supervisor
    (fun a => { a with pendingFailures := a.pendingFailures - 1 }) Member.hear fun _ => rfl
  rw [taken] at counted
  show ({ ((st.modifyActor source fun a => { a with notification := none }).modifyActor supervisor
    fun a => { a with pendingFailures := a.pendingFailures - 1 }).roster with
      discarded := st.roster.discarded + 1 } : Roster) = _
  rw [counted]
  rfl

theorem discardNotification_falls (hv : st.core.Valid w.id) {supervisor source : ActorRef}
    {n : Notification} (h : st.roster.Pending supervisor source n) :
    Falls w (fun x => x = supervisor) st (w.discardNotification supervisor st source) ∧
      (w.discardNotification supervisor st source).core.Valid w.id ∧
      ∀ other n', other ≠ source → st.roster.Pending supervisor other n' →
        (w.discardNotification supervisor st source).roster.Pending supervisor other n' := by
  have ⟨m, q, seat, _⟩ := h
  obtain ⟨a, seated, -⟩ := State.seated_of_seats seat
  obtain ⟨step, -⟩ := silence_step (w := w) supervisor seated
  have hv₁ := hv.step step
  obtain ⟨retires, reduces⟩ := tryFinalize_retires (r := source) hv₁
  have roster₁ := @roster_silenced st supervisor source
  have silencing : Alters w.cfg (Change.fences fun x => x = supervisor) st.roster
      (silenced supervisor source st).roster := by
    rw [roster₁]
    exact @Alters.single w.cfg _ st.roster (.silence supervisor source) rfl ⟨n, h⟩
  have settled : Falls w (fun x => x = supervisor) (silenced supervisor source st)
      (w.discardNotification supervisor st source) := tryFinalize_falls hv₁
  have silenced_falls : Falls w (fun x => x = supervisor) st (silenced supervisor source st) :=
    .of_services (silencing.mono fun _ hc => hc.mono fun _ => .inl) (hv.reduces step trivial) rfl
  refine ⟨silenced_falls.trans settled, ?_, ?_⟩
  · exact (tryFinalize_settles (P := fun _ => True) hv₁ fun _ => trivial).valid hv₁
  · intro other n' distinct pending
    have kept : (silenced supervisor source st).roster.Pending supervisor other n' := by
      rw [roster₁]
      exact pending.hush h distinct
    exact kept.retires retires

/-- The children of a seated actor that notify it. -/
theorem pending_of_notifying (hv : st.core.Valid w.id) (hc : w.checkRef r st = .ok a)
    {q : ActorRef} (hq : q ∈ a.children) (hn : w.notifying st q = true) :
    ∃ n, st.roster.Pending r q n := by
  have seated := seated_of_check hv.owned hc
  obtain ⟨k, child, live, parent⟩ := (hv.owned.child r a.node q seated).mp hq
  obtain ⟨b, seat, found, rfl⟩ := State.seats_of_seated child
  have distinct : q ≠ r := by
    intro same
    obtain ⟨n, supervisor, -⟩ := hv.owned.parent q b.node r child live parent
    exact hv.owned.parent_slot_ne child live parent supervisor (by rw [same])
  obtain ⟨c, supervisor, -⟩ := State.seats_of_seated seated
  unfold notifying at hn
  obtain ⟨b', check, found', -⟩ := check_of_seated hv.owned child
  rw [check] at hn
  have same : b' = b := Option.some.inj (found'.symm.trans found)
  rw [same] at hn
  obtain ⟨n, notified⟩ := Option.isSome_iff_exists.mp hn
  exact ⟨n, b.member, c.member, seat, parent, notified, supervisor, distinct⟩

theorem discardNotificationsFor_falls (hv : st.core.Valid w.id) :
    Falls w (fun x => x = r) st (w.discardNotificationsFor r st) := by
  have fold : ∀ (sources : List ActorRef) (st : State), st.core.Valid w.id → sources.Nodup →
      (∀ x ∈ sources, ∃ n, st.roster.Pending r x n) →
      Falls w (fun x => x = r) st (sources.foldl (w.discardNotification r) st) := by
    intro sources
    induction sources with
    | nil => exact fun st _ _ _ => .refl st
    | cons x sources ih =>
      intro st hv nodup pending
      obtain ⟨notin, nodup'⟩ := List.nodup_cons.mp nodup
      obtain ⟨n, first⟩ := pending x (by simp)
      obtain ⟨falls, valid, others⟩ := discardNotification_falls hv first
      apply falls.trans
      apply ih _ valid nodup'
      intro y hy
      obtain ⟨n', second⟩ := pending y (List.mem_cons_of_mem x hy)
      exact ⟨n', others y n' (fun same => notin (same ▸ hy)) second⟩
  unfold discardNotificationsFor
  cases hc : w.checkRef r st with
  | error e => exact .refl st
  | ok a =>
    dsimp only
    have nodup : (a.children.filter (w.notifying st)).Nodup :=
      (hv.owned.children_nodup _ a.node (seated_of_check hv.owned hc).1).filter _
    have discarded := fold _ st hv nodup fun q hq => by
      obtain ⟨mem, notifies⟩ := List.mem_filter.mp hq
      exact pending_of_notifying hv hc mem notifies
    have marked : ∀ st' : State, Falls w (fun x => x = r) st st' →
        Falls w (fun x => x = r) st (w.refreshPythonReadyLocked r st') ∧
          Falls w (fun x => x = r) st
            (w.refreshPythonReadyLocked r (w.markActivityDependentsLocked r st')) :=
      fun st' h => ⟨⟨h.alters, h.reduces, h.keeps⟩, ⟨h.alters, h.reduces, h.keeps⟩⟩
    split_ifs
    · exact (marked _ discarded).2
    · exact (marked _ discarded).1

/-- A silenced actor has nothing to tell. -/
theorem discardNotification_quiet {S : ActorRef → Prop} (hv : st.core.Valid w.id)
    {supervisor source : ActorRef} {n : Notification} (h : st.roster.Pending supervisor source n)
    (hq : st.roster.QuietBut supervisor fun q => q = source ∨ S q) :
    (w.discardNotification supervisor st source).roster.QuietBut supervisor S := by
  obtain ⟨m, q, seat, -⟩ := h
  obtain ⟨a, seated, -⟩ := State.seated_of_seats seat
  obtain ⟨step, -⟩ := silence_step (w := w) supervisor seated
  obtain ⟨retires, -⟩ := tryFinalize_retires (r := source) (hv.step step)
  have silenced : (silenced supervisor source st).roster.QuietBut supervisor S := by
    rw [roster_silenced]
    exact hq.silence.modify (fun _ => rfl) (fun _ => rfl) fun _ => .inl rfl
  apply retires.invariant (I := fun t => t.QuietBut supervisor S) silenced
  intro t c quiet hc _
  cases c with
  | retire x => exact quiet.retire x
  | _ => exact hc.elim

/-- The children of an actor whose notifications are discarded. -/
theorem quiet_start (hv : st.core.Valid w.id) (hc : w.checkRef r st = .ok a) :
    st.roster.QuietBut r fun q => q ∈ a.children.filter (w.notifying st) := by
  intro q k hk parent
  obtain ⟨b, child, found, rfl⟩ := State.seated_of_seats hk
  by_cases stopped : b.state = .stopped
  · left
    have released := hv.controlled.released q b.node b.hold child stopped
      (State.core_holds_get found)
    have silent : b.notification.isSome = false := congrArg Hold.notified released
    cases none : b.notification with
    | none => exact none
    | some n => simp [none] at silent
  · cases notified : b.notification with
    | none => exact .inl notified
    | some n =>
      right
      have mem := (hv.owned.child r a.node q (seated_of_check hv.owned hc)).mpr
        ⟨b.node, child, stopped, parent⟩
      apply List.mem_filter.mpr
      refine ⟨mem, ?_⟩
      obtain ⟨b', check, found', -⟩ := check_of_seated hv.owned child
      obtain rfl : b' = b := Option.some.inj (found'.symm.trans found)
      unfold notifying
      rw [check]
      simp [notified]

theorem discardNotificationsFor_quiet (hv : st.core.Valid w.id) (hc : w.checkRef r st = .ok a) :
    (w.discardNotificationsFor r st).roster.Quiet r := by
  have fold : ∀ (sources : List ActorRef) (st : State), st.core.Valid w.id → sources.Nodup →
      (∀ x ∈ sources, ∃ n, st.roster.Pending r x n) →
      st.roster.QuietBut r (fun q => q ∈ sources) →
      (sources.foldl (w.discardNotification r) st).roster.Quiet r := by
    intro sources
    induction sources with
    | nil =>
      intro st _ _ _ quiet q k hk parent
      exact (quiet q k hk parent).resolve_right List.not_mem_nil
    | cons x sources ih =>
      intro st hv nodup pending quiet
      obtain ⟨notin, nodup'⟩ := List.nodup_cons.mp nodup
      obtain ⟨n, first⟩ := pending x List.mem_cons_self
      obtain ⟨-, valid, others⟩ := discardNotification_falls hv first
      apply ih _ valid nodup'
      · intro y hy
        obtain ⟨n', second⟩ := pending y (List.mem_cons_of_mem x hy)
        exact ⟨n', others y n' (fun same => notin (same ▸ hy)) second⟩
      · apply discardNotification_quiet hv first
        simpa only [List.mem_cons] using quiet
  unfold discardNotificationsFor
  rw [hc]
  dsimp only
  have nodup : (a.children.filter (w.notifying st)).Nodup :=
    (hv.owned.children_nodup _ a.node (seated_of_check hv.owned hc).1).filter _
  have discarded := fold _ st hv nodup (fun q hq => by
    obtain ⟨mem, notifies⟩ := List.mem_filter.mp hq
    exact pending_of_notifying hv hc mem notifies) (quiet_start hv hc)
  split_ifs
  · exact discarded
  · exact discarded

/-! ## Services -/

theorem roster_detachScope : (w.detachScope r st).roster = st.roster.after (.release r) := by
  unfold detachScope Roster.after Registry.release
  dsimp only
  have services : st.roster.services = st.services := rfl
  rw [services]
  cases leased : st.services.leases.lookup r with
  | none => rfl
  | some lease =>
    dsimp only
    unfold Registry.vacate
    cases st.services.byTarget.lookup lease.service with
    | none =>
      unfold Registry.revoke
      dsimp only
      rw [leased]
      rfl
    | some name =>
      dsimp only
      cases st.services.records.lookup name with
      | none =>
        unfold Registry.revoke
        dsimp only
        rw [leased]
        rfl
      | some record =>
        unfold Registry.revoke
        dsimp only
        rw [leased]
        rfl

theorem detachScope_falls (hv : st.core.Valid w.id) :
    Falls w (fun x => x = r) st (w.detachScope r st) := by
  obtain ⟨evolves, -⟩ := @detachScope_spec Move.fencing r w st hv trivial
  have released := @roster_detachScope r w st
  refine ⟨?_, evolves.steps.reduces (fun _ h => h) hv, ?_⟩
  · rw [released]
    exact @Alters.single w.cfg _ st.roster (.release r) (.inl rfl) trivial
  · have services : (w.detachScope r st).services = st.services.release r :=
      congrArg Roster.services released
    intro scope l _ served
    rw [services, Registry.byTarget_release]
    exact served

/-- The state in which the scope of a service is fenced. -/
def revoked (service scope : ActorRef) (st : State) : State :=
  w.markActivityDependentsLocked service
    (match st.services.leases.lookup scope with
    | none => st
    | some lease =>
      w.markActivityDependentsLocked lease.owner
        { st with
          services :=
            { st.services with
              leases := st.services.leases.erase scope
              byHolder := st.services.byHolder.drop lease.owner scope } })

theorem revoked_spec (service scope : ActorRef) :
    (w.revoked service scope st).roster = st.roster.after (.revoke scope) ∧
      Step w.id st.core .unserve (w.revoked service scope st).core := by
  unfold revoked Roster.after Registry.revoke
  dsimp only
  have services : st.roster.services = st.services := rfl
  rw [services]
  cases st.services.leases.lookup scope with
  | none => exact ⟨rfl, .unserve st.services (.refl _)⟩
  | some lease =>
    refine ⟨rfl, .unserve (c := st.core) _ ⟨fun _ _ h => h, ?_, ?_⟩⟩
    swap
    · exact fun _ x hx => ⟨x, hx, rfl, fun _ h => h⟩
    intro other x hx
    have hx : (st.services.leases.erase scope).lookup other = some x := hx
    rw [Assoc.lookup_erase_ite] at hx
    split_ifs at hx
    exact hx

/-- A fence whose every part falls within its fuel. -/
def Faller (w : World) (fuel : ℕ) (fence : ActorRef → State → Except Error Unit × State) : Prop :=
  ∀ r st, st.core.Valid w.id → st.services.Tidy → Deep st.core.nodes r fuel →
    Falls w (fun _ => False) st (fence r st).2

variable {fuel : ℕ} {fence : ActorRef → State → Except Error Unit × State}

theorem everyone (st : State) : st.core.Closed fun _ => True :=
  ⟨fun _ _ _ _ _ _ => trivial, fun _ _ _ _ _ _ _ _ => trivial⟩

/-- The scope of a service that is gone loses its lease, and falls. -/
theorem revokeScope_falls (hf : w.Faller fuel fence) (he : w.Fencer (fun _ => True) fuel fence)
    {service scope : ActorRef} (hv : st.core.Valid w.id) (ht : st.services.Tidy)
    (orphan : ∀ l, st.services.leases.lookup scope = some l →
      st.services.byTarget.lookup l.service = none)
    (hd : Deep st.core.nodes scope fuel) :
    Falls w (fun _ => False) st (w.revokeScope fence service st scope) ∧
      (w.revokeScope fence service st scope).services.leases.lookup scope = none := by
  have revoking : w.revokeScope fence service st scope =
    (fence scope (w.revoked service scope st)).2 := rfl
  obtain ⟨roster, step⟩ := @revoked_spec w st service scope
  have services : (w.revoked service scope st).services = st.services.revoke scope :=
    congrArg Roster.services roster
  have hv₁ := hv.step step
  have reduces := hv.reduces step trivial
  have ht₁ : (w.revoked service scope st).services.Tidy := by
    rw [services]
    exact ht.revoke orphan
  have fenced := hf scope (w.revoked service scope st) hv₁ ht₁ (reduces.deep hd)
  have gone : (fence scope (w.revoked service scope st)).2.services.leases.lookup scope = none := by
    cases left : (fence scope (w.revoked service scope st)).2.services.leases.lookup scope with
    | none => rfl
    | some l =>
      have before := fenced.leases left
      rw [services, Registry.leases_revoke] at before
      cases before
  rw [revoking]
  refine ⟨?_, gone⟩
  cases leased : st.services.leases.lookup scope with
  | none =>
    have same : (w.revoked service scope st).roster = st.roster := by
      unfold revoked
      rw [leased]
      rfl
    exact (Falls.still same reduces).trans fenced
  | some lease =>
    obtain ⟨n, seated, -, -, live⟩ := hv.serving.leases scope lease leased
    have positive := hv.owned.deep_pos hd seated live
    obtain ⟨n', seated', -⟩ := reduces.seated seated
    have ended := (((he scope _ hv₁ (everyone _) trivial (reduces.deep hd)).2 positive).ended
      ⟨n', seated'⟩).2
    have taken : Falls w (fun x => x = scope) st (w.revoked service scope st) := by
      refine ⟨?_, reduces, ?_⟩
      · rw [roster]
        exact @Alters.single w.cfg _ st.roster (.revoke scope) (.inl rfl) orphan
      · intro other l _ served
        rw [services, Registry.byTarget_revoke]
        exact served
    apply (taken.trans (fenced.widen fun _ => False.elim)).close
    intro x hx
    rw [hx]
    exact ended

theorem revokeScopes_falls (hf : w.Faller fuel fence) (he : w.Fencer (fun _ => True) fuel fence)
    {service : ActorRef} (scopes : List ActorRef) (hv : st.core.Valid w.id)
    (ht : st.services.Tidy)
    (orphans : ∀ q ∈ scopes, ∀ l, st.services.leases.lookup q = some l →
      st.services.byTarget.lookup l.service = none)
    (hd : ∀ q ∈ scopes, Deep st.core.nodes q fuel) :
    Falls w (fun _ => False) st (scopes.foldl (w.revokeScope fence service) st) ∧
      ∀ q ∈ scopes, (scopes.foldl (w.revokeScope fence service) st).services.leases.lookup q =
        none := by
  induction scopes generalizing st with
  | nil => exact ⟨.refl st, fun q hq => absurd hq List.not_mem_nil⟩
  | cons q scopes ih =>
    obtain ⟨first, gone⟩ := @revokeScope_falls w st fuel fence hf he service q hv ht
      (orphans q List.mem_cons_self) (hd q List.mem_cons_self)
    have evolves := @revokeScope_fenced _ _ _ _ _ he service q hv (everyone st) trivial
      (hd q List.mem_cons_self)
    have orphans' : ∀ x ∈ scopes, ∀ l,
        (w.revokeScope fence service st q).services.leases.lookup x = some l →
          (w.revokeScope fence service st q).services.byTarget.lookup l.service = none := by
      intro x hx l leased
      have before := orphans x (List.mem_cons_of_mem q hx) l (first.leases leased)
      cases target : (w.revokeScope fence service st q).services.byTarget.lookup l.service with
      | none => rfl
      | some name =>
        have registered := first.reduces.services.targets l.service name target
        exact absurd (before.symm.trans registered) (by simp)
    obtain ⟨rest, others⟩ := ih (Evolves.valid evolves hv) (first.tidy ht) orphans' fun x hx =>
      first.reduces.deep (hd x (List.mem_cons_of_mem q hx))
    refine ⟨first.trans rest, ?_⟩
    intro x hx
    rcases List.mem_cons.mp hx with rfl | hx
    · rw [List.foldl_cons]
      cases left : (scopes.foldl (w.revokeScope fence service)
          (w.revokeScope fence service st x)).services.leases.lookup x with
      | none => rfl
      | some l => exact absurd (gone.symm.trans (rest.leases left)) (by simp)
    · exact others x hx

/-- The scopes of a service are not roots, so that they need no more fuel than the service. -/
theorem deep_scope (hv : st.core.Valid w.id) {name : String} {record : ServiceRecord}
    {scope : ActorRef} (ht : st.services.byTarget.lookup r = some name)
    (hr : st.services.records.lookup name = some record) (hs : scope ∈ record.scopes)
    (hdeep : Deep st.core.nodes r (fuel + 1)) : Deep st.core.nodes scope fuel := by
  obtain ⟨n, seated, root, -, live⟩ := hv.serving.targets r name ht
  have enough : walkFuel ≤ fuel + 1 + 1 := hdeep n [r] seated live (.root seated root)
  intro k l hk _ hl
  have child := (hv.serving.scopes name record scope hr hs).parent hk
  cases hl with
  | root hk' hp => exact absurd (hk.unique hk' ▸ hp) child
  | child _ _ hl =>
    cases hl <;>
    · simp only [List.length_cons]
      omega

theorem roster_unregistered :
    ({ st with services := st.services.unregister r } : State).roster =
      st.roster.after (.unregister r) := rfl

theorem detachService_falls (hf : w.Faller fuel fence) (he : w.Fencer (fun _ => True) fuel fence)
    (hv : st.core.Valid w.id) (ht : st.services.Tidy) (hdeep : Deep st.core.nodes r (fuel + 1)) :
    Falls w (fun x => x = r) st (w.detachService fence r st) := by
  cases target : st.services.byTarget.lookup r with
  | none =>
    have same : w.detachService fence r st = st := by
      unfold detachService
      rw [target]
    rw [same]
    exact .refl st
  | some name =>
    obtain ⟨record, recorded, service⟩ := (ht.targets r name).mp target
    set st₁ : State := { st with services := st.services.unregister r } with hst₁
    have unregistered : st.services.unregister r =
        { st.services with
          byTarget := st.services.byTarget.erase r
          records := st.services.records.erase name } := by
      unfold Registry.unregister
      rw [target]
      dsimp only
      rw [recorded]
    have step : Step w.id st.core .unserve st₁.core :=
      .unserve (c := st.core) _ (Registry.unregister_shrinks st.services r)
    have reduces := hv.reduces step trivial
    have same : w.detachService fence r st =
        (record.scopes.insertionSort ActorRef.before).foldl (w.revokeScope fence r) st₁ := by
      unfold detachService
      rw [target]
      dsimp only
      rw [recorded, hst₁, unregistered]
    have orphans : ∀ q ∈ record.scopes.insertionSort ActorRef.before, ∀ l,
        st₁.services.leases.lookup q = some l → st₁.services.byTarget.lookup l.service = none := by
      intro q hq l leased
      have before : st.services.leases.lookup q = some l := reduces.services.leases q l leased
      obtain ⟨l', other, onService⟩ :=
        (ht.scopes name record recorded q).mp ((List.mem_insertionSort _).mp hq)
      obtain rfl := Option.some.inj (before.symm.trans other)
      have erased : st₁.services.byTarget = st.services.byTarget.erase r := by
        rw [hst₁]
        dsimp only
        rw [unregistered]
      rw [erased, onService, service]
      exact AList.lookup_erase _ _
    obtain ⟨scopes, gone⟩ := @revokeScopes_falls w st₁ fuel fence hf he r
      (record.scopes.insertionSort ActorRef.before) (hv.step step) (ht.unregister r) orphans
      fun q hq => reduces.deep (deep_scope hv target recorded ((List.mem_insertionSort _).mp hq)
        hdeep)
    rw [same]
    set st₂ := (record.scopes.insertionSort ActorRef.before).foldl (w.revokeScope fence r) st₁
    have removed : Alters w.cfg (Change.fences fun x => x = r ∨ Ended st₂.core.nodes x) st.roster
        st₁.roster := by
      rw [hst₁, roster_unregistered]
      exact @Alters.single w.cfg _ st.roster (.unregister r) (.inl rfl) trivial
    refine ⟨removed.trans (scopes.widen fun _ => False.elim).alters,
      reduces.trans scopes.reduces, ?_⟩
    apply ht.keeps_unregister
    · intro scope l leased
      exact reduces.services.leases scope l (scopes.leases leased)
    · exact scopes.keeps
    · intro name' record' hr' same' q hq
      obtain rfl := ht.name_eq hr' recorded (same'.trans service.symm)
      obtain rfl := Option.some.inj (hr'.symm.trans recorded)
      exact gone q ((List.mem_insertionSort _).mpr hq)

/-! ## Operations, publications and the actor itself -/

theorem cancelSourcePublicationsLocked_falls (hv : st.core.Valid w.id) :
    Falls w X st (w.cancelSourcePublicationsLocked r st) := by
  obtain ⟨evolves, -⟩ := @cancelSourcePublicationsLocked_spec Move.fencing w st r hv
    fun _ => trivial
  exact .still roster_cancelSourcePublicationsLocked (evolves.steps.reduces (fun _ h => h) hv)

theorem cancelOperationsOf_falls (hv : st.core.Valid w.id) :
    Falls w X st (w.cancelOperationsOf r st) := by
  obtain ⟨evolves, -⟩ := @cancelOperationsOf_spec Move.fencing r w st hv fun _ _ _ => trivial
  exact .still roster_cancelOperationsOf (evolves.steps.reduces (fun _ h => h) hv)

theorem removeActorRoutes_falls (hv : st.core.Valid w.id) :
    Falls w X st (w.removeActorRoutes r st) := by
  obtain ⟨evolves, -⟩ := removeActorRoutes_spec (w := w) (r := r) (P := Move.fencing) hv
    fun _ _ _ => trivial
  exact .still roster_removeActorRoutes (evolves.steps.reduces (fun _ h => h) hv)

theorem roster_stopActor :
    (stopActor r a st).roster = st.roster.after (.enter r .stopping) := by
  unfold stopActor
  dsimp only
  rw [State.roster_addMetrics, roster_foldl (fun st (d : Delivery) =>
    st.note (.cancelled d.eventId r .fenced)) fun _ _ => State.roster_note rfl, roster_stagedLost,
    State.roster_modify (g := (Member.enter · .stopping))]
  · rfl
  · exact fun _ => rfl
  · exact fun _ => ⟨rfl, rfl, rfl, rfl, rfl⟩

/-! ## The fence -/

/-- The actor stops when its children have ended and nothing of its work is left. -/
theorem halts_falls (hv : st.core.Valid w.id) (ha : st.actors[r.slot]? = some a)
    (hr : a.reference = r) (hs : a.state ≠ .stopped)
    (hch : ∀ q ∈ a.children, Ended st.core.nodes q) (he : Emptied st r)
    (hq : st.roster.Quiet r) : Falls w (fun x => x = r) st
      (w.tryFinalize walkFuel r (stopActor r a (w.removeActorRoutes r st))) := by
  have routes : Falls w (fun x => x = r) st (w.removeActorRoutes r st) :=
    removeActorRoutes_falls hv
  set st₁ := w.removeActorRoutes r st with hst₁
  have hv₁ : st₁.core.Valid w.id := by
    obtain ⟨evolves, -⟩ := removeActorRoutes_spec (w := w) (r := r) (P := Move.fencing) hv
      fun _ _ _ => trivial
    exact evolves.valid hv
  have found : st₁.actors[r.slot]? = some a := by
    rw [hst₁, actors_removeActorRoutes, ha]
  have quiet : st₁.roster.Quiet r := by
    rw [hst₁, roster_removeActorRoutes]
    exact hq
  have idle : st₁.core.Idle r := removeActorRoutes_idle hv ha hr hch he
  have seated : Seated st₁.core.nodes r a.node := ⟨State.core_nodes_get found, hr⟩
  obtain ⟨c, emptied, stop⟩ := stopActor_spec (w := w) (P := Move.fencing) hv₁ found hr hs idle
    (fun _ => trivial) fun _ => trivial
  have hvc := emptied.valid hv₁
  have stopped : Falls w (fun x => x = r) st₁ (stopActor r a st₁) := by
    have entered := @roster_stopActor r st₁ a
    refine .of_services ?_ ((emptied.steps.reduces (fun _ h => h) hv₁).trans
      (hvc.reduces stop trivial)) (congrArg Roster.services entered)
    rw [entered]
    refine @Alters.single w.cfg _ st₁.roster (.enter r .stopping) ⟨rfl, .inl rfl⟩ ?_
    refine ⟨a.member, State.seats_iff.mpr ⟨a, found, hr, rfl⟩, hs, by decide, by decide,
      fun _ => rfl, fun _ => ⟨idle.lease, idle.service, quiet, ?_⟩⟩
    intro q hq k hk
    obtain ⟨b, child, -, rfl⟩ := State.seated_of_seats hk
    exact idle.children _ q _ seated hq child
  exact (routes.trans stopped).trans (tryFinalize_falls (hvc.step stop))

theorem fenceAll_falls (hf : w.Faller fuel fence) (he : w.Fencer (fun _ => True) fuel fence)
    (children : List ActorRef) (hv : st.core.Valid w.id) (ht : st.services.Tidy)
    (hd : ∀ q ∈ children, Deep st.core.nodes q fuel) :
    Falls w (fun _ => False) st (fenceAll fence children st).2 := by
  induction children generalizing st with
  | nil => exact .refl st
  | cons q children ih =>
    have first := hf q st hv ht (hd q List.mem_cons_self)
    have fenced := (he q st hv (everyone st) trivial (hd q List.mem_cons_self)).1
    have hv₁ := Evolves.valid fenced hv
    unfold fenceAll
    rcases hcall : fence q st with ⟨e | u, st'⟩
    · rw [hcall] at first
      exact first
    · rw [hcall] at first hv₁
      apply first.trans
      apply ih hv₁ (first.tidy ht)
      intro x hx
      exact first.reduces.deep (hd x (List.mem_cons_of_mem q hx))

theorem fenceLocked_faller (fuel : ℕ) : w.Faller fuel (w.fenceLocked fuel) := by
  induction fuel with
  | zero => exact fun r st _ _ _ => .refl st
  | succ fuel ih =>
    intro r st hv ht hdeep
    have he : w.Fencer (fun _ => True) fuel (w.fenceLocked fuel) := fenceLocked_fencer _ fuel
    rcases hcheck : w.checkRef r st with e | a
    · have h : w.fenceLocked (fuel + 1) r st = (.error e, st) := by
        unfold fenceLocked
        rw [hcheck]
      rw [h]
      exact .refl st
    have hn := seated_of_check hv.owned hcheck
    obtain ⟨h₁, hu, h₂, hemptied⟩ := fence_prepare he hv (everyone st) trivial hdeep
    unfold fenceLocked
    rw [hcheck]
    dsimp only
    have falls₁ : Falls w (fun x => x = r) st (w.cancelSourcePublicationsLocked r st) :=
      cancelSourcePublicationsLocked_falls hv
    set st₁ := w.cancelSourcePublicationsLocked r st
    set st₂ : State := { st₁ with
      eventDeadlines := st₁.eventDeadlines.remove r
      stagedActors := st₁.stagedActors.erase r.slot
      drainRoots := st₁.drainRoots.erase r.slot } with hst₂
    have hv₁ := h₁.valid hv
    have hv₂ := hv₁.step hu
    have falls₂ : Falls w (fun x => x = r) st₁ st₂ := .still rfl (hv₁.reduces hu trivial)
    have falls₃ : Falls w (fun x => x = r) st₂ (w.detachScope r st₂) := detachScope_falls hv₂
    set sa := w.detachScope r st₂
    have hva : sa.core.Valid w.id := by
      obtain ⟨evolves, -⟩ := @detachScope_spec Move.fencing r w st₂ hv₂ trivial
      exact evolves.valid hv₂
    have deep_a := ((falls₁.trans falls₂).trans falls₃).reduces.deep hdeep
    have falls₄ : Falls w (fun x => x = r) sa (w.detachService (w.fenceLocked fuel) r sa) :=
      detachService_falls ih he hva (((falls₁.trans falls₂).trans falls₃).tidy ht) deep_a
    set sb := w.detachService (w.fenceLocked fuel) r sa
    have hvb : sb.core.Valid w.id := by
      obtain ⟨fenced, -⟩ := detachService_spec he hva (everyone sa) trivial deep_a
      exact Evolves.valid fenced hva
    have falls₅ : Falls w (fun x => x = r) sb (w.discardNotificationsFor r sb) :=
      discardNotificationsFor_falls hvb
    set sc := w.discardNotificationsFor r sb
    have hvc : sc.core.Valid w.id :=
      (discardNotificationsFor_evolves (P := Move.fencing) hvb (fun _ => trivial)
        (fun _ => trivial) fun _ hm => hm).valid hvb
    have falls₆ : Falls w (fun x => x = r) sc (w.cancelOperationsOf r sc) :=
      cancelOperationsOf_falls hvc
    set st₃ := w.cancelOperationsOf r sc
    have hv₃ : st₃.core.Valid w.id := h₂.valid hv₂
    have before : Falls w (fun x => x = r) st st₃ :=
      ((((falls₁.trans falls₂).trans falls₃).trans falls₄).trans falls₅).trans falls₆
    obtain ⟨n₃, hn₃, -⟩ := before.reduces.seated hn
    obtain ⟨a₃, hc₃, ha₃, rfl⟩ := check_of_seated hv₃.owned hn₃
    rw [hc₃]
    dsimp only
    have hc_b : ∃ b, w.checkRef r sb = .ok b := by
      obtain ⟨n, hn', -⟩ := ((((falls₁.trans falls₂).trans falls₃).trans falls₄)).reduces.seated hn
      obtain ⟨b, check, -⟩ := check_of_seated hvb.owned hn'
      exact ⟨b, check⟩
    obtain ⟨b, hc_b⟩ := hc_b
    have quiet₃ : st₃.roster.Quiet r := by
      have quiet := discardNotificationsFor_quiet hvb hc_b
      rw [← roster_cancelOperationsOf] at quiet
      exact quiet
    have deep_children : ∀ q ∈ a₃.children, Deep st₃.core.nodes q fuel := fun q hq =>
      (hv₃.owned.deep_child (before.reduces.deep hdeep) hn₃ hq).1
    have falls₇ := fenceAll_falls ih he a₃.children hv₃ (before.tidy ht) deep_children
    obtain ⟨hok, h₄, hch⟩ := fenceAll_fenced he a₃.children hv₃ (everyone st₃)
      (fun hne => by
        obtain ⟨q, hq⟩ := List.exists_mem_of_ne_nil _ hne
        exact (hv₃.owned.deep_child (before.reduces.deep hdeep) hn₃ hq).2.1)
      fun q hq => by
        obtain ⟨hdq, -, hk⟩ := hv₃.owned.deep_child (before.reduces.deep hdeep) hn₃ hq
        exact ⟨trivial, hdq, hk⟩
    rcases hall : fenceAll (w.fenceLocked fuel) a₃.children st₃ with ⟨e | u, st₄⟩
    · simp [hall] at hok
    rw [hall] at h₄ hch falls₇
    dsimp only at h₄ hch falls₇ ⊢
    have hv₄ : st₄.core.Valid w.id := h₄.valid hv₃
    obtain ⟨n₄, hn₄, hnode⟩ := falls₇.reduces.seated hn₃
    obtain ⟨a₄, hc₄, ha₄, rfl⟩ := check_of_seated hv₄.owned hn₄
    rw [hc₄]
    dsimp only
    have after : Falls w (fun x => x = r) st st₄ := before.trans (falls₇.widen fun _ => False.elim)
    by_cases hstopped : a₄.state = .stopped
    · rw [if_pos hstopped]
      apply after.close
      rintro x rfl
      exact ⟨a₄.node, hn₄, .inr hstopped⟩
    · rw [if_neg hstopped]
      have hch₄ : ∀ q ∈ a₄.children, Ended st₄.core.nodes q := fun q hq =>
        hch q (hnode.children.subset hq)
      have emptied₄ := hemptied.reduces falls₇.reduces
      have quiet₄ : st₄.roster.Quiet r :=
        Roster.quietBut_none.mp (falls₇.alters.quiet (Roster.quietBut_none.mpr quiet₃))
      have halted := halts_falls hv₄ ha₄ hn₄.2 hstopped hch₄ emptied₄ quiet₄
      apply (after.trans halted).close
      rintro x rfl
      exact ((fence_halts hv₄ ha₄ hn₄.2 hstopped hch₄ emptied₄).fencing hv₄).2.2

end World

end Actorplane
