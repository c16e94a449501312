import Actorplane.Supervision.Steps

/-!
# Services and leases of a run

The registry never names an actor that is gone. A registered service is a root, and a
lease is a child of its owner, that was started and has not been fenced; and no table
of the registry grows over its limit.
-/

namespace Actorplane

variable {t : Roster} {r x : ActorRef} {m : Member} {parent : Option ActorRef}

namespace Roster

/-! ## Actors that stay -/

/-- A started actor below its parent that has not been fenced. -/
def Stands (t : Roster) (r : ActorRef) (parent : Option ActorRef) : Prop :=
  ∃ m, t.Seats r m ∧ m.parent = parent ∧ (m.state = .active ∨ m.state = .quiescing)

theorem Stands.modify {f : Member → Member} (h : t.Stands r parent)
    (hr : ∀ m, (f m).reference = m.reference) (hp : ∀ m, (f m).parent = m.parent)
    (hs : ∀ m, (f m).state = m.state) : (t.modify x f).Stands r parent := by
  obtain ⟨m, seat, below, state⟩ := h
  refine ⟨_, (seats_modify hr).mpr ⟨m, seat, rfl⟩, ?_, ?_⟩
  · split_ifs
    · rw [hp, below]
    · exact below
  · split_ifs
    · rw [hs]
      exact state
    · exact state

/-- A new actor takes the slot of nobody who has not stopped. -/
theorem Seats.join (h : t.Seats x m) (hm : m.state ≠ .stopped) (hv : t.Vacant r)
    (parent : Option ActorRef) :
    ∃ m', (t.join r parent).Seats x m' ∧ (m' = m ∨ m' = m.adopt r) := by
  have inside := (List.getElem?_eq_some_iff.mp h.1).1
  have other : r.slot ≠ x.slot := by
    intro same
    obtain last | ⟨old, found, stopped, -⟩ := hv
    · omega
    · obtain rfl : old = m := Option.some.inj (found.symm.trans (same ▸ h.1))
      exact hm stopped
  set placed : Roster := { t with
    members :=
      if r.slot = t.members.length
      then t.members ++ [⟨r, t.nextOrder, .starting, parent, [], none, 0, false, 0, none⟩]
      else t.members.set r.slot ⟨r, t.nextOrder, .starting, parent, [], none, 0, false, 0, none⟩
    nextOrder := t.nextOrder + 1 } with hplaced
  have seat : placed.Seats x m := by
    refine ⟨?_, h.2⟩
    rw [hplaced]
    dsimp only
    split_ifs
    · rw [List.getElem?_append_left inside]
      exact h.1
    · rw [List.getElem?_set_ne other]
      exact h.1
  cases parent with
  | none => exact ⟨m, seat, .inl rfl⟩
  | some p =>
    have adopted : (placed.modify p (Member.adopt · r)).Seats x
        (if x.slot = p.slot then m.adopt r else m) :=
      (seats_modify (f := (Member.adopt · r)) fun _ => rfl).mpr ⟨m, seat, rfl⟩
    refine ⟨_, adopted, ?_⟩
    split_ifs
    · exact .inr rfl
    · exact .inl rfl

theorem Stands.join (h : t.Stands x parent) (hv : t.Vacant r) {p : Option ActorRef} :
    (t.join r p).Stands x parent := by
  obtain ⟨m, seat, below, state⟩ := h
  have running : m.state ≠ .stopped := by
    rcases state with state | state <;> simp [state]
  obtain ⟨m', seat', same⟩ := seat.join running hv p
  refine ⟨m', seat', ?_⟩
  rcases same with rfl | rfl
  · exact ⟨below, state⟩
  · exact ⟨below, state⟩

theorem Stands.fail (h : t.Stands r parent) (record : FailureRecord) (notify : Bool) :
    (t.fail record notify).Stands r parent := by
  have told : ∀ t : Roster, t.Stands r parent →
      (t.modify record.actor (Member.fail · record notify)).Stands r parent :=
    fun t h => h.modify (fun _ => rfl) (fun _ => rfl) fun _ => rfl
  unfold Roster.fail Roster.tell
  dsimp only
  cases t.members[record.actor.slot]? with
  | none => exact told _ h
  | some m =>
    dsimp only
    split_ifs
    · exact told _ h
    · exact told _ h
    · cases m.parent with
      | none => exact told _ h
      | some p => exact (told _ h).modify (fun _ => rfl) (fun _ => rfl) fun _ => rfl

theorem Stands.hush (h : t.Stands r parent) (supervisor source : ActorRef) :
    (t.hush supervisor source).Stands r parent := by
  have silenced : (t.modify source Member.silence).Stands r parent :=
    h.modify (fun _ => rfl) (fun _ => rfl) fun _ => rfl
  exact silenced.modify (fun _ => rfl) (fun _ => rfl) fun _ => rfl

/-- Nobody else loses its place when an actor retires. -/
theorem Stands.retire (h : t.Stands r parent) (hx : t.Seats x m) (hm : m.state = .stopping) :
    (t.retire x).Stands r parent := by
  obtain ⟨k, seat, below, state⟩ := h
  have other : r.slot ≠ x.slot := by
    intro same
    obtain rfl : r = x := seat.slot_eq hx same
    obtain rfl := seat.unique hx
    simp [hm] at state
  have stays : (t.modify x (Member.enter · .stopped)).Stands r parent := by
    refine ⟨k, (seats_modify (f := (Member.enter · .stopped)) fun _ => rfl).mpr ⟨k, seat, ?_⟩,
      below, state⟩
    rw [if_neg other]
  unfold Roster.retire
  cases t.members[x.slot]? with
  | none => exact ⟨k, seat, below, state⟩
  | some k' =>
    dsimp only
    cases k'.parent with
    | none => exact stays
    | some p => exact stays.modify (fun _ => rfl) (fun _ => rfl) fun _ => rfl

theorem May.stands {cfg : Config} {c : Change} (hm : t.May cfg c) (h : t.Stands r parent)
    (hc : c ≠ .enter r .stopping) : (t.after c).Stands r parent := by
  cases c with
  | join x p => exact h.join hm.1
  | enter x state =>
    obtain ⟨k, seat, below, running⟩ := h
    obtain ⟨m, found, -, started, alive, -⟩ := hm
    refine ⟨_, (seats_modify (f := (Member.enter · state)) fun _ => rfl).mpr ⟨k, seat, rfl⟩, ?_⟩
    split_ifs with here
    · obtain rfl : r = x := seat.slot_eq found here
      refine ⟨below, ?_⟩
      show state = .active ∨ state = .quiescing
      cases state with
      | starting => exact absurd rfl started
      | active => exact .inl rfl
      | quiescing => exact .inr rfl
      | stopping => exact absurd rfl hc
      | stopped => exact absurd rfl alive
    · exact ⟨below, running⟩
  | late root =>
    have marked : (t.modify root Member.late).Stands r parent :=
      h.modify (fun _ => rfl) (fun _ => rfl) fun _ => rfl
    exact marked
  | fail record notify => exact h.fail record notify
  | claim supervisor source => exact h.hush supervisor source
  | silence supervisor source => exact h.hush supervisor source
  | lapse => exact h
  | retire x =>
    obtain ⟨m, seat, stopping, -⟩ := hm
    exact h.retire seat stopping
  | register => exact h
  | lease => exact h
  | release => exact h
  | unregister => exact h
  | revoke => exact h

end Roster

/-! ## Sizes -/

namespace Assoc

variable {κ ν : Type} [DecidableEq κ] (m : Assoc κ ν) (k : κ) (v : ν)

theorem length_insert_le : (AList.insert k v m).keys.length ≤ m.keys.length + 1 := by
  rw [AList.keys_insert, List.length_cons]
  have shorter := (List.erase_sublist (a := k) (l := m.keys)).length_le
  omega

theorem length_replace {v : ν} (h : (m.lookup k).isSome) :
    (AList.insert k v m).keys.length = m.keys.length := by
  have mem : k ∈ m.keys := AList.mem_keys.mp (AList.lookup_isSome.mp h)
  have positive := List.length_pos_of_mem mem
  rw [AList.keys_insert, List.length_cons, List.length_erase_of_mem mem]
  omega

theorem length_erase_le : (m.erase k).keys.length ≤ m.keys.length := by
  rw [AList.keys_erase]
  exact (List.erase_sublist (a := k) (l := m.keys)).length_le

end Assoc

theorem Index.length_add_le {κ ι : Type} [DecidableEq κ] [DecidableEq ι] (m : Index κ ι) (k k' : κ)
    (i : ι) : ((m.add k i).members k').length ≤
      (m.members k').length + if k' = k then 1 else 0 := by
  rw [Index.members_add]
  split_ifs with here
  · rw [here]
    by_cases mem : i ∈ m.members k
    · rw [List.insert_of_mem mem]
      exact Nat.le_succ _
    · rw [List.insert_of_not_mem mem, List.length_cons]
  · exact le_rfl

theorem Index.length_drop_le {κ ι : Type} [DecidableEq κ] [DecidableEq ι] (m : Index κ ι) (k k' : κ)
    (i : ι) : ((m.drop k i).members k').length ≤ (m.members k').length := by
  rw [Index.members_drop]
  split_ifs with here
  · rw [here]
    exact List.erase_sublist.length_le
  · exact le_rfl

namespace Registry

variable {s : Registry} {name : String} {scope service : ActorRef}

/-- No table is larger than it may be. -/
structure Within (s : Registry) (cfg : Config) : Prop where
  records : s.records.keys.length ≤ cfg.maxServices
  leases : s.leases.keys.length ≤ cfg.maxServiceLeases
  shares : ∀ owner, (s.byHolder.members owner).length ≤ cfg.maxLeasesPerActor

theorem Within.shrink {cfg : Config} {s' : Registry} (h : s.Within cfg)
    (hr : s'.records.keys.length ≤ s.records.keys.length)
    (hl : s'.leases.keys.length ≤ s.leases.keys.length)
    (hh : ∀ owner, (s'.byHolder.members owner).length ≤ (s.byHolder.members owner).length) :
    s'.Within cfg :=
  ⟨hr.trans h.records, hl.trans h.leases, fun owner => (hh owner).trans (h.shares owner)⟩

theorem Within.revoke {cfg : Config} (h : s.Within cfg) (scope : ActorRef) :
    (s.revoke scope).Within cfg := by
  unfold Registry.revoke
  cases s.leases.lookup scope with
  | none => exact h
  | some l =>
    apply h.shrink
    · exact le_rfl
    · exact Assoc.length_erase_le s.leases scope
    · exact fun owner => Index.length_drop_le s.byHolder l.owner owner scope

theorem Within.vacate {cfg : Config} (h : s.Within cfg) (service scope : ActorRef) :
    (s.vacate service scope).Within cfg := by
  unfold Registry.vacate
  cases s.byTarget.lookup service with
  | none => exact h
  | some name =>
    dsimp only
    cases recorded : s.records.lookup name with
    | none => exact h
    | some record =>
      apply h.shrink
      · exact (Assoc.length_replace s.records name (by simp [recorded])).le
      · exact le_rfl
      · exact fun _ => le_rfl

theorem Within.release {cfg : Config} (h : s.Within cfg) (scope : ActorRef) :
    (s.release scope).Within cfg := by
  unfold Registry.release
  cases s.leases.lookup scope with
  | none => exact h
  | some l => exact (h.vacate l.service scope).revoke scope

theorem Within.unregister {cfg : Config} (h : s.Within cfg) (service : ActorRef) :
    (s.unregister service).Within cfg := by
  unfold Registry.unregister
  cases s.byTarget.lookup service with
  | none => exact h
  | some name =>
    dsimp only
    cases s.records.lookup name with
    | none => exact h.shrink le_rfl le_rfl fun _ => le_rfl
    | some record =>
      exact h.shrink (Assoc.length_erase_le s.records name) le_rfl fun _ => le_rfl

end Registry

/-! ## The registry of a run -/

/-- The actors that the registry names stand, and its tables are not too large. -/
structure Roster.Fit (t : Roster) (cfg : Config) : Prop where
  targets : ∀ service name, t.services.byTarget.lookup service = some name → t.Stands service none
  leases : ∀ scope l, t.services.leases.lookup scope = some l → t.Stands scope (some l.owner)
  within : t.services.Within cfg

namespace Roster

/-- Nobody whom the registry names is fenced. -/
theorem May.fit {cfg : Config} {c : Change} (hm : t.May cfg c) (h : t.Fit cfg)
    (hs : (t.after c).services = t.services) : (t.after c).Fit cfg := by
  constructor
  · intro service name target
    rw [hs] at target
    apply hm.stands (h.targets service name target)
    rintro rfl
    obtain ⟨m, -, -, -, -, -, fenced⟩ := hm
    rw [(fenced rfl).2.1] at target
    cases target
  · intro scope l leased
    rw [hs] at leased
    apply hm.stands (h.leases scope l leased)
    rintro rfl
    obtain ⟨m, -, -, -, -, -, fenced⟩ := hm
    rw [(fenced rfl).1] at leased
    cases leased
  · rw [hs]
    exact h.within

/-- Whoever is still named was named before. -/
theorem Fit.shrink {cfg : Config} {s : Registry} (h : t.Fit cfg)
    (ht : ∀ service name, s.byTarget.lookup service = some name →
      t.services.byTarget.lookup service = some name)
    (hl : ∀ scope l, s.leases.lookup scope = some l → t.services.leases.lookup scope = some l)
    (hw : s.Within cfg) : ({ t with services := s } : Roster).Fit cfg :=
  ⟨fun service name target => h.targets service name (ht service name target),
    fun scope l leased => h.leases scope l (hl scope l leased), hw⟩

theorem leases_revoke_le {s : Registry} {scope other : ActorRef} {l : ServiceLease}
    (h : (s.revoke scope).leases.lookup other = some l) : s.leases.lookup other = some l := by
  unfold Registry.revoke at h
  cases leased : s.leases.lookup scope with
  | none =>
    rw [leased] at h
    exact h
  | some l' =>
    rw [leased] at h
    dsimp only at h
    rw [Assoc.lookup_erase_ite] at h
    split_ifs at h
    exact h

theorem leases_release_le {s : Registry} {scope other : ActorRef} {l : ServiceLease}
    (h : (s.release scope).leases.lookup other = some l) : s.leases.lookup other = some l := by
  have vacated : ∀ service, (s.vacate service scope).leases = s.leases := by
    intro service
    unfold Registry.vacate
    cases s.byTarget.lookup service with
    | none => rfl
    | some name =>
      dsimp only
      cases s.records.lookup name <;> rfl
  unfold Registry.release at h
  cases leased : s.leases.lookup scope with
  | none =>
    rw [leased] at h
    exact h
  | some l' =>
    rw [leased] at h
    have before := leases_revoke_le h
    rw [vacated] at before
    exact before

theorem May.fit_registry {cfg : Config} {c : Change} (hm : t.May cfg c) (h : t.Fit cfg) :
    (t.after c).Fit cfg := by
  cases c with
  | join r parent => exact May.fit hm h (services_join r parent)
  | enter r state => exact May.fit hm h rfl
  | late root => exact May.fit hm h rfl
  | fail record notify => exact May.fit hm h (services_fail record notify)
  | claim supervisor source => exact May.fit hm h rfl
  | silence supervisor source => exact May.fit hm h rfl
  | lapse => exact May.fit hm h rfl
  | retire r => exact May.fit hm h (services_retire r)
  | register name service contract =>
    obtain ⟨free, idle, room, unleased, m, seat, root, active⟩ := hm
    refine ⟨?_, h.leases, ?_, h.within.leases, h.within.shares⟩
    · intro service' name' target
      have target : (AList.insert service name t.services.byTarget).lookup service' =
        some name' := target
      rw [Assoc.lookup_insert_ite] at target
      split_ifs at target with here
      · rw [here]
        exact ⟨m, seat, root, .inl active⟩
      · exact h.targets service' name' target
    · have grown := Assoc.length_insert_le t.services.records name ⟨name, service, contract, []⟩
      exact grown.trans room
  | lease name lease =>
    obtain ⟨record, m, recorded, same, fresh, seat, below, active, room, shares⟩ := hm
    have placed : t.services.place name lease =
        { t.services with
          records := AList.insert name
            { record with scopes := record.scopes.insert lease.scope } t.services.records
          leases := AList.insert lease.scope lease t.services.leases
          byHolder := t.services.byHolder.add lease.owner lease.scope } := by
      unfold Registry.place
      rw [recorded]
    show ({ t with services := t.services.place name lease } : Roster).Fit cfg
    rw [placed]
    refine ⟨h.targets, ?_, ?_, ?_, ?_⟩
    · intro scope l leased
      have leased : (AList.insert lease.scope lease t.services.leases).lookup scope = some l :=
        leased
      rw [Assoc.lookup_insert_ite] at leased
      split_ifs at leased with here
      · obtain rfl := Option.some.inj leased
        rw [here]
        exact ⟨m, seat, below, .inl active⟩
      · exact h.leases scope l leased
    · have kept := Assoc.length_replace (v := { record with
        scopes := record.scopes.insert lease.scope }) t.services.records name (by simp [recorded])
      exact kept.le.trans h.within.records
    · have grown := Assoc.length_insert_le t.services.leases lease.scope lease
      exact grown.trans room
    · intro owner
      have grown := Index.length_add_le t.services.byHolder lease.owner owner lease.scope
      have before := h.within.shares owner
      show ((t.services.byHolder.add lease.owner lease.scope).members owner).length ≤ _
      split_ifs at grown with here
      · rw [here] at grown ⊢
        omega
      · omega
  | release scope =>
    apply h.shrink
    · intro service name target
      rw [Registry.byTarget_release] at target
      exact target
    · exact fun _ _ => leases_release_le
    · exact h.within.release scope
  | unregister service =>
    have shrinks := Registry.unregister_shrinks t.services service
    exact h.shrink shrinks.targets shrinks.leases (h.within.unregister service)
  | revoke scope =>
    apply h.shrink
    · intro service name target
      rw [Registry.byTarget_revoke] at target
      exact target
    · exact fun _ _ => leases_revoke_le
    · exact h.within.revoke scope

end Roster

/-! ## Every run -/

/-- A current actor of a World that was started and has not been fenced. -/
def World.Serves (w : World) (st : State) (r : ActorRef) (parent : Option ActorRef) : Prop :=
  ∃ a, w.checkRef r st = .ok a ∧ a.parent = parent ∧ (a.state = .active ∨ a.state = .quiescing)

/-- What the tables of the registry say about each other and about the actors. -/
structure World.Registered (w : World) (st : State) : Prop where
  services : ∀ service name, st.services.byTarget.lookup service = some name ↔
    ∃ record, st.services.records.lookup name = some record ∧ record.service = service
  records : ∀ name record, st.services.records.lookup name = some record →
    record.name = name ∧ w.Serves st record.service none ∧ record.scopes.Nodup ∧
      ∀ scope, scope ∈ record.scopes ↔
        ∃ l, st.services.leases.lookup scope = some l ∧ l.service = record.service
  leases : ∀ scope l, st.services.leases.lookup scope = some l →
    l.scope = scope ∧ w.Serves st scope (some l.owner) ∧
      (st.services.byTarget.lookup l.service).isSome
  holders : st.services.byHolder.Exact fun owner scope =>
    ∃ l, st.services.leases.lookup scope = some l ∧ l.owner = owner
  within : st.services.Within w.cfg

theorem World.Staffed.serves {w : World} {st : State} (h : w.Staffed st)
    (hs : st.roster.Stands r parent) : w.Serves st r parent := by
  obtain ⟨m, seat, below, state⟩ := hs
  obtain ⟨a, found, current, rfl⟩ := State.seats_iff.mp seat
  exact ⟨a, h.rests.check.mpr ⟨found, current⟩, below, state⟩

/-- After every run the four tables of the registry agree with each other and with the actors. -/
theorem World.registry_exact (w : World) (actions : List Action) :
    w.Registered (w.exec w.init actions) := by
  have staffed := w.staffed actions
  have fit : (w.exec w.init actions).roster.Fit w.cfg := by
    apply roster_invariant (I := fun t => t.Fit w.cfg)
    · refine ⟨?_, ?_, Nat.zero_le _, Nat.zero_le _, fun _ => Nat.zero_le _⟩
      · exact fun service name target => by cases target
      · exact fun scope l leased => by cases leased
    · exact fun t x _ fit may => may.fit_registry fit
  have tidy := staffed.tidy
  refine ⟨tidy.targets, ?_, ?_, tidy.holders, fit.within⟩
  · intro name record recorded
    have target := (tidy.targets record.service name).mpr ⟨record, recorded, rfl⟩
    exact ⟨tidy.named name record recorded, staffed.serves (fit.targets _ name target),
      tidy.nodup name record recorded, tidy.scopes name record recorded⟩
  · intro scope l leased
    exact ⟨tidy.keyed scope l leased, staffed.serves (fit.leases scope l leased),
      staffed.served scope l leased⟩

end Actorplane
