import Actorplane.Supervision.Roster

/-!
# The service registry

The four tables of the registry describe the same services and the same leases. A
lease whose service is no longer registered is left in no record, and every fence that
leaves such a lease behind takes it away before it ends.
-/

namespace Actorplane

namespace Registry

/-- The tables agree, apart from the leases on services that are not registered. -/
structure Tidy (s : Registry) : Prop where
  targets : ∀ service name, s.byTarget.lookup service = some name ↔
    ∃ record, s.records.lookup name = some record ∧ record.service = service
  named : ∀ name record, s.records.lookup name = some record → record.name = name
  nodup : ∀ name record, s.records.lookup name = some record → record.scopes.Nodup
  scopes : ∀ name record, s.records.lookup name = some record → ∀ scope,
    scope ∈ record.scopes ↔ ∃ l, s.leases.lookup scope = some l ∧ l.service = record.service
  holders : s.byHolder.Exact fun owner scope =>
    ∃ l, s.leases.lookup scope = some l ∧ l.owner = owner
  keyed : ∀ scope l, s.leases.lookup scope = some l → l.scope = scope

/-- Every lease is on a registered service. -/
def Served (s : Registry) : Prop :=
  ∀ scope l, s.leases.lookup scope = some l → (s.byTarget.lookup l.service).isSome

/-- No lease that stays loses its service. -/
def Keeps (s s' : Registry) : Prop :=
  ∀ scope l, s'.leases.lookup scope = some l → (s.byTarget.lookup l.service).isSome →
    (s'.byTarget.lookup l.service).isSome

variable {s s' s'' : Registry} {name : String} {service scope : ActorRef}

theorem Keeps.refl (s : Registry) : s.Keeps s := fun _ _ _ h => h

theorem Keeps.trans (h : s.Keeps s') (h' : s'.Keeps s'')
    (hl : ∀ scope l, s''.leases.lookup scope = some l → s'.leases.lookup scope = some l) :
    s.Keeps s'' := by
  intro scope l leased served
  apply h' scope l leased
  exact h scope l (hl scope l leased) served

theorem Keeps.served (h : s.Keeps s') (hs : s.Served)
    (hl : ∀ scope l, s'.leases.lookup scope = some l → s.leases.lookup scope = some l) :
    s'.Served := by
  intro scope l leased
  apply h scope l leased
  exact hs scope l (hl scope l leased)

theorem tidy_new : Registry.new.Tidy where
  targets service name := by simp [Registry.new]
  named name record h := by simp [Registry.new] at h
  nodup name record h := by simp [Registry.new] at h
  scopes name record h := by simp [Registry.new] at h
  holders := by
    apply Index.exact_empty.congr
    intro owner scope
    simp [Registry.new]
  keyed scope l h := by simp [Registry.new] at h

namespace Tidy

/-- One service has one record. -/
theorem name_eq (h : s.Tidy) {name' : String} {record record' : ServiceRecord}
    (hr : s.records.lookup name = some record) (hr' : s.records.lookup name' = some record')
    (same : record.service = record'.service) : name = name' := by
  have target := (h.targets record.service name).mpr ⟨record, hr, rfl⟩
  have target' := (h.targets record'.service name').mpr ⟨record', hr', rfl⟩
  rw [same, target'] at target
  exact (Option.some.inj target).symm

theorem register (h : s.Tidy) (free : s.records.lookup name = none)
    (idle : s.byTarget.lookup service = none)
    (unleased : ∀ scope l, s.leases.lookup scope = some l → l.service ≠ service)
    (contract : InterfaceSpec) : (s.register name service contract).Tidy where
  targets service' name' := by
    unfold Registry.register
    simp only [Assoc.lookup_insert_ite]
    by_cases here : service' = service <;> by_cases there : name' = name
    · simp [here, there]
    · simp only [here, there, if_true, if_false, Option.some.injEq]
      constructor
      · exact fun same => absurd same.symm there
      · intro other
        have target := (h.targets service name').mpr other
        rw [idle] at target
        cases target
    · simp only [here, there, if_true, if_false, Option.some.injEq]
      constructor
      · intro target
        obtain ⟨record, other, -⟩ := (h.targets service' name).mp target
        rw [free] at other
        cases other
      · rintro ⟨record, rfl, same⟩
        exact absurd same.symm here
    · simp only [here, there, if_false]
      exact h.targets service' name'
  named name' record hr := by
    unfold Registry.register at hr
    simp only [Assoc.lookup_insert_ite] at hr
    split_ifs at hr with there
    · obtain rfl := Option.some.inj hr
      exact there.symm
    · exact h.named name' record hr
  nodup name' record hr := by
    unfold Registry.register at hr
    simp only [Assoc.lookup_insert_ite] at hr
    split_ifs at hr
    · obtain rfl := Option.some.inj hr
      exact List.nodup_nil
    · exact h.nodup name' record hr
  scopes name' record hr scope := by
    unfold Registry.register at hr
    simp only [Assoc.lookup_insert_ite] at hr
    split_ifs at hr
    · obtain rfl := Option.some.inj hr
      constructor
      · exact fun mem => absurd mem List.not_mem_nil
      · rintro ⟨l, leased, same⟩
        exact absurd same (unleased scope l leased)
    · exact h.scopes name' record hr scope
  holders := h.holders
  keyed := h.keyed

theorem place (h : s.Tidy) {record : ServiceRecord} {l : ServiceLease}
    (hr : s.records.lookup name = some record) (same : record.service = l.service)
    (fresh : s.leases.lookup l.scope = none) : (s.place name l).Tidy := by
  unfold Registry.place
  rw [hr]
  dsimp only
  constructor
  · intro service' name'
    dsimp only
    rw [h.targets service' name', Assoc.lookup_insert_ite]
    split_ifs with there
    · rw [there, hr]
      simp
    · rfl
  · intro name' record' hr'
    dsimp only at hr'
    rw [Assoc.lookup_insert_ite] at hr'
    split_ifs at hr' with there
    · obtain rfl := Option.some.inj hr'
      exact (h.named name record hr).trans there.symm
    · exact h.named name' record' hr'
  · intro name' record' hr'
    dsimp only at hr'
    rw [Assoc.lookup_insert_ite] at hr'
    split_ifs at hr'
    · obtain rfl := Option.some.inj hr'
      exact (h.nodup name record hr).insert
    · exact h.nodup name' record' hr'
  · intro name' record' hr' scope
    dsimp only at hr' ⊢
    rw [Assoc.lookup_insert_ite] at hr' ⊢
    split_ifs at hr' with there
    · obtain rfl := Option.some.inj hr'
      dsimp only
      rw [List.mem_insert_iff, h.scopes name record hr scope]
      by_cases here : scope = l.scope
      · simp [here, same]
      · simp [here]
    · rw [h.scopes name' record' hr' scope]
      by_cases here : scope = l.scope
      · rw [here, fresh, if_pos rfl]
        constructor
        · rintro ⟨l', other, -⟩
          cases other
        · rintro ⟨l', placed, same'⟩
          obtain rfl := Option.some.inj placed
          exact absurd (h.name_eq hr' hr (same'.symm.trans same.symm)) there
      · rw [if_neg here]
  · apply (h.holders.add l.owner l.scope).congr
    intro owner scope
    dsimp only
    rw [Assoc.lookup_insert_ite]
    by_cases here : scope = l.scope
    · rw [here, fresh, if_pos rfl]
      simp [eq_comm]
    · simp [here]
  · intro scope l' leased
    dsimp only at leased
    rw [Assoc.lookup_insert_ite] at leased
    split_ifs at leased with here
    · obtain rfl := Option.some.inj leased
      exact here.symm
    · exact h.keyed scope l' leased

/-- Who loses its lease is no longer among those of its holder. -/
theorem holders_revoke (h : s.Tidy) {l : ServiceLease} (hl : s.leases.lookup scope = some l) :
    (s.byHolder.drop l.owner scope).Exact fun owner scope' =>
      ∃ l', (s.leases.erase scope).lookup scope' = some l' ∧ l'.owner = owner := by
  apply (h.holders.drop l.owner scope).congr
  intro owner scope'
  rw [Assoc.lookup_erase_ite]
  by_cases here : scope' = scope
  · rw [here, hl, if_pos rfl]
    simp [eq_comm]
  · simp [here]

theorem revoke (h : s.Tidy)
    (orphan : ∀ l, s.leases.lookup scope = some l → s.byTarget.lookup l.service = none) :
    (s.revoke scope).Tidy := by
  unfold Registry.revoke
  cases hl : s.leases.lookup scope with
  | none => exact h
  | some l =>
    dsimp only
    refine ⟨h.targets, h.named, h.nodup, ?_, h.holders_revoke hl, ?_⟩
    · intro name' record hr scope'
      dsimp only at hr ⊢
      rw [h.scopes name' record hr scope', Assoc.lookup_erase_ite]
      by_cases here : scope' = scope
      · rw [here, hl, if_pos rfl]
        constructor
        · rintro ⟨l', other, same⟩
          obtain rfl := Option.some.inj other
          have target := (h.targets record.service name').mpr ⟨record, hr, rfl⟩
          rw [← same, orphan l hl] at target
          cases target
        · rintro ⟨l', other, -⟩
          cases other
      · rw [if_neg here]
    · intro scope' l' leased
      dsimp only at leased
      rw [Assoc.lookup_erase_ite] at leased
      split_ifs at leased
      exact h.keyed scope' l' leased

theorem unregister (h : s.Tidy) (service : ActorRef) : (s.unregister service).Tidy := by
  unfold Registry.unregister
  cases target : s.byTarget.lookup service with
  | none => exact h
  | some name =>
    obtain ⟨record, hr, same⟩ := (h.targets service name).mp target
    dsimp only
    rw [hr]
    have others : ∀ name' x, (s.records.erase name).lookup name' = some x →
        name' ≠ name ∧ s.records.lookup name' = some x := by
      intro name' x hx
      rw [Assoc.lookup_erase_ite] at hx
      split_ifs at hx with there
      exact ⟨there, hx⟩
    refine ⟨?_, ?_, ?_, ?_, h.holders, h.keyed⟩
    · intro service' name'
      dsimp only
      rw [Assoc.lookup_erase_ite, Assoc.lookup_erase_ite]
      by_cases here : service' = service
      · rw [if_pos here]
        constructor
        · exact fun impossible => by cases impossible
        · rintro ⟨record', hr', same'⟩
          split_ifs at hr' with there
          exact absurd (h.name_eq hr' hr (same'.trans (here.trans same.symm))) there
      · rw [if_neg here, h.targets service' name']
        by_cases there : name' = name
        · rw [there, hr, if_pos rfl]
          constructor
          · rintro ⟨record', hr', same'⟩
            obtain rfl := Option.some.inj hr'
            exact absurd (same'.symm.trans same) here
          · rintro ⟨record', impossible, -⟩
            cases impossible
        · rw [if_neg there]
    · exact fun name' x hx => h.named name' x (others name' x hx).2
    · exact fun name' x hx => h.nodup name' x (others name' x hx).2
    · exact fun name' x hx => h.scopes name' x (others name' x hx).2

/-- A registered service has no record of other scopes, so a released one is in its record. -/
theorem release (h : s.Tidy) (scope : ActorRef) : (s.release scope).Tidy := by
  unfold Registry.release
  cases hl : s.leases.lookup scope with
  | none => exact h
  | some l =>
    dsimp only
    unfold Registry.vacate
    cases target : s.byTarget.lookup l.service with
    | none =>
      apply h.revoke
      intro l' hl'
      obtain rfl := Option.some.inj (hl.symm.trans hl')
      exact target
    | some name =>
      obtain ⟨record, hr, same⟩ := (h.targets l.service name).mp target
      dsimp only
      rw [hr]
      dsimp only
      unfold Registry.revoke
      rw [hl]
      dsimp only
      constructor
      · intro service' name'
        dsimp only
        rw [h.targets service' name', Assoc.lookup_insert_ite]
        split_ifs with there
        · rw [there, hr]
          simp
        · rfl
      · intro name' record' hr'
        dsimp only at hr'
        rw [Assoc.lookup_insert_ite] at hr'
        split_ifs at hr' with there
        · obtain rfl := Option.some.inj hr'
          exact (h.named name record hr).trans there.symm
        · exact h.named name' record' hr'
      · intro name' record' hr'
        dsimp only at hr'
        rw [Assoc.lookup_insert_ite] at hr'
        split_ifs at hr'
        · obtain rfl := Option.some.inj hr'
          exact (h.nodup name record hr).erase scope
        · exact h.nodup name' record' hr'
      · intro name' record' hr' scope'
        dsimp only at hr' ⊢
        rw [Assoc.lookup_insert_ite] at hr'
        rw [Assoc.lookup_erase_ite]
        split_ifs at hr' with there
        · obtain rfl := Option.some.inj hr'
          dsimp only
          rw [(h.nodup name record hr).mem_erase_iff, h.scopes name record hr scope']
          by_cases here : scope' = scope
          · simp [here]
          · simp [here]
        · rw [h.scopes name' record' hr' scope']
          by_cases here : scope' = scope
          · rw [here, hl, if_pos rfl]
            constructor
            · rintro ⟨l', other, same'⟩
              obtain rfl := Option.some.inj other
              exact absurd (h.name_eq hr' hr (same'.symm.trans same.symm)) there
            · rintro ⟨l', impossible, -⟩
              cases impossible
          · rw [if_neg here]
      · exact h.holders_revoke hl
      · intro scope' l' leased
        dsimp only at leased
        rw [Assoc.lookup_erase_ite] at leased
        split_ifs at leased
        exact h.keyed scope' l' leased

end Tidy

/-! ## What stays registered -/

/-- Taking back a lease leaves the names of the services. -/
theorem byTarget_release (scope : ActorRef) : (s.release scope).byTarget = s.byTarget := by
  unfold Registry.release Registry.vacate Registry.revoke
  cases s.leases.lookup scope with
  | none => rfl
  | some l =>
    dsimp only
    cases s.byTarget.lookup l.service with
    | none =>
      dsimp only
      cases s.leases.lookup scope <;> rfl
    | some name =>
      dsimp only
      cases s.records.lookup name with
      | none =>
        dsimp only
        cases s.leases.lookup scope <;> rfl
      | some record =>
        dsimp only
        cases s.leases.lookup scope <;> rfl

theorem byTarget_revoke (scope : ActorRef) : (s.revoke scope).byTarget = s.byTarget := by
  unfold Registry.revoke
  cases s.leases.lookup scope <;> rfl

theorem leases_revoke (scope : ActorRef) : (s.revoke scope).leases.lookup scope = none := by
  unfold Registry.revoke
  cases hl : s.leases.lookup scope with
  | none => exact hl
  | some l => exact AList.lookup_erase _ _

theorem byTarget_unregister {x : ActorRef} (hx : x ≠ service) :
    (s.unregister service).byTarget.lookup x = s.byTarget.lookup x := by
  unfold Registry.unregister
  cases s.byTarget.lookup service with
  | none => rfl
  | some name =>
    dsimp only
    cases s.records.lookup name <;> exact AList.lookup_erase_ne hx

theorem unregister_shrinks (s : Registry) (r : ActorRef) : s.Shrinks (s.unregister r) := by
  have targets : ∀ service x, (s.byTarget.erase r).lookup service = some x →
      s.byTarget.lookup service = some x := by
    intro service x hx
    rw [Assoc.lookup_erase_ite] at hx
    split_ifs at hx
    exact hx
  unfold Registry.unregister
  cases s.byTarget.lookup r with
  | none => exact .refl s
  | some name =>
    dsimp only
    cases s.records.lookup name with
    | none => exact ⟨targets, fun _ _ h => h, fun _ x hx => ⟨x, hx, rfl, fun _ h => h⟩⟩
    | some record =>
      refine ⟨targets, fun _ _ h => h, ?_⟩
      intro name' x hx
      have hx : (s.records.erase name).lookup name' = some x := hx
      rw [Assoc.lookup_erase_ite] at hx
      split_ifs at hx
      exact ⟨x, hx, rfl, fun _ h => h⟩

/-- Once its scopes have lost their leases, a service leaves nobody behind. -/
theorem Tidy.keeps_unregister (h : s.Tidy)
    (hl : ∀ scope l, s'.leases.lookup scope = some l → s.leases.lookup scope = some l)
    (hk : (s.unregister service).Keeps s')
    (hs : ∀ name record, s.records.lookup name = some record → record.service = service →
      ∀ scope ∈ record.scopes, s'.leases.lookup scope = none) : s.Keeps s' := by
  intro scope l leased served
  by_cases here : l.service = service
  · obtain ⟨name, target⟩ := Option.isSome_iff_exists.mp served
    obtain ⟨record, hr, same⟩ := (h.targets l.service name).mp target
    have mem := (h.scopes name record hr scope).mpr ⟨l, hl scope l leased, same.symm⟩
    rw [hs name record hr (same.trans here) scope mem] at leased
    cases leased
  · apply hk scope l leased
    rw [byTarget_unregister here]
    exact served

end Registry

/-! ## Under the changes -/

namespace Roster

variable {t : Roster}

theorem services_join (r : ActorRef) (parent : Option ActorRef) :
    (t.join r parent).services = t.services := by
  unfold Roster.join
  cases parent <;> rfl

theorem services_fail (record : FailureRecord) (notify : Bool) :
    (t.fail record notify).services = t.services := by
  unfold Roster.fail Roster.tell
  dsimp only
  cases t.members[record.actor.slot]? with
  | none => rfl
  | some m =>
    dsimp only
    split_ifs
    · rfl
    · rfl
    · cases m.parent <;> rfl

theorem services_retire (r : ActorRef) : (t.retire r).services = t.services := by
  unfold Roster.retire
  cases t.members[r.slot]? with
  | none => rfl
  | some m =>
    dsimp only
    cases m.parent <;> rfl

theorem May.tidy {cfg : Config} {x : Change} (h : t.May cfg x) (ht : t.services.Tidy) :
    (t.after x).services.Tidy := by
  cases x with
  | join r parent =>
    show (t.join r parent).services.Tidy
    rw [services_join]
    exact ht
  | enter r state => exact ht
  | late root => exact ht
  | fail record notify =>
    show (t.fail record notify).services.Tidy
    rw [services_fail]
    exact ht
  | claim supervisor source => exact ht
  | silence supervisor source => exact ht
  | lapse => exact ht
  | retire r =>
    show (t.retire r).services.Tidy
    rw [services_retire]
    exact ht
  | register name service contract =>
    obtain ⟨free, idle, -, unleased, -⟩ := h
    exact ht.register free idle unleased contract
  | lease name lease =>
    obtain ⟨record, m, hr, same, fresh, -⟩ := h
    exact ht.place hr same fresh
  | release scope => exact ht.release scope
  | unregister service => exact ht.unregister service
  | revoke scope => exact ht.revoke h

end Roster

theorem Alters.tidy {cfg : Config} {P : Change → Prop} {t t' : Roster} (h : Alters cfg P t t')
    (ht : t.services.Tidy) : t'.services.Tidy := by
  apply h.invariant (I := fun t => t.services.Tidy) ht
  intro t x tidy _ hm
  exact hm.tidy tidy

end Actorplane
