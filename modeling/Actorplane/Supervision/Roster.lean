import Actorplane.Locked.World

/-!
# The roster of a World state

What supervision, shutdown accounting and the service registry read: the actors with
their failures and notifications, the registry, and the World's totals of failures.
Mailboxes, operations, publications and routes are left out, so that most calls do not
change the roster. Those that do change it by the changes below.
-/

namespace Actorplane

/-- An actor without its work. -/
structure Member where
  reference : ActorRef
  readyOrder : ℕ
  state : Lifecycle
  parent : Option ActorRef
  children : List ActorRef
  notification : Option Notification
  pendingFailures : ℕ
  drainTimedOut : Bool
  errors : ℕ
  lastError : Option FailureRecord

def Actor.member (a : Actor) : Member where
  reference := a.reference
  readyOrder := a.readyOrder
  state := a.state
  parent := a.parent
  children := a.children
  notification := a.notification
  pendingFailures := a.pendingFailures
  drainTimedOut := a.drainTimedOut
  errors := a.errors
  lastError := a.lastError

/-- The root of a drain that ran out of time. -/
def Event.late : Event → Option ActorRef
  | .drainTimeout root => some root
  | _ => none

structure Roster where
  members : List Member
  nextOrder : ℕ
  services : Registry
  nextFailure : ℕ
  lastError : Option FailureRecord
  failures : ℕ
  coalesced : ℕ
  delivered : ℕ
  discarded : ℕ
  timeouts : ℕ
  late : List ActorRef

def State.roster (st : State) : Roster where
  members := st.actors.map Actor.member
  nextOrder := st.nextReadyOrder
  services := st.services
  nextFailure := st.nextFailure
  lastError := st.lastError
  failures := st.metrics.failures
  coalesced := st.metrics.notificationsCoalesced
  delivered := st.metrics.notificationsDelivered
  discarded := st.metrics.notificationsDiscarded
  timeouts := st.metrics.drainTimeouts
  late := st.log.filterMap Event.late

/-! ## Changes -/

/-- What a call may do to the roster. -/
inductive Change
  | join (actor : ActorRef) (parent : Option ActorRef)
  | enter (actor : ActorRef) (state : Lifecycle)
  | late (root : ActorRef)
  | fail (record : FailureRecord) (notify : Bool)
  | claim (supervisor source : ActorRef)
  | silence (supervisor source : ActorRef)
  | lapse
  | retire (actor : ActorRef)
  | register (name : String) (service : ActorRef) (contract : InterfaceSpec)
  | lease (name : String) (lease : ServiceLease)
  | release (scope : ActorRef)
  | unregister (service : ActorRef)
  | revoke (scope : ActorRef)

namespace Registry

variable (s : Registry)

def register (name : String) (service : ActorRef) (contract : InterfaceSpec) : Registry :=
  { s with
    byTarget := AList.insert service name s.byTarget
    records := AList.insert name ⟨name, service, contract, []⟩ s.records }

def place (name : String) (lease : ServiceLease) : Registry :=
  match s.records.lookup name with
  | none => s
  | some record =>
    { s with
      records :=
        AList.insert name { record with scopes := record.scopes.insert lease.scope } s.records
      leases := AList.insert lease.scope lease s.leases
      byHolder := s.byHolder.add lease.owner lease.scope }

/-- Drop the lease of a scope, leaving the record of its service. -/
def revoke (scope : ActorRef) : Registry :=
  match s.leases.lookup scope with
  | none => s
  | some lease =>
    { s with
      leases := s.leases.erase scope
      byHolder := s.byHolder.drop lease.owner scope }

/-- Take a scope out of the record of a service. -/
def vacate (service scope : ActorRef) : Registry :=
  match s.byTarget.lookup service with
  | none => s
  | some name =>
    match s.records.lookup name with
    | none => s
    | some record =>
      { s with
        records := AList.insert name { record with scopes := record.scopes.erase scope } s.records }

def release (scope : ActorRef) : Registry :=
  match s.leases.lookup scope with
  | none => s
  | some lease => (s.vacate lease.service scope).revoke scope

def unregister (service : ActorRef) : Registry :=
  match s.byTarget.lookup service with
  | none => s
  | some name =>
    match s.records.lookup name with
    | none => { s with byTarget := s.byTarget.erase service }
    | some _ =>
      { s with byTarget := s.byTarget.erase service, records := s.records.erase name }

end Registry

namespace Member

variable (m : Member)

def enter (state : Lifecycle) : Member := { m with state := state }

def late : Member := { m with drainTimedOut := true }

def adopt (child : ActorRef) : Member := { m with children := m.children ++ [child] }

/-- The parent takes over the totals of a retired child. -/
def inherit (child : Member) : Member :=
  { m with
    children := m.children.filter (· ≠ child.reference)
    drainTimedOut := m.drainTimedOut || child.drainTimedOut
    errors := min (m.errors + child.errors) u64Max
    lastError := keepLatest m.lastError child.lastError }

def fail (record : FailureRecord) (notify : Bool) : Member :=
  { m with
    errors := min (m.errors + 1) u64Max
    lastError := some record
    notification :=
      if !notify then m.notification
      else match m.notification with
        | none => some ⟨record, 0⟩
        | some n => some { n with coalesced := min (n.coalesced + 1) u64Max } }

def silence : Member := { m with notification := none }

def await : Member := { m with pendingFailures := m.pendingFailures + 1 }

def hear : Member := { m with pendingFailures := m.pendingFailures - 1 }

end Member

namespace Roster

variable (t : Roster)

def modify (r : ActorRef) (f : Member → Member) : Roster :=
  { t with members := t.members.modify r.slot f }

/-- The slot of the reference holds this very generation. -/
def Seats (r : ActorRef) (m : Member) : Prop := t.members[r.slot]? = some m ∧ m.reference = r

/-- Put a new actor in its slot, and below its parent. -/
def join (r : ActorRef) (parent : Option ActorRef) : Roster :=
  let m : Member := ⟨r, t.nextOrder, .starting, parent, [], none, 0, false, 0, none⟩
  let t := { t with
    members := if r.slot = t.members.length then t.members ++ [m] else t.members.set r.slot m
    nextOrder := t.nextOrder + 1 }
  match parent with
  | none => t
  | some p => t.modify p (Member.adopt · r)

/-- Note a failure at its actor, and raise or join the notification. -/
def tell (record : FailureRecord) (notify : Bool) : Roster :=
  let told := t.modify record.actor (Member.fail · record notify)
  match t.members[record.actor.slot]? with
  | none => told
  | some m =>
    if !notify then told
    else if m.notification.isSome then { told with coalesced := told.coalesced + 1 }
    else match m.parent with
      | none => told
      | some p => told.modify p Member.await

def fail (record : FailureRecord) (notify : Bool) : Roster :=
  { t with
    nextFailure := t.nextFailure + 1
    lastError := some record
    failures := t.failures + 1 }.tell record notify

/-- Take the notification from its source. -/
def hush (supervisor source : ActorRef) : Roster :=
  (t.modify source Member.silence).modify supervisor Member.hear

def retire (r : ActorRef) : Roster :=
  match t.members[r.slot]? with
  | none => t
  | some m =>
    let t := t.modify r (Member.enter · .stopped)
    match m.parent with
    | none => t
    | some p => t.modify p (Member.inherit · m)

def after : Change → Roster
  | .join r parent => t.join r parent
  | .enter r state => t.modify r (Member.enter · state)
  | .late r =>
    { t.modify r Member.late with timeouts := t.timeouts + 1, late := t.late ++ [r] }
  | .fail record notify => t.fail record notify
  | .claim supervisor source =>
    { t.hush supervisor source with delivered := t.delivered + 1 }
  | .silence supervisor source =>
    { t.hush supervisor source with discarded := t.discarded + 1 }
  | .lapse => { t with discarded := t.discarded + 1 }
  | .retire r => t.retire r
  | .register name service contract =>
    { t with services := t.services.register name service contract }
  | .lease name lease => { t with services := t.services.place name lease }
  | .release scope => { t with services := t.services.release scope }
  | .unregister service => { t with services := t.services.unregister service }
  | .revoke scope => { t with services := t.services.revoke scope }

/-- The slot is new, or its last generation has stopped. -/
def Vacant (r : ActorRef) : Prop :=
  r.slot = t.members.length ∨ ∃ old, t.members[r.slot]? = some old ∧ old.state = .stopped ∧
    old.reference.generation < r.generation

/-- A seated actor that is neither stopping nor stopped. -/
def Present (r : ActorRef) : Prop :=
  ∃ m, t.Seats r m ∧ m.state ≠ .stopping ∧ m.state ≠ .stopped

/-- The failing child tells its parent, if it tells anyone. -/
def Pending (supervisor source : ActorRef) (n : Notification) : Prop :=
  ∃ m q, t.Seats source m ∧ m.parent = some supervisor ∧ m.notification = some n ∧
    t.Seats supervisor q ∧ source ≠ supervisor

/-- No child of the actor tells it about a failure. -/
def Quiet (r : ActorRef) : Prop :=
  ∀ q k, t.Seats q k → k.parent = some r → k.notification = none

/-- Where the code makes a change. -/
def May (cfg : Config) : Change → Prop
  | .join r parent => t.Vacant r ∧ ∀ p, parent = some p → t.Present p ∧ p.slot ≠ r.slot
  | .enter r state => ∃ m, t.Seats r m ∧ m.state ≠ .stopped ∧
      state ≠ .starting ∧ state ≠ .stopped ∧
      (m.state = .stopping → state = .stopping) ∧
      (state = .stopping → t.services.leases.lookup r = none ∧
        t.services.byTarget.lookup r = none ∧ t.Quiet r ∧
        ∀ q ∈ m.children, ∀ k, t.Seats q k → k.state = .stopping ∨ k.state = .stopped)
  | .late r => ∃ m, t.Seats r m ∧ m.state ≠ .stopped
  | .fail record notify => record.sequence = t.nextFailure ∧
      ∃ m, t.Seats record.actor m ∧ m.state ≠ .stopped ∧
        (notify = true → ∃ p, m.parent = some p ∧ t.Present p ∧ p ≠ record.actor)
  | .claim supervisor source => ∃ n, t.Pending supervisor source n
  | .silence supervisor source => ∃ n, t.Pending supervisor source n
  | .lapse => True
  | .retire r => ∃ m, t.Seats r m ∧ m.state = .stopping ∧ m.notification = none ∧
      (∀ q ∈ m.children, ∀ k, t.Seats q k → k.state = .stopped) ∧
      ∀ p, m.parent = some p → ∃ q, t.Seats p q ∧ q.state ≠ .stopped ∧ p.slot ≠ r.slot
  | .register name service _ => t.services.records.lookup name = none ∧
      t.services.byTarget.lookup service = none ∧
      t.services.records.keys.length < cfg.maxServices ∧
      (∀ scope l, t.services.leases.lookup scope = some l → l.service ≠ service) ∧
      ∃ m, t.Seats service m ∧ m.parent = none ∧ m.state = .active
  | .lease name lease => ∃ record m, t.services.records.lookup name = some record ∧
      record.service = lease.service ∧ t.services.leases.lookup lease.scope = none ∧
      t.Seats lease.scope m ∧ m.parent = some lease.owner ∧ m.state = .active ∧
      t.services.leases.keys.length < cfg.maxServiceLeases ∧
      (t.services.byHolder.members lease.owner).length < cfg.maxLeasesPerActor
  | .revoke scope =>
      ∀ l, t.services.leases.lookup scope = some l → t.services.byTarget.lookup l.service = none
  | .release _ | .unregister _ => True

end Roster

/-- A sequence of changes, each made where it may be. -/
def Alters (cfg : Config) (P : Change → Prop) : Roster → Roster → Prop :=
  Relation.ReflTransGen fun t t' => ∃ x, P x ∧ t.May cfg x ∧ t' = t.after x

namespace Alters

variable {cfg : Config} {P Q : Change → Prop} {t t' t'' : Roster}

theorem refl (t : Roster) : Alters cfg P t t := Relation.ReflTransGen.refl

theorem still (h : t' = t) : Alters cfg P t t' := by
  rw [h]
  exact refl t

theorem single {x : Change} (hP : P x) (h : t.May cfg x) : Alters cfg P t (t.after x) :=
  Relation.ReflTransGen.single ⟨x, hP, h, rfl⟩

theorem trans (h : Alters cfg P t t') (h' : Alters cfg P t' t'') : Alters cfg P t t'' :=
  Relation.ReflTransGen.trans h h'

theorem mono (hPQ : ∀ x, P x → Q x) (h : Alters cfg P t t') : Alters cfg Q t t' := by
  induction h with
  | refl => exact refl t
  | tail _ last ih =>
    obtain ⟨x, hP, hx, rfl⟩ := last
    exact ih.trans (single (hPQ x hP) hx)

/-- What every change of a kind keeps, a sequence of them keeps. -/
theorem invariant {I : Roster → Prop} (h : Alters cfg P t t') (ht : I t)
    (step : ∀ t x, I t → P x → t.May cfg x → I (t.after x)) : I t' := by
  induction h with
  | refl => exact ht
  | tail _ last ih =>
    obtain ⟨x, hP, hx, rfl⟩ := last
    exact step _ x ih hP hx

end Alters

end Actorplane
