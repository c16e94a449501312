import Mathlib.Data.Set.Card
import Actorplane.Model.Operations

/-!
# What the operation table is for

A plain map from operation identities to the owner and either a pending operation
or one terminal outcome. The calls of the table act on the map; a batch call acts
on the set of identities it is about and may answer with the size of that set.
-/

namespace Actorplane

inductive TableCall
  | reserve (owner target : ActorRef) (deadline : Instant)
  | setContext (id : OperationId) (context : HeldPayload)
  | complete (id : OperationId) (outcome : TerminalOutcome)
  | take (id : OperationId)
  | releaseUnsubmitted (id : OperationId)
  | expire (now : Instant)
  | expireIds (now : Instant)
  | expireOne (id : OperationId) (now : Instant)
  | cancelOwner (owner : ActorRef)
  | stopTarget (target : ActorRef)
  | retireOwner (owner : ActorRef)

inductive TableAnswer
  | id (result : Except Error OperationId)
  | unit (result : Except Error Unit)
  | flag (result : Except Error Bool)
  | outcome (result : Except Error (Option TerminalOutcome))
  | count (n : ℕ)
  | ids (l : List OperationId)

/-- Wrap the result of a call. -/
def answering {α : Type} (wrap : α → TableAnswer) (call : α × OperationTable) :
    TableAnswer × OperationTable :=
  (wrap call.1, call.2)

def OperationTable.call (t : OperationTable) : TableCall → TableAnswer × OperationTable
  | .reserve owner target deadline => answering .id (t.reserve owner target deadline)
  | .setContext id context => answering .unit (t.setContext id context)
  | .complete id outcome => answering .flag (t.complete id outcome)
  | .take id => answering .outcome (t.take id)
  | .releaseUnsubmitted id => answering .flag (t.releaseUnsubmitted id)
  | .expire now => answering .count (t.expire now)
  | .expireIds now => answering .ids (t.expireIds now)
  | .expireOne id now => answering .flag (t.expireOne id now)
  | .cancelOwner owner => answering .count (t.cancelOwner owner)
  | .stopTarget target => answering .count (t.stopTarget target)
  | .retireOwner owner => answering .count (t.retireOwner owner)

structure OperationRecord where
  owner : ActorRef
  entry : Entry

abbrev OperationMap := OperationId → Option OperationRecord

namespace OperationMap

open Classical in
/-- Give one outcome to every identity of a set. -/
noncomputable def settle (m : OperationMap) (S : Set OperationId) (outcome : TerminalOutcome) :
    OperationMap := fun id =>
  if id ∈ S then (m id).map fun r => { r with entry := .terminal outcome.normalized } else m id

open Classical in
noncomputable def forget (m : OperationMap) (S : Set OperationId) : OperationMap := fun id =>
  if id ∈ S then none else m id

def hold (m : OperationMap) (id : OperationId) (entry : Entry) : OperationMap := fun i =>
  if i = id then (m id).map fun r => { r with entry := entry } else m i

def start (m : OperationMap) (id : OperationId) (p : PendingOperation) : OperationMap := fun i =>
  if i = id then some ⟨p.owner, .pending p⟩ else m i

def IsPending (m : OperationMap) (id : OperationId) (p : PendingOperation) : Prop :=
  ∃ r, m id = some r ∧ r.entry = .pending p

def IsTerminal (m : OperationMap) (id : OperationId) (outcome : TerminalOutcome) : Prop :=
  ∃ r, m id = some r ∧ r.entry = .terminal outcome

def dueBy (m : OperationMap) (now : Instant) : Set OperationId :=
  {id | ∃ p, m.IsPending id p ∧ p.deadline ≤ now}

def ownedBy (m : OperationMap) (owner : ActorRef) : Set OperationId :=
  {id | ∃ r, m id = some r ∧ r.owner = owner}

def pendingOf (m : OperationMap) (owner : ActorRef) : Set OperationId :=
  {id | id ∈ m.ownedBy owner ∧ ∃ p, m.IsPending id p}

def pendingOn (m : OperationMap) (target : ActorRef) : Set OperationId :=
  {id | ∃ p, m.IsPending id p ∧ p.target = target}

/-- The identities that an answered call takes from pending to a terminal outcome. -/
def ends (m : OperationMap) : TableCall → TableAnswer → Set OperationId
  | .complete id _, .flag (.ok true) => {id}
  | .expireOne id _, .flag (.ok true) => {id}
  | .expire now, _ => m.dueBy now
  | .expireIds now, _ => m.dueBy now
  | .cancelOwner owner, _ => m.pendingOf owner
  | .retireOwner owner, _ => m.pendingOf owner
  | .stopTarget target, _ => m.pendingOn target
  | _, _ => ∅

/-- The map after a call that gave an answer. -/
noncomputable def after (m : OperationMap) : TableCall → TableAnswer → OperationMap
  | .reserve owner target deadline, .id (.ok id) => m.start id ⟨owner, target, deadline, none⟩
  | .setContext id context, .unit (.ok _) =>
    match m id with
    | some ⟨_, .pending p⟩ => m.hold id (.pending { p with context := some context })
    | _ => m
  | .complete id outcome, .flag (.ok true) => m.settle {id} outcome
  | .take id, .outcome (.ok (some _)) => m.forget {id}
  | .releaseUnsubmitted id, .flag (.ok true) => m.forget {id}
  | .expire now, _ => m.settle (m.dueBy now) .timedOut
  | .expireIds now, _ => m.settle (m.dueBy now) .timedOut
  | .expireOne id _, .flag (.ok true) => m.settle {id} .timedOut
  | .cancelOwner owner, _ => m.settle (m.pendingOf owner) .ownerStopped
  | .stopTarget target, _ => m.settle (m.pendingOn target) .targetStopped
  | .retireOwner owner, _ => m.forget (m.ownedBy owner)
  | _, _ => m

/-- The error of an identity that the map does not have. -/
def missing (world : ℕ) (id : OperationId) : Error :=
  if id.world = world then .staleReference else .crossWorld

/-- Whether one call may win the race for an identity's outcome. -/
def contend (world : ℕ) (m : OperationMap) (id : OperationId) (wins : PendingOperation → Bool) :
    Except Error Bool :=
  match m id with
  | none => .error (missing world id)
  | some ⟨_, .pending p⟩ => .ok (wins p)
  | some ⟨_, .terminal _⟩ => .ok false

/-- What a call may answer. -/
def Answers (world : ℕ) (m : OperationMap) : TableCall → TableAnswer → Prop
  | .reserve owner target _, .id (.ok id) =>
    owner.world = world ∧ target.world = world ∧ id.world = world ∧ m id = none
  | .reserve owner target _, .id (.error e) =>
    if owner.world = world ∧ target.world = world then e = .limitExceeded else e = .crossWorld
  | .setContext id context, .unit r =>
    if context.world ≠ world then r = .error .crossWorld
    else match m id with
      | none => r = .error (missing world id)
      | some ⟨_, .pending p⟩ =>
        r = if p.context.isSome then .error .invalidConfig else .ok ()
      | some ⟨_, .terminal _⟩ => r = .error .invalidConfig
  | .complete id outcome, .flag r =>
    match outcome with
    | .completed payload =>
      r = if payload.world ≠ world then .error .crossWorld else m.contend world id fun _ => true
    | _ => r = m.contend world id fun _ => true
  | .take id, .outcome r =>
    r = match m id with
      | none => .error (missing world id)
      | some ⟨_, .pending _⟩ => .ok none
      | some ⟨_, .terminal outcome⟩ => .ok (some outcome)
  | .releaseUnsubmitted id, .flag r => r = m.contend world id fun _ => true
  | .expire now, .count n => n = (m.dueBy now).ncard
  | .expireIds now, .ids l => l.Nodup ∧ ∀ id, id ∈ l ↔ id ∈ m.dueBy now
  | .expireOne id now, .flag r => r = m.contend world id fun p => p.deadline ≤ now
  | .cancelOwner owner, .count n => n = (m.pendingOf owner).ncard
  | .stopTarget target, .count n => n = (m.pendingOn target).ncard
  | .retireOwner owner, .count n => n = (m.ownedBy owner).ncard
  | _, _ => False

/-! ## The life of one identity -/

/-- What a change of the map that ends the identities of `E` means for one identity. -/
structure LivesOn (m m' : OperationMap) (E : Set OperationId) (id : OperationId) : Prop where
  ended : id ∈ E → ∃ p, m.IsPending id p
  settled : id ∈ E → m' id = none ∨ ∃ o, m'.IsTerminal id o
  stored : ∀ o, m.IsTerminal id o → m' id = none ∨ m'.IsTerminal id o
  won : ∀ p o, m.IsPending id p → m'.IsTerminal id o → id ∈ E
  started : m id = none → m' id = none ∨ ∃ p, m'.IsPending id p

variable {m : OperationMap} {id i : OperationId} {S : Set OperationId}

theorem IsPending.ne_terminal {p : PendingOperation} {o : TerminalOutcome}
    (h : m.IsPending id p) : ¬m.IsTerminal id o := by
  rintro ⟨r, hr, ho⟩
  obtain ⟨r', hr', hp⟩ := h
  rw [hr] at hr'
  cases hr'
  rw [ho] at hp
  cases hp

theorem isPending_or_terminal {r : OperationRecord} (h : m id = some r) :
    (∃ p, m.IsPending id p) ∨ ∃ o, m.IsTerminal id o := by
  rcases hr : r.entry with p | o
  · exact .inl ⟨p, r, h, hr⟩
  · exact .inr ⟨o, r, h, hr⟩

theorem livesOn_same : LivesOn m m ∅ i where
  ended := False.elim
  settled := False.elim
  stored _ h := .inr h
  won _ _ hp ho := hp.ne_terminal ho
  started h := .inl h

theorem livesOn_settle (o : TerminalOutcome) (hS : ∀ id ∈ S, ∃ p, m.IsPending id p) :
    LivesOn m (m.settle S o) S i := by
  by_cases hi : i ∈ S
  · obtain ⟨p, r, hr, hp⟩ := hS i hi
    have hm : m.settle S o i = some { r with entry := .terminal o.normalized } := by
      simp [settle, hi, hr]
    refine ⟨fun _ => ⟨p, r, hr, hp⟩, fun _ => .inr ⟨_, _, hm, rfl⟩, fun x hx => ?_,
      fun _ _ _ _ => hi, fun hn => ?_⟩
    · exact absurd hx (IsPending.ne_terminal ⟨r, hr, hp⟩)
    · rw [hr] at hn
      cases hn
  · have hm : m.settle S o i = m i := by simp [settle, hi]
    refine ⟨fun h => absurd h hi, fun h => absurd h hi, fun x hx => .inr ?_, fun p x hp hx => ?_,
      fun hn => .inl (hm.trans hn)⟩
    · rwa [IsTerminal, hm]
    · rw [IsTerminal, hm] at hx
      exact absurd hx hp.ne_terminal

theorem livesOn_forget {E : Set OperationId} (hE : E ⊆ S)
    (hp : ∀ id ∈ E, ∃ p, m.IsPending id p) : LivesOn m (m.forget S) E i := by
  by_cases hi : i ∈ S
  · have hm : m.forget S i = none := by simp [forget, hi]
    refine ⟨hp i, fun _ => .inl hm, fun _ _ => .inl hm, fun p o _ ho => ?_, fun _ => .inl hm⟩
    obtain ⟨r, hr, -⟩ := ho
    rw [hm] at hr
    cases hr
  · have hm : m.forget S i = m i := by simp [forget, hi]
    refine ⟨fun h => absurd (hE h) hi, fun h => absurd (hE h) hi, fun x hx => .inr ?_,
      fun p x hp hx => ?_, fun hn => .inl (hm.trans hn)⟩
    · rwa [IsTerminal, hm]
    · rw [IsTerminal, hm] at hx
      exact absurd hx hp.ne_terminal

theorem livesOn_hold {p q : PendingOperation} (hp : m.IsPending id p) :
    LivesOn m (m.hold id (.pending q)) ∅ i := by
  obtain ⟨r, hr, hrp⟩ := hp
  by_cases hi : i = id
  · subst hi
    have hm : m.hold i (.pending q) i = some { r with entry := .pending q } := by simp [hold, hr]
    refine ⟨False.elim, False.elim, fun x hx => ?_, fun _ x _ hx => ?_, fun hn => ?_⟩
    · exact absurd hx (IsPending.ne_terminal ⟨r, hr, hrp⟩)
    · exact absurd hx (IsPending.ne_terminal ⟨_, hm, rfl⟩)
    · rw [hr] at hn
      cases hn
  · have hm : m.hold id (.pending q) i = m i := by simp [hold, hi]
    refine ⟨False.elim, False.elim, fun x hx => .inr ?_, fun p x hp hx => ?_,
      fun hn => .inl (hm.trans hn)⟩
    · rwa [IsTerminal, hm]
    · rw [IsTerminal, hm] at hx
      exact absurd hx hp.ne_terminal

theorem livesOn_start {p : PendingOperation} (hn : m id = none) :
    LivesOn m (m.start id p) ∅ i := by
  by_cases hi : i = id
  · subst hi
    have hm : m.start i p i = some ⟨p.owner, .pending p⟩ := by simp [start]
    refine ⟨False.elim, False.elim, fun x hx => ?_, fun q x hq hx => ?_,
      fun _ => .inr ⟨p, _, hm, rfl⟩⟩
    · obtain ⟨r, hr, -⟩ := hx
      rw [hn] at hr
      cases hr
    · exact absurd hx (IsPending.ne_terminal ⟨_, hm, rfl⟩)
  · have hm : m.start id p i = m i := by simp [start, hi]
    refine ⟨False.elim, False.elim, fun x hx => .inr ?_, fun p x hp hx => ?_,
      fun hn => .inl (hm.trans hn)⟩
    · rwa [IsTerminal, hm]
    · rw [IsTerminal, hm] at hx
      exact absurd hx hp.ne_terminal

theorem contend_true {world : ℕ} {wins : PendingOperation → Bool}
    (h : m.contend world id wins = .ok true) : ∃ p, m.IsPending id p := by
  unfold contend at h
  split at h
  · cases h
  · rename_i p hp
    exact ⟨p, _, hp, rfl⟩
  · cases h

/-- Every answered call lets each identity live on. -/
theorem livesOn_after {world : ℕ} {c : TableCall} {a : TableAnswer} (h : m.Answers world c a) :
    LivesOn m (m.after c a) (m.ends c a) i := by
  cases c with
  | reserve owner target deadline =>
    cases a with
    | id r =>
      cases r with
      | ok id => exact livesOn_start h.2.2.2
      | error e => exact livesOn_same
    | _ => exact h.elim
  | setContext id context =>
    cases a with
    | unit r =>
      cases r with
      | ok _ =>
        rcases hm : m id with - | ⟨owner, (p | o)⟩
        · simpa [after, ends, hm] using livesOn_same
        · simpa [after, ends, hm] using livesOn_hold ⟨_, hm, rfl⟩
        · simpa [after, ends, hm] using livesOn_same
      | error e => exact livesOn_same
    | _ => exact h.elim
  | complete id outcome =>
    cases a with
    | flag r =>
      have hr : r = .ok true → ∃ p, m.IsPending id p := by
        rintro rfl
        cases outcome with
        | completed payload =>
          simp only [Answers] at h
          split_ifs at h
          exact contend_true h.symm
        | _ => exact contend_true (Eq.symm h)
      rcases r with e | (b | b)
      · exact livesOn_same
      · exact livesOn_same
      · exact livesOn_settle outcome fun i hi => hi ▸ hr rfl
    | _ => exact h.elim
  | take id =>
    cases a with
    | outcome r =>
      rcases r with e | (b | b)
      · exact livesOn_same
      · exact livesOn_same
      · exact livesOn_forget (Set.empty_subset _) fun _ => False.elim
    | _ => exact h.elim
  | releaseUnsubmitted id =>
    cases a with
    | flag r =>
      rcases r with e | (b | b)
      · exact livesOn_same
      · exact livesOn_same
      · exact livesOn_forget (Set.empty_subset _) fun _ => False.elim
    | _ => exact h.elim
  | expire now => exact livesOn_settle _ fun id ⟨p, hp, _⟩ => ⟨p, hp⟩
  | expireIds now => exact livesOn_settle _ fun id ⟨p, hp, _⟩ => ⟨p, hp⟩
  | expireOne id now =>
    cases a with
    | flag r =>
      have hr : r = .ok true → ∃ p, m.IsPending id p := by
        rintro rfl
        exact contend_true (Eq.symm h)
      rcases r with e | (b | b)
      · exact livesOn_same
      · exact livesOn_same
      · exact livesOn_settle _ fun i hi => hi ▸ hr rfl
    | _ => exact h.elim
  | cancelOwner owner => exact livesOn_settle _ fun id hid => hid.2
  | stopTarget target => exact livesOn_settle _ fun id ⟨p, hp, _⟩ => ⟨p, hp⟩
  | retireOwner owner => exact livesOn_forget (fun id hid => hid.1) fun id hid => hid.2

end OperationMap

end Actorplane
