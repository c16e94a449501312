import Actorplane.Locked.Refusals
import Actorplane.Reach.Runs

/-!
# Rejected ingress

A call that brings something into the World and returns an error leaves no trace:
only marks, ingress metrics, one diagnostic and identities have been spent.
-/

namespace Actorplane

/-- The calls that bring something into the World. -/
def Action.ingress : Action → Bool
  | .send .. | .sendPort .. | .sendHeld .. | .sendHeldFrom .. | .request .. | .serviceRequest ..
  | .resumeRequest .. | .publish .. | .publishPort .. | .deliveryPublish .. | .taskPublish ..
  | .subscribe .. | .link .. | .allocate .. | .acquireService .. | .acquireServiceFrom ..
  | .registerComponent .. | .registerService .. | .trackTask .. | .reportFailure .. => true
  | _ => false

/-- The call returned an error. -/
def Outcome.isError : Outcome → Bool
  | .unit (.error _) | .actor (.error _) | .number (.error _) | .flag (.error _) | .ports (.error _)
  | .held (.error _) | .operation (.error _) | .terminal (.error _) | .delivery (.error _)
  | .failureRecord (.error _) | .failure (.error _) | .service (.error _) => true
  | .poll (some (.error _)) => true
  | _ => false

namespace World

variable {w : World} {st st' : State}

/-- The error of a call is the error of its outcome. -/
theorem refused_returning {α : Type} {wrap : Except Error α → Outcome}
    {call : Except Error α × State} (wraps : ∀ a, (wrap (.ok a)).isError = false)
    (h : Refuses st call) (he : (returning wrap call).1.isError = true) :
    Refused st (returning wrap call).2 := by
  obtain ⟨answer, st'⟩ := call
  cases answer with
  | error e => exact h e rfl
  | ok a =>
    have answered : (wrap (.ok a)).isError = true := he
    rw [wraps a] at answered
    cases answered

theorem refused_outstanding {α : Type} [DecidableEq α] {leases : List α} {lease : α}
    {act : Outcome × State} (h : act.1.isError = true → Refused st act.2)
    (he : (outstanding leases lease act st).1.isError = true) :
    Refused st (outstanding leases lease act st).2 := by
  unfold outstanding at he ⊢
  split_ifs at he ⊢
  · exact h he
  · cases he

theorem step_refused (hv : st.core.Valid w.id) {action : Action} (hi : action.ingress = true)
    (he : (w.step action st).1.isError = true) : Refused st (w.step action st).2 := by
  cases action with
  | allocate kind parent => exact refused_returning (fun _ => rfl) (allocate_refuses kind parent) he
  | registerComponent owner d =>
    exact refused_returning (fun _ => rfl) (registerComponent_refuses owner d) he
  | subscribe source target =>
    exact refused_returning (fun _ => rfl) (subscribe_refuses source target) he
  | link owner source target =>
    exact refused_returning (fun _ => rfl) (link_refuses owner source target) he
  | send r p o => exact refused_returning (fun _ => rfl) (sendWith_refuses p o) he
  | sendPort port p o => exact refused_returning (fun _ => rfl) (sendPortWith_refuses port p o) he
  | sendHeld r held => exact refused_returning (fun _ => rfl) (sendHeld_refuses held) he
  | sendHeldFrom owner r held =>
    exact refused_returning (fun _ => rfl) (sendHeldFrom_refuses owner held) he
  | request owner r p deadline o =>
    exact refused_returning (fun _ => rfl) (requestWithPort_refuses hv (.refl st) _ _ _ _ _ _) he
  | serviceRequest lease port p deadline o =>
    exact refused_returning (fun _ => rfl) (serviceRequest_refuses lease port p deadline o) he
  | resumeRequest call =>
    exact refused_outstanding
      (fun he => refused_returning (fun _ => rfl) (resumeRequest_refuses hv call) he) he
  | publish source p o =>
    exact refused_returning (fun _ => rfl) (publishInternal_refuses hv _ _ _ _ _) he
  | publishPort source p o =>
    exact refused_returning (fun _ => rfl) (publishInternal_refuses hv _ _ _ _ _) he
  | deliveryPublish lease source p o =>
    exact refused_outstanding
      (fun he => refused_returning (fun _ => rfl) (deliveryPublish_refuses hv lease source p o) he) he
  | taskPublish owner source port p o =>
    exact refused_outstanding
      (fun he => refused_returning (fun _ => rfl) (publishInternal_refuses hv _ _ _ _ _) he) he
  | trackTask r => exact refused_returning (fun _ => rfl) trackTask_refuses he
  | reportFailure r event schema op phase failure =>
    exact refused_returning (fun _ => rfl) (reportFailure_refuses hv event schema op phase failure) he
  | registerService name target required =>
    exact refused_returning (fun _ => rfl) (registerService_refuses name target required) he
  | acquireService owner name required =>
    exact refused_returning (fun _ => rfl)
      (acquireServiceLockedTarget_refuses owner name required none) he
  | acquireServiceFrom owner name required expected =>
    exact refused_returning (fun _ => rfl)
      (acquireServiceFrom_refuses owner name required expected) he
  | _ => cases hi

/-! ## Payloads -/

theorem holdings_refused (h : Refused st st') (callers : List HeldPayload) :
    (w.holdings callers st').toFinset = (w.holdings callers st).toFinset := by
  ext s
  simp only [holdings, List.mem_toFinset, List.mem_append, h.payloads s]

/-- A caller that gives a payload away may have been its last holder. -/
theorem retainedBytes_erase {callers : List HeldPayload} {held : HeldPayload}
    (hm : held ∈ callers) : w.retainedBytes (callers.erase held) st +
      (if held.world = w.id ∧ held.stored ∉ w.holdings (callers.erase held) st
        then held.stored.bytes else 0) = w.retainedBytes callers st := by
  have perm := List.perm_cons_erase hm
  have listed : (w.holdings callers st).toFinset =
      (w.holdings (held :: callers.erase held) st).toFinset := by
    apply List.toFinset_eq_of_perm
    exact List.Perm.append_left _ ((perm.filter _).map _)
  unfold retainedBytes
  rw [listed]
  by_cases own : held.world = w.id
  · have joined : (w.holdings (held :: callers.erase held) st).toFinset =
        insert held.stored (w.holdings (callers.erase held) st).toFinset := by
      ext s
      simp only [holdings, own, List.filter_cons, decide_true, if_true, List.map_cons,
        List.mem_toFinset, List.mem_append, List.mem_cons, Finset.mem_insert]
      tauto
    rw [joined]
    by_cases last : held.stored ∈ w.holdings (callers.erase held) st
    · rw [if_neg fun h => h.2 last, Finset.insert_eq_of_mem (List.mem_toFinset.mpr last),
        Nat.add_zero]
    · have missing : held.stored ∉ (w.holdings (callers.erase held) st).toFinset := fun mem =>
        last (List.mem_toFinset.mp mem)
      rw [if_pos ⟨own, last⟩, Finset.sum_insert missing, Nat.add_comm]
  · have same : w.holdings (held :: callers.erase held) st =
        w.holdings (callers.erase held) st := by
      simp [holdings, own]
    rw [same, if_neg fun h => own h.1, Nat.add_zero]

/-- Rejected ingress leaves no trace, whatever happened before it. The bytes retained are those
retained before, except for a payload that moved into the call: it is freed unless the World or
another caller holds it. -/
theorem rejected_ingress (w : World) (actions : List Action) (action : Action)
    (hi : action.ingress = true)
    (he : (w.step action (w.exec w.init actions)).1.isError = true) :
    let st := w.exec w.init actions
    let st' := (w.step action st).2
    Refused st st' ∧ (∀ s, s ∈ st'.payloads ↔ s ∈ st.payloads) ∧
      (∀ callers, w.retainedBytes callers st' = w.retainedBytes callers st) ∧
      ∀ callers held, action.gives = some held → held ∈ callers →
        w.retainedBytes (callers.erase held) st' +
          (if held.world = w.id ∧ held.stored ∉ w.holdings (callers.erase held) st
            then held.stored.bytes else 0) = w.retainedBytes callers st := by
  intro st st'
  have refused : Refused st st' := step_refused (rests actions).valid hi he
  have bytes : ∀ callers, w.retainedBytes callers st' = w.retainedBytes callers st := by
    intro callers
    unfold retainedBytes
    rw [holdings_refused refused]
  refine ⟨refused, refused.payloads, bytes, ?_⟩
  intro callers held _ hm
  rw [bytes]
  exact retainedBytes_erase hm

/-- A second request finds the mailbox full, after its operation and its payload were reserved. -/
theorem rejected_second_request :
    let w : World := ⟨1, { mailboxCapacity := 1 }, by decide, fun _ => 0, fun _ => 0⟩
    let request : Action := .request ⟨1, 0, 1⟩ ⟨1, 1, 1⟩ (.pulse 1) 100 {}
    let st := w.exec w.init [.allocate .native none, .activate ⟨1, 0, 1⟩, .allocate .native none,
      .activate ⟨1, 1, 1⟩, request]
    let st' := (w.step request st).2
    Refused st st' ∧ (∀ s, s ∈ st'.payloads ↔ s ∈ st.payloads) ∧
      (∀ callers, w.retainedBytes callers st' = w.retainedBytes callers st) ∧
      ∀ callers held, request.gives = some held → held ∈ callers →
        w.retainedBytes (callers.erase held) st' +
          (if held.world = w.id ∧ held.stored ∉ w.holdings (callers.erase held) st
            then held.stored.bytes else 0) = w.retainedBytes callers st :=
  rejected_ingress ⟨1, { mailboxCapacity := 1 }, by decide, fun _ => 0, fun _ => 0⟩
    [.allocate .native none, .activate ⟨1, 0, 1⟩, .allocate .native none, .activate ⟨1, 1, 1⟩,
      .request ⟨1, 0, 1⟩ ⟨1, 1, 1⟩ (.pulse 1) 100 {}]
    (.request ⟨1, 0, 1⟩ ⟨1, 1, 1⟩ (.pulse 1) 100 {}) rfl (by decide)

/-- The payloads that calls have handed out. -/
def Outcome.held? : Outcome → Option HeldPayload
  | .held (.ok held) => some held
  | _ => none

/-- A refused `send_held` frees the payload of the only caller that held it. -/
theorem refused_held_released : ¬∀ (w : World) (actions : List Action) (action : Action),
    action.ingress = true → (w.step action (w.exec w.init actions)).1.isError = true →
      ∀ callers held, action.gives = some held → held ∈ callers →
        callers ⊆ (w.outcomes w.init actions).filterMap Outcome.held? →
          w.retainedBytes (callers.erase held) (w.step action (w.exec w.init actions)).2 =
            w.retainedBytes callers (w.exec w.init actions) := by
  intro h
  have same := h ⟨1, {}, by decide, fun _ => 0, fun _ => 0⟩ [.hold (.pulse 1) {}]
    (.sendHeld ⟨1, 0, 1⟩ ⟨⟨1, .pulse 1, {}, none, 8⟩, 1, none⟩) rfl (by decide)
    [⟨⟨1, .pulse 1, {}, none, 8⟩, 1, none⟩] ⟨⟨1, .pulse 1, {}, none, 8⟩, 1, none⟩ rfl
    (by simp) (by decide)
  exact absurd same (by decide)

end World

end Actorplane
