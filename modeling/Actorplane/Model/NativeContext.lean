import Actorplane.Model.Handles
import Actorplane.Model.WindowCounter

/-!
# The effect context of a native hook

A hook publishes and sends through its context, which merges the metadata of the
delivery at hand into the options it is given before the World does. What a
hook may do depends on its phase.
-/

namespace Actorplane

inductive NativePhase
  | startup | event | tick | supervisor | quiesce | drain | stop
  deriving DecidableEq, Repr

/-- `remaining` is what is left of the effects of one callback, `attempted` the statistic. -/
structure NativeContext where
  owner : ActorRef
  phase : NativePhase
  delivery : Option DeliveryLease
  remaining : ℕ
  attempted : ℕ
  deriving DecidableEq, Repr

/-- A call into the World, with its error as a native one. -/
def native {α : Type} (result : Except Error α) : Except NativeError α :=
  match result with
  | .error e => .error (.core e)
  | .ok a => .ok a

namespace World

variable (w : World)

/-- `World::port` -/
def portNamed (owner : ActorRef) (name : String) (st : State) : Except Error PortRef := do
  let a ← w.checkRef owner st
  match a.component with
  | none => throw .invalidPort
  | some component =>
    match component.ports.findIdx? fun port => port.name = name with
    | none => throw .invalidPort
    | some index => return ⟨owner, index⟩

end World

namespace NativeContext

variable (ctx : NativeContext)

def envelope : Option Envelope := ctx.delivery.map (·.delivery.envelope)

def effect : NativeResult × NativeContext :=
  let ctx := { ctx with attempted := History.saturatingSucc ctx.attempted }
  if ctx.phase = .stop then (.error (.core .actorStopped), ctx)
  else if ctx.remaining = 0 then (.error (.limit "callback effects"), ctx)
  else (.ok (), { ctx with remaining := ctx.remaining - 1 })

/-- What is inherited from the delivery at hand, overridden by the options. -/
def options (o : MessageOptions) : Except NativeError MessageOptions := do
  native o.validate
  if o.source.any fun source => source ≠ ctx.owner then throw (.core .invalidMetadata)
  let inherited : MessageOptions :=
    match ctx.envelope with
    | none => {}
    | some envelope => envelope.childOptions ctx.owner
  return {
    source := some ctx.owner
    deadline := earlierDeadline inherited.deadline o.deadline
    correlationId := o.correlationId.or inherited.correlationId
    causationId := o.causationId.or inherited.causationId
    trace := o.trace.or inherited.trace }

def newWork (w : World) (st : State) : NativeResult := do
  if ctx.phase ≠ .startup ∧ ctx.phase ≠ .event ∧ ctx.phase ≠ .tick ∧ ctx.phase ≠ .supervisor then
    throw (.core .actorStopped)
  let state ← native (w.executionStateLocked ctx.owner st)
  if state ≠ .starting ∧ state ≠ .active then throw (.core .actorStopped)

/-- The publication `emit_with` makes once it has its port and its options. -/
def publish (w : World) (output : PortRef) (payload : Payload) (o : MessageOptions) (st : State) :
    Except Error ℕ × State :=
  match ctx.delivery with
  | some lease => w.deliveryPublish lease output payload o st
  | none =>
    if ctx.phase = .tick ∨ ctx.phase = .drain ∨ ctx.phase = .quiesce then
      w.taskPublish ctx.owner output.owner (some output.index) payload o st
    else w.publishPortWith output payload o st

def emitWith (w : World) (port : String) (payload : Payload) (o : MessageOptions) (st : State) :
    Except NativeError ℕ × NativeContext × State :=
  match ctx.effect with
  | (.error e, ctx) => (.error e, ctx, st)
  | (.ok _, ctx) =>
    match w.portNamed ctx.owner port st with
    | .error e => (.error (.core e), ctx, st)
    | .ok output =>
      match ctx.options o with
      | .error e => (.error e, ctx, st)
      | .ok merged =>
        let (result, st) := ctx.publish w output payload merged st
        (native result, ctx, st)

def send (w : World) (target : ActorRef) (payload : Payload) (o : MessageOptions) (st : State) :
    Except NativeError ℕ × NativeContext × State :=
  match ctx.effect with
  | (.error e, ctx) => (.error e, ctx, st)
  | (.ok _, ctx) =>
    match ctx.newWork w st with
    | .error e => (.error e, ctx, st)
    | .ok _ =>
      match ctx.options o with
      | .error e => (.error e, ctx, st)
      | .ok merged =>
        let (result, st) := w.sendWith target payload merged st
        (native result, ctx, st)

end NativeContext

end Actorplane
