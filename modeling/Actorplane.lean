import Actorplane.Lib.Assoc
import Actorplane.Lib.Runs
import Actorplane.Lib.Slots
import Actorplane.Lib.Bytes
import Actorplane.Lib.Stateful
import Actorplane.Model.Basic
import Actorplane.Model.Operations
import Actorplane.Model.Routing
import Actorplane.Model.Publications
import Actorplane.Model.Deadlines
import Actorplane.Model.Observers
import Actorplane.Model.State
import Actorplane.Model.Lifecycle
import Actorplane.Model.Ingress
import Actorplane.Model.Publishing
import Actorplane.Model.Handles
import Actorplane.Model.Services
import Actorplane.Model.World
import Actorplane.Model.Retention
import Actorplane.Operations.Indexes
import Actorplane.Operations.Batches
import Actorplane.Operations.Map
import Actorplane.Operations.Refinement
import Actorplane.Operations.Retirement
import Actorplane.Operations.Outcome
import Actorplane.Operations.Rollback
import Actorplane.Core.State
import Actorplane.Core.Tree
import Actorplane.Core.Moves
import Actorplane.Core.Ownership
import Actorplane.Core.Operations
import Actorplane.Core.Routes
import Actorplane.Core.Services
import Actorplane.Core.Publications
import Actorplane.Core.Progress
import Actorplane.Core.Order
import Actorplane.Core.Staging
import Actorplane.Core.Draining
import Actorplane.Core.Blockers
import Actorplane.Core.Mail
import Actorplane.Core.Census
import Actorplane.Core.Controls
import Actorplane.Core.Quotas
import Actorplane.Core.Invariant
import Actorplane.Core.Fencing
import Actorplane.Core.Cutoffs
import Actorplane.Core.Finalized
import Actorplane.Core.Waiting
import Actorplane.Locked.Checks
import Actorplane.Locked.Endings
import Actorplane.Locked.Expiry
import Actorplane.Locked.Settling
import Actorplane.Locked.Fencing
import Actorplane.Locked.Stopping
import Actorplane.Locked.Draining
import Actorplane.Locked.Mail
import Actorplane.Locked.Claims
import Actorplane.Locked.Routing
import Actorplane.Locked.Turns
import Actorplane.Locked.Attempts
import Actorplane.Locked.Handles
import Actorplane.Locked.Failures
import Actorplane.Locked.Services
import Actorplane.Locked.World
import Actorplane.Locked.Refusals
import Actorplane.Reach.Runs
import Actorplane.Reach.Ownership
import Actorplane.Reach.Blockers
import Actorplane.Reach.Ledgers
import Actorplane.Reach.Publishing
import Actorplane.Reach.Order
import Actorplane.Reach.Routes
import Actorplane.Reach.Drains
import Actorplane.Reach.Ingress
import Actorplane.Model.Schemas
import Actorplane.Model.Registry
import Actorplane.Model.PythonSchemas
import Actorplane.Model.PythonCodec
import Actorplane.Model.Descriptors
import Actorplane.Schemas.Wire
import Actorplane.Schemas.Reading
import Actorplane.Schemas.Writing
import Actorplane.Schemas.Limits
import Actorplane.Schemas.Codec
import Actorplane.Schemas.Layouts
import Actorplane.Schemas.Registry
import Actorplane.Schemas.Compiled
import Actorplane.Schemas.PythonReading
import Actorplane.Schemas.PythonWriting
import Actorplane.Schemas.Agreement
import Actorplane.Lib.DepthFirst
import Actorplane.Model.PythonComponents
import Actorplane.Components.StartOrder
import Actorplane.Model.Diagnostics
import Actorplane.Reach.Diagnostics
import Actorplane.Lib.Counters
import Actorplane.Model.Buffers
import Actorplane.Native.Budgets
import Actorplane.Model.Framing
import Actorplane.Native.Framing
import Actorplane.Lib.Crew
import Actorplane.Model.Cpu
import Actorplane.Native.Cpu
import Actorplane.Model.WindowCounter
import Actorplane.Native.WindowCounter
import Actorplane.Lib.Descent
import Actorplane.Core.Contexts
import Actorplane.Model.NativeContext
import Actorplane.Locked.Messages
import Actorplane.Reach.Causality
import Actorplane.Reach.Startup
import Actorplane.Reach.Fairness
import Actorplane.Reach.Tables
import Actorplane.Supervision.Roster
import Actorplane.Supervision.Registry
import Actorplane.Supervision.Frames
import Actorplane.Supervision.Fencing
import Actorplane.Supervision.Calls
import Actorplane.Supervision.Failures
import Actorplane.Supervision.Steps
import Actorplane.Supervision.Leases
import Actorplane.Supervision.Notices
import Actorplane.Supervision.Reports
import Actorplane.Lib.Forest
import Actorplane.Model.Shutdown
import Actorplane.Reach.Scopes
import Actorplane.Reach.Roots
import Actorplane.Supervision.Chronicle
import Actorplane.Supervision.Totals
import Actorplane.Reach.Orphans
import Actorplane.Reach.Stops
import Actorplane.Lib.Tally
import Actorplane.Mailboxes.Expiry
import Actorplane.Supervision.Desk
import Actorplane.Mailboxes.Index
import Actorplane.Mailboxes.Mailroom
import Actorplane.Mailboxes.Posting
import Actorplane.Mailboxes.Fences
import Actorplane.Mailboxes.Drains
import Actorplane.Mailboxes.Admission
import Actorplane.Mailboxes.Outputs
import Actorplane.Mailboxes.Steps
import Actorplane.Mailboxes.Maintenance
