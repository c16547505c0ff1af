import Substrate.Library.FiniteMap
import Substrate.Library.Sha2
import Substrate.Kernel.Wire
import Substrate.Library.Framing
import Substrate.Library.Topological
import Substrate.Library.Transition
import Substrate.Kernel.Registry
import Substrate.Kernel.Store
import Substrate.Kernel.Assembly
import Substrate.Kernel.Schedule
import Substrate.Kernel.Runs
import Substrate.Kernel.Work
import Substrate.Kernel.Api
import Substrate.Library.Proto3
import Substrate.Kernel.Codec
import Substrate.Kernel.Concrete
import Substrate.Protocol.Validation
import Substrate.Protocol.Atoms
import Substrate.Protocol.Slots
import Substrate.Protocol.Identity
import Substrate.Protocol.Chain
import Substrate.Protocol.Deadlines
import Substrate.Protocol.Delivery
import Substrate.Protocol.Serial
import Substrate.Protocol.Refine
import Substrate.Protocol.Exclusive
import Substrate.Protocol.Content
import Substrate.Protocol.Frozen
import Substrate.Protocol.Typing
import Substrate.Protocol.Lease
import Substrate.Protocol.Replay
import Substrate.Protocol.Steady
import Substrate.Protocol.Single
import Substrate.Protocol.Converge
import Substrate.Protocol.Confluence
import Substrate.Protocol.Stream
import Substrate.Protocol.Closed
import Substrate.Protocol.Accounting
import Substrate.Protocol.Stalling
import Substrate.Protocol.Idempotency
import Substrate.Protocol.Contracts
import Substrate.Protocol.Plugged
import Substrate.Protocol.Provenance
import Substrate.Protocol.Integrity
import Substrate.Protocol.Isolation
import Substrate.Protocol.Events
import Substrate.Protocol.Lifecycles
import Substrate.Library.ExchangeSort
import Substrate.Kernel.Sdks
import Substrate.Kernel.Go
import Substrate.Kernel.Python
import Substrate.Kernel.Marshal
import Substrate.Protocol.Failures
import Substrate.Protocol.Fingerprints
import Substrate.Protocol.Mirrors
import Substrate.Protocol.Reaping
import Substrate.Protocol.Details
import Substrate.Protocol.Heartbeats
import Substrate.Protocol.Verdicts
import Substrate.Protocol.Validators
import Substrate.Protocol.Injections
import Substrate.Protocol.Readiness
import Substrate.Protocol.Reports
import Substrate.Library.Resumption
import Substrate.Framework.Steps
import Substrate.Framework.Storage
import Substrate.Framework.Memo
import Substrate.Framework.Policy
import Substrate.Library.Worklist
import Substrate.Framework.Cut
import Substrate.Framework.Calls
import Substrate.Framework.Drive
import Substrate.Framework.Pipeline
import Substrate.Framework.InProcess
import Substrate.Protocol.Orphans
import Substrate.Protocol.Waves
import Substrate.Protocol.Claiming
import Substrate.Protocol.WorkIds
import Substrate.Library.Joining
import Substrate.Library.Upsert
import Substrate.Framework.Sessions
import Substrate.Protocol.Asking
import Substrate.Protocol.Tables
import Substrate.Protocol.Starting
import Substrate.Protocol.Draining
import Substrate.Protocol.Retention
import Substrate.Protocol.Acceptance
import Substrate.Protocol.Firings
import Substrate.Protocol.Cuts
import Substrate.Protocol.Loading
import Substrate.Protocol.Units
import Substrate.Protocol.Keys
import Substrate.Protocol.Generations
import Substrate.Protocol.AllowList
import Substrate.Protocol.Capacity
import Substrate.Protocol.Attempts
import Substrate.Protocol.Rows
import Substrate.Protocol.Owners
import Substrate.Protocol.Seeds
import Substrate.Protocol.Commits
import Substrate.Protocol.Contexts
import Substrate.Protocol.Memos
import Substrate.Protocol.Reseeds
import Substrate.Library.Dataflow
import Substrate.Protocol.Meaning
import Substrate.Protocol.Rewired
import Substrate.Protocol.Drives
import Substrate.Protocol.Parity
import Substrate.Protocol.Ported
import Substrate.Protocol.Stacks
