import GaiaServer.Framework.CausalOrder
import GaiaServer.Framework.Dict
import GaiaServer.Framework.IntLiteral
import GaiaServer.Framework.Interference
import GaiaServer.Framework.Json
import GaiaServer.Framework.JsonLines
import GaiaServer.Framework.JsonParse
import GaiaServer.Framework.JsonRoundTrip
import GaiaServer.Framework.JsonStable
import GaiaServer.Framework.JsonTree
import GaiaServer.Framework.Linearize
import GaiaServer.Framework.Loop
import GaiaServer.Framework.Machine
import GaiaServer.Framework.Merge
import GaiaServer.Framework.Monitor
import GaiaServer.Framework.Paging
import GaiaServer.Framework.Pool
import GaiaServer.Framework.Prog
import GaiaServer.Framework.RelyGuarantee
import GaiaServer.Framework.Resume
import GaiaServer.Framework.Serial
import GaiaServer.Framework.Service
import GaiaServer.Framework.Slice
import GaiaServer.Framework.Subject
import GaiaServer.Framework.Text
import GaiaServer.Framework.Thread
import GaiaServer.Framework.Trace
import GaiaServer.Impl.Entrypoint
import GaiaServer.Impl.Exceptions
import GaiaServer.Impl.Gather
import GaiaServer.Impl.Health
import GaiaServer.Impl.Inference.Router
import GaiaServer.Impl.Ipc.CausalBroadcast
import GaiaServer.Impl.Ipc.Group
import GaiaServer.Impl.Ipc.GrpcServer
import GaiaServer.Impl.Ipc.Handlers
import GaiaServer.Impl.Ipc.Methods
import GaiaServer.Impl.Ipc.Reentry
import GaiaServer.Impl.Ipc.ThreadedGroup
import GaiaServer.Impl.Logging
import GaiaServer.Impl.Observability.Collector
import GaiaServer.Impl.Observability.Telemetry
import GaiaServer.Impl.Planetary.StateHub
import GaiaServer.Impl.Restore.Orchestrator
import GaiaServer.Impl.Sandbox.GuestSandbox
import GaiaServer.Impl.Security.ArtifactSigner
import GaiaServer.Impl.Storage.Exists
import GaiaServer.Impl.Storage.Processes
import GaiaServer.Impl.Storage.Stores
import GaiaServer.Impl.Storage.World
import GaiaServer.Impl.Tenancy.Methods
import GaiaServer.Impl.Tenancy.TenantRegistry
import GaiaServer.Spec.Planetary.Sections
import GaiaServer.Spec.Restore.Admissible
import GaiaServer.Spec.Restore.Readable
import GaiaServer.Spec.Storage.Checkpoints
import GaiaServer.Spec.Storage.EventLog
import GaiaServer.Spec.Storage.Metadata
import GaiaServer.Proof.Gather
import GaiaServer.Proof.Inference.Resolution
import GaiaServer.Proof.Inference.Responses
import GaiaServer.Proof.Ipc.Arrival
import GaiaServer.Proof.Ipc.Calls
import GaiaServer.Proof.Ipc.Clocks
import GaiaServer.Proof.Ipc.Convergence
import GaiaServer.Proof.Ipc.Delivery
import GaiaServer.Proof.Ipc.Dependencies
import GaiaServer.Proof.Ipc.Drain
import GaiaServer.Proof.Ipc.Escapes
import GaiaServer.Proof.Ipc.HappensBefore
import GaiaServer.Proof.Ipc.Health
import GaiaServer.Proof.Ipc.HoldQueue
import GaiaServer.Proof.Ipc.Invariant
import GaiaServer.Proof.Ipc.Mixed
import GaiaServer.Proof.Ipc.Passes
import GaiaServer.Proof.Ipc.SelfDeadlock
import GaiaServer.Proof.Ipc.Subscribers
import GaiaServer.Proof.Ipc.ThreadedGroup
import GaiaServer.Proof.Logging
import GaiaServer.Proof.Observability.Collector
import GaiaServer.Proof.Observability.Stopping
import GaiaServer.Proof.Observability.Windows
import GaiaServer.Proof.Planetary.FleetView
import GaiaServer.Proof.Planetary.Latest
import GaiaServer.Proof.Planetary.Partial
import GaiaServer.Proof.Planetary.Rejected
import GaiaServer.Proof.Planetary.Summary
import GaiaServer.Proof.Restore.Atomic
import GaiaServer.Proof.Restore.Contained
import GaiaServer.Proof.Restore.Cursor
import GaiaServer.Proof.Restore.Integrity
import GaiaServer.Proof.Restore.Manifests
import GaiaServer.Proof.Restore.Replay
import GaiaServer.Proof.Restore.Restarted
import GaiaServer.Proof.Restore.Serial
import GaiaServer.Proof.Restore.SplitBrain
import GaiaServer.Proof.Restore.Steps
import GaiaServer.Proof.Restore.Stored
import GaiaServer.Proof.Restore.Traffic
import GaiaServer.Proof.Restore.Trust
import GaiaServer.Proof.Sandbox.Gate
import GaiaServer.Proof.Sandbox.Guests
import GaiaServer.Proof.Sandbox.Methods
import GaiaServer.Proof.Sandbox.Rollback
import GaiaServer.Proof.Security.KeyAgreement
import GaiaServer.Proof.Security.Replays
import GaiaServer.Proof.Security.Signatures
import GaiaServer.Proof.Security.Transport
import GaiaServer.Proof.Startup
import GaiaServer.Proof.Storage.Bootstrap
import GaiaServer.Proof.Storage.Canonical
import GaiaServer.Proof.Storage.CheckpointMap
import GaiaServer.Proof.Storage.Checkpoints
import GaiaServer.Proof.Storage.Events
import GaiaServer.Proof.Storage.Exists
import GaiaServer.Proof.Storage.Frame
import GaiaServer.Proof.Storage.Growth
import GaiaServer.Proof.Storage.Isolation
import GaiaServer.Proof.Storage.Linear
import GaiaServer.Proof.Storage.Pages
import GaiaServer.Proof.Storage.Scan
import GaiaServer.Proof.Storage.Subjects
import GaiaServer.Proof.Storage.Writes
import GaiaServer.Proof.Tenancy.Concurrent
import GaiaServer.Proof.Tenancy.Registration
import GaiaServer.Proof.Tenancy.Registry
