import FileGuard.Audit.Delivery
import FileGuard.Audit.Failures
import FileGuard.Audit.Following
import FileGuard.Audit.Log
import FileGuard.Audit.Rotation
import FileGuard.Audit.Scanning
import FileGuard.Control.Api
import FileGuard.Control.AtMostOnce
import FileGuard.Control.Commands
import FileGuard.Control.Index
import FileGuard.Control.Wire
import FileGuard.CrashLogic.Cut
import FileGuard.CrashLogic.Directory
import FileGuard.CrashLogic.Prog
import FileGuard.CrashLogic.Run
import FileGuard.CrashLogic.Within
import FileGuard.Files.Complete
import FileGuard.Files.Construction
import FileGuard.Files.Drafting
import FileGuard.Files.Faults
import FileGuard.Files.Intact
import FileGuard.Files.Publishing
import FileGuard.Files.SecureFile
import FileGuard.Files.Settled
import FileGuard.Files.World
import FileGuard.Framing.Bounded
import FileGuard.Framing.Messages
import FileGuard.Framing.Records
import FileGuard.Framing.Words
import FileGuard.Fuse.Authorized
import FileGuard.Fuse.Fence
import FileGuard.Fuse.Handlers
import FileGuard.Fuse.Interceptor
import FileGuard.Fuse.Linearizable
import FileGuard.Fuse.Race
import FileGuard.Fuse.Service
import FileGuard.Fuse.Shared
import FileGuard.Fuse.Steps
import FileGuard.Fuse.Stopping
import FileGuard.Fuse.Survival
import FileGuard.Mounts.Control
import FileGuard.Mounts.Kernel
import FileGuard.Mounts.Mountinfo
import FileGuard.Policy.Agreement
import FileGuard.Policy.Atomic
import FileGuard.Policy.Engine
import FileGuard.Policy.Evaluate
import FileGuard.Policy.Justified
import FileGuard.Policy.Persist
import FileGuard.Policy.Prepare
import FileGuard.Policy.Rule
import FileGuard.Policy.RuleEntry
import FileGuard.Policy.RuleManager
import FileGuard.Policy.Spelling
import FileGuard.Policy.Transfer
import FileGuard.Process.Capture
import FileGuard.Process.HashCache
import FileGuard.Process.Script
import FileGuard.Prompt.Protocol
import FileGuard.Prompt.RateLimiter
import FileGuard.Prompt.Server
import FileGuard.Recovery.Blocking
import FileGuard.Recovery.Bounded
import FileGuard.Recovery.Carrying
import FileGuard.Recovery.Cleanup
import FileGuard.Recovery.Commits
import FileGuard.Recovery.Completion
import FileGuard.Recovery.CreateFile
import FileGuard.Recovery.Finalize
import FileGuard.Recovery.Fitting
import FileGuard.Recovery.Growth
import FileGuard.Recovery.Inert
import FileGuard.Recovery.Install
import FileGuard.Recovery.Layout
import FileGuard.Recovery.Mounting
import FileGuard.Recovery.Names
import FileGuard.Recovery.Offline
import FileGuard.Recovery.Operations
import FileGuard.Recovery.Outgrown
import FileGuard.Recovery.Reading
import FileGuard.Recovery.Restore
import FileGuard.Recovery.Runs
import FileGuard.Recovery.Serving
import FileGuard.Recovery.Staging
import FileGuard.Recovery.View
import FileGuard.Recovery.Writing
import FileGuard.Store.Bindings
import FileGuard.Store.Debug
import FileGuard.Store.Definite
import FileGuard.Store.EntryModel
import FileGuard.Store.Hex
import FileGuard.Store.History
import FileGuard.Store.Json
import FileGuard.Store.Keys
import FileGuard.Store.Ledger
import FileGuard.Store.Lengths
import FileGuard.Store.Path
import FileGuard.Store.Record
import FileGuard.Store.Reopen
import FileGuard.Store.Sha256
import FileGuard.Store.Sqlite
import FileGuard.Store.Trusted
import FileGuard.Store.Validation
import FileGuard.Transaction.Manager
import FileGuard.Transaction.StoreSteps
import FileGuard.Windows.Sliding
