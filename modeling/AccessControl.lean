import AccessControl.Action
import AccessControl.Administration
import AccessControl.Authority
import AccessControl.Binary64
import AccessControl.Binary64.Shortest
import AccessControl.Binary64.Text
import AccessControl.Cache.Grants
import AccessControl.Cache.Server
import AccessControl.Cache.Statistics
import AccessControl.Cache.Wire
import AccessControl.Capability
import AccessControl.Capability.Reader
import AccessControl.Concurrent
import AccessControl.Condition
import AccessControl.Condition.Reader
import AccessControl.Counters
import AccessControl.Database
import AccessControl.Decision
import AccessControl.Disk
import AccessControl.Entitlements
import AccessControl.Entitlements.Backlog
import AccessControl.Entitlements.Definition
import AccessControl.Entitlements.Listing
import AccessControl.Entity
import AccessControl.Error
import AccessControl.Faults
import AccessControl.Filter
import AccessControl.Grant.Resolution
import AccessControl.Grant.Snapshot
import AccessControl.Instant
import AccessControl.Json.Printer
import AccessControl.Json.Reader
import AccessControl.Json.Token
import AccessControl.Log.Correlation
import AccessControl.Log.Event
import AccessControl.Misuse
import AccessControl.Once
import AccessControl.Override
import AccessControl.Permission.Rule
import AccessControl.Permission.Text
import AccessControl.Pipe
import AccessControl.Pipe.Turns
import AccessControl.Program
import AccessControl.Program.Carried
import AccessControl.Proofs.Administration.Atomicity
import AccessControl.Proofs.Administration.Integrity
import AccessControl.Proofs.Administration.Isolation
import AccessControl.Proofs.Administration.Operations
import AccessControl.Proofs.Administration.Plans
import AccessControl.Proofs.Administration.Reached
import AccessControl.Proofs.Administration.Revocation
import AccessControl.Proofs.Cache.Entries
import AccessControl.Proofs.Cache.Fading
import AccessControl.Proofs.Cache.Lockstep
import AccessControl.Proofs.Cache.Wire
import AccessControl.Proofs.Decision.Answers
import AccessControl.Proofs.Decision.Composition
import AccessControl.Proofs.Decision.Evaluations
import AccessControl.Proofs.Decision.Failing
import AccessControl.Proofs.Decision.Filtering
import AccessControl.Proofs.Decision.Keeping
import AccessControl.Proofs.Decision.Overrides
import AccessControl.Proofs.Decision.Overriding
import AccessControl.Proofs.Decision.Precedence
import AccessControl.Proofs.Decision.Stages
import AccessControl.Proofs.Entitlements.Registration
import AccessControl.Proofs.Grant.Failing
import AccessControl.Proofs.Grant.Isolation
import AccessControl.Proofs.Grant.Order
import AccessControl.Proofs.Grant.Resolution
import AccessControl.Proofs.Json.RoundTrip
import AccessControl.Proofs.Outcome
import AccessControl.Proofs.Pipe.Agreement
import AccessControl.Proofs.Pipe.Calls
import AccessControl.Proofs.Pipe.Failing
import AccessControl.Proofs.Pipe.Keeping
import AccessControl.Proofs.Pipe.Laws
import AccessControl.Proofs.Pipe.Moves
import AccessControl.Proofs.Pipe.Overriding
import AccessControl.Proofs.Pipe.Pauses
import AccessControl.Proofs.Pipe.Race
import AccessControl.Proofs.Pipe.Racing
import AccessControl.Proofs.Pipe.Sequence
import AccessControl.Proofs.Pipe.Veiling
import AccessControl.Proofs.Pipe.Work
import AccessControl.Proofs.Program.Accesses
import AccessControl.Proofs.Program.Fixed
import AccessControl.Proofs.Program.Interpretation
import AccessControl.Proofs.Program.Mirroring
import AccessControl.Proofs.Program.Outcomes
import AccessControl.Proofs.Program.Pausing
import AccessControl.Proofs.Program.Preserving
import AccessControl.Proofs.Program.Veiled
import AccessControl.Proofs.Service.Failing
import AccessControl.Proofs.Service.Integrity
import AccessControl.Proofs.Service.Lockstep
import AccessControl.Proofs.Service.Protection
import AccessControl.Proofs.Service.Transparency
import AccessControl.Proofs.Store.Agreement
import AccessControl.Proofs.Store.Healthy
import AccessControl.Proofs.Store.Integrity
import AccessControl.Proofs.Store.Reachability
import AccessControl.Proofs.Store.Upkeep
import AccessControl.Proofs.Text.Calendar
import AccessControl.Proofs.Text.Instants
import AccessControl.Proofs.Text.Order
import AccessControl.Request
import AccessControl.Request.Reader
import AccessControl.Sample
import AccessControl.Service
import AccessControl.Settings
import AccessControl.Stateful
import AccessControl.Store.Cascade
import AccessControl.Store.Columns
import AccessControl.Store.Ledger
import AccessControl.Store.Method
import AccessControl.Store.Reader
import AccessControl.Store.Readiness
import AccessControl.Store.Row
import AccessControl.Store.Sql
import AccessControl.Store.Table
import AccessControl.Store.Tables
import AccessControl.Text.Blank
import AccessControl.Text.Decimal
import AccessControl.Text.Digit
import AccessControl.Text.Instant
import AccessControl.Text.Integer
import AccessControl.Text.Lower
import AccessControl.Text.Order
import AccessControl.Text.Printable
import AccessControl.Text.Quoted
import AccessControl.Text.Ranges
import AccessControl.Text.Substring
import AccessControl.Text.Timestamp
import AccessControl.Value
import AccessControl.Value.Access
import AccessControl.Value.Carried
import AccessControl.Value.Identity
import AccessControl.Value.Literal
import AccessControl.Value.Order
import AccessControl.Value.Parts
import AccessControl.Value.Shown
import AccessControl.World
import AccessControl.Proofs.Once.Flight
import AccessControl.Proofs.Entitlements.Flushing
import AccessControl.Proofs.Entitlements.Readiness
import AccessControl.Proofs.Program.Interleaving
import AccessControl.Proofs.Entitlements.Course
import AccessControl.Proofs.Entitlements.Locking
import AccessControl.Proofs.Entitlements.Together
import AccessControl.Proofs.Permission.Parsing
import AccessControl.Proofs.Once.Restarting
import AccessControl.Proofs.Cache.Contents
import AccessControl.Proofs.Program.Heeding
import AccessControl.Proofs.Cache.Shelves
import AccessControl.Proofs.Cache.Sweeping
import AccessControl.Proofs.Grant.Filling
import AccessControl.Proofs.Cache.Overtaking
import AccessControl.Proofs.Permission.Matching
import AccessControl.Proofs.Permission.RoundTrip
import AccessControl.Proofs.Permission.Widening
import AccessControl.Proofs.Entitlements.Validation
import AccessControl.Proofs.Decision.Provided
import AccessControl.Proofs.Grant.Equivalence
import AccessControl.Proofs.Pipe.Provided
import AccessControl.Proofs.Entitlements.Trimming
import AccessControl.Proofs.Grant.Tags
import AccessControl.Proofs.Grant.Creation
import AccessControl.Proofs.Decision.Costs
import AccessControl.Proofs.Program.Counting
import AccessControl.Proofs.Decision.Batches
import AccessControl.Proofs.Decision.Concord
import AccessControl.Proofs.Administration.Provided
import AccessControl.Proofs.Decision.Unions
import AccessControl.Proofs.Administration.Cascades
import AccessControl.Proofs.Decision.Growth
import AccessControl.Proofs.Administration.Growth
import AccessControl.Proofs.Service.Growth
import AccessControl.Proofs.Administration.Slots
import AccessControl.Proofs.Administration.Contention
import AccessControl.Proofs.Text.Quoting
import AccessControl.Proofs.Entitlements.Listing
import AccessControl.Proofs.Service.Exposure
import AccessControl.Proofs.Entitlements.Publishing
import AccessControl.Proofs.Entitlements.Following
import AccessControl.Proofs.Administration.Searching
import AccessControl.Proofs.Store.Announcing
import AccessControl.Proofs.Cache.Shapes
import AccessControl.Proofs.Cache.Tallying
import AccessControl.Proofs.Entitlements.Settling
import AccessControl.Proofs.Store.Patterns
import AccessControl.Proofs.Log.Nesting
