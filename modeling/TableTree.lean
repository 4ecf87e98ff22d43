import TableTree.Ancestors
import TableTree.Backoff
import TableTree.Binding
import TableTree.BulkWrite
import TableTree.Client
import TableTree.Entry.Basic
import TableTree.Entry.Item
import TableTree.Failure
import TableTree.Host
import TableTree.Item
import TableTree.Main
import TableTree.Marker
import TableTree.Number.Binary64
import TableTree.Number.Decimal
import TableTree.Number.Real
import TableTree.Operation
import TableTree.Path.Basic
import TableTree.Path.Key
import TableTree.Path.Text
import TableTree.Program
import TableTree.Proofs.AncestorsLive
import TableTree.Proofs.Attempts
import TableTree.Proofs.Batches
import TableTree.Proofs.Binding
import TableTree.Proofs.BindingOutcome
import TableTree.Proofs.BoundedWork
import TableTree.Proofs.Buckets.Confined
import TableTree.Proofs.Buckets.Isolation
import TableTree.Proofs.Buckets.Requests
import TableTree.Proofs.Buckets.Uses
import TableTree.Proofs.Budget
import TableTree.Proofs.Calls
import TableTree.Proofs.Commit
import TableTree.Proofs.CompletedChanges
import TableTree.Proofs.Composed
import TableTree.Proofs.Consistency
import TableTree.Proofs.Counters
import TableTree.Proofs.Creation
import TableTree.Proofs.Deeds
import TableTree.Proofs.Delivery
import TableTree.Proofs.Destruction
import TableTree.Proofs.DistinctWrites
import TableTree.Proofs.Doubling
import TableTree.Proofs.EmptinessHint
import TableTree.Proofs.Entry.Codec
import TableTree.Proofs.Exchanges
import TableTree.Proofs.Exhaustion
import TableTree.Proofs.Granted
import TableTree.Proofs.Indifference
import TableTree.Proofs.Interleaving.Amid
import TableTree.Proofs.Interleaving.Creators
import TableTree.Proofs.Interleaving.Crew
import TableTree.Proofs.Interleaving.Deleters
import TableTree.Proofs.Interleaving.Discipline
import TableTree.Proofs.Interleaving.Walk
import TableTree.Proofs.LateMarker
import TableTree.Proofs.Life
import TableTree.Proofs.MarkerRace
import TableTree.Proofs.OneByOne
import TableTree.Proofs.OneTable
import TableTree.Proofs.Outcome
import TableTree.Proofs.Path.Aliases
import TableTree.Proofs.Path.Ancestors
import TableTree.Proofs.Path.Codec
import TableTree.Proofs.Path.Grammar
import TableTree.Proofs.Path.Under
import TableTree.Proofs.Pruning
import TableTree.Proofs.PutEffect
import TableTree.Proofs.Readings
import TableTree.Proofs.Rebinding
import TableTree.Proofs.Repetition
import TableTree.Proofs.Representation
import TableTree.Proofs.Retry
import TableTree.Proofs.RetryCourse
import TableTree.Proofs.Runs
import TableTree.Proofs.Shutdown.Pauses
import TableTree.Proofs.Shutdown.Store
import TableTree.Proofs.Steady
import TableTree.Proofs.Subtree
import TableTree.Proofs.SubtreeEffect
import TableTree.Proofs.Text.Bytes
import TableTree.Proofs.Throttling
import TableTree.Proofs.Tree.AncestorsFirst
import TableTree.Proofs.Tree.Completion
import TableTree.Proofs.Tree.KeepLast
import TableTree.Proofs.Tree.KeptOrder
import TableTree.Proofs.Tree.Kinds
import TableTree.Proofs.Tree.Missing
import TableTree.Proofs.Tree.Tombstones
import TableTree.Proofs.Tree.WithAncestors
import TableTree.Proofs.Undisturbed.Client
import TableTree.Proofs.Undisturbed.Operation
import TableTree.Proofs.Undisturbed.Service
import TableTree.Proofs.Undisturbed.Store
import TableTree.Proofs.Unread
import TableTree.Proofs.VersionGate
import TableTree.Proofs.Walk.Collect
import TableTree.Proofs.Walk.Interrupted
import TableTree.Proofs.Walk.Order
import TableTree.Proofs.Walk.Queue
import TableTree.Proofs.Walk.Reach
import TableTree.Proofs.Walk.Snapshot
import TableTree.Proofs.Walk.Traversal
import TableTree.Proofs.WholeRequests
import TableTree.Service.Answer
import TableTree.Service.Control
import TableTree.Service.Script
import TableTree.Service.State
import TableTree.Session
import TableTree.Settings.Basic
import TableTree.Settings.Document
import TableTree.Settings.Fields
import TableTree.Store.Admin
import TableTree.Store.Basic
import TableTree.Store.Read
import TableTree.Store.Write
import TableTree.Table
import TableTree.Text.Blank
import TableTree.Text.Fields
import TableTree.Text.Integer
import TableTree.Text.Quoted
import TableTree.Text.Reader
import TableTree.Text.Unprintable
import TableTree.Time.Duration
import TableTree.Time.Seconds
import TableTree.Toml.Blank
import TableTree.Toml.Document
import TableTree.Toml.Moment
import TableTree.Toml.Number
import TableTree.Toml.Text
import TableTree.Toml.Value
import TableTree.Walk
import TableTree.Walkthrough
