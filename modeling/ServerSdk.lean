import ServerSdk.Evaluate.Coherence
import ServerSdk.Evaluate.Locality
import ServerSdk.Evaluate.Prerequisites
import ServerSdk.Evaluate.Safety
import ServerSdk.Program.VersionedMap
import ServerSdk.Store.Memory
import ServerSdk.Store.Refinement
import ServerSdk.Store.Versioned
import ServerSdk.Events.Processor
import ServerSdk.Events.Recording
import ServerSdk.Variations.Variation
import ServerSdk.Evaluate.Lookups
import ServerSdk.Variations.Reporting
import ServerSdk.Evaluate.Failures
import ServerSdk.Variations.AllFlags
import ServerSdk.Evaluate.Attempts
import ServerSdk.Variations.Outcome
import ServerSdk.Variations.Agreement
import ServerSdk.Variations.Analytics
import ServerSdk.Store.Cache
import ServerSdk.Store.Collections
import ServerSdk.Store.Wrapper
import ServerSdk.Store.Sections
import ServerSdk.Store.Calls
import ServerSdk.Store.UniqueKeys
import ServerSdk.Store.Listing
import ServerSdk.Store.Failures
import ServerSdk.Store.Initialized
import ServerSdk.Store.Backend
import ServerSdk.Store.Synced
import ServerSdk.Store.Listed
import ServerSdk.Program.Interleaving
import ServerSdk.Store.Interleaving
import ServerSdk.Store.CachedVersions
import ServerSdk.Store.SlowReader
import ServerSdk.Store.FreshLists
import ServerSdk.Redis.Server
import ServerSdk.Redis.Upsert
import ServerSdk.Redis.Monotone
import ServerSdk.Delivery.Put
import ServerSdk.Delivery.PutSafety
import ServerSdk.Delivery.WrapperPut
import ServerSdk.Delivery.Handled
import ServerSdk.Redis.Failures
import ServerSdk.Redis.Locking
import ServerSdk.Redis.NoLostUpdate
import ServerSdk.Redis.CleanConnections
import ServerSdk.Program.ResourcePool
import ServerSdk.Redis.Borrowing
import ServerSdk.Program.Framing
import ServerSdk.Program.Heap
import ServerSdk.Program.Memory
import ServerSdk.Stream.Parser
import ServerSdk.Stream.Chunking
import ServerSdk.Stream.Reconnect
import ServerSdk.Stream.Decoding
import ServerSdk.Stream.Handler
import ServerSdk.Stream.Fold
import ServerSdk.Program.Steps
import ServerSdk.Stream.Backoff
import ServerSdk.Stream.Waits
import ServerSdk.Delivery.Polling
import ServerSdk.Events.Payload
import ServerSdk.Program.Tally
import ServerSdk.Events.Summaries
import ServerSdk.Events.SummaryKeys
import ServerSdk.Events.Identify
import ServerSdk.Program.Keyed
import ServerSdk.Redaction
import ServerSdk.Events.UserData
import ServerSdk.Program.ReferenceCounts
import ServerSdk.Store.Counted
import ServerSdk.Store.CountedAll
import ServerSdk.Program.Inflow
import ServerSdk.Store.Associated
import ServerSdk.Store.AssociatedCounts
import ServerSdk.Store.AssociatedRuns
import ServerSdk.Events.Sending
import ServerSdk.Events.Decision
import ServerSdk.Evaluate.Rollout
import ServerSdk.Evaluate.Bucketing
import ServerSdk.Evaluate.Matching
import ServerSdk.Evaluate.Membership
import ServerSdk.TestData.Flags
import ServerSdk.TestData.Targeting
import ServerSdk.TestData.TargetMatch
import ServerSdk.TestData.Rules
import ServerSdk.TestData.Pointers
import ServerSdk.TestData.RuleMatch
import ServerSdk.TestData.RuleCalls
import ServerSdk.TestData.RuleOrder
import ServerSdk.TestData.ForAllUsers
import ServerSdk.TestData.Threads
import ServerSdk.TestData.Propagation
import ServerSdk.Events.KeyCache
import ServerSdk.Events.KeyNodes
import ServerSdk.Events.Deduplication
import ServerSdk.Program.BoundedQueue
import ServerSdk.Events.Offers
import ServerSdk.Events.Capacity
import ServerSdk.Events.Reasons
import ServerSdk.Variations.Snapshot
import ServerSdk.Events.RetryDelay
import ServerSdk.Events.Flushing
import ServerSdk.Events.ServerTime
import ServerSdk.Evaluate.Dates
import ServerSdk.Program.LeftUnion
import ServerSdk.FileData
import ServerSdk.Program.Access
import ServerSdk.Cjson.Parser
import ServerSdk.Cjson.Grammar
import ServerSdk.Cjson.Cursor
import ServerSdk.Cjson.Strings
import ServerSdk.Cjson.Acceptance
import ServerSdk.Cjson.Printer
import ServerSdk.Cjson.Rendering
import ServerSdk.Cjson.Printing
import ServerSdk.Cjson.Nesting
import ServerSdk.Cjson.RoundTrip
import ServerSdk.Network.Thread
import ServerSdk.Network.Accounts
import ServerSdk.Network.Moves
import ServerSdk.Network.Cleanup
import ServerSdk.Network.Interfaces
import ServerSdk.Network.Composition
import ServerSdk.Program.FirstSplit
import ServerSdk.Evaluate.Meaning
import ServerSdk.Evaluate.Deciding
import ServerSdk.Evaluate.Declared
