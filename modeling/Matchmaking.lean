import Matchmaking.ReadCommitted.Store
import Matchmaking.ReadCommitted.Program
import Matchmaking.ReadCommitted.System
import Matchmaking.ReadCommitted.RelyGuarantee
import Matchmaking.ReadCommitted.Soundness
import Matchmaking.ReadCommitted.Triple
import Matchmaking.ReadCommitted.Footprint
import Matchmaking.ReadCommitted.History
import Matchmaking.ReadCommitted.Pending
import Matchmaking.ReadCommitted.LockOrder
import Matchmaking.ReadCommitted.Alone
import Matchmaking.ReadCommitted.Amid
import Matchmaking.ReadCommitted.Stage
import Matchmaking.ReadCommitted.Snapshots
import Matchmaking.ReadCommitted.Marks
import Matchmaking.ReadCommitted.Tally
import Matchmaking.ReadCommitted.Trace
import Matchmaking.ReadCommitted.Confirmed
import Matchmaking.Config
import Matchmaking.Json
import Matchmaking.Schema
import Matchmaking.Runtime
import Matchmaking.Worker.Leases
import Matchmaking.Worker.Matching
import Matchmaking.Worker.Main
import Matchmaking.Api.Admission
import Matchmaking.Api.Idempotency
import Matchmaking.Api.Routes
import Matchmaking.Api.RawBodies
import Matchmaking.Dispatcher.Main
import Matchmaking.Service
import Matchmaking.Commits
import Matchmaking.Effects
import Matchmaking.Footprints
import Matchmaking.Rules
import Matchmaking.Composition
import Matchmaking.CommitSpec
import Matchmaking.Worker.Commits
import Matchmaking.Dispatcher.Commits
import Matchmaking.Dispatcher.Protocol
import Matchmaking.Dispatcher.Snapshots
import Matchmaking.Dispatcher.Posts
import Matchmaking.Api.Commits
import Matchmaking.Refinement
import Matchmaking.RunAlone
import Matchmaking.LogRules
import Matchmaking.EntryRules
import Matchmaking.Integrity
import Matchmaking.Outbox
import Matchmaking.Reservations
import Matchmaking.SortedPrefix
import Matchmaking.FairShare
import Matchmaking.PairSearch
import Matchmaking.MatchProgress
import Matchmaking.SkillRule
import Matchmaking.WorkerCounters
import Matchmaking.LoopFailures
import Matchmaking.FreshFetch
import Matchmaking.LeaseSafety
import Matchmaking.LeaseTransaction
import Matchmaking.Filling
import Matchmaking.Rebalancing
import Matchmaking.TicketOutcomes
import Matchmaking.ActiveTickets
import Matchmaking.AdmissionReads
import Matchmaking.AdmissionLimits
import Matchmaking.ApiCounters
import Matchmaking.CreateOutcomes
import Matchmaking.IdempotentCreates
import Matchmaking.KeyedTickets
import Matchmaking.TenantIsolation
import Matchmaking.DataIsolation
import Matchmaking.ClientInput
import Matchmaking.RateLimit
import Matchmaking.CallbackClaims
import Matchmaking.CallbackConcurrency
import Matchmaking.ClaimFairness
import Matchmaking.CallbackAttempts
import Matchmaking.CallbackEligibility
import Matchmaking.CallbackOutcomes
import Matchmaking.CallbackBatches
import Matchmaking.OutcomePersistence
import Matchmaking.CallbackLocks
import Matchmaking.CallbackRetries
import Matchmaking.CallbackExpiry
import Matchmaking.ReadCommitted.Views
import Matchmaking.PairingPool
import Matchmaking.PoolRefinement
import Matchmaking.TableConstraints
import Matchmaking.JsonEncoding
import Matchmaking.CallbackDelivery
import Matchmaking.RequestOrder
import Matchmaking.LaterAnswers
import Matchmaking.MatchedPartitions
import Matchmaking.PartitionCoverage
import Matchmaking.StablePairing
import Matchmaking.StablePairs
import Matchmaking.QuietPairs
import Matchmaking.QuietIterations
import Matchmaking.WorkerShutdown
