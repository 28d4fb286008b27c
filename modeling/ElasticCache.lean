import ElasticCache.Fault
import ElasticCache.Binary64
import ElasticCache.Time.Duration
import ElasticCache.Bytes
import ElasticCache.KeyHash
import ElasticCache.Arena.FreeList
import ElasticCache.Record
import ElasticCache.Arena.Slab
import ElasticCache.Storage.RamTier
import ElasticCache.Text.Scan
import ElasticCache.Text.Json
import ElasticCache.Text.Decimal
import ElasticCache.Text.Space
import ElasticCache.Time.Calendar
import ElasticCache.Time.Timestamp
import ElasticCache.Error
import ElasticCache.Storage.Directory
import ElasticCache.Storage.RecordLog
import ElasticCache.Storage.DiskTier
import ElasticCache.WorkingSet.FingerprintTable
import ElasticCache.WorkingSet.CuckooFilter
import ElasticCache.WorkingSet.Estimate
import ElasticCache.Storage.TieredStore
import ElasticCache.Market.UsageHistory
import ElasticCache.Market.Account
import ElasticCache.Market.Auction
import ElasticCache.Market.Round
import ElasticCache.Instance
import ElasticCache.SeriesMap
import ElasticCache.Metrics
import ElasticCache.Wire.Frame
import ElasticCache.Wire.Connection
import ElasticCache.Http.SocketAddress
import ElasticCache.Http.Pages
import ElasticCache.Fleet.Event
import ElasticCache.Fleet.Journal
import ElasticCache.Fleet.Members
import ElasticCache.Fleet.Round
import ElasticCache.Fleet.Site
import ElasticCache.Proofs.Bytes
import ElasticCache.Proofs.Record
import ElasticCache.Proofs.Arena.Layout
import ElasticCache.Proofs.Arena.Chain
import ElasticCache.Proofs.Arena.Checked
import ElasticCache.Proofs.Arena.Alloc
import ElasticCache.Proofs.Arena.Release
import ElasticCache.Proofs.Arena.Heap
import ElasticCache.Proofs.Arena.SlabRecords
import ElasticCache.Proofs.Storage.LogReplay
import ElasticCache.Proofs.Storage.DiskMap
import ElasticCache.Proofs.Storage.RamMap
import ElasticCache.Proofs.Storage.TieredSteps
import ElasticCache.Proofs.Storage.Demotion
import ElasticCache.Proofs.Storage.TieredMap
import ElasticCache.Proofs.Storage.Shedding
import ElasticCache.Proofs.Storage.TieredRuns
import ElasticCache.Proofs.Storage.BudgetRuns
import ElasticCache.Proofs.Storage.BlockedRuns
import ElasticCache.Proofs.Market.Conservation
import ElasticCache.Proofs.Market.Accounts
import ElasticCache.Proofs.Fleet.Books
import ElasticCache.Proofs.Fleet.Contacts
import ElasticCache.Proofs.Fleet.FleetRuns
import ElasticCache.Proofs.WorkingSet.Buckets
import ElasticCache.Proofs.WorkingSet.FilterClasses
import ElasticCache.Proofs.WorkingSet.FilterRuns
import ElasticCache.Proofs.Storage.LogCut
import ElasticCache.Proofs.Storage.ArbitraryLogs
import ElasticCache.Proofs.Storage.CutRuns
import ElasticCache.Proofs.Storage.LiveRecords
import ElasticCache.Proofs.Storage.GarbageBound
import ElasticCache.Proofs.Storage.Restarts
import ElasticCache.Proofs.Arena.Capacity
import ElasticCache.Proofs.Storage.LastingFacts
import ElasticCache.Proofs.Storage.RamCeiling
import ElasticCache.Proofs.Fleet.Allotments
import ElasticCache.Proofs.Fleet.PoolCeiling
import ElasticCache.Proofs.Wire.Frames
import ElasticCache.Proofs.Wire.Clients
import ElasticCache.Proofs.Wire.Blocks
import ElasticCache.Proofs.Wire.Grammar
import ElasticCache.Proofs.WorkingSet.StageTallies
import ElasticCache.Proofs.WorkingSet.FollowedKeys
import ElasticCache.Proofs.Storage.TrackedRuns
import ElasticCache.Proofs.Fleet.Ledger
import ElasticCache.Proofs.Fleet.LoggedRuns
import ElasticCache.Proofs.Arena.Refusals
import ElasticCache.Proofs.Arena.BestFit
import ElasticCache.Proofs.Market.CheckedRound
import ElasticCache.Proofs.Market.UnpaidDemand
import ElasticCache.Proofs.Market.Trades
import ElasticCache.Proofs.Market.Redistribution
import ElasticCache.Proofs.Market.Guarantees
import ElasticCache.Proofs.Market.Wallets
import ElasticCache.Proofs.Market.Windows
import ElasticCache.Proofs.Storage.RamIndex
import ElasticCache.Proofs.Storage.RamRuns
import ElasticCache.Proofs.Storage.SlabNumbers
import ElasticCache.Proofs.Storage.FailedCompactions
import ElasticCache.Proofs.Storage.Placement
import ElasticCache.Proofs.Storage.IdleSlabs
import ElasticCache.Proofs.Storage.Resizing
import ElasticCache.Proofs.Storage.TierDecision
import ElasticCache.Proofs.Storage.SlabRuns
import ElasticCache.Proofs.Contracts
import ElasticCache.Proofs.Storage.AbsentKeys
import ElasticCache.Proofs.FailedSets
import ElasticCache.Proofs.Storage.StoreCounters
import ElasticCache.Proofs.TickWindows
import ElasticCache.Proofs.Fleet.DeadInstances
import ElasticCache.Proofs.Arena.Filling
import ElasticCache.Proofs.KeyHash
