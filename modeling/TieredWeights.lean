import TieredWeights.Config.Json
import TieredWeights.Description
import TieredWeights.Main
import TieredWeights.Workbench
import TieredWeights.Proofs.Bindings
import TieredWeights.Proofs.Pool.Operations
import TieredWeights.Proofs.Pool.SpillName
import TieredWeights.Proofs.Pool.Sessions
import TieredWeights.Proofs.Pool.Follows
import TieredWeights.Proofs.Pool.AsMap
import TieredWeights.Proofs.Depot.Sound
import TieredWeights.Proofs.Depot.Work
import TieredWeights.Proofs.Cache.Sound
import TieredWeights.Proofs.Cache.Call
import TieredWeights.Proofs.BlockStore
import TieredWeights.Proofs.Cache.Steps
import TieredWeights.Proofs.Scene
import TieredWeights.Proofs.Scene.Paths
import TieredWeights.Proofs.Scene.Loads
import TieredWeights.Proofs.Scene.Sound
import TieredWeights.Proofs.Conservation
import TieredWeights.Proofs.Readings
import TieredWeights.Proofs.Contents
import TieredWeights.Proofs.Uniqueness
import TieredWeights.Proofs.Faults
import TieredWeights.Proofs.Gathering
import TieredWeights.Proofs.Plan
import TieredWeights.Proofs.LoadOutcome
import TieredWeights.Proofs.Cache.Progress
import TieredWeights.Proofs.Cache.Purge
import TieredWeights.Proofs.IdleCompany
import TieredWeights.Proofs.FailedLoad
import TieredWeights.Proofs.Recording
import TieredWeights.Proofs.Races
import TieredWeights.Proofs.Pool.Refusals
import TieredWeights.Proofs.Depot.Tidy
import TieredWeights.Proofs.Depot.Room
import TieredWeights.Proofs.Cache.Stock
import TieredWeights.Proofs.Cache.Filling
import TieredWeights.Proofs.Stocking
import TieredWeights.Proofs.LoadOrder
import TieredWeights.Proofs.Tiers
import TieredWeights.Proofs.Kept
import TieredWeights.Proofs.Fixtures
import TieredWeights.Proofs.Accepted
import TieredWeights.Proofs.Pool.Tidy
import TieredWeights.Proofs.Pool.InMemory
import TieredWeights.Proofs.Pool.Twins
import TieredWeights.Proofs.Handles
import TieredWeights.Proofs.LoadingAhead
import TieredWeights.Proofs.Savings
import TieredWeights.Proofs.Bench.Ground
import TieredWeights.Proofs.Bench.Naive
import TieredWeights.Proofs.Bench.Sharing
import TieredWeights.Proofs.Bench.Strategies
import TieredWeights.Proofs.Brackets
import TieredWeights.Proofs.Binary64.Rounding
import TieredWeights.Proofs.PositiveShares
import TieredWeights.Proofs.PlannedBytes
import TieredWeights.Proofs.ExactPlan
import TieredWeights.Proofs.Meters
import TieredWeights.Proofs.Audit
import TieredWeights.Proofs.Counters
import TieredWeights.Proofs.Depot.Errands
import TieredWeights.Proofs.Cache.Intact
import TieredWeights.Proofs.BroughtBuffers
import TieredWeights.Proofs.Binary64.Order
import TieredWeights.Proofs.TierRuns
import TieredWeights.Proofs.Pool.Accounts
import TieredWeights.Proofs.Pool.FailedAllocation
import TieredWeights.Proofs.Purging
import TieredWeights.Proofs.Cache.Invalidate
import TieredWeights.Proofs.Shapes
import TieredWeights.Proofs.Invalidation
import TieredWeights.Proofs.Depot.OwnFiles
import TieredWeights.Proofs.Cache.OwnFiles
import TieredWeights.Proofs.Bench.CleanUp
import TieredWeights.Proofs.Bench.Unlimited
import TieredWeights.Proofs.Bench.Synthetic
import TieredWeights.Proofs.Extraction
import TieredWeights.Proofs.Registration
import TieredWeights.Proofs.Json.Reading
import TieredWeights.Proofs.Json.Writing
import TieredWeights.Proofs.Json.Records
import TieredWeights.Proofs.ConfigText
import TieredWeights.Proofs.Numerals
import TieredWeights.Proofs.Folding
import TieredWeights.Proofs.TierNames
