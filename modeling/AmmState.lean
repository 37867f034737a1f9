import AmmState.Lib.Packed
import AmmState.V3.Accounting
import AmmState.V3.Liquidity
import AmmState.V3.Storage
import AmmState.Discovery.Pools
import AmmState.Eviction
import AmmState.Theorems.Balancer
import AmmState.Theorems.Discovery.Creation
import AmmState.Theorems.NormalForm
import AmmState.Theorems.Ownership
import AmmState.Theorems.Persistence
import AmmState.Theorems.Planning.Finish
import AmmState.Theorems.Planning.Prepared
import AmmState.Theorems.PoolChanges
import AmmState.Theorems.PriorityQueue
import AmmState.Theorems.Registry
import AmmState.Theorems.Routing
import AmmState.Theorems.Runtime.CanonicalBatch
import AmmState.Theorems.Runtime.Changes
import AmmState.Theorems.Runtime.ColdStart
import AmmState.Theorems.Runtime.PreparedCommits
import AmmState.Theorems.Runtime.Publication
import AmmState.Theorems.Runtime.Reorg
import AmmState.Theorems.Runtime.Repairs
import AmmState.Theorems.Scheduler
import AmmState.Theorems.Slipstream.Accounting
import AmmState.Theorems.Slipstream.FeeEvidence
import AmmState.Theorems.Slipstream.Liquidity
import AmmState.Theorems.Slipstream.Staking
import AmmState.Theorems.Slipstream.StakingTransition
import AmmState.Theorems.StorageSync
import AmmState.Theorems.QuoteWarmup
import AmmState.Theorems.Eviction
import AmmState.Theorems.Recovery
import AmmState.Theorems.Subscriber.Filters
import AmmState.Theorems.Subscriber.Logs
import AmmState.Theorems.Subscriber.Owners
import AmmState.Theorems.Subscription
import AmmState.Theorems.SyncEngine
import AmmState.Theorems.V3.Accounting
import AmmState.Theorems.V3.FeeAllocation
import AmmState.Theorems.V3.FinalStep
import AmmState.Theorems.V3.MintBurn
import AmmState.Theorems.V3.Oracle
import AmmState.Theorems.V3.Partial
import AmmState.Theorems.V3.Ring
import AmmState.Theorems.V3.Runs
import AmmState.Theorems.V3.StepBoundary
import AmmState.Theorems.V3.Window
import AmmState.Theorems.V3.Progress
import AmmState.Theorems.BalancerEvents
import AmmState.Theorems.Provenance.Settled
import AmmState.Theorems.Provenance.Finished
import AmmState.Theorems.SyncRuns
import AmmState.Theorems.Slipstream.Agreement
