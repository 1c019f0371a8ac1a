import MCoroutine.General.Runs
import MCoroutine.General.Simulation
import MCoroutine.General.ByteMemory
import MCoroutine.General.Sweep
import MCoroutine.General.Ranges
import MCoroutine.General.Generator
import MCoroutine.General.HighWater
import MCoroutine.General.CallOnce
import MCoroutine.General.LeastFree
import MCoroutine.General.HeapTraffic
import MCoroutine.General.LockOrder
import MCoroutine.General.Regions
import MCoroutine.Basic
import MCoroutine.Coroutine
import MCoroutine.Machine
import MCoroutine.Swap
import MCoroutine.Suspensions
import MCoroutine.FirstSwap
import MCoroutine.MemoryPool
import MCoroutine.MemoryEffects
import MCoroutine.MemoryRecovery
import MCoroutine.MemoryCounts
import MCoroutine.MemoryRuns
import MCoroutine.MemoryAccounts
import MCoroutine.MemoryBalance
import MCoroutine.MemoryGrowth
import MCoroutine.MemoryQueries
import MCoroutine.MemoryAccesses
import MCoroutine.MemoryThreads
import MCoroutine.ThreadCounts
import MCoroutine.Linearization
import MCoroutine.Store
import MCoroutine.CoroutinePool
import MCoroutine.PoolEffects
import MCoroutine.Numbering
import MCoroutine.Process
import MCoroutine.ProcessEffects
import MCoroutine.SlotRuns
import MCoroutine.Allocation
import MCoroutine.Switching
import MCoroutine.Constructors
import MCoroutine.RegisterArrays
import MCoroutine.PoolRequests
import MCoroutine.ResumeGuard
import MCoroutine.Handout
import MCoroutine.PoolGrowth
import MCoroutine.PoolStructure
import MCoroutine.Returns
import MCoroutine.Generators
import MCoroutine.Schedules
import MCoroutine.CallBackFlags
import MCoroutine.Holders
import MCoroutine.GlobalPool
import MCoroutine.Outcomes
import MCoroutine.StackLayout
import MCoroutine.LeastIds
import MCoroutine.HeapBalance
import MCoroutine.Locking
import MCoroutine.Stacks
import MCoroutine.StackContents
