import Kubernetes.Go.Strings
import Kubernetes.Go.Loops
import Kubernetes.Go.Strconv
import Kubernetes.Go.BigInt
import Kubernetes.Go.Sort
import Kubernetes.Lists.Merge
import Kubernetes.Transition.Reachable
import Kubernetes.Rbac.EvaluationHelpers
import Kubernetes.Rbac.PolicyComparator
import Kubernetes.Workqueue.Queue
import Kubernetes.Cache.DeltaFIFO
import Kubernetes.Cache.DeltaFIFOValid
import Kubernetes.Cache.DeltaFIFOAccepted
import Kubernetes.Cache.DeltaFIFOSystem
import Kubernetes.FiniteMap.Inverted
import Kubernetes.Cache.ThreadSafeStore
import Kubernetes.Apf.QueueSet
import Kubernetes.Apf.SeatLimit
import Kubernetes.Resource.Math
import Kubernetes.Resource.Dec
import Kubernetes.Resource.Amount
import Kubernetes.Resource.Suffix
import Kubernetes.Resource.Quantity
import Kubernetes.Resource.Compare
import Kubernetes.Resource.Arithmetic
import Kubernetes.Resource.ScaledValue
import Kubernetes.Cacher.WatchCache
import Kubernetes.Cacher.WatchCacheWindow
import Kubernetes.Cacher.WatchCacheResumption
import Kubernetes.Go.Json
import Kubernetes.StrategicPatch.Meta
import Kubernetes.StrategicPatch.Lists
import Kubernetes.StrategicPatch.Merge
import Kubernetes.Alloc.Bitmap
import Kubernetes.Alloc.AllocationBitmap
import Kubernetes.Alloc.IPAllocator
import Kubernetes.Service.Alloc
import Kubernetes.Service.Create
import Kubernetes.StrategicPatch.Diff
import Kubernetes.StrategicPatch.ThreeWay
import Kubernetes.Go.MergePatch
import Kubernetes.Job.Intervals
import Kubernetes.Job.CompletedIndexes
import Kubernetes.Deployment.Util
import Kubernetes.Deployment.Sync
import Kubernetes.Deployment.Rolling
import Kubernetes.CronJob.Spec
import Kubernetes.CronJob.Schedule
import Kubernetes.Labels.Validation
import Kubernetes.Labels.Lexer
import Kubernetes.Labels.Selector
import Kubernetes.Labels.Parser
import Kubernetes.Labels.Locality
import Kubernetes.Labels.RoundTrip
import Kubernetes.Labels.LabelSelector
import Kubernetes.EndpointSlice.EndpointSet
import Kubernetes.EndpointSlice.Reconciler
import Kubernetes.EndpointSlice.Partition
import Kubernetes.Core.Pod
import Kubernetes.Controller.ActivePods
import Kubernetes.ReplicaSet.ScaleDown
import Kubernetes.Job.Pending
import Kubernetes.Job.Duplicates
import Kubernetes.Cpuset.ListFormat
import Kubernetes.Combinatorics.Lehmer
import Kubernetes.Apf.ShuffleSharding
import Kubernetes.Bits.Prefix
import Kubernetes.Go.Net
import Kubernetes.Cidrset.CidrSet
import Kubernetes.Cidrset.Blocks
import Kubernetes.Cidrset.Ledger
import Kubernetes.Heap.Container
import Kubernetes.Workqueue.Delaying
import Kubernetes.Workqueue.DelayingWaiting
import Kubernetes.Lists.Argmin
import Kubernetes.Lists.Bag
import Kubernetes.Topology.Bitmask
import Kubernetes.Topology.Policy
import Kubernetes.Topology.Ranking
import Kubernetes.Topology.Order
import Kubernetes.Topology.SingleNuma
import Kubernetes.Cpumanager.Topology
import Kubernetes.Cpumanager.Assignment
import Kubernetes.Scheduler.Heap
import Kubernetes.Scheduler.Queue
import Kubernetes.Heap.Simulation
import Kubernetes.Scheduler.HeapOrder
import Kubernetes.Scheduler.QueueInvariant
