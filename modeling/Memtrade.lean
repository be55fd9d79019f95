import Memtrade.AvlTree.Iteration
import Memtrade.AvlTree.Operations
import Memtrade.AvlTree.Rank
import Memtrade.AvlTree.Refinement
import Memtrade.AvlTree.Represent
import Memtrade.AvlTree.Rotation
import Memtrade.AvlTree.Updates
import Memtrade.Balloon.Eviction
import Memtrade.ClusterTrace.Extraction
import Memtrade.ClusterTrace.Overcommit
import Memtrade.ClusterTrace.Simulator
import Memtrade.ClusterTrace.Splits
import Memtrade.ClusterTrace.Workload
import Memtrade.Cmanager.BottomLine
import Memtrade.Cmanager.Limits
import Memtrade.Cmanager.Loops
import Memtrade.Cmanager.MovingExtreme
import Memtrade.ControlLoop.Detector
import Memtrade.ControlLoop.DropDetection
import Memtrade.ControlLoop.KsDistance
import Memtrade.ControlLoop.PrefetchTrigger
import Memtrade.ControlLoop.Recovery
import Memtrade.ControlLoop.Threads
import Memtrade.ControlLoop.Windows
import Memtrade.Coordinator.Bitmap
import Memtrade.Coordinator.Counters
import Memtrade.Coordinator.Grants
import Memtrade.Coordinator.Identity
import Memtrade.Coordinator.Listing
import Memtrade.Coordinator.Operations
import Memtrade.Coordinator.Releases
import Memtrade.Coordinator.Slabs
import Memtrade.Coordinator.Traffic
import Memtrade.Infiniswap.Accounting
import Memtrade.Infiniswap.BlockDevice
import Memtrade.Infiniswap.Contexts
import Memtrade.Infiniswap.Daemon
import Memtrade.Infiniswap.DeviceCoherence
import Memtrade.Infiniswap.DeviceCompletions
import Memtrade.Infiniswap.DeviceDisconnect
import Memtrade.Infiniswap.DeviceDisk
import Memtrade.Infiniswap.DeviceInvariant
import Memtrade.Infiniswap.DeviceMappings
import Memtrade.Infiniswap.DeviceMoves
import Memtrade.Infiniswap.DeviceRequests
import Memtrade.Infiniswap.DeviceTraffic
import Memtrade.Infiniswap.DeviceTransfers
import Memtrade.Infiniswap.Eviction
import Memtrade.Lib.BalancedTree
import Memtrade.Lib.BinaryTree
import Memtrade.Lib.BoundedStack
import Memtrade.Lib.CText
import Memtrade.Lib.Conversion
import Memtrade.Lib.EmpiricalCdf
import Memtrade.Lib.ExchangeSort
import Memtrade.Lib.FirstFit
import Memtrade.Lib.FloatFormat
import Memtrade.Lib.Heap
import Memtrade.Lib.InputStream
import Memtrade.Lib.Runs
import Memtrade.Lib.Scan
import Memtrade.Lib.System
import Memtrade.Lib.TextOrder
import Memtrade.Lib.WriteThrough
import Memtrade.Server.Assigned
import Memtrade.Server.Broker
import Memtrade.Server.Consumer
import Memtrade.Server.Harvest
import Memtrade.Server.Market
import Memtrade.Server.Placement
import Memtrade.Server.Portal
import Memtrade.Server.Producer
import Memtrade.Server.Registered
import Memtrade.Server.Stream
import Memtrade.Server.TableBounds
import Memtrade.Tswap.AreaInvalidation
import Memtrade.Tswap.Background
import Memtrade.Tswap.Calls
import Memtrade.Tswap.Coherence
import Memtrade.Tswap.DischargePass
import Memtrade.Tswap.Effects
import Memtrade.Tswap.ErrorPaths
import Memtrade.Tswap.Freshness
import Memtrade.Tswap.Invariant
import Memtrade.Tswap.Operations
import Memtrade.Tswap.Overtaking
import Memtrade.Tswap.PrefetchRing
import Memtrade.Tswap.PrefetchStack
import Memtrade.Tswap.Preservation
import Memtrade.Tswap.QuarantineTime
import Memtrade.Tswap.Reachable
import Memtrade.Tswap.Requests
import Memtrade.Tswap.RingHistory
import Memtrade.Tswap.Safety
import Memtrade.Tswap.SlotSteps
import Memtrade.Tswap.Slots
import Memtrade.Tswap.StatFile
import Memtrade.Tswap.State
import Memtrade.Tswap.System
