import BackTester.ToMathlib.AvlTree
import BackTester.Model.Common.Containers
import BackTester.Model.OrderBook.PriceLevel
import BackTester.Proofs.OrderBook.LinkedTree
import BackTester.Proofs.OrderBook.Rotation
import BackTester.Proofs.OrderBook.Mirror
import BackTester.Proofs.OrderBook.AvlInsert
import BackTester.Proofs.OrderBook.AvlRemove
import BackTester.Model.OrderBook.LimitOrderBook
import BackTester.Abstract.PriorityBook
import BackTester.Proofs.OrderBook.Represents
import BackTester.Proofs.OrderBook.LevelChange
import BackTester.Proofs.OrderBook.SideChange
import BackTester.Proofs.OrderBook.NewLevel
import BackTester.Proofs.OrderBook.Enqueue
import BackTester.Proofs.OrderBook.Traversal
import BackTester.Proofs.OrderBook.RemoveLevel
import BackTester.Proofs.OrderBook.DestroyOrder
import BackTester.Proofs.OrderBook.Resize
import BackTester.Proofs.OrderBook.ClearBook
import BackTester.Proofs.OrderBook.Refinement
import BackTester.Abstract.ReferenceBook
import BackTester.Proofs.OrderBook.Queries
import BackTester.Abstract.TimePriority
import BackTester.Soundness.LimitOrderBook
import BackTester.Model.OrderBook.MapOrderBook
import BackTester.Proofs.OrderBook.AggregateBook
import BackTester.Soundness.MapOrderBook
import BackTester.Soundness.AbseilOrderBook
import BackTester.Proofs.OrderBook.AggregateAnswers
import BackTester.Soundness.BookAgreement
import BackTester.Abstract.Routing
import BackTester.Model.OrderBook.SimpleOrderBookRouter
import BackTester.Soundness.SimpleOrderBookRouter
import BackTester.Model.Common.LockFreeQueue
import BackTester.Proofs.Common.RingInvariant
import BackTester.Soundness.LockFreeQueue
import BackTester.ToMathlib.FifoQueue
import BackTester.ToMathlib.ProcessNetwork
import BackTester.ToMathlib.Interleaving
import BackTester.Model.Common.BlockingQueue
import BackTester.Model.Ingestion.FlatMerger
import BackTester.Proofs.Ingestion.FlatMerger
import BackTester.Soundness.FlatMerger
import BackTester.Model.Ingestion.HierarchyMerger
import BackTester.Proofs.Ingestion.MergePlan
import BackTester.Proofs.Ingestion.HierarchyMerger
import BackTester.Soundness.HierarchyMerger
import BackTester.Soundness.MergerAgreement
import BackTester.ToMathlib.Scan
import BackTester.ToMathlib.ScanRules
import BackTester.Model.Ingestion.DataParser
import BackTester.Model.Ingestion.JsonNativeDataParser
import BackTester.Proofs.Ingestion.NativeScan
import BackTester.Soundness.NativeSafety
import BackTester.ToMathlib.Calendar
import BackTester.ToMathlib.Decimal
import BackTester.Abstract.MboRecord
import BackTester.Proofs.Ingestion.Timestamp
import BackTester.Proofs.Ingestion.NativeValues
import BackTester.Proofs.Ingestion.NativeRecord
import BackTester.Soundness.NativeDecode
import BackTester.Proofs.Ingestion.NativeStops
import BackTester.Soundness.NativeIsolation
import BackTester.Proofs.Ingestion.RecordText
import BackTester.Model.Ingestion.JsonSimpleDataParser
import BackTester.Proofs.Ingestion.SimpleSearch
import BackTester.Proofs.Ingestion.SimpleValues
import BackTester.Proofs.Ingestion.SimpleRecord
import BackTester.Soundness.ParserAgreement
import BackTester.Model.OrderBook.Snapshot
import BackTester.Proofs.OrderBook.Snapshot
import BackTester.Soundness.AnomalyCounts
import BackTester.Soundness.EventOrder
import BackTester.Soundness.PriceLevelTree
import BackTester.Soundness.Snapshot
import BackTester.Abstract.PriceNumeral
import BackTester.Model.Ingestion.CheckedArithmetic
import BackTester.Proofs.Ingestion.CheckedArithmetic
import BackTester.Soundness.NativePrice
import BackTester.Soundness.NativeTimestamps
import BackTester.Abstract.JsonText
import BackTester.Proofs.Ingestion.NativeSkip
import BackTester.Soundness.SkippedValues
import BackTester.Model.Main.Pipeline
import BackTester.Soundness.Pipeline
import BackTester.Model.OrderBook.ShardedOrderBookRouter
import BackTester.Proofs.OrderBook.ShardedOrderBookRouter
import BackTester.Soundness.ShardedOrderBookRouter
import BackTester.Soundness.LevelWalk
import BackTester.ToMathlib.CounterPair
import BackTester.Model.Common.QueueObserver
import BackTester.Soundness.QueueSize
import BackTester.Model.Main.BatchPusher
import BackTester.Soundness.BatchPusher
import BackTester.Soundness.MergeNetwork
import BackTester.ToMathlib.AtomicObject
import BackTester.ToMathlib.RunCost
import BackTester.Model.Common.BlockingQueueThreads
import BackTester.Proofs.Common.MutexInvariant
import BackTester.Proofs.Common.Wakeups
import BackTester.Soundness.BlockingQueueThreads
import BackTester.Model.Common.LockFreeQueueCalls
import BackTester.Soundness.LockFreeQueueCalls
import BackTester.Soundness.LockFreeQueueProgress
import BackTester.Soundness.ShardedCompletion
import BackTester.Model.OrderBook.RouterOutput
import BackTester.Soundness.RouterOutput
import BackTester.ToMathlib.NetworkEmbedding
import BackTester.Proofs.OrderBook.AggregateSize
import BackTester.Model.Main.Main
import BackTester.Soundness.Main
import BackTester.ToMathlib.ReleaseAcquire
import BackTester.Model.Common.LockFreeQueueOrders
import BackTester.Proofs.Common.OrdersInvariant
import BackTester.Soundness.LockFreeQueueOrders
import BackTester.Model.Ingestion.DataFile
import BackTester.Soundness.DataFile
import BackTester.Soundness.MachineIntegers
import BackTester.ToMathlib.HeapFrame
import BackTester.Proofs.OrderBook.Locality
import BackTester.Model.OrderBook.BookStore
import BackTester.Soundness.BookStore
import BackTester.Model.OrderBook.AnomalySummary
import BackTester.Soundness.AnomalySummary
