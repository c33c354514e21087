import NeoPostGraph.Error
import NeoPostGraph.Lib.Chain
import NeoPostGraph.Lib.SlottedPage
import NeoPostGraph.Lib.Program
import NeoPostGraph.PhysMap.Slot
import NeoPostGraph.PhysMap.Place
import NeoPostGraph.Postgres.Transam
import NeoPostGraph.Postgres.Ltree
import NeoPostGraph.Adjacency.Record
import NeoPostGraph.Visibility.Snapshot
import NeoPostGraph.Graph.State
import NeoPostGraph.Graph.Label
import NeoPostGraph.Graph.Insert
import NeoPostGraph.Graph.Update
import NeoPostGraph.Graph.Delete
import NeoPostGraph.Graph.Partition
import NeoPostGraph.Graph.Relabel
import NeoPostGraph.Graph.Store
import NeoPostGraph.Graph.Steps
import NeoPostGraph.Graph.Catalog
import NeoPostGraph.Graph.Adjacency
import NeoPostGraph.Graph.InsertRun
import NeoPostGraph.Graph.Unlink
import NeoPostGraph.Graph.Layout
import NeoPostGraph.Graph.Splice
import NeoPostGraph.Graph.Scan
import NeoPostGraph.Graph.Compaction
import NeoPostGraph.Graph.AdjRun
import NeoPostGraph.Lib.Versions
import NeoPostGraph.Postgres.Xact
import NeoPostGraph.Graph.Versions
import NeoPostGraph.Graph.Supersede
import NeoPostGraph.Graph.EntityInv
import NeoPostGraph.Graph.History
import NeoPostGraph.Graph.EntityReads
import NeoPostGraph.Lib.SharedHead
import NeoPostGraph.Graph.TwoInserts
import NeoPostGraph.Graph.Writes
import NeoPostGraph.Graph.Liveness
import NeoPostGraph.Lib.RowLog
import NeoPostGraph.Access.CatalogHeap
import NeoPostGraph.Graph.Rows
import NeoPostGraph.Graph.RelabelEdge
import NeoPostGraph.Graph.Savepoint
import NeoPostGraph.Lib.Exclusive
import NeoPostGraph.Graph.EntityTable
import NeoPostGraph.Graph.GraphInv
import NeoPostGraph.Graph.GraphOps
import NeoPostGraph.Graph.VertexOps
import NeoPostGraph.Graph.GraphRun
import NeoPostGraph.Graph.View
import NeoPostGraph.Graph.AbortedRotation
import NeoPostGraph.Graph.EdgeMove
import NeoPostGraph.Lib.PropertyGraph
import NeoPostGraph.Graph.Depicts
import NeoPostGraph.Graph.EdgeRefine
import NeoPostGraph.Graph.VertexRefine
import NeoPostGraph.Graph.VertexMove
import NeoPostGraph.Graph.SerialCall
import NeoPostGraph.Graph.SerialRun
import NeoPostGraph.Annotation.Rollback
import NeoPostGraph.Access.ReadPaths
import NeoPostGraph.Access.RecordWrites
import NeoPostGraph.Access.ParallelScan
import NeoPostGraph.Access.Wraparound
import NeoPostGraph.Access.CatalogRun
import NeoPostGraph.Access.DeadMarking
import NeoPostGraph.Access.EntityScan
import NeoPostGraph.Access.SerialReads
import NeoPostGraph.Graph.TwoUpdates
import NeoPostGraph.Annotation.Atomic
import NeoPostGraph.Lib.Bytes
import NeoPostGraph.Lib.OffsetTable
import NeoPostGraph.Gtype.Value
import NeoPostGraph.Gtype.Encode
import NeoPostGraph.Gtype.Iterate
import NeoPostGraph.Gtype.Layout
import NeoPostGraph.Gtype.Placement
import NeoPostGraph.Gtype.Entries
import NeoPostGraph.Gtype.Decode
import NeoPostGraph.Gtype.Stored
import NeoPostGraph.Gtype.RoundTrip
import NeoPostGraph.Gtype.RandomAccess
import NeoPostGraph.Access.WriteConflict
import NeoPostGraph.Annotation.PhysMapFields
import NeoPostGraph.Cache.Keying
import NeoPostGraph.Lib.TableReads
import NeoPostGraph.Cache.Invalidate
import NeoPostGraph.Cache.Coherence
import NeoPostGraph.Access.UniqueKeys
import NeoPostGraph.Lib.Cursor
import NeoPostGraph.Lib.LinkWalk
import NeoPostGraph.Access.CatalogLinks
import NeoPostGraph.Annotation.LabelRows
import NeoPostGraph.Annotation.Cascade
import NeoPostGraph.Annotation.Inheritance
import NeoPostGraph.Lib.KeyedRows
import NeoPostGraph.Annotation.LabelCatalog
import NeoPostGraph.Annotation.LabelPaths
import NeoPostGraph.Postgres.Varlena
import NeoPostGraph.Adjacency.ArrayBlock
import NeoPostGraph.Graph.ChunkedBlocks
import NeoPostGraph.Graph.TableUpdate
import NeoPostGraph.Graph.PartitionRun
import NeoPostGraph.Annotation.AppendOnly
import NeoPostGraph.Lib.ContentLock
import NeoPostGraph.Lib.PartialIndex
import NeoPostGraph.Annotation.Relabel
import NeoPostGraph.Annotation.BitsetReads
import NeoPostGraph.Locks.GraphLocks
import NeoPostGraph.Locks.SetVertexLabel
import NeoPostGraph.Locks.SelfDeadlock
import NeoPostGraph.Postgres.Ltxtquery
import NeoPostGraph.Annotation.LabelSearch
import NeoPostGraph.Storage.RelName
import NeoPostGraph.Storage.Objects
import NeoPostGraph.Storage.Recorded
import NeoPostGraph.Storage.Labels
import NeoPostGraph.Storage.Within
import NeoPostGraph.Storage.Calls
import NeoPostGraph.Storage.Recreate
import NeoPostGraph.Storage.Collect
import NeoPostGraph.Storage.DropGraph
import NeoPostGraph.Storage.UniqueNames
import NeoPostGraph.Storage.MoveGraph
import NeoPostGraph.Storage.MoveRun
import NeoPostGraph.Storage.MovedGraphs
import NeoPostGraph.Lib.Sorter
import NeoPostGraph.Gtype.Uniqueify
import NeoPostGraph.Gtype.LexString
import NeoPostGraph.Gtype.LexNumber
import NeoPostGraph.Gtype.Lex
import NeoPostGraph.Gtype.Parse
import NeoPostGraph.Annotation.RenamePaths
import NeoPostGraph.Annotation.DropAnnotation
import NeoPostGraph.Access.IndexValidate
import NeoPostGraph.Access.LatestTid
import NeoPostGraph.Lib.Traced
import NeoPostGraph.Postgres.Bytea
import NeoPostGraph.Access.Logical
import NeoPostGraph.Gtype.TextOut
import NeoPostGraph.Lib.Bindings
import NeoPostGraph.Gtype.GtypeIn
import NeoPostGraph.Gtype.TextIn
import NeoPostGraph.Gtype.Reproducible
import NeoPostGraph.Gtype.TextRoundTrip
import NeoPostGraph.Gtype.Accepted
import NeoPostGraph.Gtype.Kinds
import NeoPostGraph.Gtype.Dictionary
import NeoPostGraph.Annotation.RemoveLabel
import NeoPostGraph.Annotation.EdgePointer
