import MiniOB.Common
import MiniOB.Lib.Bytes
import MiniOB.Lib.Run
import MiniOB.Trx.MvccTrx
import MiniOB.Trx.Invariant
import MiniOB.Trx.Isolation
import MiniOB.Trx.Interleaved
import MiniOB.Trx.Assertions
import MiniOB.Trx.Recovery
import MiniOB.Trx.View
import MiniOB.Record.Bitmap
import MiniOB.Record.RecordManager
import MiniOB.Record.RecordFile
import MiniOB.Record.RecordRedo
import MiniOB.Record.Scanner
import MiniOB.Lib.LowerBound
import MiniOB.Lib.PageFile
import MiniOB.Index.EntrySet
import MiniOB.Lib.Levels
import MiniOB.Lib.Leaves
import MiniOB.Index.BplusTree
import MiniOB.Lib.Along
import MiniOB.Index.LogEntry
import MiniOB.Index.MiniTransaction
import MiniOB.Index.Following
import MiniOB.Index.Failing
import MiniOB.Index.Rollback
import MiniOB.Index.Fitting
import MiniOB.Index.Redo
import MiniOB.Index.Recovery
import MiniOB.Index.Restart
import MiniOB.Index.DirtyMarks
import MiniOB.Index.Effects
import MiniOB.Index.Standing
import MiniOB.Index.Search
import MiniOB.Index.Insert
import MiniOB.Index.InsertEntry
import MiniOB.Index.Remove
import MiniOB.Index.Shrink
import MiniOB.Index.DeleteEntry
import MiniOB.Index.Refinement
import MiniOB.Index.Validity
import MiniOB.Clog.LogFile
import MiniOB.Clog.DiskLogHandler
import MiniOB.Clog.Reading
import MiniOB.Clog.Files
import MiniOB.Clog.Invariant
import MiniOB.Clog.Delivery
import MiniOB.Clog.TornTail
import MiniOB.Buffer.DoubleWriteBuffer
import MiniOB.Buffer.Image
import MiniOB.Buffer.Mirror
import MiniOB.Buffer.DiskBufferPool
import MiniOB.Buffer.PageAllocation
import MiniOB.Buffer.PageRedo
import MiniOB.Buffer.Coherence
import MiniOB.Buffer.Fetching
import MiniOB.Buffer.Client
import MiniOB.Db.Db
import MiniOB.Db.Checkpoint
import MiniOB.Db.Stays
import MiniOB.Db.Opening
import MiniOB.Db.Lifecycle
import MiniOB.Table.Table
import MiniOB.Table.IndexAgreement
import MiniOB.Table.UniqueIndex
import MiniOB.Lib.Memory
import MiniOB.Sql.Value
import MiniOB.Sql.Compare
import MiniOB.Sql.TableMeta
import MiniOB.Sql.Row
import MiniOB.Sql.Update
import MiniOB.Sql.Scan
import MiniOB.Sql.ScanAgreement
import MiniOB.Sql.TableSource
import MiniOB.Sql.Statement
import MiniOB.Sql.Atomicity
import MiniOB.Lib.Sorted
import MiniOB.Sql.Expression
import MiniOB.Sql.Join
import MiniOB.Sql.Plan
import MiniOB.Sql.Rewriting
import MiniOB.Sql.Preservation
import MiniOB.Sql.JoinAgreement
import MiniOB.Net.MysqlStore
import MiniOB.Net.MysqlPacket
import MiniOB.Lib.Ring
import MiniOB.Net.RingBuffer
import MiniOB.Net.BufferedWriter
import MiniOB.Lib.Reader
import MiniOB.Index.LogCodec
import MiniOB.Index.Scanner
import MiniOB.Lib.Chunks
import MiniOB.Index.ScanRange
import MiniOB.Index.RangeScan
import MiniOB.Index.ColumnLength
import MiniOB.Lib.Truncation
import MiniOB.Index.CharScan
import MiniOB.Sql.Pushdown
import MiniOB.Lib.Crabbing
import MiniOB.Index.Latch
import MiniOB.Index.Footprint
import MiniOB.Index.Climbing
import MiniOB.Index.Crabbing
import MiniOB.Index.FanOut
import MiniOB.Record.Rescan
import MiniOB.Clog.Accounting
import MiniOB.Clog.FileRange
import MiniOB.Buffer.HeaderBitmap
import MiniOB.Buffer.Clearing
import MiniOB.Buffer.PinBalance
import MiniOB.Buffer.FrameAllocation
import MiniOB.Lib.Rounding
import MiniOB.Record.PageLayout
import MiniOB.Lib.Kleene
import MiniOB.Sql.Evaluation
import MiniOB.Sql.ThreeValued
import MiniOB.Sql.ConstantFolding
import MiniOB.Sql.Casting
import MiniOB.Lib.Decimal
import MiniOB.Lib.Json
import MiniOB.Sql.Transport
import MiniOB.Sql.Operator
import MiniOB.Sql.NestedLoop
import MiniOB.Lib.Calendar
import MiniOB.Sql.Date
import MiniOB.Sql.ValueOrder
import MiniOB.Sql.Group
import MiniOB.Sql.Membership
import MiniOB.Lib.Regex
import MiniOB.Sql.Like
import MiniOB.Sql.Refactor
import MiniOB.Sql.Extraction
import MiniOB.Sql.DateFormat
import MiniOB.Lib.Links
import MiniOB.Lib.Recency
import MiniOB.Buffer.LruCache
import MiniOB.Buffer.LruOrder
import MiniOB.Lib.Bisection
import MiniOB.Index.Lookup
import MiniOB.Sql.Metadata
import MiniOB.Sql.Typing
import MiniOB.Sql.Resolver
import MiniOB.Sql.Resolution
import MiniOB.Sql.WellTyped
import MiniOB.Sql.Selection
import MiniOB.Sql.SetList
import MiniOB.Sql.Planning
import MiniOB.Trx.Abandoned
import MiniOB.Lib.Consuming
import MiniOB.Trx.Endings
import MiniOB.Session.Session
import MiniOB.Session.Lifecycle
import MiniOB.Session.Disconnect
import MiniOB.Thread.Accounting
import MiniOB.Thread.Termination
import MiniOB.Thread.Opening
