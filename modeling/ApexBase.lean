import ApexBase.Txn.Validation
import ApexBase.Txn.Stability
import ApexBase.Wal.RoundTrip
import ApexBase.Wal.Recovery
import ApexBase.Wal.Watermark
import ApexBase.Wal.Reader
import ApexBase.GroupFile.RoundTrip
import ApexBase.Storage.Epoch
import ApexBase.Storage.UpdateLog
import ApexBase.Storage.DeltaColumns
import ApexBase.Storage.DeltaReaders
import ApexBase.Storage.SchemaRoundTrip
import ApexBase.Storage.FooterRoundTrip
import ApexBase.Query.OwnWrites
import ApexBase.Catalog.Adoption
import ApexBase.Catalog.Names
import ApexBase.Index.Sync
import ApexBase.Index.Lookup
import ApexBase.Blob.Descriptor
import ApexBase.Blob.Vacuum
import ApexBase.Blob.Recovery
import ApexBase.Blob.Flat
import ApexBase.Blob.Compact
import ApexBase.Blob.Complete
import ApexBase.Blob.Store
import ApexBase.Blob.Live
import ApexBase.Blob.Runs
import ApexBase.Scaling.Partition
import ApexBase.Scaling.Shard
import ApexBase.Scaling.Router
import ApexBase.Scaling.Stable
import ApexBase.Scaling.Routes
import ApexBase.Column.DictLookup
import ApexBase.Storage.IdDirectory
import ApexBase.Storage.ColumnBytes
import ApexBase.Storage.MergedIds
import ApexBase.Storage.Agreement
import ApexBase.Fts.PostingDocs
import ApexBase.Fts.State
import ApexBase.Fts.Contents
import ApexBase.Fts.Engine
import ApexBase.Fts.Answers
import ApexBase.Fts.Sessions
import ApexBase.Fts.TermIds
import ApexBase.Fts.Spelling
import ApexBase.Fts.Identified
import ApexBase.Fts.Stored
import ApexBase.Fts.Analyzer
import ApexBase.Fts.Appended
import ApexBase.Fts.Query
import ApexBase.Fts.Directory
import ApexBase.Fts.Mapped
import ApexBase.Fts.Search
import ApexBase.Fts.Agreement
import ApexBase.Fts.Phrase
import ApexBase.Fts.Threads
import ApexBase.Library.Journal
import ApexBase.Buffer.Columns
import ApexBase.Fts.Overlay
import ApexBase.Fts.Survival
import ApexBase.Mvcc.Collection
import ApexBase.Txn.Accounting
import ApexBase.Txn.Savepoints
import ApexBase.Storage.Generation
import ApexBase.GroupFile.ChunkedColumns
import ApexBase.Column.LimitedDecode
import ApexBase.GroupFile.RewriteSchema
import ApexBase.Storage.DeltaMark
import ApexBase.Buffer.SpillExact
import ApexBase.Query.DecimalLanes
import ApexBase.Index.KeyOrder
import ApexBase.Index.Violation
import ApexBase.Column.Sized
import ApexBase.Column.BitpackReaders
import ApexBase.Column.RowLists
import ApexBase.Query.Classified
import ApexBase.Admission.Bounded
import ApexBase.Query.Like
import ApexBase.Query.FilterIndependent
import ApexBase.Fts.Statistics
import ApexBase.Storage.Deletions
import ApexBase.Query.Defaults
import ApexBase.Storage.ZoneMaps
import ApexBase.Fts.Fuzzy
import ApexBase.Data.TimeLiterals
import ApexBase.Query.ValueOrder
import ApexBase.Query.PredicateExtract
import ApexBase.Query.MultiColumnGroups
