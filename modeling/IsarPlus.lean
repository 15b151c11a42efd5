import IsarPlus.Lib.ByteBuffer
import IsarPlus.Lib.Scalar
import IsarPlus.Lib.Lexicographic
import IsarPlus.Lib.Utf8
import IsarPlus.Lib.Glob
import IsarPlus.Lib.CodedGlob
import IsarPlus.Lib.OrderedStore
import IsarPlus.Lib.SecondaryIndex
import IsarPlus.Lib.Sql
import IsarPlus.Core.Error
import IsarPlus.Core.Data
import IsarPlus.Core.Filter
import IsarPlus.Core.FastWildMatch
import IsarPlus.Core.Wildcards
import IsarPlus.Core.Comparison
import IsarPlus.Core.FilterSemantics
import IsarPlus.Core.StringPatterns
import IsarPlus.Core.FilterJson
import IsarPlus.Native.Deserializer
import IsarPlus.Native.Serializer
import IsarPlus.Native.IndexKey
import IsarPlus.Native.Index
import IsarPlus.Native.IndexTuple
import IsarPlus.Native.Collection
import IsarPlus.Native.Instance
import IsarPlus.Native.CursorIterator
import IsarPlus.Native.Proofs.Entries
import IsarPlus.Native.Proofs.Runs
import IsarPlus.Native.Proofs.IndexConsistency
import IsarPlus.Native.Proofs.KnownEntries
import IsarPlus.Native.Proofs.UniquePut
import IsarPlus.Native.Filter
import IsarPlus.Native.QueryBuilder
import IsarPlus.Native.Proofs.ComparisonFilters
import IsarPlus.Native.Proofs.IntegerFilters
import IsarPlus.Native.Proofs.StringFilters
import IsarPlus.Native.Proofs.PatternFilters
import IsarPlus.Sqlite.Sql
import IsarPlus.Sqlite.Proofs.Groups
import IsarPlus.Sqlite.Proofs.Conditions
import IsarPlus.Sqlite.Proofs.FilterTranslation
import IsarPlus.Sqlite.Proofs.PatternConditions
import IsarPlus.Engines.ListEmptiness
import IsarPlus.Engines.SortedDistinct
import IsarPlus.Engines.StringPatterns
import IsarPlus.Lib.Run
import IsarPlus.Sqlite.Transaction
import IsarPlus.Sqlite.Proofs.Transactions
import IsarPlus.Sqlite.Proofs.TransactionRuns
import IsarPlus.Core.Watcher
import IsarPlus.Core.Marking
import IsarPlus.Core.Notification
import IsarPlus.Core.DetailedChanges
import IsarPlus.Native.Watchers
import IsarPlus.Native.Evolution
import IsarPlus.Native.StoredValues
import IsarPlus.Native.Updates
import IsarPlus.Native.Proofs.StoredValues
import IsarPlus.Native.Proofs.WholeValues
import IsarPlus.Native.Proofs.WrittenObjects
import IsarPlus.Native.Proofs.PartialUpdates
import IsarPlus.Native.Proofs.RepeatedUpdates
import IsarPlus.Native.Proofs.OlderObjects
import IsarPlus.Native.Proofs.StoredLayouts
import IsarPlus.Native.Proofs.StoredIndexes
import IsarPlus.Native.Proofs.SchemaEvolution
import IsarPlus.Native.Proofs.IndexHistory
import IsarPlus.Native.Proofs.QueryWatchers
import IsarPlus.Native.Proofs.KeyOrder
import IsarPlus.Sqlite.Writer
import IsarPlus.Sqlite.Proofs.WrittenConditions
import IsarPlus.Core.Schema
import IsarPlus.Sqlite.SchemaManager
import IsarPlus.Lib.KeyedDiff
import IsarPlus.Lib.Iteration
import IsarPlus.Lib.SortedCursor
import IsarPlus.Core.SchemaChanges
import IsarPlus.Core.SchemaDiff
import IsarPlus.Sqlite.Proofs.Migration
import IsarPlus.Sqlite.Proofs.MigrationRuns
import IsarPlus.Sqlite.Proofs.SchemaReadBack
import IsarPlus.Lib.Precedence
import IsarPlus.Dart.QueryBuilder
import IsarPlus.Dart.Proofs.FilterChains
import IsarPlus.Dart.Proofs.ChainReading
import IsarPlus.Dart.Proofs.MisreadChains
import IsarPlus.Native.SchemaManager
import IsarPlus.Native.Proofs.FailedMigration
import IsarPlus.Native.AutoIncrement
import IsarPlus.Native.Proofs.AutoIncrement
import IsarPlus.Native.Database
import IsarPlus.Native.Proofs.Separation
import IsarPlus.Native.Proofs.CursorRanges
import IsarPlus.Native.Proofs.Clear
import IsarPlus.Native.Transaction
import IsarPlus.Native.Proofs.Commit
import IsarPlus.Lib.Utf16
import IsarPlus.Lib.Fnv
import IsarPlus.Ffi.FastHash
import IsarPlus.Ffi.Proofs.StringIds
import IsarPlus.Sqlite.TableRows
import IsarPlus.Sqlite.Watchers
import IsarPlus.Sqlite.Proofs.Watchers
import IsarPlus.Lib.Ownership
import IsarPlus.Dart.Isar
import IsarPlus.Dart.Proofs.Handles
import IsarPlus.Native.Writer
import IsarPlus.Native.Reader
import IsarPlus.Native.Layout
import IsarPlus.Native.ReadBack
import IsarPlus.Native.Proofs.Serializer
import IsarPlus.Native.Proofs.Writing
import IsarPlus.Native.Proofs.Reading
import IsarPlus.Native.Proofs.OpenedCollections
import IsarPlus.Native.Proofs.Progress
import IsarPlus.Native.Insert
import IsarPlus.Native.Proofs.ObjectLimit
import IsarPlus.Native.Proofs.RoundTrip
import IsarPlus.Lib.FloatCasts
import IsarPlus.Sqlite.Insert
import IsarPlus.Sqlite.Proofs.BulkInserts
import IsarPlus.Sqlite.Proofs.Inserts
import IsarPlus.Sqlite.Reader
import IsarPlus.Core.ChangeDetector
import IsarPlus.Core.ReportedChanges
import IsarPlus.Lib.FloatArithmetic
import IsarPlus.Lib.FloatOrder
import IsarPlus.Native.Aggregate
import IsarPlus.Native.Proofs.MinMax
import IsarPlus.Native.Proofs.RealFilters
import IsarPlus.Native.Proofs.Sums
import IsarPlus.Sqlite.Details
import IsarPlus.Sqlite.Proofs.ColumnOrder
import IsarPlus.Sqlite.Proofs.MigratedColumns
import IsarPlus.Lib.SelectSql
import IsarPlus.Sqlite.QueryBuilder
import IsarPlus.Lib.FloatScale
import IsarPlus.Sqlite.Proofs.HeldValues
import IsarPlus.Sqlite.Proofs.BuiltQueries
import IsarPlus.Sqlite.Proofs.Aggregates
import IsarPlus.Lib.SelectAnswers
import IsarPlus.Lib.SortKeys
import IsarPlus.Lib.Firsts
import IsarPlus.Sqlite.Proofs.SortedDistinct
import IsarPlus.Native.Proofs.QueryResults
import IsarPlus.Native.QueryIterator
import IsarPlus.Native.Proofs.QueryIterators
import IsarPlus.Native.Proofs.SortedQueries
import IsarPlus.Native.Proofs.DistinctQueries
import IsarPlus.Dart.DateTime
import IsarPlus.Dart.Proofs.Dates
import IsarPlus.Sqlite.Proofs.ColumnTypes
import IsarPlus.Native.ShownValues
import IsarPlus.Native.Proofs.ShownValues
import IsarPlus.Transfer.JsonImport
import IsarPlus.Transfer.Proofs.JsonVisits
import IsarPlus.Transfer.Proofs.PlannedWrites
import IsarPlus.Transfer.Proofs.JsonImports
import IsarPlus.Transfer.JsonExport
import IsarPlus.Transfer.Proofs.JsonExports
import IsarPlus.Verify.Sqlite
import IsarPlus.Verify.Proofs.Sqlite
import IsarPlus.Verify.Native
import IsarPlus.Verify.Proofs.Native
