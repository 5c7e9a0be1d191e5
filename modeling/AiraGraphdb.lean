import AiraGraphdb.Library.Serializable
import AiraGraphdb.Library.CommitCrash
import AiraGraphdb.Library.Metadata
import AiraGraphdb.Schemes.Json.Decode
import AiraGraphdb.Native.Evidence
import AiraGraphdb.Native.WalScan
import AiraGraphdb.Native.Handlers
import AiraGraphdb.Native.Blob
import AiraGraphdb.Native.Progress
import AiraGraphdb.Native.Closure
import AiraGraphdb.Native.Lineage
import AiraGraphdb.Native.LineageCeilings
import AiraGraphdb.Native.Crash
import AiraGraphdb.Native.Admission
import AiraGraphdb.Native.Applicable
import AiraGraphdb.Native.Projection
import AiraGraphdb.Library.Connections
import AiraGraphdb.Schemes.Ieee
import AiraGraphdb.Library.Query.Determinism
import AiraGraphdb.Library.Query.Tokens
import AiraGraphdb.Native.Bounded.Meter
import AiraGraphdb.Native.Bounded.Sort
import AiraGraphdb.Native.Bounded.Search
import AiraGraphdb.Native.Bounded.Work
import AiraGraphdb.Native.Merge
import AiraGraphdb.Native.SchemaMerges
import AiraGraphdb.Native.BlobHeader
import AiraGraphdb.Native.VectorSearch
import AiraGraphdb.Native.DocumentDeletes
import AiraGraphdb.Native.BoundedAnswers
import AiraGraphdb.Native.CachedReads
import AiraGraphdb.Native.Bounded.ContractSchema
import AiraGraphdb.Native.Lowercase
import AiraGraphdb.Native.Bounded.Deadlines
import AiraGraphdb.Native.Bounded.CatalogExact
import AiraGraphdb.Native.Bounded.SearchExact
import AiraGraphdb.Library.Query.Aliases
import AiraGraphdb.Library.Query.Writes
import AiraGraphdb.Schemes.Frames
import AiraGraphdb.Schemes.Buffers
import AiraGraphdb.Library.WalDecoder
import AiraGraphdb.Native.DescriptorSession
import AiraGraphdb.Native.Bounded.Decided
import AiraGraphdb.Native.Canonical
import AiraGraphdb.Native.CommandLine
import AiraGraphdb.Native.Bounded.Evaluates
import AiraGraphdb.Native.Bounded.PprAnswer
