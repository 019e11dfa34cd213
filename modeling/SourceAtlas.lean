import SourceAtlas.Atlas.Basic
import SourceAtlas.Atlas.Hybrid
import SourceAtlas.Atlas.Indexing
import SourceAtlas.Atlas.Lifecycle
import SourceAtlas.Atlas.Relations
import SourceAtlas.Atlas.Wiring
import SourceAtlas.Chunk
import SourceAtlas.Compress.Deflate
import SourceAtlas.Compress.Gzip
import SourceAtlas.Decimal.Binary
import SourceAtlas.Decimal.Extended
import SourceAtlas.Decimal.Fixed
import SourceAtlas.Decimal.Reading
import SourceAtlas.Decimal.Shortest
import SourceAtlas.Dependency
import SourceAtlas.Digest.Crc32
import SourceAtlas.Digest.Md5
import SourceAtlas.Digest.Sha256
import SourceAtlas.Digest.Stream
import SourceAtlas.Digest.XxHash64
import SourceAtlas.DocComment
import SourceAtlas.Document
import SourceAtlas.Edge
import SourceAtlas.Embedding.Hashed
import SourceAtlas.Embedding.Remote
import SourceAtlas.Extract
import SourceAtlas.Extract.C
import SourceAtlas.Extract.CSharp
import SourceAtlas.Extract.Cpp
import SourceAtlas.Extract.Declaration
import SourceAtlas.Extract.EcmaScript
import SourceAtlas.Extract.Go
import SourceAtlas.Extract.Python
import SourceAtlas.Extract.Walk
import SourceAtlas.Failure
import SourceAtlas.FileTree
import SourceAtlas.Graph.Breadth
import SourceAtlas.Graph.Edges
import SourceAtlas.Graph.Engine
import SourceAtlas.Graph.Ledger
import SourceAtlas.Graph.Multigraph
import SourceAtlas.Graph.Store
import SourceAtlas.Graph.Symbols
import SourceAtlas.Index.Checkout
import SourceAtlas.Index.ContentHash
import SourceAtlas.Index.Job
import SourceAtlas.Index.Report
import SourceAtlas.Index.Repository
import SourceAtlas.Json.Access
import SourceAtlas.Json.Decode
import SourceAtlas.Json.Display
import SourceAtlas.Json.Key
import SourceAtlas.Json.Order
import SourceAtlas.Json.Reader
import SourceAtlas.Json.Value
import SourceAtlas.Json.Writer
import SourceAtlas.Language
import SourceAtlas.LogContext
import SourceAtlas.Markdown.Inline
import SourceAtlas.Markdown.Outline
import SourceAtlas.Markdown.Section
import SourceAtlas.OrderedMap
import SourceAtlas.Proofs.Accounts
import SourceAtlas.Proofs.Acts
import SourceAtlas.Proofs.Adjacency
import SourceAtlas.Proofs.Alignment
import SourceAtlas.Proofs.Batches
import SourceAtlas.Proofs.Breadth
import SourceAtlas.Proofs.CallSites
import SourceAtlas.Proofs.Chunks
import SourceAtlas.Proofs.Counterparts
import SourceAtlas.Proofs.Counts
import SourceAtlas.Proofs.Declarations
import SourceAtlas.Proofs.Displacement
import SourceAtlas.Proofs.Distances
import SourceAtlas.Proofs.Edges
import SourceAtlas.Proofs.Enclosures
import SourceAtlas.Proofs.Examining
import SourceAtlas.Proofs.Exchanges
import SourceAtlas.Proofs.Expressions
import SourceAtlas.Proofs.Fallbacks
import SourceAtlas.Proofs.Favours
import SourceAtlas.Proofs.FileByFile
import SourceAtlas.Proofs.FileEdges
import SourceAtlas.Proofs.FileTrees
import SourceAtlas.Proofs.Filtering
import SourceAtlas.Proofs.Forgetting
import SourceAtlas.Proofs.FusedScores
import SourceAtlas.Proofs.Fusions
import SourceAtlas.Proofs.Hashing
import SourceAtlas.Proofs.Histories
import SourceAtlas.Proofs.Ids
import SourceAtlas.Proofs.Imports
import SourceAtlas.Proofs.Interruptions
import SourceAtlas.Proofs.Isolation
import SourceAtlas.Proofs.JobHistories
import SourceAtlas.Proofs.JobOutcomes
import SourceAtlas.Proofs.Jobs
import SourceAtlas.Proofs.Lines
import SourceAtlas.Proofs.Listings
import SourceAtlas.Proofs.Lookups
import SourceAtlas.Proofs.Losses
import SourceAtlas.Proofs.Maps
import SourceAtlas.Proofs.Marks
import SourceAtlas.Proofs.Naming
import SourceAtlas.Proofs.Neighbours
import SourceAtlas.Proofs.Nesting
import SourceAtlas.Proofs.Nodes
import SourceAtlas.Proofs.Numbers
import SourceAtlas.Proofs.Orders
import SourceAtlas.Proofs.OutOfLine
import SourceAtlas.Proofs.Outlines
import SourceAtlas.Proofs.Overwriting
import SourceAtlas.Proofs.Owners
import SourceAtlas.Proofs.Packing
import SourceAtlas.Proofs.PartialLoads
import SourceAtlas.Proofs.Parts
import SourceAtlas.Proofs.Pieces
import SourceAtlas.Proofs.Premature
import SourceAtlas.Proofs.Queues
import SourceAtlas.Proofs.RawHits
import SourceAtlas.Proofs.Recounting
import SourceAtlas.Proofs.Rectangles
import SourceAtlas.Proofs.References
import SourceAtlas.Proofs.Referents
import SourceAtlas.Proofs.Rejections
import SourceAtlas.Proofs.Relevance
import SourceAtlas.Proofs.Reloading
import SourceAtlas.Proofs.Remnants
import SourceAtlas.Proofs.Removals
import SourceAtlas.Proofs.Rendering
import SourceAtlas.Proofs.Replies
import SourceAtlas.Proofs.Reports
import SourceAtlas.Proofs.Restarts
import SourceAtlas.Proofs.Retries
import SourceAtlas.Proofs.RoundTrips
import SourceAtlas.Proofs.Scopes
import SourceAtlas.Proofs.SectionNames
import SourceAtlas.Proofs.Sessions
import SourceAtlas.Proofs.Shares
import SourceAtlas.Proofs.Signals
import SourceAtlas.Proofs.StoreStates
import SourceAtlas.Proofs.Stores
import SourceAtlas.Proofs.Storing
import SourceAtlas.Proofs.Surveys
import SourceAtlas.Proofs.Symbols
import SourceAtlas.Proofs.Tables
import SourceAtlas.Proofs.Tallies
import SourceAtlas.Proofs.Ties
import SourceAtlas.Proofs.Tokens
import SourceAtlas.Proofs.Traces
import SourceAtlas.Proofs.Transparency
import SourceAtlas.Proofs.Transposes
import SourceAtlas.Proofs.Traversals
import SourceAtlas.Proofs.Trimming
import SourceAtlas.Proofs.Twins
import SourceAtlas.Proofs.Unreadable
import SourceAtlas.Proofs.Uploads
import SourceAtlas.Proofs.Uses
import SourceAtlas.Proofs.Vacating
import SourceAtlas.Proofs.Visits
import SourceAtlas.Proofs.Workspaces
import SourceAtlas.Proofs.WriteThrough
import SourceAtlas.Proofs.Writes
import SourceAtlas.Proofs.Zeros
import SourceAtlas.Reference
import SourceAtlas.Search.Filters
import SourceAtlas.Search.Fusion
import SourceAtlas.Search.Ranking
import SourceAtlas.Search.RemoteIndex
import SourceAtlas.Search.Scalar
import SourceAtlas.Search.TextIndex
import SourceAtlas.Search.Tokens
import SourceAtlas.Search.VectorIndex
import SourceAtlas.Service
import SourceAtlas.Settings
import SourceAtlas.Settings.Field
import SourceAtlas.Settings.Numeral
import SourceAtlas.Settings.Section
import SourceAtlas.Snapshot
import SourceAtlas.Symbol
import SourceAtlas.Syntax.Cursor
import SourceAtlas.Syntax.Tree
import SourceAtlas.Text.Blank
import SourceAtlas.Text.Case
import SourceAtlas.Text.Digits
import SourceAtlas.Text.Encoding
import SourceAtlas.Text.Entity
import SourceAtlas.Text.EntityNames
import SourceAtlas.Text.Glob
import SourceAtlas.Text.Path
import SourceAtlas.Text.Printable
import SourceAtlas.Text.Ranges
import SourceAtlas.Text.Utf8
import SourceAtlas.Text.WordChar
