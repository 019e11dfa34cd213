import SourceAtlas.Embedding.Hashed
import SourceAtlas.Index.ContentHash
import SourceAtlas.Search.Fusion
import SourceAtlas.Settings.Section

/-!
# Settings

How the program is set up, by sections. What is not set has a default, and
what is set has to satisfy constraints.
-/

namespace SourceAtlas

open Json (Value Record)

structure AppSettings where
  name : String
  env : String
  debug : Bool
  logLevel : String

structure RemoteSettings where
  enabled : Bool
  host : String
  port : Int
  key : Option String
  symbols : String
  vectors : String
  batchSize : Int

def RemoteSettings.url (s : RemoteSettings) : String := s.host ++ ":" ++ toString s.port

structure EmbeddingSettings where
  provider : String
  key : Option String
  model : String
  dimensions : Int
  batchSize : Int
  timeout : Float
  maxRetries : Int

namespace EmbeddingSettings

def config (s : EmbeddingSettings) : Embedding.Config :=
  { model := s.model, dimensions := .int s.dimensions, batchSize := .int s.batchSize
    timeout := .float s.timeout, maxRetries := .int s.maxRetries }

/-- Whether embeddings come from the service; it needs a key. -/
def isRemote (s : EmbeddingSettings) : Outcome Bool :=
  if s.provider == "mock" then pure false
  else match s.key with
    | none | some "" => throw (.missingSetting "EMBEDDING_API_KEY")
    | some _ => pure true

end EmbeddingSettings

structure GraphSettings where
  storage : String
  maxDepth : Int
  defaultDepth : Int
  relatedLimit : Int

structure IndexSettings where
  repos : String
  hash : Index.HashAlgorithm
  minSectionChars : Int
  ignore : String

/-- The patterns between commas, trimmed. -/
def IndexSettings.patterns (s : IndexSettings) : List String :=
  ((Text.splitAt (· == ',') s.ignore.toList).map fun p => Text.strip (String.ofList p)).filter
    (· != "")

structure SearchSettings where
  weights : Search.Signals Float
  topK : Int

structure Settings where
  app : AppSettings
  remote : RemoteSettings
  embedding : EmbeddingSettings
  graph : GraphSettings
  index : IndexSettings
  search : SearchSettings

namespace Settings

open SourceAtlas.Settings.Field

/-! ## Sections -/

def appFields : FieldReader AppSettings := do
  return { name := ← readField "name" "code-graph" text
           env := ← readField "env" "development"
             (choice ["development", "staging", "production"])
           debug := ← readField "debug" true flag
           logLevel := ← readField "log_level" "DEBUG"
             (choice ["DEBUG", "INFO", "WARNING", "ERROR", "CRITICAL"]) }

/-- A whole number within bounds. -/
def wholeField (name : String) (default low high : Int) : FieldReader Int :=
  readField name default fun v => do between low high (← whole v)

def remoteFields : FieldReader RemoteSettings := do
  return { enabled := ← readField "enabled" false flag
           host := ← readField "host" "http://localhost" text
           port := ← readField "port" 7700 whole
           key := ← readField "master_key" none text?
           symbols := ← readField "index_symbols" "symbols" text
           vectors := ← readField "index_vectors" "symbol_vectors" text
           batchSize := ← wholeField "batch_size" 1000 1 10000 }

def embeddingFields : FieldReader EmbeddingSettings := do
  return { provider := ← readField "provider" "mock" (choice ["jina", "mock"])
           key := ← readField "api_key" none text?
           model := ← readField "model" "jina-embeddings-v2-base-code" text
           dimensions := ← readField "dimensions" 768 fun v => do atLeast 8 (← whole v)
           batchSize := ← wholeField "batch_size" 32 1 256
           timeout := ← readField "timeout" 30.0 fun v => do aboveZero (← real v)
           maxRetries := ← wholeField "max_retries" 3 1 10 }

def graphFields : FieldReader GraphSettings := do
  return { storage := ← readField "storage_path" "data/graph" path
           maxDepth := ← wholeField "max_depth" 10 1 100
           defaultDepth := ← wholeField "default_depth" 2 0 100
           relatedLimit := ← wholeField "related_limit" 5 1 100 }

def indexFields : FieldReader IndexSettings := do
  return { repos := ← readField "repos_path" "data/repos" path
           hash := ← readField "file_hash_algorithm" .xxhash fun v => do
             let name ← choice (Index.HashAlgorithm.all.map Index.HashAlgorithm.name) v
             pure ((Index.HashAlgorithm.all.find? (·.name == name)).getD .xxhash)
           minSectionChars := ← readField "min_section_chars" 20 fun v => do atLeast 0 (← whole v)
           ignore := ← readField "ignore_patterns"
             ".git,node_modules,__pycache__,.venv,venv,dist,build" text }

def searchFields : FieldReader SearchSettings := do
  let weight (name : String) (default : Float) : FieldReader Float :=
    readField name default fun v => do fromZero (← real v)
  let vector ← weight "vector_weight" 0.6
  let fulltext ← weight "fulltext_weight" 0.3
  let graph ← weight "graph_weight" 0.1
  return ⟨⟨vector, fulltext, graph⟩, ← wholeField "default_top_k" 10 1 1000⟩

/-! ## All settings -/

/-- Without a constraint on the fields of a section together. -/
def free {α : Type} (_ : α) : Bool := true

/-- The default depth of a query does not exceed the greatest one. -/
def depthsFit (s : GraphSettings) : Bool := s.defaultDepth ≤ s.maxDepth

def ofVariables (vars : List (String × String)) : Outcome Settings := do
  let env := Environment.ofVariables vars
  let app ← Section.ofEnvironment env "app"
  let remote ← Section.ofEnvironment env "meilisearch"
  let embedding ← Section.ofEnvironment env "embedding"
  let graph ← Section.ofEnvironment env "graph"
  let index ← Section.ofEnvironment env "indexing"
  let search ← Section.ofEnvironment env "search"
  Section.Reader.finish do
    return { app := ← app.readAs appFields free
             remote := ← remote.readAs remoteFields free
             embedding := ← embedding.readAs embeddingFields free
             graph := ← graph.readAs graphFields depthsFit
             index := ← index.readAs indexFields free
             search := ← search.readAs searchFields free }

def toRecord (s : Settings) : Record :=
  let e := s.embedding
  [("app", .obj [("name", s.app.name), ("env", s.app.env), ("debug", .bool s.app.debug),
     ("log_level", s.app.logLevel), ("is_production", .bool (s.app.env == "production"))]),
   ("meilisearch", .obj [("enabled", .bool s.remote.enabled), ("host", s.remote.host),
     ("port", .int s.remote.port), ("master_key", Value.ofText? s.remote.key),
     ("index_symbols", s.remote.symbols), ("index_vectors", s.remote.vectors),
     ("batch_size", .int s.remote.batchSize), ("url", s.remote.url)]),
   ("embedding", .obj [("provider", e.provider), ("api_key", Value.ofText? e.key),
     ("model", e.model), ("dimensions", .int e.dimensions), ("batch_size", .int e.batchSize),
     ("timeout", .float e.timeout), ("max_retries", .int e.maxRetries)]),
   ("graph", .obj [("storage_path", s.graph.storage), ("max_depth", .int s.graph.maxDepth),
     ("default_depth", .int s.graph.defaultDepth), ("related_limit", .int s.graph.relatedLimit)]),
   ("indexing", .obj [("repos_path", s.index.repos), ("file_hash_algorithm", s.index.hash.name),
     ("min_section_chars", .int s.index.minSectionChars), ("ignore_patterns", s.index.ignore),
     ("ignore_patterns_list", Value.texts s.index.patterns)]),
   ("search", .obj [("vector_weight", .float s.search.weights.vector),
     ("fulltext_weight", .float s.search.weights.fulltext),
     ("graph_weight", .float s.search.weights.graph), ("default_top_k", .int s.search.topK)]),
   ("embedding_config", .obj e.config.toRecord)]

end Settings

end SourceAtlas
