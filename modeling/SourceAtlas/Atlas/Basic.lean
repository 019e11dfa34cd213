import SourceAtlas.Atlas.Wiring
import SourceAtlas.Graph.Engine
import SourceAtlas.Graph.Store
import SourceAtlas.Index.Checkout
import SourceAtlas.Search.TextIndex
import SourceAtlas.Search.VectorIndex
import SourceAtlas.Snapshot

/-!
# The atlas

What is known of source code: the graph store with its engine, the full-text
and the vector index, and the disk that outlives them. Any operation of a part
can be out of order; it then fails before it does anything.
-/

namespace SourceAtlas

open Json (Value Record Key)

inductive Operation where
  | putSymbol | putSymbols | getSymbol | findSymbols
  | putEdge | putEdges | readEdges (type : EdgeType) | queryEdges
  | findRow | putRow | getRow
  | deleteFile | deleteRepo | deleteWorkspace
  | loadStore | saveStore | closeStore
  | putVectors | searchVectors
  | deleteFileVectors | deleteRepoVectors | deleteWorkspaceVectors
  | prepareVectors | loadVectors | saveVectors | closeVectors
  | addTexts | deleteTexts | searchTexts | searchRelated
  | embed | embedBatch
  /-- When it is out of order, a batch lacks its last embedding. -/
  | embedLast
  | parse (path : String)
  deriving DecidableEq

/-- How an atlas works. -/
structure Plan where
  embedding : Embedding.Config := {}
  /-- What embeds a text. -/
  embedder : String → Outcome Embedding.Embedded := Embedding.Hashed.embed embedding
  /-- The length of vectors, null if the first vector fixes it. -/
  dimensions : Value := .null
  k1 : Float := 1.2
  b : Float := 0.75
  hash : Index.HashAlgorithm := .xxhash
  minSectionChars : Int := 20
  ignore : List String := []
  /-- Whether the engine has a full-text index to find related symbols. -/
  relates : Bool := true
  relatedLimit : Value := .int 5
  weights : Search.Signals Float := Search.usualWeights
  topK : Value := .int 10
  persists : Bool := false

def Plan.ofWiring (w : Wiring) : Plan :=
  { embedding := w.embedding
    dimensions := w.embedding.dimensions
    hash := w.settings.index.hash
    minSectionChars := w.settings.index.minSectionChars
    ignore := w.settings.index.patterns
    relatedLimit := .int w.settings.graph.relatedLimit
    weights := w.settings.search.weights
    topK := .int w.settings.search.topK
    persists := w.persists }

/-- What stays when an atlas is closed. -/
structure Disk where
  files : FileTree := .empty
  /-- What version control knows of the directories. -/
  git : Text.Path → Option Index.GitState := fun _ => none
  /-- Where the snapshots lie. -/
  directory : Text.Path
  /-- The number of jobs that were created. -/
  jobCount : Nat := 0
  /-- Seconds since the epoch. -/
  clock : Float

/-- Whole milliseconds since the epoch, rounded toward zero. -/
def Disk.now (d : Disk) : Int :=
  match Decimal.Extended.ofFloat (d.clock * 1000.0) with
  | .exact t => t.num.tdiv t.den
  | _ => 0

/-- Where the snapshot of a name lies. -/
def Disk.snapshotPath (d : Disk) (name : String) : Text.Path := Snapshot.pathOf d.directory name

structure Atlas where
  plan : Plan
  disk : Disk
  store : Graph.Store := {}
  engine : Graph.Engine := {}
  texts : Search.TextIndex Float
  vectors : Search.VectorIndex
  faults : List (Operation × Failure) := []

namespace Atlas

/-- An atlas with nothing in memory. -/
def «open» (plan : Plan) (disk : Disk) : Atlas :=
  { plan, disk, texts := { k1 := plan.k1, b := plan.b }, vectors := { dimensions := plan.dimensions } }

/-- Loses what is in memory. -/
def reopen (a : Atlas) : Atlas := { Atlas.open a.plan a.disk with faults := a.faults }

/-- Fails if an operation is out of order. -/
def check (a : Atlas) (op : Operation) : Outcome Unit :=
  match a.faults.find? (·.1 == op) with
  | some (_, f) => throw f
  | none => pure ()

/-- Fails if an operation is out of order, and changes nothing. -/
def serving (op : Operation) : Act Atlas Unit := do (← get).check op

variable {α : Type}

def inStore (x : Act Graph.Store α) : Act Atlas α :=
  Act.within Atlas.store (fun a store => { a with store }) x

def inVectors (x : Act Search.VectorIndex α) : Act Atlas α :=
  Act.within Atlas.vectors (fun a vectors => { a with vectors }) x

def inTexts (x : Act (Search.TextIndex Float) α) : Act Atlas α :=
  Act.within Atlas.texts (fun a texts => { a with texts }) x

def inEngine (x : Act Graph.Engine α) : Act Atlas α :=
  Act.within Atlas.engine (fun a engine => { a with engine }) x

/-! ## Symbols, edges and rows -/

def putSymbol (document : Value) : Act Atlas Unit := do
  serving .putSymbol
  inStore (Graph.Store.put document)

def putSymbols (documents : List Value) : Act Atlas Unit := do
  serving .putSymbols
  inStore (Graph.Store.putAll documents)

def getSymbol (name : Value) : Act Atlas (Option Document) := do
  serving .getSymbol
  let name ← asKey name
  pure ((← get).store.symbols.get? name)

def findSymbols (workspace name : Value) : Act Atlas (List Document) := do
  serving .findSymbols
  pure ((← get).store.symbols.called workspace name)

def putEdge (e : Edge) : Act Atlas Unit := do
  serving .putEdge
  inStore (Graph.Store.putEdge e)

def putEdges (es : List Edge) : Act Atlas Unit := do
  serving .putEdges
  inStore (es.forM Graph.Store.putEdge)

def edgesOfType (a : Atlas) (type : EdgeType) : Outcome (List (Key × Key)) := do
  a.check (.readEdges type)
  pure (a.store.edges.ofType type)

def queryEdges (a : Atlas) (start depth : Value) (type : Option EdgeType)
    (direction : Graph.Direction) : Outcome Graph.Traversal := do
  a.check .queryEdges
  a.store.edges.query (← asKey start) depth type direction

/-- The row of a file if it has the content that is indexed. -/
def findRow (a : Atlas) (repo path hash : Value) : Outcome (Option Graph.LedgerRow) := do
  a.check .findRow
  pure (a.store.ledger.unchanged? (← asKey repo) (← asKey path) hash)

def getRow (repo path : Value) : Act Atlas (Option Graph.LedgerRow) := do
  serving .getRow
  let key := (← asKey repo, ← asKey path)
  pure ((← get).store.ledger.get? key)

def putRow (r : Graph.LedgerRow) : Act Atlas Unit := do
  serving .putRow
  modify fun a => { a with store := a.store.putRow r }

def deleteFile (repo path : Value) : Act Atlas Nat := do
  serving .deleteFile
  inStore (Graph.Store.deleteFile repo path)

def deleteRepo (repo : Value) : Act Atlas Nat := do
  serving .deleteRepo
  inStore (Graph.Store.deleteRepo repo)

def deleteWorkspace (workspace : Value) : Act Atlas Nat := do
  serving .deleteWorkspace
  inStore (Graph.Store.deleteWorkspace workspace)

/-! ## Vectors, texts and embeddings -/

def putVectors (points : List Search.VectorPoint) : Act Atlas Unit := do
  serving .putVectors
  inVectors (Search.VectorIndex.put points)

def searchVectors (vector workspace : Value) (filters : Search.Filters) (limit : Value) :
    Act Atlas (List Search.VectorHit) := do
  serving .searchVectors
  inVectors (Search.VectorIndex.search vector workspace filters limit)

def deleteFileVectors (repo path : Value) : Act Atlas Nat := do
  serving .deleteFileVectors
  inVectors (Search.VectorIndex.delete (Document.ofFile repo path))

def deleteRepoVectors (repo : Value) : Act Atlas Nat := do
  serving .deleteRepoVectors
  inVectors (Search.VectorIndex.delete (Document.ofRepo repo))

def deleteWorkspaceVectors (workspace : Value) : Act Atlas Nat := do
  serving .deleteWorkspaceVectors
  inVectors (Search.VectorIndex.delete (Document.ofWorkspace workspace))

def addTexts (documents : List Value) : Act Atlas Unit := do
  serving .addTexts
  inTexts (Search.TextIndex.addAll documents)

def deleteTexts (p : Document → Bool) : Act Atlas Unit := do
  serving .deleteTexts
  modify fun a => { a with texts := a.texts.delete p }

def searchTexts (query workspace : Value) (filters : Search.Filters) (limit : Value) :
    Act Atlas (List (Search.TextHit Float)) := do
  serving .searchTexts
  (← get).texts.search (← asText query) workspace filters limit

def embed (a : Atlas) (text : Value) : Outcome Embedding.Embedded := do
  a.check .embed
  a.plan.embedder (← asWords text)

/-- The embeddings of texts, in their order. -/
def embedBatch (a : Atlas) (texts : List String) : Outcome (List Embedding.Embedded) := do
  a.check .embedBatch
  let all ← texts.mapM fun (text : String) => a.embed text
  match a.check .embedLast with
  | .ok () => pure all
  | .error _ => pure all.dropLast

/-- What is in the stores, in short. -/
def summary (a : Atlas) : Outcome Value := do
  pure (.obj [("symbols", .list (a.store.symbols.documents.values.map (Record.get · "symbol_ref"))),
    ("edges", .list ((← a.store.edges.sorted).map fun k =>
      .list [k.1.toValue, k.2.2.name, k.2.1.toValue])),
    ("ledger", .list (a.store.ledger.values.map fun r =>
      .list [r.repo.toValue, r.path.toValue, r.hash, r.symbols])),
    ("vectors", .int a.vectors.points.size), ("texts", .int a.texts.documents.size),
    ("graph", a.engine.stats)])

end Atlas

end SourceAtlas
