import SourceAtlas.Atlas.Relations
import SourceAtlas.Dependency
import SourceAtlas.Extract
import SourceAtlas.Index.Job
import SourceAtlas.Index.Report
import SourceAtlas.Markdown.Outline

/-!
# Indexing

A file is examined first: its content is hashed, and unless that content is
indexed already it is parsed and cut into chunks and edges. Examining changes
nothing. What it yields is then stored: vectors, documents and texts, the
ledger, and at last the edges.
-/

namespace SourceAtlas.Atlas

open Json (Value Record Key)

/-- What a parser makes of a text: its tree, and the trees of markup inside it. -/
structure Parsed where
  tree : Syntax.Tree
  inline : Markdown.InlineReader

/-- Parses the text of a file. -/
abbrev Parser := (path text : String) → Parsed

/-- Where a text comes from. -/
structure Origin where
  workspace : Value
  repo : Value
  /-- The name of the repository, or else its id serves. -/
  repoName : Value := ""
  path : String
  commit : Value := ""

def Origin.ofRecord (r : Record) : Outcome Origin := do
  pure { path := ← asText (← require r "file_path"), workspace := ← require r "workspace_id"
         repo := ← require r "repo_id", repoName := Record.given r "repo_name" ""
         commit := Record.given r "commit" "" }

def Origin.provenance (o : Origin) (language : Language) (hash : String) : Provenance :=
  { workspace := o.workspace, repo := o.repo
    repoName := if o.repoName.truthy then o.repoName else o.repo
    path := o.path, language := language.name, commit := o.commit, contentHash := hash }

/-- Names in references are the plain texts of what was given. -/
def Origin.file (o : Origin) : FileIdentity :=
  ⟨Json.plain o.workspace, Json.plain o.repo, o.path⟩

/-- The chunks and edges of a text. -/
def analyse (plan : Plan) (now : Int) (o : Origin) (language : Language) (text hash : String)
    (parsed : Parsed) : Outcome Index.Yield := do
  let source : Syntax.Source := ⟨Text.encode text⟩
  let p := o.provenance language hash
  let (chunks, edges) ←
    if language = .markdown then do
      let reader : Markdown.Reader := ⟨source, parsed.inline, plan.minSectionChars⟩
      pure (← reader.chunks parsed.tree p now, [])
    else do
      let symbols ← symbolsOf language source parsed.tree
      let chunks ← chunksOf symbols p now
      pure (chunks, ← Dependency.edgesOf language source parsed.tree symbols o.file)
  let row : Graph.LedgerRow :=
    { repo := ← asKey o.repo, path := o.path, hash, indexedAt := .int now
      symbols := .int chunks.length, language := language.name, size := .int text.utf8ByteSize }
  pure ⟨chunks, edges, [row]⟩

/-- Examines a text without storing what it yields. -/
def examine (a : Atlas) (parse : Parser) (o : Origin) (text : String) :
    Outcome Index.FileResult := do
  match Language.ofPath? o.path with
  | none => pure .unsupported
  | some language =>
    let hash := Index.hashBytes a.plan.hash (Text.encode text)
    if (← a.findRow o.repo o.path hash).isSome then return .unchanged language
    a.check (.parse o.path)
    pure (.indexed language
      (← analyse a.plan a.disk.now o language text hash (parse o.path text)))

/-! ## Storing -/

/-- The vectors of chunks, in their order. -/
def embedChunks (a : Atlas) (chunks : List Chunk) : Outcome (List Search.Components) := do
  if chunks.isEmpty then return []
  let texts := chunks.map (·.embeddingText)
  let results ← a.embedBatch texts
  if results.length != texts.length then
    throw (.embedding (Embedding.totalLength texts)
      (.badValue s!"Expected {texts.length} embeddings, got {results.length}"))
  results.mapM fun e => members e.embedding

/-- Removes what is stored of a file whose content has changed. -/
def removeStale (row : Graph.LedgerRow) : Act Atlas Unit := do
  let repo := row.repo.toValue
  let path := row.path.toValue
  match ← getRow repo path with
  | none => pure ()
  | some previous =>
    if previous.hash.same row.hash then return
    discard (deleteFile repo path)
    discard (deleteFileVectors repo path)
    deleteTexts (Document.ofFile repo path)

/-- Runs all actions, whichever of them fail, and then fails as the first that did. -/
def together (xs : List (Act Atlas Unit)) : Act Atlas Unit := do
  let outcomes ← xs.mapM Act.attempt
  outcomes.forM Act.ofOutcome

def pointOf (c : Chunk) (vector : Search.Components) : Search.VectorPoint :=
  ⟨c.id, vector, c.payload.toRecord⟩

/-- Writes chunks to the three stores, none of which waits for another, and then the ledger. -/
def storeChunks (chunks : List Chunk) (vectors : List Search.Components)
    (rows : List Graph.LedgerRow) : Act Atlas Unit := do
  rows.forM removeStale
  let documents := chunks.map Chunk.toDocument
  if !documents.isEmpty then
    together [putVectors ((chunks.zip vectors).map fun (c, v) => pointOf c v),
      putSymbols (documents.map .obj), addTexts (documents.map .obj)]
  rows.forM putRow

def storeEdges (es : List Edge) : Act Atlas Unit :=
  if es.isEmpty then pure () else addEdges es

/-- Embeds and stores what files yield. -/
def persist (y : Index.Yield) : Act Atlas Unit := do
  let vectors ← Act.ofOutcome ((← get).embedChunks y.chunks)
  storeChunks y.chunks vectors y.rows
  storeEdges y.edges

/-! ## Files and repositories -/

def indexText (parse : Parser) (o : Origin) (text : String) (keep : Bool) :
    Act Atlas Index.FileResult := do
  let result ← Act.ofOutcome ((← get).examine parse o text)
  match result with
  | .indexed _ yield => if keep then persist yield
  | _ => pure ()
  pure result

/-- The path of a file as seen from a directory that it is joined to. -/
def below (directory file : Text.Path) : Outcome Text.Path :=
  if file.root == "" then pure file
  else throw (.badValue (Json.quoted file.toString ++ " is not in the subpath of " ++
    Json.quoted directory.toString ++ " OR one path is relative and the other is absolute."))

/-- Indexes a file below a directory under its path from there. -/
def indexFile (parse : Parser) (directory : Text.Path) (o : Origin) (keep : Bool) :
    Act Atlas Index.FileResult := do
  let path ← Act.ofOutcome (below directory (.ofString o.path))
  let text ← Act.ofOutcome ((← get).disk.files.readText (directory.join path))
  indexText parse { o with path := path.toString } text keep

def checkoutOf (a : Atlas) (r : Index.Repository) : Index.Checkout :=
  .open r.path a.disk.files (a.disk.git r.path) a.plan.ignore

/-- Where the text of a file of a repository comes from. -/
def originIn (r : Index.Repository) (workspace : Value) (commit path : String) : Origin :=
  ⟨workspace, r.id.toValue, r.name, path, commit⟩

/-- Indexes a file of a checkout without storing what it yields. -/
def surveyFile (parse : Parser) (r : Index.Repository) (workspace : Value)
    (checkout : Index.Checkout) (path : String) : Act Atlas Index.FileResult := do
  let text ← Act.ofOutcome (checkout.read path)
  indexText parse (originIn r workspace checkout.commit path) text false

/-- Indexes the files that are left of a listing one by one, the first of them at a position, and
enters them into a report. A file that fails does not stop the others. The run is cancelled before
the file at position `cancelAfter`. -/
def surveyFiles (parse : Parser) (r : Index.Repository) (workspace : Value)
    (checkout : Index.Checkout) (cancelAfter : Option Nat) :
    Nat → List String → Index.Report → Act Atlas Index.Report
  | _, [], report => pure report
  | position, path :: files, report => do
    if cancelAfter.any (· ≤ position) then throw (.cancelled r.id.toValue position)
    let result ← Act.attempt (surveyFile parse r workspace checkout path)
    surveyFiles parse r workspace checkout cancelAfter (position + 1) files (report.enter path result)

def survey (parse : Parser) (r : Index.Repository) (workspace : Value) (mode : Index.IndexMode)
    (cancelAfter : Option Nat) : Act Atlas Index.Report := do
  let checkout := (← get).checkoutOf r
  if mode = .incremental then Act.ofOutcome checkout.pull.2
  let files ← Act.ofOutcome checkout.files
  surveyFiles parse r workspace checkout cancelAfter 0 files
    { repo := r.id, commit := checkout.commit, total := files.length }

def indexRepository (parse : Parser) (r : Index.Repository) (workspace : Value)
    (mode : Index.IndexMode) (keep : Bool) (cancelAfter : Option Nat) : Act Atlas Index.Report := do
  let report ← survey parse r workspace mode cancelAfter
  if keep then persist report.yield
  pure report

end SourceAtlas.Atlas
