import SourceAtlas.Search.VectorIndex

/-!
# A remote index

Documents and vectors can live on a search server. The server is known here by
what it answers; every request is recorded, with its arguments as they were
given.
-/

namespace SourceAtlas.Search

open Json (Value Record)

inductive Request where
  | index (name : Value)
  | createIndex (name : Value) (key : String)
  /-- Searched fields, filtered fields, and the dimensions of given vectors. -/
  | settings (searched : Option (List String)) (filtered : List String) (dimensions : Option Value)
  | addDocuments (documents : List Value)
  | deleteByFilter (filter : String)
  | search (query : Value) (options : Record)
  | health
  | close

namespace Request

def name : Request → String
  | index _ => "index"
  | createIndex .. => "create_index"
  | settings .. => "update_settings"
  | addDocuments _ => "add_documents"
  | deleteByFilter _ => "delete_documents_by_filter"
  | search .. => "search"
  | health => "health"
  | close => "aclose"

def arguments : Request → List Value
  | index name => [name]
  | createIndex name key => [name, .str key]
  | settings searched filtered dimensions =>
    [Value.ofOption Value.texts searched, Value.texts filtered,
     .obj (dimensions.toList.map fun d => ("default", .list [.str "userProvided", d]))]
  | addDocuments documents => [.list documents]
  | deleteByFilter filter => [.str filter]
  | search query options => [query, .obj options]
  | health | close => []

def toValue (r : Request) : Value := .list (.str r.name :: r.arguments)

end Request

/-- When the server turns a kind of request down: after how many, and in which words. -/
structure Refusal where
  request : String
  after : Nat
  message : String

structure Server where
  hits : List Value := []
  health : String := "available"
  refusals : List Refusal := []

structure Connection where
  server : Server
  sent : List Request := []
  isOpen : Bool := true

/-- Where an index lives and what it holds. -/
structure RemoteIndex where
  url : Value := .null
  key : Value := .null
  name : Value
  batchSize : Value := .int 1000
  /-- The length of vectors, if the index holds vectors. -/
  dimensions : Option Value := none

/-- Reads where documents are kept, or vectors, whose length has to be given. -/
def RemoteIndex.ofRecord (vectors : Bool) (r : Record) : Outcome RemoteIndex := do
  let shared := ["url", "api_key", "index_name", "batch_size"]
  if vectors then checkFields r ["dimensions"] shared else checkFields r [] shared
  pure { url := Record.given r "url" .null, key := Record.given r "api_key" .null
         name := Record.given r "index_name" (if vectors then "symbol_vectors" else "symbols")
         batchSize := Record.given r "batch_size" (.int 1000)
         dimensions := if vectors then Record.get? r "dimensions" else none }

/-- A point as it is sent. -/
structure RemotePoint where
  id : Value
  vector : Value
  payload : Value

def RemotePoint.ofValue (v : Value) : Outcome RemotePoint := do
  let r ← asRecord v
  checkFields r ["id", "vector", "payload"] []
  pure ⟨Record.get r "id", Record.get r "vector", Record.get r "payload"⟩

def searchedFields : List String := ["symbol_name", "signature", "code"]

def filteredFields : List String := ["workspace_id", "repo_id", "file_path", "language", "symbol_kind"]

/-- The consecutive pieces of a list with `size + 1` elements each, but for the last one. -/
def batches {α : Type} (size : Nat) (xs : List α) : List (List α) :=
  match xs with
  | [] => []
  | x :: rest => (x :: rest.take size) :: batches size (rest.drop size)
termination_by xs.length
decreasing_by rw [List.length_drop, List.length_cons]; omega

/-- The batches of a size that is at least one; a negative size gives none. -/
def batchesOf {α : Type} (size : Int) (xs : List α) : Outcome (List (List α)) :=
  if size = 0 then throw (.badValue "range() arg 3 must not be zero")
  else if size < 0 then pure []
  else pure (batches (size.toNat - 1) xs)

namespace RemoteIndex

/-- Sends a request; the server may turn it down. -/
def send (r : Request) : Act Connection Unit := do
  let c ← get
  let earlier := (c.sent.filter (·.name == r.name)).length
  set { c with sent := c.sent ++ [r] }
  match c.server.refusals.find? fun f => f.request == r.name && f.after ≤ earlier with
  | some f => throw (.rejected f.message)
  | none => pure ()

/-- Turns a rejection into a failure of its own. -/
def rejectedAs (wrap : Failure → Failure) (x : Act Connection Unit) : Act Connection Unit := do
  match ← Act.attempt x with
  | .ok () => pure ()
  | .error (.rejected m) => throw (wrap (.rejected m))
  | .error f => throw f

def connect : Act Connection Unit := modify fun c => { c with isOpen := true }

/-- Creates the index; one that exists already is fine. -/
def ensure (x : RemoteIndex) : Act Connection Unit := do
  connect
  let searched := if x.dimensions.isSome then none else some searchedFields
  let setUp : Act Connection Unit := do
    send (.createIndex x.name "id")
    send (.settings searched filteredFields x.dimensions)
  match ← Act.attempt setUp with
  | .ok () => pure ()
  | .error (.rejected m) =>
    if Text.occursIn "already exists".toList m.toList then pure ()
    else throw (.searchIndex x.name "create" (.rejected m))
  | .error f => throw f

def addBatches (x : RemoteIndex) (documents : List Value) : Act Connection Unit := do
  connect
  send (.index x.name)
  let pieces ← Act.ofOutcome (do batchesOf (← asInt x.batchSize) documents)
  rejectedAs (.searchIndex x.name "add_documents")
    (pieces.forM fun piece => send (.addDocuments piece))

/-- Adds documents in batches, and says how many were added. -/
def addDocuments (x : RemoteIndex) (documents : Value) : Act Connection Nat := do
  if !documents.truthy then return 0
  match documents with
  | .list ds =>
    x.addBatches ds
    pure (if ← isAbove x.batchSize 0 then ds.length else 0)
  | _ =>
    connect
    send (.index x.name)
    misfit

/-- The document that holds a point with a vector of the right length. -/
def pointDocument (dimensions : Value) (p : RemotePoint) : Outcome Value := do
  let n ← size p.vector
  if !dimensions.same (.int n) then throw (VectorIndex.wrongLength "upsert" dimensions n)
  pure (.obj (Record.extend (← asRecord p.payload)
    [("id", p.id), ("_vectors", .obj [("default", p.vector)])]))

/-- Adds points in batches, none of them if some vector has the wrong length. -/
def addPoints (x : RemoteIndex) (points : List RemotePoint) : Act Connection Unit := do
  if points.isEmpty then return
  let documents ← points.mapM fun p => pointDocument (x.dimensions.getD .null) p
  x.addBatches documents

/-- A score, which may be given as a text. -/
def asScore (v : Value) : Outcome Float :=
  match v with
  | .null => misfit
  | v => asComponent v

/-- The id and the score of a document that the server found. -/
def hitOf (document payload : Record) : Outcome VectorHit := do
  let id ← require document "id"
  pure ⟨id, ← asScore (Record.given document "_rankingScore" (.float 0.0)), payload⟩

def options (filters : Filters) (workspace limit : Value) : Outcome Record := do
  pure [("limit", limit), ("filter", Value.ofText? (← filters.expression workspace)),
    ("show_ranking_score", .bool true)]

def searchText (x : RemoteIndex) (query workspace : Value) (filters : Filters) (limit : Value) :
    Act Connection (List VectorHit) := do
  connect
  send (.index x.name)
  let options ← options filters workspace limit
  rejectedAs (.searchQuery query) (send (.search query options))
  (← get).server.hits.mapM fun v => do
    let d ← asRecord v
    hitOf d d

/-- The fields of a document that are not the server's own. -/
def payloadOf (document : Record) : Record :=
  document.filter fun f => f.1.toList.head? != some '_'

def searchVector (x : RemoteIndex) (vector workspace : Value) (filters : Filters)
    (limit : Value) : Act Connection (List VectorHit) := do
  if !(← isAbove limit 0) then return []
  connect
  send (.index x.name)
  let options ← options filters workspace limit
  let hybrid : Value := .obj [("semantic_ratio", .float 1.0), ("embedder", "default")]
  rejectedAs (.vectorStore "search")
    (send (.search "" (options ++ [("vector", vector), ("hybrid", hybrid)])))
  (← get).server.hits.mapM fun v =>
    match v with
    | .obj d => hitOf d (payloadOf d)
    | _ => throw (.mishap .missingAttribute)

def deleteWhere (x : RemoteIndex) (filter : String) : Act Connection Unit := do
  connect
  send (.index x.name)
  rejectedAs (.searchIndex x.name "delete_by_filter") (send (.deleteByFilter filter))

def deleteFile (x : RemoteIndex) (repo path : Value) : Act Connection Unit :=
  x.deleteWhere (Filters.equals "repo_id" repo ++ " AND " ++ Filters.equals "file_path" path)

def deleteRepo (x : RemoteIndex) (repo : Value) : Act Connection Unit :=
  x.deleteWhere (Filters.equals "repo_id" repo)

def deleteWorkspace (x : RemoteIndex) (workspace : Value) : Act Connection Unit :=
  x.deleteWhere (Filters.equals "workspace_id" workspace)

/-- Whether the server is there and well. -/
def isHealthy : Act Connection Bool := do
  connect
  match ← Act.attempt (send .health) with
  | .ok () => pure ((← get).server.health == "available")
  | .error _ => pure false

/-- Releases the connection, if there is one. -/
def release : Act Connection Unit := do
  if (← get).isOpen then
    send .close
    modify fun c => { c with isOpen := false }

end RemoteIndex

end SourceAtlas.Search
