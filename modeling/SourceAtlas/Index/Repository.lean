import SourceAtlas.Json.Access
import SourceAtlas.OrderedMap
import SourceAtlas.Text.Path

/-!
# Registered repositories

A repository is known by its id and has a place where its checkout lies. All
else is kept as it was given.
-/

namespace SourceAtlas.Index

open Json (Value Record Key)

inductive IndexStatus where
  | notIndexed | indexing | indexed | failed
  deriving DecidableEq

namespace IndexStatus

def name : IndexStatus → String
  | notIndexed => "not_indexed"
  | indexing => "indexing"
  | indexed => "indexed"
  | failed => "failed"

def all : List IndexStatus := [notIndexed, indexing, indexed, failed]

def ofValue : Value → Outcome IndexStatus := named "IndexStatus" all name

end IndexStatus

structure Repository where
  id : Key
  workspace : Value
  name : Value
  path : Text.Path
  remote : Value := ""
  branch : Value := "main"
  status : IndexStatus := .notIndexed
  commit : Value := .null
  indexedAt : Value := .null
  files : Value := .int 0
  symbols : Value := .int 0
  languages : Value := .obj []

namespace Repository

def toValue (r : Repository) : Outcome Value := do
  pure (.obj [("id", r.id.toValue), ("workspace_id", r.workspace), ("name", r.name),
    ("local_path", r.path.toString), ("remote_url", r.remote), ("branch", r.branch),
    ("index_status", r.status.name), ("last_commit_hash", r.commit), ("indexed_at", r.indexedAt),
    ("file_count", r.files), ("symbol_count", r.symbols),
    ("language_stats", .obj (← recordOf r.languages))])

/-- Reads a repository; a path that is given starts in `directory`. -/
def ofRecord (directory : Text.Path) (r : Record) : Outcome Repository := do
  let id ← require r "id"
  let path ← asText (Record.given r "local_path" id)
  let status ← IndexStatus.ofValue (Record.given r "index_status" IndexStatus.notIndexed.name)
  checkFields r ["id", "workspace_id", "name"]
    ["local_path", "remote_url", "branch", "index_status", "last_commit_hash", "indexed_at",
     "file_count", "symbol_count", "language_stats"]
  let field := Record.given r
  pure { id := ← asKey id, workspace := field "workspace_id" .null, name := field "name" .null
         path := directory.join (.ofString path), remote := field "remote_url" ""
         branch := field "branch" "main", status, commit := field "last_commit_hash" .null
         indexedAt := field "indexed_at" .null, files := field "file_count" (.int 0)
         symbols := field "symbol_count" (.int 0), languages := field "language_stats" (.obj []) }

end Repository

/-- What a run found out about a repository; null says nothing. -/
structure Findings where
  commit : Value := .null
  files : Value := .null
  symbols : Value := .null
  languages : Value := .null

def Findings.ofRecord (r : Record) : Findings :=
  let field := Record.get r
  { commit := field "commit", files := field "file_count", symbols := field "symbol_count"
    languages := field "language_stats" }

abbrev Registry := OrderedMap Key Repository

namespace Registry

def register (x : Registry) (r : Repository) : Registry := x.insert r.id r

def find (x : Registry) (id : Key) : Outcome Repository :=
  match x.get? id with
  | some r => pure r
  | none => throw (.unknownRepository id.toValue)

def ofWorkspace (x : Registry) (workspace : Value) : List Repository :=
  x.values.filter (·.workspace.same workspace)

/-- The found value unless it is null. -/
def found (old new : Value) : Value :=
  match new with
  | .null => old
  | v => v

/-- Records the outcome of a run. What is found before the languages turn out to be no record
stays. -/
def update (id : Key) (status : IndexStatus) (new : Findings) (now : Int) :
    Act Registry Repository := do
  let r ← Act.ofOutcome (find (← get) id)
  let r := { r with status, commit := found r.commit new.commit }
  modify (·.register r)
  let languages ← Act.ofOutcome (optional recordOf new.languages)
  let r := { r with
    languages := (languages.map Value.obj).getD r.languages
    files := found r.files new.files
    symbols := found r.symbols new.symbols
    indexedAt := if status = .indexed then .int now else r.indexedAt }
  modify (·.register r)
  pure r

end Registry

end SourceAtlas.Index
