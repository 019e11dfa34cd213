import SourceAtlas.Json.Access
import SourceAtlas.OrderedMap

/-!
# The index ledger

A row for each file that was indexed, with the hash of the content that is
stored for it.
-/

namespace SourceAtlas.Graph

open Json (Value Record Key)

structure LedgerRow where
  repo : Key
  path : Key
  hash : Value
  indexedAt : Value
  symbols : Value
  language : Value
  size : Value

namespace LedgerRow

def fields : List String :=
  ["repo_id", "file_path", "content_hash", "last_indexed_at", "symbol_count", "language", "file_size"]

def toValue (r : LedgerRow) : Value :=
  .obj [("repo_id", r.repo.toValue), ("file_path", r.path.toValue), ("content_hash", r.hash),
    ("last_indexed_at", r.indexedAt), ("symbol_count", r.symbols), ("language", r.language),
    ("file_size", r.size)]

/-- Reads a row, which has all fields and no others. -/
def ofValue (v : Value) : Outcome LedgerRow := do
  let r ← asRecord v
  checkFields r fields []
  let field := Record.get r
  pure { repo := ← asKey (field "repo_id"), path := ← asKey (field "file_path")
         hash := field "content_hash", indexedAt := field "last_indexed_at"
         symbols := field "symbol_count", language := field "language", size := field "file_size" }

end LedgerRow

/-- Rows by repository and path. -/
abbrev Ledger := OrderedMap (Key × Key) LedgerRow

namespace Ledger

def put (l : Ledger) (r : LedgerRow) : Ledger := l.insert (r.repo, r.path) r

/-- The row of a file whose content is the one that was indexed. -/
def unchanged? (l : Ledger) (repo path : Key) (hash : Value) : Option LedgerRow :=
  (l.get? (repo, path)).filter (·.hash.same hash)

end Ledger

end SourceAtlas.Graph
