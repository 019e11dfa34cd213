import SourceAtlas.Chunk
import SourceAtlas.Edge
import SourceAtlas.Graph.Ledger
import SourceAtlas.Index.Repository
import SourceAtlas.Language

/-!
# Reports

What came of one file, and of all files of a repository.
-/

namespace SourceAtlas.Index

open Json (Value Record Key)

/-- What a file yields for the stores. -/
structure Yield where
  chunks : List Chunk := []
  edges : List Edge := []
  rows : List Graph.LedgerRow := []

def Yield.append (x y : Yield) : Yield :=
  ⟨x.chunks ++ y.chunks, x.edges ++ y.edges, x.rows ++ y.rows⟩

inductive FileResult where
  | unsupported
  | unchanged (language : Language)
  | indexed (language : Language) (yield : Yield)

namespace FileResult

def language? : FileResult → Option Language
  | unsupported => none
  | unchanged l => some l
  | indexed l _ => some l

def skipReason? : FileResult → Option String
  | unsupported => some "unsupported"
  | unchanged _ => some "unchanged"
  | indexed .. => none

def yield : FileResult → Yield
  | indexed _ y => y
  | _ => {}

/-- The fields of a report on one file, but for its chunks. -/
def toRecord (r : FileResult) (path : String) : Record :=
  [("file_path", .str path), ("language", Value.ofOption (fun l => .str l.name) r.language?),
   ("skip_reason", Value.ofText? r.skipReason?), ("skipped", .bool r.skipReason?.isSome),
   ("symbol_count", .int r.yield.chunks.length),
   ("edges", .list (r.yield.edges.map Edge.toValue)),
   ("metadata", Value.ofOption Graph.LedgerRow.toValue r.yield.rows.head?)]

end FileResult

/-- How many files there are of each language. -/
abbrev LanguageCounts := OrderedMap String Nat

def LanguageCounts.toValue (m : LanguageCounts) : Value :=
  .obj (m.entries.map fun e => (e.1, .int e.2))

/-- The summary of a run over the files of a repository, with all that they yield. -/
structure Report where
  repo : Key
  commit : String := ""
  total : Nat := 0
  indexed : Nat := 0
  skipped : Nat := 0
  symbols : Nat := 0
  /-- The files that failed, with the failures. -/
  errors : List (String × Failure) := []
  languages : LanguageCounts := .empty
  yield : Yield := {}

namespace Report

def count (r : Report) (l : Language) : Report :=
  { r with languages := r.languages.update l.name 0 (· + 1) }

/-- Folds what came of one file into the summary. A file that was skipped counts for its language,
if it has one, and yields nothing. -/
def add (r : Report) (x : FileResult) : Report :=
  let r := (x.language?.map r.count).getD r
  if x.skipReason?.isSome then { r with skipped := r.skipped + 1 }
  else { r with
    indexed := r.indexed + 1
    symbols := r.symbols + x.yield.chunks.length
    yield := r.yield.append x.yield }

/-- Enters a file, with its failure if it has one. -/
def enter (r : Report) (path : String) : Outcome FileResult → Report
  | .ok x => r.add x
  | .error f => { r with errors := r.errors ++ [(path, f)] }

def findings (r : Report) : Findings :=
  { commit := r.commit, files := .int r.total, symbols := .int r.symbols
    languages := r.languages.toValue }

def toRecord (r : Report) : Record :=
  [("repo_id", r.repo.toValue), ("commit", r.commit), ("total_files", .int r.total),
   ("indexed_files", .int r.indexed), ("skipped_files", .int r.skipped),
   ("total_symbols", .int r.symbols),
   ("errors", .list (r.errors.map fun (path, f) =>
     .obj [("file", .str path), ("error", .str f.text)])),
   ("language_stats", r.languages.toValue)]

end Report

end SourceAtlas.Index
