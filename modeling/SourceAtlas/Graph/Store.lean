import SourceAtlas.Graph.Edges
import SourceAtlas.Graph.Ledger
import SourceAtlas.Graph.Symbols

/-!
# The graph store

What is known of symbols, edges and indexed files, with the workspace of each
repository. The store can be written as a record and read back.
-/

namespace SourceAtlas.Graph

open Json (Value Record Key)

structure Store where
  symbols : Symbols := {}
  edges : Edges := {}
  ledger : Ledger := .empty
  workspaceOf : OrderedMap Key Value := .empty

namespace Store

def inSymbols {α : Type} (x : Act Symbols α) : Act Store α :=
  Act.within Store.symbols (fun s symbols => { s with symbols }) x

/-- Stores a document under its id. -/
def put (document : Value) : Act Store Unit := do
  let id ← Document.idOf document
  let document ← asRecord document
  inSymbols (Symbols.put id document)
  if let (some repo, some workspace) :=
      (Document.content? document "repo_id", Document.content? document "workspace_id") then
    let repo ← asKey repo
    modify fun x => { x with workspaceOf := x.workspaceOf.insert repo workspace }

/-- Stores documents one by one, up to the first that cannot be stored. -/
def putAll (documents : List Value) : Act Store Unit := documents.forM put

def putKey (x : Store) (key : EdgeKey) : Store := { x with edges := x.edges.put key }

def putEdge (e : Edge) : Act Store Unit := do
  let key ← e.key
  modify (·.putKey key)

def putRow (x : Store) (r : LedgerRow) : Store := { x with ledger := x.ledger.put r }

/-- Forgets which files are indexed, and says how many were. -/
def resetLedger (x : Store) : Store × Nat := ({ x with ledger := .empty }, x.ledger.size)

/-- Removes the documents of a file. Its edges stay until its repository goes. -/
def deleteFile (repo path : Value) : Act Store Nat := do
  pure (← inSymbols (Symbols.drop (Document.ofFile repo path))).length

/-- Removes the documents, the rows and the outgoing edges of a repository. -/
def deleteRepo (repo : Value) : Act Store Nat := do
  let refs ← inSymbols (Symbols.drop (Document.ofRepo repo))
  modify fun x => { x with
    edges := x.edges.removeFrom refs
    ledger := x.ledger.filter fun key _ => !key.1.toValue.same repo }
  let repo ← asKey repo
  modify fun x => { x with workspaceOf := x.workspaceOf.erase repo }
  pure refs.length

/-- Removes the documents of a workspace with their outgoing edges, and the rows of its
repositories. -/
def deleteWorkspace (workspace : Value) : Act Store Nat := do
  let refs ← inSymbols (Symbols.drop (Document.ofWorkspace workspace))
  modify fun x =>
    let repos := (x.workspaceOf.filter fun _ w => w.same workspace).keys
    { x with
      edges := x.edges.removeFrom refs
      ledger := x.ledger.filter fun key _ => !repos.contains key.1
      workspaceOf := x.workspaceOf.filter fun _ w => !w.same workspace }
  pure refs.length

def keyRecord (k : EdgeKey) : Record :=
  [("from", k.1.toValue), ("to", k.2.1.toValue), ("type", k.2.2.name)]

def toRecord (x : Store) : Outcome Record := do
  pure [("symbols", .list (x.symbols.documents.values.map .obj)),
    ("edges", .list ((← x.edges.sorted).map fun k => .obj (keyRecord k))),
    ("metadata", .list (x.ledger.values.map LedgerRow.toValue))]

/-- The members of a section; one that is missing has none. -/
def part (data : Value) (name : String) : Outcome (List Value) := do
  members (← fieldOr data name (.list []))

def edgeKey (v : Value) : Outcome EdgeKey := do
  let r ← asRecord v
  let source ← require r "from"
  let target ← require r "to"
  let type ← EdgeType.ofValue (← require r "type")
  pure (← asKey source, ← asKey target, type)

/-- Replaces the contents by what was written. What was read before a fault stays. -/
def load (data : Value) : Act Store Unit := do
  set ({} : Store)
  putAll (← part data "symbols")
  (← Act.ofOutcome (part data "edges")).forM fun v => do
    let key ← Act.ofOutcome (edgeKey v)
    modify (·.putKey key)
  (← Act.ofOutcome (part data "metadata")).forM fun v => do
    let row ← Act.ofOutcome (LedgerRow.ofValue v)
    modify (·.putRow row)

end Store

end SourceAtlas.Graph
