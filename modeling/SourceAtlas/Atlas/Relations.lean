import SourceAtlas.Atlas.Basic
import SourceAtlas.Search.Fusion

/-!
# Relations between symbols

Edges are added to the engine first and then to the store. Should the store
fail, the engine keeps the edge.
-/

namespace SourceAtlas.Atlas

open Json (Value Record Key)

/-- Reads all edges into the engine; types that cannot be read are left out. -/
def startEngine : Act Atlas Unit :=
  modify fun a => { a with
    engine := .ofPairs (EdgeType.all.map fun type => (type, a.edgesOfType type)) }

/-- Hands edges to the engine, then to the store under the name of an operation. -/
def writeThrough (operation : String) (es : List Edge) (write : Act Atlas Unit) :
    Act Atlas Unit := do
  inEngine (es.forM Graph.Engine.link)
  match ← Act.attempt write with
  | .ok () => pure ()
  | .error f => throw (.graphWrite operation f)

def addEdge (source target : Value) (type : EdgeType) (confidence : Value) : Act Atlas Edge := do
  (← get).engine.require "add_edge"
  let e ← Act.ofOutcome (Edge.make source target type confidence)
  writeThrough "create_edge" [e] (putEdge e)
  pure e

def addEdges (es : List Edge) : Act Atlas Unit := do
  (← get).engine.require "batch_add_edges"
  if es.isEmpty then return
  writeThrough "batch_create_edges" es (putEdges es)

/-- A query of the store, which answers with the start alone when it fails. -/
def reach (a : Atlas) (start depth : Value) (type : Option EdgeType)
    (direction : Graph.Direction) : Graph.Traversal :=
  match a.queryEdges start depth type direction with
  | .ok t => t
  | .error _ => .at start

/-- What a reference stands for: the symbol that has it, else the symbols of that name in the
workspace, else itself. -/
def resolve (target : Key) (workspace : Value) : Act Atlas (List (Key × Option Document)) := do
  let known (d : Document) : Outcome (Key × Option Document) := do
    pure (← asKey (← require d "id"), some d)
  match ← getSymbol target.toValue with
  | some d => pure [← known d]
  | none =>
    match ← findSymbols workspace target.toValue with
    | [] => pure [(target, none)]
    | ds => ds.mapM fun d => known d

/-- Whether a symbol that was resolved is kept; under a filter an unknown one is not. -/
def keeps (filters : Search.Filters) (workspace : Value) (document : Option Document) :
    Outcome Bool :=
  if filters.isEmpty then pure true
  else match document with
    | some d => filters.accepts workspace d
    | none => pure false

def dependenciesOf (hit : Search.TextHit Float) : Act Atlas (List Key) := do
  let ref := (Document.ref? hit.fields).getD hit.id.toValue
  pure ((← (← get).engine.dependencies (← asKey ref) none).map Prod.fst)

/-- The best full-text hits, each followed by what it depends on. -/
def searchRelated (query workspace limit : Value) (filters : Search.Filters) :
    Act Atlas (List (Search.Related Float)) := do
  serving .searchRelated
  let plan := (← get).plan
  if !plan.relates then return []
  let limit := if limit.truthy then limit else plan.relatedLimit
  let hits ← searchTexts query workspace filters limit
  let groups ← hits.mapM fun hit => do
    let resolved ← (← dependenciesOf hit).mapM fun target => resolve target workspace
    let kept ← resolved.flatten.filterM fun s => Act.ofOutcome (keeps filters workspace s.2)
    pure (⟨hit.id, 0.0⟩ :: kept.map fun s => (⟨s.1, 1.0⟩ : Search.Related Float))
  pure groups.flatten

end SourceAtlas.Atlas
