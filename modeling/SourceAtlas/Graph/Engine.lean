import SourceAtlas.Graph.Breadth
import SourceAtlas.OrderedMap

/-!
# The graph engine

The edges of the store, laid out in memory in both directions, so that look-ups
and traversals need no store.
-/

namespace SourceAtlas.Graph

open Json (Value Record Key)

/-- The neighbours of each reference by type of edge. -/
abbrev Adjacency := OrderedMap Key (OrderedMap EdgeType (List Key))

namespace Adjacency

/-- Makes a place for the neighbours of a reference. -/
def touch (m : Adjacency) (ref : Key) (type : EdgeType) : Adjacency :=
  m.update ref .empty fun byType => byType.update type [] id

/-- Adds a neighbour unless it is there. -/
def link (m : Adjacency) (ref neighbour : Key) (type : EdgeType) : Adjacency :=
  m.update ref .empty fun byType =>
    byType.update type [] fun all => if all.contains neighbour then all else all ++ [neighbour]

/-- The neighbours of a reference: types in order of their first edge, neighbours sorted. -/
def lookup (m : Adjacency) (ref : Key) (type : Option EdgeType) :
    Outcome (List (Key × EdgeType)) := do
  let byType := ((m.get? ref).getD .empty).entries.filter fun e => type.all (· == e.1)
  let groups ← byType.mapM fun (kind, all) => do pure ((← sortKeys all).map (·, kind))
  pure groups.flatten

end Adjacency

structure Engine where
  out : Adjacency := .empty
  inbound : Adjacency := .empty
  ready : Bool := false

namespace Engine

def linkKey (x : Engine) (key : EdgeKey) : Engine :=
  { x with out := x.out.link key.1 key.2.1 key.2.2
           inbound := x.inbound.link key.2.1 key.1 key.2.2 }

/-- Adds an edge. Its source stays known if its target is no key. -/
def link (e : Edge) : Act Engine Unit := do
  let source ← asKey e.source
  modify fun x => { x with out := x.out.touch source e.type }
  let target ← asKey e.target
  modify (·.linkKey (source, target, e.type))

/-- An engine with the edges that could be read; a type that could not is left out. -/
def ofPairs (read : List (EdgeType × Outcome (List (Key × Key)))) : Engine :=
  let edges := read.flatMap fun (type, pairs) => match pairs with
    | .ok ps => ps.map fun p => (p.1, p.2, type)
    | .error _ => []
  { edges.foldl linkKey ({} : Engine) with ready := true }

/-- Changes need an engine that has read its edges. -/
def require (x : Engine) (operation : String) : Outcome Unit :=
  if x.ready then pure () else throw (.engineNotReady operation)

/-- Drops all edges from memory. -/
def clear (x : Engine) : Engine := { x with out := .empty, inbound := .empty }

def dependencies (x : Engine) (ref : Key) (type : Option EdgeType) :
    Outcome (List (Key × EdgeType)) := x.out.lookup ref type

def dependents (x : Engine) (ref : Key) (type : Option EdgeType) :
    Outcome (List (Key × EdgeType)) := x.inbound.lookup ref type

def steps (x : Engine) (type : Option EdgeType) (ref : Key) : Outcome (List (Step Key)) := do
  (← x.dependencies ref type).mapM fun (target, kind) => do
    pure ⟨target, ← Edge.make ref.toValue target.toValue kind⟩

/-- The number of references at either end of some edge. -/
def nodeCount (x : Engine) : Nat :=
  x.out.size + (x.inbound.filter fun ref _ => !x.out.contains ref).size

/-- Follows outgoing edges over at most `depth` steps. -/
def traverse (x : Engine) (start : Key) (depth : Value) (type : Option EdgeType) :
    Outcome Traversal := do
  let found ← search (x.steps type) (← asCount (x.nodeCount + 1) depth) start
  pure ⟨found.nodes.map Key.toValue, found.steps.map Step.edge⟩

def countOf (x : Engine) (type : EdgeType) : Nat :=
  x.out.values.foldl (fun n byType => n + ((byType.get? type).getD []).length) 0

def edgeCount (x : Engine) : Nat := EdgeType.all.foldl (fun n type => n + x.countOf type) 0

def stateName (x : Engine) : String := if x.ready then "ready" else "uninitialized"

def stats (x : Engine) : Value :=
  let types := EdgeType.all.filter fun t => x.out.values.any (·.contains t)
  .obj [("state", x.stateName), ("node_count", .int x.nodeCount),
    ("edge_count", .int x.edgeCount),
    ("edges_by_type", .obj (types.map fun t => (t.name, .int (x.countOf t))))]

end Engine

end SourceAtlas.Graph
