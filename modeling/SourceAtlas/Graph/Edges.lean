import SourceAtlas.Graph.Breadth
import SourceAtlas.Graph.Multigraph

/-!
# Stored edges

The edges between references. There is at most one edge of a type from one
reference to another; the keys tell which there are without a search.
-/

namespace SourceAtlas.Graph

open Json (Value Key)

/-- The order of pairs by their first difference. -/
def pairLe (a b : Key × Key) : Bool := if a.1 == b.1 then a.2.le b.2 else a.1.le b.1

/-- Whether the first difference of two pairs is one of order. -/
def pairComparable (a b : Key × Key) : Bool :=
  if a.1 == b.1 then a.2 == b.2 || a.2.comparable b.2 else a.1.comparable b.1

/-- The order in which edges are written. -/
def keyLe (a b : EdgeKey) : Bool :=
  if a.1 == b.1 && a.2.1 == b.2.1 then a.2.2.name ≤ b.2.2.name
  else pairLe (a.1, a.2.1) (b.1, b.2.1)

def keyComparable (a b : EdgeKey) : Bool := pairComparable (a.1, a.2.1) (b.1, b.2.1)

inductive Direction where
  | outbound | inbound | both
  deriving DecidableEq

namespace Direction

def name : Direction → String
  | outbound => "outbound"
  | inbound => "inbound"
  | both => "both"

def all : List Direction := [outbound, inbound, both]

def ofValue : Value → Outcome Direction := named "Direction" all name

end Direction

structure Edges where
  graph : Multigraph := {}
  index : OrderedMap Key Nat := .empty
  keys : List EdgeKey := []

namespace Edges

def size (x : Edges) : Nat := x.keys.length

/-- The node of a reference, which is added if it is new. -/
def node (x : Edges) (ref : Key) : Edges × Nat :=
  match x.index.get? ref with
  | some i => (x, i)
  | none =>
    let i := x.graph.nextNode
    ({ x with graph := x.graph.addNode ref, index := x.index.insert ref i }, i)

/-- Adds an edge unless it is there. -/
def put (x : Edges) (key : EdgeKey) : Edges :=
  if x.keys.contains key then x
  else
    let (x, source) := x.node key.1
    let (x, target) := x.node key.2.1
    { x with graph := x.graph.addArc ⟨source, target, key.2.2⟩, keys := x.keys ++ [key] }

/-- The ends of the edges of one type. -/
def ofType (x : Edges) (type : EdgeType) : List (Key × Key) :=
  ((x.graph.arcs.filter (·.type == type)).filterMap x.graph.key?).map fun k => (k.1, k.2.1)

def leaves (x : Edges) (refs : List Key) (a : Arc) : Bool :=
  (x.graph.ref? a.source).any refs.contains

/-- Removes the node of a reference that no edge touches. -/
def dropIsolated (x : Edges) (ref : Key) : Edges :=
  match x.index.get? ref with
  | some i =>
    if x.graph.isIsolated i then
      { x with graph := x.graph.removeNode i, index := x.index.erase ref }
    else x
  | none => x

/-- Removes the edges out of some references. -/
def removeFrom (x : Edges) (refs : List Key) : Edges :=
  let gone := (x.graph.arcs.filter (x.leaves refs)).filterMap x.graph.key?
  let rest : Edges :=
    { x with graph := x.graph.removeArcs (x.leaves refs)
             keys := x.keys.filter (!gone.contains ·) }
  refs.foldl dropIsolated rest

/-- The edges at a node: those out of it, then those into it. -/
def incident (x : Edges) (direction : Direction) (node : Nat) : List Arc :=
  (if direction = .inbound then [] else x.graph.outgoing node) ++
  (if direction = .outbound then [] else x.graph.incoming node)

/-- The value that a node stands for. -/
def valueAt (x : Edges) (node : Nat) : Value := ((x.graph.ref? node).map Key.toValue).getD .null

def steps (x : Edges) (direction : Direction) (type : Option EdgeType) (node : Nat) :
    Outcome (List (Step Nat)) :=
  ((x.incident direction node).filter fun a => type.all (· == a.type)).mapM fun a => do
    pure ⟨if a.source == node then a.target else a.source,
      ← Edge.make (x.valueAt a.source) (x.valueAt a.target) a.type⟩

/-- Follows edges from a reference over at most `depth` steps. -/
def query (x : Edges) (start : Key) (depth : Value) (type : Option EdgeType)
    (direction : Direction) : Outcome Traversal :=
  match x.index.get? start with
  | none => pure (.at start.toValue)
  | some i => do
    let found ← search (x.steps direction type) (← asCount x.graph.next depth) i
    pure ⟨start.toValue :: found.nodes.tail.map x.valueAt, found.steps.map Step.edge⟩

/-- The keys in the order in which they are written. -/
def sorted (x : Edges) : Outcome (List EdgeKey) := sortChecked keyLe keyComparable x.keys

end Edges

end SourceAtlas.Graph
