import SourceAtlas.Edge
import SourceAtlas.OrderedMap

/-!
# Multigraphs

Nodes are numbers that carry references; arcs join nodes. A new node gets the
number of the node that was removed last, if there is one whose number is free.
-/

namespace SourceAtlas.Graph

open Json (Key)

structure Arc where
  source : Nat
  target : Nat
  type : EdgeType
  deriving DecidableEq

structure Multigraph where
  refs : OrderedMap Nat Key := .empty
  /-- The numbers of removed nodes that are free, the one that was removed last first. -/
  vacant : List Nat := []
  /-- The first number that was never given out. -/
  next : Nat := 0
  /-- The oldest arc comes first. -/
  arcs : List Arc := []

namespace Multigraph

def ref? (g : Multigraph) (node : Nat) : Option Key := g.refs.get? node

/-- The number that the next node gets. -/
def nextNode (g : Multigraph) : Nat := g.vacant.headD g.next

def addNode (g : Multigraph) (ref : Key) : Multigraph :=
  { g with
    refs := g.refs.insert g.nextNode ref
    vacant := g.vacant.tail
    next := if g.vacant.isEmpty then g.next + 1 else g.next }

def addArc (g : Multigraph) (a : Arc) : Multigraph := { g with arcs := g.arcs ++ [a] }

def removeArcs (g : Multigraph) (p : Arc → Bool) : Multigraph :=
  { g with arcs := g.arcs.filter (!p ·) }

def removeNode (g : Multigraph) (node : Nat) : Multigraph :=
  { g with refs := g.refs.erase node, vacant := node :: g.vacant }

/-- The arcs out of a node, the newest first. -/
def outgoing (g : Multigraph) (node : Nat) : List Arc := (g.arcs.filter (·.source == node)).reverse

/-- The arcs into a node, the newest first. -/
def incoming (g : Multigraph) (node : Nat) : List Arc := (g.arcs.filter (·.target == node)).reverse

def isIsolated (g : Multigraph) (node : Nat) : Bool :=
  g.arcs.all fun a => a.source != node && a.target != node

/-- What an arc says in terms of references. -/
def key? (g : Multigraph) (a : Arc) : Option EdgeKey := do
  pure (← g.ref? a.source, ← g.ref? a.target, a.type)

end Multigraph

end SourceAtlas.Graph
