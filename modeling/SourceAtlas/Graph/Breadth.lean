import SourceAtlas.Edge

/-!
# Breadth-first search

A search of bounded depth from one node. A node is listed once, when it is
first reached. Every step out of a node that is expanded is listed, also one
into a node that was reached before. The search fails with the first node
whose steps cannot be told.
-/

namespace SourceAtlas.Graph

open Json (Value Key)

/-- An edge that is followed, and where it leads. -/
structure Step (ν : Type) where
  next : ν
  edge : Edge

structure Visit (ν : Type) where
  nodes : List ν
  steps : List (Step ν)

section
variable {ν : Type} [BEq ν]

/-- The nodes that are not seen, each once. -/
def fresh (seen : List ν) : List ν → List ν
  | [] => []
  | x :: xs => if seen.contains x then fresh seen xs else x :: fresh (x :: seen) xs

/-- Expands a frontier level by level. -/
def expand (steps : ν → Outcome (List (Step ν))) :
    (depth : Nat) → (seen frontier : List ν) → Outcome (Visit ν)
  | 0, _, _ => pure ⟨[], []⟩
  | _ + 1, _, [] => pure ⟨[], []⟩
  | depth + 1, seen, frontier => do
    let taken := (← frontier.mapM steps).flatten
    let new := fresh seen (taken.map Step.next)
    let later ← expand steps depth (seen ++ new) new
    pure ⟨new ++ later.nodes, taken ++ later.steps⟩

def search (steps : ν → Outcome (List (Step ν))) (depth : Nat) (start : ν) :
    Outcome (Visit ν) := do
  let found ← expand steps depth [start] [start]
  pure ⟨start :: found.nodes, found.steps⟩

end

/-- The references that a search reached and the edges that it followed. -/
structure Traversal where
  nodes : List Value
  edges : List Edge

/-- The start alone. -/
def Traversal.at (start : Value) : Traversal := ⟨[start], []⟩

def Traversal.toValue (t : Traversal) : Value :=
  .obj [("nodes", .list t.nodes), ("edges", .list (t.edges.map fun e => .obj e.toRecord))]

end SourceAtlas.Graph
