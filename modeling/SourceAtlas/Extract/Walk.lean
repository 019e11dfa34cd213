import SourceAtlas.Extract.Declaration

/-!
# The extraction walk

A tree is walked in pre-order. Each node is visited under the scope of the
nearest ancestor that opened one, and may declare symbols and open a scope of
its own for what lies below it.
-/

namespace SourceAtlas.Extract

open Syntax (Source Cursor Tree)

structure Visit where
  symbols : List Symbol := []
  /-- The scope that the node opens, if any. -/
  scope : Scope := none

/-- Declares one symbol, which is the scope of what lies below. -/
def Visit.declare (s : Symbol) : Visit := ⟨[s], some s.qualifiedName⟩

abbrev Visitor := Cursor → Scope → Visit

/-- The symbols of the subtrees on a stack, each under its scope. -/
def walkStack (visit : Visitor) : List (Cursor × Scope) → List Symbol
  | [] => []
  | (c, scope) :: rest =>
    let v := visit c scope
    let inner := v.scope <|> scope
    v.symbols ++ walkStack visit (c.children.map (fun d => (d, inner)) ++ rest)
termination_by stack => Cursor.weight (stack.map Prod.fst)
decreasing_by
  have := Cursor.weight_children c
  have h : (c.children.map fun d => (d, inner)).map Prod.fst = c.children := by
    simp [Function.comp_def]
  rw [List.map_append, Cursor.weight_append, h]
  simp only [List.map_cons, Cursor.weight]
  omega

def walk (visit : Visitor) (c : Cursor) : List Symbol := walkStack visit [(c, none)]

end SourceAtlas.Extract
