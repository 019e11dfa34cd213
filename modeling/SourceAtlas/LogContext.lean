import SourceAtlas.Json.Value
import SourceAtlas.OrderedMap

/-!
# Log contexts

Variables are bound for the lines logged inside a block. Leaving a block
unbinds its variables; values that they had outside are not restored.
-/

namespace SourceAtlas

open Json (Value Record)

abbrev Bindings := OrderedMap String Value

structure LogContext where
  bound : Bindings := .empty
  /-- The variables of the blocks that are open, innermost first. -/
  blocks : List (List String) := []

namespace LogContext

def bind (x : LogContext) (vars : Record) : LogContext :=
  { x with bound := vars.foldl (fun m v => m.insert v.1 v.2) x.bound }

def unbind (x : LogContext) (names : List String) : LogContext :=
  { x with bound := names.foldl .erase x.bound }

def clear (x : LogContext) : LogContext := { x with bound := .empty }

def enter (x : LogContext) (vars : Record) : LogContext :=
  { x.bind vars with blocks := vars.map Prod.fst :: x.blocks }

/-- Leaves the innermost block, if one is open. -/
def leave (x : LogContext) : LogContext :=
  match x.blocks with
  | [] => x
  | names :: outer => { x.unbind names with blocks := outer }

end LogContext

end SourceAtlas
