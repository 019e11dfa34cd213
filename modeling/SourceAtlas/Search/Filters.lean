import SourceAtlas.Document
import SourceAtlas.Text.Blank

/-!
# Search filters

A filter restricts a search to repositories, a language and kinds of symbols
within a workspace. A part without content restricts nothing. Allowed values
may be given as a list, as the names of a record, or as a text that has to
hold the value.
-/

namespace SourceAtlas.Search

open Json (Value Record)

structure Filters where
  repos : Value := .list []
  language : Value := .null
  kinds : Value := .list []

namespace Filters

def ofRecord (r : Record) : Outcome Filters := do
  checkFields r [] ["repo_ids", "language", "symbol_kinds"]
  pure { repos := Record.given r "repo_ids" (.list [])
         language := Record.given r "language" .null
         kinds := Record.given r "symbol_kinds" (.list []) }

def isEmpty (f : Filters) : Bool :=
  !f.repos.truthy && !f.language.truthy && !f.kinds.truthy

/-- Whether a value is among the allowed ones. -/
def oneOf (allowed v : Value) : Outcome Bool :=
  match allowed, v with
  | .list vs, _ => pure (vs.any v.same)
  | .obj names, _ => do
    discard (asKey v)
    pure (names.any fun f => v.isText f.1)
  | .str s, .str part => pure (Text.occursIn part.toList s.toList)
  | _, _ => misfit

/-- Whether a document lies in the workspace, unless that is null, and passes the filter. -/
def accepts (f : Filters) (workspace : Value) (d : Document) : Outcome Bool := do
  let field := Record.get d
  if !(workspace.same .null || Document.ofWorkspace workspace d) then return false
  if f.repos.truthy then
    if !(← oneOf f.repos (field "repo_id")) then return false
  if f.language.truthy && !Document.has "language" f.language d then return false
  if f.kinds.truthy then oneOf f.kinds (field "symbol_kind") else pure true

def equals (field : String) (v : Value) : String := field ++ " = \"" ++ Json.plain v ++ "\""

/-- One of several values, in parentheses. -/
def anyOf (field : String) (allowed : Value) : Outcome (List String) := do
  if !allowed.truthy then return []
  pure ["(" ++ String.intercalate " OR " ((← members allowed).map (equals field)) ++ ")"]

/-- The filter as an expression of the remote index. -/
def expression (f : Filters) (workspace : Value) : Outcome (Option String) := do
  let single (field : String) (given : Bool) (v : Value) : List String :=
    if given then [equals field v] else []
  let terms := single "workspace_id" (!workspace.same .null) workspace ++
    (← anyOf "repo_id" f.repos) ++ single "language" f.language.truthy f.language ++
    (← anyOf "symbol_kind" f.kinds)
  pure (if terms.isEmpty then none else some (String.intercalate " AND " terms))

end Filters

end SourceAtlas.Search
