import SourceAtlas.Extract.Walk

/-!
# Python

A leading underscore makes a name private unless it also ends like a special
name. Decorators belong to the code of what they decorate.
-/

namespace SourceAtlas.Extract.Python

open Syntax (Source Cursor)

def visibility (name : String) : Visibility :=
  if Text.hasStart "__" name && Text.hasEnd "__" name then .publicly
  else if Text.hasStart "_" name then .privately
  else .publicly

/-- The content of a string literal: letters in front of it and its quotes are dropped. -/
def docstringText (literal : String) : String :=
  let text := literal.toList.dropWhile ("rRbBuUfF".toList.contains ·)
  let quotes := ["\"\"\"", "'''", "\"", "'"].map String.toList
  let body := match quotes.find? fun q =>
      q.isPrefixOf text && q.isSuffixOf text && 2 * q.length ≤ text.length with
    | some q => (text.drop q.length).take (text.length - 2 * q.length)
    | none => text
  Text.strip (String.ofList body)

/-- The string that opens a body, comments aside. -/
def docstring (src : Source) (c : Cursor) : Option String := do
  let body ← c.child? "body"
  let statement ← body.namedChildren.find? (·.kind != "comment")
  let first ← if statement.kind == "expression_statement" then statement.namedChildren.head?
    else none
  if first.kind == "string" then some (docstringText (first.text src)) else none

/-- The decorated definition around a node, or the node itself. -/
def outer (c : Cursor) : Cursor :=
  match c.parent? with
  | some p => if p.kind == "decorated_definition" then p else c
  | none => c

/-- Whether the nearest enclosing definition is a class. -/
def inClass (c : Cursor) : Bool :=
  match c.ancestors.find? fun a =>
      a.kind == "class_definition" || a.kind == "function_definition" with
  | some a => a.kind == "class_definition"
  | none => false

def doc (src : Source) (c : Cursor) : Option String :=
  match docstring src c with
  | none | some "" => docComment src (outer c)
  | d => d

def define (src : Source) (c code : Cursor) (scope : Scope) (name : String) (kind : SymbolKind)
    (signature : String) (doc : Option String) : Visit :=
  let shown := visibility name
  .declare
    { symbolAt src c code scope name kind with
      visibility := shown
      exported := scope.isNone && shown == .publicly
      signature := some signature
      doc }

def visit (src : Source) (c : Cursor) (scope : Scope) : Visit :=
  match c.kind with
  | "function_definition" =>
    let name := nameOf src c "anonymous"
    let signature : Signature :=
      { name
        parameters := c.fieldText src "parameters"
        returnType := c.fieldText src "return_type"
        separator := " -> " }
    define src c (outer c) scope name (if inClass c then .method else .function) signature.text
      (doc src c)
  | "class_definition" =>
    let name := nameOf src c "AnonymousClass"
    define src c (outer c) scope name .class_
      ("class " ++ name ++ c.fieldText src "superclasses") (doc src c)
  | "assignment" =>
    match c.child? "left", c.child? "right" with
    | some left, some right =>
      if left.kind == "identifier" && right.kind == "lambda" then
        let name := left.text src
        let statement := match c.parent? with
          | some p => if p.kind == "expression_statement" then p else c
          | none => c
        define src c c scope name .function (name ++ " = " ++ right.text src)
          (docComment src statement)
      else {}
    | _, _ => {}
  | _ => {}

end SourceAtlas.Extract.Python
