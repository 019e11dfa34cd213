import SourceAtlas.Extract.Walk

/-!
# TypeScript, TSX and JavaScript

A declaration is exported if some ancestor is an export. Variables are
symbols when their value is a function.
-/

namespace SourceAtlas.Extract.EcmaScript

open Syntax (Source Cursor)

def isExport (c : Cursor) : Bool := c.kind == "export_statement" || c.kind == "export_declaration"

def exported (c : Cursor) : Bool := c.ancestors.any isExport

/-- The comment in front of a node, else the one in front of the export around it. -/
def doc (src : Source) (c : Cursor) : Option String :=
  docComment src c <|> (c.parent?.filter isExport).bind (docComment src)

/-- A single parameter without parentheses gets them. -/
def parameters (src : Source) (c : Cursor) : String :=
  match c.child? "parameters", c.child? "parameter" with
  | some ps, _ => ps.text src
  | none, some p => "(" ++ p.text src ++ ")"
  | none, none => ""

def signature (src : Source) (c : Cursor) (name lead : String) : String :=
  { name, lead, parameters := parameters src c,
    returnType := c.fieldText src "return_type" : Signature }.text

def methodVisibility (src : Source) (c : Cursor) (name : String) : Visibility :=
  if Text.hasStart "#" name then .privately
  else match (c.childOfKind? ["accessibility_modifier"]).map (·.text src) with
    | some "private" => .privately
    | some "protected" => .protectedly
    | _ => .publicly

def named (src : Source) (c : Cursor) (scope : Scope) (kind : SymbolKind) (placeholder : String) :
    Visit :=
  .declare
    { symbolAt src c c scope (nameOf src c placeholder) kind with
      exported := exported c
      doc := doc src c }

/-- A variable whose value is a function; its code is the whole statement. -/
def functionVariable (src : Source) (c : Cursor) (scope : Scope) : Visit :=
  match c.child? "value", c.child? "name" with
  | some value, some name =>
    if ["arrow_function", "function_expression", "function"].contains value.kind &&
        name.kind == "identifier" then
      let name := name.text src
      let statement := match c.parent? with
        | some p =>
          if p.kind == "lexical_declaration" || p.kind == "variable_declaration" then p else c
        | none => c
      .declare
        { symbolAt src c statement scope name .function with
          exported := exported c
          signature := some (signature src value name ("const " ++ name ++ " = "))
          doc := doc src statement }
    else {}
  | _, _ => {}

def visit (src : Source) (c : Cursor) (scope : Scope) : Visit :=
  match c.kind with
  | "function_declaration" | "generator_function_declaration" =>
    let name := nameOf src c "anonymous"
    .declare
      { symbolAt src c c scope name .function with
        exported := exported c
        signature := some (signature src c name "function ")
        doc := doc src c }
  | "method_definition" =>
    let name := nameOf src c "anonymous"
    .declare
      { symbolAt src c c scope name .method with
        visibility := methodVisibility src c name
        exported := exported c
        signature := some (signature src c name "method ")
        doc := doc src c }
  | "class_declaration" | "abstract_class_declaration" =>
    named src c scope .class_ "AnonymousClass"
  | "interface_declaration" => named src c scope .interface "AnonymousInterface"
  | "type_alias_declaration" => named src c scope .type "AnonymousType"
  | "enum_declaration" => named src c scope .enumeration "AnonymousEnum"
  | "variable_declarator" => functionVariable src c scope
  | _ => {}

end SourceAtlas.Extract.EcmaScript
