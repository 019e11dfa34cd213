import SourceAtlas.Extract.Walk

/-!
# C

Functions, prototypes, function pointers and aggregates with a body. A
prototype of a function that the same scope defines declares nothing.
-/

namespace SourceAtlas.Extract.C

open Syntax (Source Cursor)

/-- Follows declarators down to the one of a function; `fuel` bounds the depth. -/
def functionDeclaratorFrom : Nat → Cursor → Option Cursor
  | 0, _ => none
  | fuel + 1, c =>
    if c.kind == "function_declarator" then some c
    else match c.child? "declarator" <|> c.namedChildren.getLast? with
      | some next => functionDeclaratorFrom fuel next
      | none => none

/-- The function declarator below pointers, references and parentheses. -/
def functionDeclarator (c : Cursor) : Option Cursor :=
  (c.child? "declarator").bind fun d => functionDeclaratorFrom d.tree.size d

/-- The name that a function declarator declares; it may name an owner as well. -/
def declaredName (src : Source) (declarator : Option Cursor) : String :=
  match declarator.bind (·.child? "declarator") with
  | none => ""
  | some target =>
    if ["identifier", "field_identifier", "qualified_identifier", "destructor_name",
        "operator_name", "template_function"].contains target.kind then target.text src
    else match (target.descendants ["identifier", "field_identifier"]).head? with
      | some name => name.text src
      | none => ""

def signature (src : Source) (c : Cursor) (declarator : Option Cursor) (name : String) : String :=
  let type := c.fieldText src "type"
  { name
    parameters := (declarator.map (·.fieldText src "parameters")).getD ""
    lead := if type == "" then "" else type ++ " " : Signature }.text

def isStatic (src : Source) (c : Cursor) : Bool :=
  c.children.any fun d => d.kind == "storage_class_specifier" && d.text src == "static"

def isFunctionPointer (declarator : Option Cursor) : Bool :=
  match declarator.bind (·.child? "declarator") with
  | some target => target.kind == "parenthesized_declarator"
  | none => false

/-- The names of the functions defined directly in a scope. -/
def definedFunctions (src : Source) (scope : Option Cursor) : List String :=
  match scope with
  | none => []
  | some s => (s.namedChildren.filter (·.kind == "function_definition")).map fun d =>
    declaredName src (functionDeclarator d)

def visibilityOf (static : Bool) : Visibility := if static then .privately else .publicly

def function (src : Source) (c : Cursor) (scope : Scope) : Visit :=
  let declarator := functionDeclarator c
  let name := nameOr "anonymous" (declaredName src declarator)
  let static := isStatic src c
  .declare
    { symbolAt src c c scope name .function with
      visibility := visibilityOf static
      exported := !static
      signature := some (signature src c declarator name)
      doc := docComment src c }

def declaration (src : Source) (c : Cursor) (scope : Scope) : Visit :=
  let declarator := functionDeclarator c
  let name := declaredName src declarator
  let pointer := isFunctionPointer declarator
  let static := !pointer && isStatic src c
  if name == "" || (!pointer && (definedFunctions src c.parent?).contains name) then {}
  else
    .declare
      { symbolAt src c c scope name .function with
        visibility := visibilityOf static
        exported := !pointer && !static
        signature := some (signature src c declarator name)
        doc := docComment src c }

/-- A struct, union, enum or class with a body; a type definition around it may name it. -/
def aggregate (src : Source) (visibility : Cursor → Visibility) (c : Cursor) (scope : Scope) :
    Visit :=
  if (c.child? "body").isNone then {}
  else
    let place := match c.parent? with
      | some p => if p.kind == "type_definition" then p else c
      | none => c
    let own := c.fieldText src "name"
    let name := if own == "" && place.kind == "type_definition" then
      place.fieldText src "declarator" else own
    let placeholder := match c.kind with
      | "enum_specifier" => "AnonymousEnum"
      | "class_specifier" => "AnonymousClass"
      | _ => "AnonymousStruct"
    let kind := if c.kind == "enum_specifier" then .enumeration else .class_
    .declare
      { symbolAt src place place scope (nameOr placeholder name) kind with
        visibility := visibility place
        doc := docComment src place }

def visit (src : Source) (c : Cursor) (scope : Scope) : Visit :=
  match c.kind with
  | "function_definition" => function src c scope
  | "declaration" => declaration src c scope
  | "struct_specifier" | "union_specifier" | "enum_specifier" =>
    aggregate src (fun _ => .publicly) c scope
  | _ => {}

end SourceAtlas.Extract.C
