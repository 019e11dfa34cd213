import SourceAtlas.Extract.C

/-!
# C++

Adds classes, namespaces, methods declared in a class body and definitions
outside of it. Where a method is defined outside of its class, only the
definition is kept.
-/

namespace SourceAtlas.Extract.Cpp

open Syntax (Source Cursor)

/-- The parts of a name between double colons. -/
def nameParts (name : String) : List String := go [] name.toList
where
  go (part : List Char) : List Char → List String
    | [] => [String.ofList part.reverse]
    | ':' :: ':' :: rest => String.ofList part.reverse :: go [] rest
    | c :: rest => go (c :: part) rest

def joinDots (parts : List String) : String := String.intercalate "." parts

/-- The template declaration around a node, or the node itself. -/
def member (c : Cursor) : Cursor :=
  match c.parent? with
  | some p => if p.kind == "template_declaration" then p else c
  | none => c

/-- Whether a node lies in a class body, with no function or namespace between. -/
def inClassBody (c : Cursor) : Bool :=
  let ends := ["field_declaration_list", "function_definition", "namespace_definition",
    "translation_unit"]
  match c.ancestors.find? fun a => ends.contains a.kind with
  | some a => a.kind == "field_declaration_list"
  | none => false

/-- What the last access specifier in front of a member says. Without one, members of a
class are private and all others public. -/
def visibility (src : Source) (c : Cursor) : Visibility :=
  let m := member c
  match m.parent? with
  | none => .publicly
  | some body =>
    match body.parent? with
    | none => .publicly
    | some owner =>
      if body.kind != "field_declaration_list" then .publicly
      else
        let start : Visibility := if owner.kind == "class_specifier" then .privately else .publicly
        (body.children.takeWhile fun d => d.first < m.first).foldl (fun v d =>
          if d.kind != "access_specifier" then v
          else match Text.strip (d.text src) with
            | "public" => .publicly
            | "protected" => .protectedly
            | "private" => .privately
            | _ => v) start

def callable (src : Source) (c : Cursor) (scope : Scope) (declarator : Option Cursor)
    (name shown : String) (kind : SymbolKind) : Visit :=
  let v := visibility src c
  .declare
    { symbolAt src c c scope shown kind with
      visibility := v
      exported := v == .publicly && !C.isStatic src c
      signature := some (C.signature src c declarator name)
      doc := docComment src (member c) }

def function (src : Source) (c : Cursor) (scope : Scope) : Visit :=
  let declarator := C.functionDeclarator c
  let parts := nameParts (nameOr "anonymous" (C.declaredName src declarator))
  let name := parts.getLast?.getD ""
  let owner := joinDots (parts.dropLast.filter (· != ""))
  let inner := if owner == "" then scope else some (qualify scope owner)
  let kind := if owner != "" || inClassBody c then .method else .function
  callable src c inner declarator name (nameOr "anonymous" name) kind

/-- A method declared in a class body. Data members are no symbols. -/
def methodDeclaration (src : Source) (c : Cursor) (scope : Scope) : Visit :=
  let declarator := C.functionDeclarator c
  let name := C.declaredName src declarator
  if declarator.isNone || C.isFunctionPointer declarator || name == "" then {}
  else callable src c scope declarator name name .method

def namespaceScope (src : Source) (c : Cursor) : String :=
  joinDots (nameParts (c.fieldText src "name"))

def visit (src : Source) (c : Cursor) (scope : Scope) : Visit :=
  match c.kind with
  | "function_definition" => function src c scope
  | "declaration" => C.declaration src c scope
  | "field_declaration" => methodDeclaration src c scope
  | "class_specifier" | "struct_specifier" | "union_specifier" | "enum_specifier" =>
    C.aggregate src (visibility src) c scope
  | "namespace_definition" =>
    if c.fieldText src "name" == "" then {}
    else ⟨[], some (qualify scope (namespaceScope src c))⟩
  | _ => {}

/-- Qualified names and first lines of the functions that are defined with their owner. -/
def outOfLine (src : Source) (root : Cursor) : List (String × Nat) :=
  (root.descendants ["function_definition"]).filterMap fun c =>
    match nameParts (C.declaredName src (C.functionDeclarator c)) with
    | [] | [_] => none
    | parts =>
      let scopes := c.ancestors.filter fun a =>
        a.kind == "namespace_definition" && (a.child? "name").isSome
      let names := (scopes.map (namespaceScope src)).reverse ++ parts.filter (· != "")
      some (joinDots names, c.firstRow src + 1)

/-- Drops the symbols whose definition stands elsewhere. -/
def symbols (src : Source) (root : Cursor) : List Symbol :=
  let definitions := outOfLine src root
  (walk (visit src) root).filter fun s =>
    let lines := definitions.filter (·.1 == s.qualifiedName)
    lines.isEmpty || lines.any (·.2 == s.location.first)

end SourceAtlas.Extract.Cpp
