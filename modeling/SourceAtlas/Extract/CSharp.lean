import SourceAtlas.Extract.Walk

/-!
# C#

Namespaces qualify their members without being symbols. Internal members
count as private, since they cannot be seen from outside.
-/

namespace SourceAtlas.Extract.CSharp

open Syntax (Source Cursor)

def access (src : Source) (c : Cursor) : Visibility × Bool :=
  let words := modifierWords src c
  if words.contains "private" || words.contains "internal" then (.privately, false)
  else if words.contains "protected" then (.protectedly, false)
  else (.publicly, words.contains "public")

def declare (src : Source) (c : Cursor) (scope : Scope) (name : String) (kind : SymbolKind)
    (signature : Option String) : Visit :=
  let (visibility, exported) := access src c
  .declare
    { symbolAt src c c scope name kind with
      visibility, exported, signature, doc := docComment src c }

def method (src : Source) (c : Cursor) (scope : Scope) : Visit :=
  let name := nameOf src c "anonymous"
  let returns := c.fieldText src "returns"
  let signature : Signature :=
    { name, parameters := c.fieldText src "parameters",
      returnType := if returns == "" then c.fieldText src "type" else returns }
  declare src c scope name .method signature.text

def property (src : Source) (c : Cursor) (scope : Scope) : Visit :=
  let name := nameOf src c "anonymous"
  let signature : Signature := { name, returnType := c.fieldText src "type" }
  declare src c scope name .variable signature.text

def visit (src : Source) (c : Cursor) (scope : Scope) : Visit :=
  let type (kind : SymbolKind) (placeholder : String) : Visit :=
    declare src c scope (nameOf src c placeholder) kind none
  match c.kind with
  | "namespace_declaration" | "file_scoped_namespace_declaration" =>
    let name := c.fieldText src "name"
    if name == "" then {} else ⟨[], some (qualify scope name)⟩
  | "class_declaration" => type .class_ "AnonymousClass"
  | "struct_declaration" => type .class_ "AnonymousStruct"
  | "record_declaration" => type .class_ "AnonymousClass"
  | "interface_declaration" => type .interface "AnonymousInterface"
  | "enum_declaration" => type .enumeration "AnonymousEnum"
  | "method_declaration" | "constructor_declaration" => method src c scope
  | "property_declaration" => property src c scope
  | _ => {}

end SourceAtlas.Extract.CSharp
