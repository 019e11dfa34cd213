import SourceAtlas.Extract.Walk

/-!
# Go

A name is exported when its first letter is upper case. Methods are
qualified by the type of their receiver.
-/

namespace SourceAtlas.Extract.Go

open Syntax (Source Cursor)

def exported (name : String) : Bool :=
  match name.toList with
  | c :: _ => c != '_' && Text.isUpper c
  | [] => false

/-- The first type named in the receiver, without pointer and type arguments. -/
def receiverType (src : Source) (c : Cursor) : Option String := do
  let receiver ← c.child? "receiver"
  let type ← (receiver.descendants ["type_identifier"]).head?
  some (type.text src)

/-- The enclosing declaration when it holds this specification alone. -/
def anchor (c : Cursor) : Cursor :=
  match c.parent? with
  | some p =>
    let grouped := ["type_declaration", "var_declaration", "const_declaration"].contains p.kind
    if grouped && (p.namedChildren.filter (·.kind != "comment")).length == 1 then p else c
  | none => c

def declare (src : Source) (c : Cursor) (scope : Scope) (name : String) (kind : SymbolKind)
    (signature doc : Option String) : Symbol :=
  let shown := exported name
  { symbolAt src c c scope name kind with
    exported := shown
    visibility := if shown then .publicly else .privately
    signature
    doc }

def signature (src : Source) (c : Cursor) (name : String) : String :=
  { name, parameters := c.fieldText src "parameters", returnType := c.fieldText src "result",
    separator := " " : Signature }.text

def typeKind (c : Cursor) : SymbolKind :=
  match (c.child? "type").map (·.kind) with
  | some "struct_type" => .class_
  | some "interface_type" => .interface
  | _ => .type

def visit (src : Source) (c : Cursor) (scope : Scope) : Visit :=
  match c.kind with
  | "function_declaration" =>
    let name := nameOf src c "anonymous"
    .declare (declare src c scope name .function (signature src c name) (docComment src c))
  | "method_declaration" =>
    let name := nameOf src c "anonymous"
    let owner := match receiverType src c with
      | some r => if r == "" then scope else some (qualify scope r)
      | none => scope
    .declare (declare src c owner name .method (signature src c name) (docComment src c))
  | "type_spec" | "type_alias" =>
    let place := anchor c
    .declare (declare src place scope (nameOf src c "anonymous") (typeKind c) none
      (docComment src place))
  | "var_spec" | "const_spec" =>
    let place := anchor c
    let doc := docComment src place
    ⟨(c.childrenIn "name").map fun n => declare src place scope (n.text src) .variable none doc,
      none⟩
  | _ => {}

end SourceAtlas.Extract.Go
