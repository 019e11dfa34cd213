import SourceAtlas.Json.Access

/-!
# Documents

A document is a record that is stored under its id. It says which file,
repository and workspace it belongs to; any of this may be missing.
-/

namespace SourceAtlas

open Json (Value Record Key)

abbrev Document := Record

namespace Document

/-- The id of what has to be a document. -/
def idOf (document : Value) : Outcome Key := do
  asKey (← require (← asRecord document) "id")

/-- The value of a field, if there is one with content. -/
def content? (document : Document) (field : String) : Option Value :=
  (Record.get? document field).filter Value.truthy

def ref? (document : Document) : Option Value := content? document "symbol_ref"

/-- Whether a field has a value; one that is missing counts as null. -/
def has (field : String) (v : Value) (document : Document) : Bool :=
  (Record.get document field).same v

def ofFile (repo path : Value) (document : Document) : Bool :=
  has "repo_id" repo document && has "file_path" path document

def ofRepo (repo : Value) : Document → Bool := has "repo_id" repo

def ofWorkspace (workspace : Value) : Document → Bool := has "workspace_id" workspace

end Document

end SourceAtlas
