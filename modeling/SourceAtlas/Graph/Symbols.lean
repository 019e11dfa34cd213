import SourceAtlas.Document
import SourceAtlas.OrderedMap

/-!
# Symbol documents

Documents are kept by id and can be found by reference. Where documents share
a reference, the one that was stored last answers for it. A reference that is
no key is a fault, which is found after the document is stored or removed.
-/

namespace SourceAtlas.Graph

open Json (Value Key)

structure Symbols where
  documents : OrderedMap Key Document := .empty
  idOfRef : OrderedMap Key Key := .empty

namespace Symbols

def size (x : Symbols) : Nat := x.documents.size

/-- Forgets the reference of a document. -/
def forget (document : Document) : Act Symbols Unit := do
  if let some ref := Document.ref? document then
    let ref ← asKey ref
    modify fun x => { x with idOfRef := x.idOfRef.erase ref }

def put (id : Key) (document : Document) : Act Symbols Unit := do
  if let some previous := (← get).documents.get? id then
    forget previous
  modify fun x => { x with documents := x.documents.insert id document }
  if let some ref := Document.ref? document then
    let ref ← asKey ref
    modify fun x => { x with idOfRef := x.idOfRef.insert ref id }

/-- A document by its id or else by its reference. -/
def get? (x : Symbols) (name : Key) : Option Document :=
  match x.documents.get? name with
  | some d => some d
  | none => (x.idOfRef.get? name).bind x.documents.get?

/-- The documents of a workspace with a qualified name. -/
def called (x : Symbols) (workspace name : Value) : List Document :=
  x.documents.values.filter fun d =>
    Document.ofWorkspace workspace d && Document.has "symbol_name" name d

/-- Removes a document, and adds its reference to some others. -/
def remove (refs : List Key) (id : Key) (document : Document) : Act Symbols (List Key) := do
  modify fun x => { x with documents := x.documents.erase id }
  match Document.ref? document with
  | none => pure refs
  | some ref =>
    let ref ← asKey ref
    modify fun x => { x with idOfRef := x.idOfRef.erase ref }
    pure (if refs.contains ref then refs else refs ++ [ref])

/-- Removes the documents that satisfy `p`, and answers with the references that they had. -/
def drop (p : Document → Bool) : Act Symbols (List Key) := do
  let doomed := (← get).documents.entries.filter fun e => p e.2
  doomed.foldlM (fun refs e => remove refs e.1 e.2) []

end Symbols

end SourceAtlas.Graph
