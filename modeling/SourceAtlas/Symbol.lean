import SourceAtlas.Json.Access

/-!
# Symbols

A symbol is a named, located unit of source. Its qualified name is the path
of enclosing declarations, joined by dots.
-/

namespace SourceAtlas

open Json (Value Record)

inductive SymbolKind where
  | function | method | class_ | interface | type | enumeration | variable | heading | codeBlock
  | paragraph
  deriving DecidableEq

namespace SymbolKind

def name : SymbolKind → String
  | function => "function"
  | method => "method"
  | class_ => "class"
  | interface => "interface"
  | type => "type"
  | enumeration => "enum"
  | «variable» => "variable"
  | heading => "heading"
  | codeBlock => "code-block"
  | paragraph => "paragraph"

def all : List SymbolKind :=
  [function, method, class_, interface, type, enumeration, «variable», heading, codeBlock,
   paragraph]

def ofValue : Value → Outcome SymbolKind := named "SymbolKind" all name

end SymbolKind

inductive Visibility where
  | publicly | privately | protectedly
  deriving DecidableEq

namespace Visibility

def name : Visibility → String
  | publicly => "public"
  | privately => "private"
  | protectedly => "protected"

def all : List Visibility := [publicly, privately, protectedly]

def ofValue : Value → Outcome Visibility := named "Visibility" all name

end Visibility

/-- A range of lines, counted from one, both ends included. -/
structure Location where
  first : Nat
  last : Nat
  one_le_first : 1 ≤ first
  first_le_last : first ≤ last

namespace Location

def make (first last : Int) : Outcome Location :=
  if h : 1 ≤ first then
    if h' : first ≤ last then pure ⟨first.toNat, last.toNat, by omega, by omega⟩
    else throw (.badValue "end_line must be >= start_line")
  else throw (.badValue "start_line must be >= 1")

/-- The lines from one row to another, rows counted from zero. -/
def ofRows (first last : Nat) : Location :=
  ⟨first + 1, max (first + 1) (last + 1), by omega, by omega⟩

def contains (l : Location) (first last : Int) : Bool := l.first ≤ first && last ≤ l.last

theorem contains_iff {l : Location} {first last : Int} :
    l.contains first last = true ↔ l.first ≤ first ∧ last ≤ l.last := by
  simp [contains]

def lineCount (l : Location) : Nat := l.last - l.first + 1

end Location

structure Symbol where
  name : String
  qualifiedName : String
  kind : SymbolKind
  location : Location
  /-- The source of the declaration, verbatim. -/
  code : String
  visibility : Visibility := .publicly
  /-- Whether the symbol is visible outside of its file or package. -/
  exported : Bool := false
  signature : Option String := none
  doc : Option String := none

namespace Symbol

/-- The qualified name of the enclosing symbol. -/
def parentName (s : Symbol) : Option String :=
  let cs := s.qualifiedName.toList
  if cs.contains '.' then
    some (String.ofList (cs.reverse.dropWhile (· != '.')).tail.reverse)
  else none

/-- The part of a qualified name after its last dot. -/
def localName (qualifiedName : String) : String :=
  String.ofList ((qualifiedName.toList.reverse.takeWhile (· != '.')).reverse)

/-- Reads a symbol; what is not given is plain. -/
def ofRecord (r : Record) : Outcome Symbol := do
  let field := Record.given r
  let qualifiedName ← asWords (← require r "qualified_name")
  let kind ← SymbolKind.ofValue (field "kind" SymbolKind.function.name)
  let visibility ← Visibility.ofValue (field "visibility" Visibility.publicly.name)
  let location ← Location.make (← asInt (field "start" (.int 1))) (← asInt (field "end" (.int 1)))
  pure { name := ← asText (field "name" (localName qualifiedName))
         qualifiedName, kind, location, visibility
         code := ← asText (field "code" "")
         exported := (field "exported" (.bool false)).truthy
         signature := ← optional asText (field "signature" .null)
         doc := ← optional asText (field "doc" .null) }

def toValue (s : Symbol) : Value :=
  .obj [("name", .str s.name), ("qualified_name", .str s.qualifiedName),
    ("kind", .str s.kind.name), ("visibility", .str s.visibility.name),
    ("exported", .bool s.exported),
    ("location", .obj [("start_line", .int s.location.first), ("end_line", .int s.location.last)]),
    ("signature", Value.ofText? s.signature), ("doc_comment", Value.ofText? s.doc),
    ("code_chunk", .str s.code)]

/-- How prominent a symbol is, from export, visibility and documentation. -/
def importance (s : Symbol) : Float :=
  let score := if s.exported then 0.5 + 0.3 else 0.5
  let score := if s.visibility == .publicly then score + 0.1 else score
  let score := if (s.doc.getD "") != "" then score + 0.1 else score
  min score 1.0

end Symbol

end SourceAtlas
