import SourceAtlas.Edge
import SourceAtlas.Language
import SourceAtlas.Reference
import SourceAtlas.Symbol
import SourceAtlas.Syntax.Cursor
import SourceAtlas.Text.Blank
import Std.Data.TreeMap

/-!
# Dependencies of a source file

Import statements give edges from the file, call sites give edges from the
symbol that encloses them. Which symbol encloses a call is decided by lines
alone.
-/

namespace SourceAtlas.Dependency

open Syntax (Source Cursor Tree)

/-- Where a language keeps its dependencies. -/
structure Grammar where
  imports : List String
  calls : List String
  /-- How a method names its own object in front of a member. -/
  receivers : List String := []

def grammar? : Language → Option Grammar
  | .typescript | .tsx | .javascript =>
    some ⟨["import_statement", "export_statement"], ["call_expression"], ["this."]⟩
  | .python =>
    some ⟨["import_statement", "import_from_statement"], ["call"], ["self.", "cls."]⟩
  | .go => some ⟨["import_spec"], ["call_expression"], []⟩
  | .c => some ⟨["preproc_include"], ["call_expression"], []⟩
  | .cpp => some ⟨["preproc_include"], ["call_expression"], ["this->"]⟩
  | .csharp => some ⟨["using_directive"], ["invocation_expression"], ["this."]⟩
  | .markdown => none

/-- Symbols by the lines that they cover. Each line has the positions of its symbols, the
last one first. -/
structure ScopeIndex where
  entries : Array (String × Location)
  byLine : Std.TreeMap Nat (List Nat)

namespace ScopeIndex

/-- Puts a position in front of those of every line from `first` on, `count` lines long. -/
def cover (byLine : Std.TreeMap Nat (List Nat)) (position first count : Nat) :
    Std.TreeMap Nat (List Nat) :=
  (List.range' first count).foldl (fun m line => m.insert line (position :: m.getD line []))
    byLine

def add (x : ScopeIndex) (name : String) (l : Location) : ScopeIndex :=
  ⟨x.entries.push (name, l), cover x.byLine x.entries.size l.first l.lineCount⟩

def ofSymbols (symbols : List (String × Location)) : ScopeIndex :=
  symbols.foldl (fun x s => x.add s.1 s.2) ⟨#[], ∅⟩

/-- The last symbol that covers the first line and reaches the last one. -/
def innermost (x : ScopeIndex) (first last : Int) : Option String :=
  if first < 0 then none
  else ((x.byLine.getD first.toNat []).findSome? fun position => do
    let (name, l) ← x.entries[position]?
    if last ≤ l.last then some name else none)

end ScopeIndex

/-- A call on the object itself becomes a call on the owner of the enclosing method. -/
def resolveReceiver (callee enclosing : String) (receivers : List String) : String :=
  match receivers.find? fun r => Text.hasStart r callee with
  | none => callee
  | some r =>
    match (Text.splitAt (· == '.') enclosing.toList).dropLast with
    | [] => callee
    | owner =>
      String.intercalate "." (owner.map String.ofList) ++ "." ++
        String.ofList (callee.toList.drop r.length)

/-- A text without blanks and quotes around it. -/
def unquote (s : String) : String :=
  String.ofList (Text.trimWhile (['\'', '"', Char.ofNat 96, '<', '>'].contains ·)
    (Text.strip s).toList)

def nonEmpty (names : List String) : List String := names.filter (· != "")

/-- The modules that an import names. -/
def importTargets (src : Source) (c : Cursor) : List String :=
  let fromSource := if c.kind == "import_statement" || c.kind == "export_statement" then
    c.child? "source" else none
  match fromSource with
  | some path => [unquote (path.text src)]
  | none =>
    match c.kind with
    | "import_statement" => nonEmpty ((c.childrenIn "name").map fun n =>
      let name := if n.kind == "aliased_import" then (n.child? "name").getD n else n
      name.text src)
    | "import_from_statement" => nonEmpty [c.fieldText src "module_name"]
    | "import_spec" | "preproc_include" => nonEmpty [unquote (c.fieldText src "path")]
    | "using_directive" =>
      match (c.namedChildren.filter fun d =>
          d.kind == "qualified_name" || d.kind == "identifier").getLast? with
      | some name => [name.text src]
      | none => []
    | _ => []

/-- The source of import edges. -/
def fileNode : String := "file"

/-- Adds an edge unless one with its ends and type is there. -/
def addNew (edges : List Edge) (e : Edge) : List Edge :=
  if edges.any e.parallel then edges else edges ++ [e]

/-- The edges that one node gives rise to. -/
def edgesAt (g : Grammar) (src : Source) (scopes : ScopeIndex) (file : FileIdentity) (c : Cursor) :
    Outcome (List Edge) :=
  if g.imports.contains c.kind then
    (importTargets src c).mapM fun (target : String) => Edge.make fileNode target .imports
  else if g.calls.contains c.kind then
    let callee := Text.squeeze (c.fieldText src "function")
    match if callee == "" then none else
        scopes.innermost (c.firstRow src + 1) (c.lastRow src + 1) with
    | none => pure []
    | some enclosing => do
      let target := resolveReceiver callee enclosing g.receivers
      pure [← Edge.make (file.ref enclosing) target .calls (.float 0.8)]
  else pure []

/-- The edges of a file without repetition, in pre-order of the nodes they come from. -/
def edgesOf (language : Language) (src : Source) (tree : Tree) (symbols : List Symbol)
    (file : FileIdentity) : Outcome (List Edge) :=
  match grammar? language with
  | none => pure []
  | some g =>
    let scopes := ScopeIndex.ofSymbols (symbols.map fun s => (s.qualifiedName, s.location))
    (Cursor.root tree).walk.foldlM (fun edges c => do
      return (← edgesAt g src scopes file c).foldl addNew edges) []

end SourceAtlas.Dependency
