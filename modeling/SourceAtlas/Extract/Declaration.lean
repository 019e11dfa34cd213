import SourceAtlas.Symbol
import SourceAtlas.Syntax.Cursor
import SourceAtlas.Text.Blank
import SourceAtlas.Text.Case

/-!
# Declarations

What all languages share when a declaration becomes a symbol: qualified
names, the comment in front of it, and its signature.
-/

namespace SourceAtlas.Extract

open Syntax (Source Cursor Tree)

/-- The qualified name of the innermost enclosing declaration. -/
abbrev Scope := Option String

def qualify (scope : Scope) (name : String) : String :=
  match scope with
  | some s => if s == "" then name else s ++ "." ++ name
  | none => name

/-- The texts of adjacent comments, nearest first; `row` is where what they precede starts. -/
def commentRun (src : Source) (row : Nat) : List Tree → List String
  | [] => []
  | t :: ts =>
    if t.kind == "comment" && row - (src.point t.label.stop).row ≤ 1 then
      Text.strip ((⟨t, []⟩ : Cursor).text src) ::
        commentRun src (src.point t.label.first).row ts
    else []

/-- The comments in front of a node with no blank line between, as one text. -/
def docComment (src : Source) (c : Cursor) : Option String :=
  match commentRun src (c.firstRow src) c.earlier with
  | [] => none
  | texts => some (Text.joinLines texts.reverse)

/-- A symbol at `c` whose code is that of `code`. -/
def symbolAt (src : Source) (c code : Cursor) (scope : Scope) (name : String) (kind : SymbolKind) :
    Symbol :=
  { name
    qualifiedName := qualify scope name
    kind
    location := .ofRows (c.firstRow src) (c.lastRow src)
    code := code.text src }

/-- A name, or a placeholder where the source has none. -/
def nameOr (placeholder name : String) : String := if name == "" then placeholder else name

def nameOf (src : Source) (c : Cursor) (placeholder : String) : String :=
  nameOr placeholder (c.fieldText src "name")

structure Signature where
  name : String
  parameters : String := ""
  returnType : String := ""
  lead : String := ""
  separator : String := ": "

/-- A return type that brings its own separator gets no second one. -/
def Signature.text (s : Signature) : String :=
  let front := s.lead ++ s.name ++ s.parameters
  if s.returnType == "" then front
  else
    let type := Text.strip s.returnType
    let mark := Text.strip s.separator
    if mark != "" && Text.hasStart mark type then front ++ type
    else front ++ s.separator ++ type

/-- The words of a node's modifiers in lower case. -/
def modifierWords (src : Source) (c : Cursor) : List String :=
  (c.children.filter fun d => d.kind == "modifier" || d.kind == "modifiers").flatMap fun d =>
    Text.words (Text.lower (d.text src))

end SourceAtlas.Extract
