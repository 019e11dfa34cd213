import SourceAtlas.Chunk
import SourceAtlas.Language
import SourceAtlas.Text.WordChar

/-!
# Sections of a document

A section is a heading, a paragraph, a list or a block of code. Headings are
named by level and title, all others by their place.
-/

namespace SourceAtlas.Markdown

open Json (Value)

inductive SectionType where
  | heading | paragraph | codeBlock | list
  deriving DecidableEq

namespace SectionType

def name : SectionType → String
  | heading => "heading"
  | paragraph => "paragraph"
  | codeBlock => "code-block"
  | list => "list"

def all : List SectionType := [heading, paragraph, codeBlock, list]

def ofValue : Value → Outcome SectionType := named "SectionType" all name

def kind : SectionType → SymbolKind
  | heading => .heading
  | codeBlock => .codeBlock
  | paragraph | list => .paragraph

end SectionType

structure Section where
  type : SectionType
  content : String
  first : Nat
  last : Nat
  /-- The level of a heading. -/
  level : Option Int := none
  /-- The title of a heading; of any other section, that of the heading above it. -/
  title : Option String := none
  /-- The language of a block of code. -/
  language : Option String := none

/-- Runs of characters that are not in words become one hyphen. -/
def hyphenate : Bool → List Char → List Char
  | _, [] => []
  | inRun, c :: cs =>
    if Text.isWordChar c then c :: hyphenate false cs
    else if inRun then hyphenate true cs
    else '-' :: hyphenate true cs

/-- Lower case, hyphens between words and none at the ends, at most fifty characters. -/
def slug (text : String) : String :=
  let cs := hyphenate false (Text.lower text).toList
  String.ofList ((Text.trimWhile (· == '-') cs).take 50)

namespace Section

def symbolName (s : Section) (position : Int) : String :=
  match s.title with
  | none | some "" => s!"{s.type.name}-{position}"
  | some title =>
    if s.type == .heading then
      let level := match s.level with
        | some n => toString n
        | none => "None"
      s!"h{level}-{slug title}"
    else s!"{s.type.name}-{slug title}-{position}"

def importance (s : Section) : Float :=
  let level := match s.level with
    | some 0 | none => 1
    | some n => n
  let base := match s.type with
    | .heading => 1.0 - Float.ofInt level * 0.1
    | .codeBlock => 0.8
    | _ => 0.5
  min (if 200 < s.content.length then base + 0.1 else base) 1.0

def embeddingText (s : Section) (path : String) : String :=
  let owner := match s.title with
    | none | some "" => []
    | some title => if s.type == .heading then [] else ["Section: " ++ title]
  let body := match s.type with
    | .heading => "Heading: " ++ s.content
    | .codeBlock =>
      let language := match s.language with
        | none | some "" => ""
        | some l => "(" ++ l ++ ")"
      "Code block" ++ language ++ ":\n" ++ s.content
    | _ => s.content
  Text.joinLines (["File: " ++ path] ++ owner ++ [body])

def toChunk (s : Section) (position : Nat) (context : FileContext) (now : Int) : Chunk :=
  let name := s.symbolName position
  { embeddingText := s.embeddingText context.path
    payload :=
      { context := { context with language := Language.markdown.name }
        symbolId := symbolId context.workspace context.repo context.path name
        symbolName := name
        symbolKind := s.type.kind.name
        exported := true
        visibility := Visibility.publicly.name
        code := s.content
        signature := s.title
        importance := s.importance
        firstLine := s.first
        lastLine := s.last
        indexedAt := now } }

def toValue (s : Section) : Value :=
  .obj [("type", .str s.type.name), ("kind", .str s.type.kind.name), ("content", .str s.content),
    ("start_line", .int s.first), ("end_line", .int s.last),
    ("level", Value.ofOption .int s.level), ("title", Value.ofText? s.title),
    ("language", Value.ofText? s.language)]

end Section

end SourceAtlas.Markdown
