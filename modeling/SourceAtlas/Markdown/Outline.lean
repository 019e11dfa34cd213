import SourceAtlas.Markdown.Inline
import SourceAtlas.Markdown.Section
import SourceAtlas.Syntax.Cursor

/-!
# The outline of a document

A document is cut at its blocks, in order. Paragraphs and lists with too
little text are left out; every other section than a heading carries the title
of the heading above it.
-/

namespace SourceAtlas.Markdown

open Syntax (Source Tree Cursor)

mutual

/-- The blocks of a document, nested sections laid flat. -/
def blocks : Tree → List Tree
  | .node l cs =>
    if l.kind == "document" || l.kind == "section" then blocksOf cs else [.node l cs]

def blocksOf : List Tree → List Tree
  | [] => []
  | t :: ts => blocks t ++ blocksOf ts

end

structure Reader where
  source : Source
  inline : InlineReader
  /-- The least number of characters of a paragraph or list. -/
  minChars : Int

namespace Reader

variable (r : Reader)

def text (t : Tree) : String := (Cursor.root t).text r.source

def plain (t : Tree) : String := plainText r.inline (r.text t)

/-- A block that ends where a line starts does not cover that line. -/
def lines (t : Tree) : Nat × Nat :=
  let start := (r.source.point t.label.first).row
  let stop := r.source.point t.label.stop
  let last := if stop.column == 0 && start < stop.row then stop.row else stop.row + 1
  (start + 1, max (start + 1) last)

def headingLevel : List Tree → Int
  | [] => 1
  | t :: ts =>
    let cs := t.kind.toList
    if Text.hasStart "atx_h" t.kind && Text.hasEnd "_marker" t.kind then
      Text.digitsToNat 10 (cs.drop 5 |>.take 1)
    else if t.kind == "setext_h1_underline" then 1
    else if t.kind == "setext_h2_underline" then 2
    else headingLevel ts

/-- The markup of a heading without the marks around it. -/
def headingMarkup (t : Tree) : String :=
  match (Cursor.root t).child? "heading_content" with
  | none => ""
  | some c =>
    let text := Text.strip (c.text r.source)
    if t.kind == "atx_heading" then Text.stripEnd Text.isBlank (Text.stripEnd (· == '#') text)
    else text

def codeLanguage (t : Tree) : Option String :=
  match t.children.find? (·.kind == "info_string") with
  | some info => (Text.words (r.text info)).head?
  | none => none

/-- The section of a block below a heading, if it makes one. -/
def section? (heading : Option String) (t : Tree) : Option Section :=
  let (first, last) := r.lines t
  let raw := Text.stripEnd (· == '\n') (r.text t)
  let body (type : SectionType) (content : String) : Option Section :=
    if (content.length : Int) < r.minChars then none
    else some { type, content, first, last, title := heading }
  match t.kind with
  | "atx_heading" | "setext_heading" =>
    some { type := .heading, content := raw, first, last, level := some (headingLevel t.children),
           title := some (plainText r.inline (r.headingMarkup t)) }
  | "fenced_code_block" | "indented_code_block" =>
    some { type := .codeBlock, content := raw, first, last, title := heading,
           language := r.codeLanguage t }
  | "paragraph" => body .paragraph (r.plain t)
  | "list" =>
    body .list (Text.joinLines (((Cursor.root t).descendants ["paragraph"]).map fun c =>
      r.plain c.tree))
  | _ => none

def sectionsBelow (heading : Option String) : List Tree → List Section
  | [] => []
  | t :: ts =>
    match r.section? heading t with
    | none => sectionsBelow heading ts
    | some s => s :: sectionsBelow (if s.type == .heading then s.title else heading) ts

def sections (t : Tree) : List Section := r.sectionsBelow none (blocks t)

/-- A chunk for each section of a document. -/
def chunks (t : Tree) (p : Provenance) (now : Int) : Outcome (List Chunk) := do
  if (r.sections t).isEmpty then return []
  let context ← p.context
  pure ((r.sections t).zipIdx.map fun (s, i) => s.toChunk i context now)

end Reader

end SourceAtlas.Markdown
