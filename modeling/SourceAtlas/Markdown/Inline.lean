import SourceAtlas.Syntax.Tree
import SourceAtlas.Text.Blank
import SourceAtlas.Text.Entity
import SourceAtlas.Text.Utf8

/-!
# Inline markup as plain text

Delimiters and link targets vanish, escapes and character references are
decoded, and links and images show their label. All other bytes, which are
the gaps between nodes, stay.
-/

namespace SourceAtlas.Markdown

open Syntax (Source Tree Label)

/-- What a node of inline markup stands for. -/
inductive Inline where
  | dropped
  /-- A character behind a backslash. -/
  | escape
  | lineBreak
  /-- An address between angle brackets. -/
  | address
  | reference
  /-- Shows only its children of a kind. -/
  | labelled (kind : String)
  | plain

def Inline.ofKind : String → Inline
  | "emphasis_delimiter" | "code_span_delimiter" | "link_destination" | "link_title"
  | "link_label" => .dropped
  | "backslash_escape" => .escape
  | "hard_line_break" => .lineBreak
  | "uri_autolink" | "email_autolink" => .address
  | "entity_reference" | "numeric_character_reference" => .reference
  | "inline_link" | "full_reference_link" | "collapsed_reference_link" | "shortcut_link" =>
    .labelled "link_text"
  | "image" => .labelled "image_description"
  | _ => .plain

mutual

def renderNode (src : Source) : Tree → List UInt8
  | .node l cs =>
    match Inline.ofKind l.kind with
    | .dropped => []
    | .escape => src.slice (l.first + 1) l.stop
    | .lineBreak => [10]
    | .address => src.slice (l.first + 1) (l.stop - 1)
    | .reference => Text.encode (Text.unescape (Text.decode (src.slice l.first l.stop)))
    | .labelled kind => renderLabels src kind cs
    | .plain => renderGaps src l.first l.stop cs

/-- The children of one kind, one after the other. -/
def renderLabels (src : Source) (kind : String) : List Tree → List UInt8
  | [] => []
  | t :: ts => (if t.kind == kind then renderNode src t else []) ++ renderLabels src kind ts

/-- Children and the source between them, from `position` on up to `stop`. -/
def renderGaps (src : Source) (position stop : Nat) : List Tree → List UInt8
  | [] => src.slice position stop
  | t :: ts =>
    src.slice position t.label.first ++ renderNode src t ++ renderGaps src t.label.stop stop ts

end

/-- Reads inline markup into a tree. -/
abbrev InlineReader := String → Tree

def render (read : InlineReader) (markup : String) : String :=
  Text.decode (renderNode ⟨Text.encode markup⟩ (read markup))

/-- The rendered text with trimmed lines. -/
def plainText (read : InlineReader) (markup : String) : String :=
  Text.joinLines ((Text.lines (Text.strip (render read markup))).map Text.strip)

end SourceAtlas.Markdown
