import SourceAtlas.DocComment
import SourceAtlas.Json.Access
import SourceAtlas.Reference
import SourceAtlas.Symbol

/-!
# Chunks

A chunk is a symbol or a document section made ready for search: an id, the
text to embed, and a flat payload that the stores keep.
-/

namespace SourceAtlas

open Json (Value Record)

/-- Where a file comes from. -/
structure FileContext where
  workspace : String
  repo : String
  repoName : Value
  path : String
  language : Value
  commit : Value := ""
  contentHash : Value := ""

/-- Where a file comes from, as it was given. What takes part in ids has to be a text, but only
once there is something to name. -/
structure Provenance where
  workspace : Value
  repo : Value
  repoName : Value
  path : Value
  language : Value
  commit : Value := ""
  contentHash : Value := ""

namespace Provenance

def ofRecord (r : Record) : Outcome Provenance := do
  checkFields r ["workspace_id", "repo_id", "repo_name", "file_path", "language"]
    ["commit", "content_hash"]
  let field := Record.get r
  pure { workspace := field "workspace_id", repo := field "repo_id", repoName := field "repo_name"
         path := field "file_path", language := field "language"
         commit := Record.given r "commit" "", contentHash := Record.given r "content_hash" "" }

/-- A part of an id. -/
def part (position : Nat) (v : Value) : Outcome String :=
  match v with
  | .str s => pure s
  | v => throw (.wrongType s!"sequence item {position}: expected str instance, {v.typeName} found")

def context (p : Provenance) : Outcome FileContext := do
  pure { workspace := ← part 0 p.workspace, repo := ← part 1 p.repo, repoName := p.repoName
         path := ← part 2 p.path, language := p.language, commit := p.commit
         contentHash := p.contentHash }

end Provenance

structure Payload where
  context : FileContext
  symbolId : String
  symbolName : String
  symbolKind : String
  exported : Bool
  visibility : String
  code : String
  signature : Option String
  importance : Float
  firstLine : Nat
  lastLine : Nat
  indexedAt : Int

namespace Payload

def ref (p : Payload) : String :=
  symbolRef p.context.workspace p.context.repo p.context.path p.symbolName

def toRecord (p : Payload) : Record :=
  [("workspace_id", .str p.context.workspace), ("repo_id", .str p.context.repo),
   ("repo_name", p.context.repoName), ("file_path", .str p.context.path),
   ("language", p.context.language), ("symbol_id", .str p.symbolId),
   ("symbol_name", .str p.symbolName), ("symbol_kind", .str p.symbolKind),
   ("exported", .bool p.exported), ("visibility", .str p.visibility), ("code", .str p.code),
   ("signature", Value.ofText? p.signature), ("importance", .float p.importance),
   ("commit", p.context.commit), ("symbol_ref", .str p.ref),
   ("content_hash", p.context.contentHash), ("start_line", .int p.firstLine),
   ("end_line", .int p.lastLine), ("indexed_at", .int p.indexedAt)]

end Payload

structure Chunk where
  embeddingText : String
  payload : Payload

namespace Chunk

def id (c : Chunk) : String := c.payload.symbolId

/-- The payload as a document that carries its id. -/
def toDocument (c : Chunk) : Record := ("id", .str c.id) :: c.payload.toRecord

def toValue (c : Chunk) : Value :=
  .obj [("symbol_id", .str c.id), ("embedding_text", .str c.embeddingText),
    ("payload", .obj c.payload.toRecord)]

end Chunk

/-- Signature, code and cleaned doc comment, each on lines of its own. -/
def embeddingText (code : String) (signature doc : Option String) : String :=
  let front := match signature with
    | some s => if s == "" then [] else [s]
    | none => []
  let back := match DocComment.clean (doc.getD "") with
    | "" => []
    | d => [d]
  Text.joinLines (front ++ [code] ++ back)

def Symbol.toChunk (s : Symbol) (context : FileContext) (now : Int) : Chunk :=
  { embeddingText := SourceAtlas.embeddingText s.code s.signature s.doc
    payload :=
      { context
        symbolId := SourceAtlas.symbolId context.workspace context.repo context.path s.qualifiedName
        symbolName := s.qualifiedName
        symbolKind := s.kind.name
        exported := s.exported
        visibility := s.visibility.name
        code := s.code
        signature := s.signature
        importance := s.importance
        firstLine := s.location.first
        lastLine := s.location.last
        indexedAt := now } }

/-- A chunk for each symbol of a file. -/
def chunksOf (symbols : List Symbol) (p : Provenance) (now : Int) : Outcome (List Chunk) := do
  if symbols.isEmpty then return []
  let context ← p.context
  pure (symbols.map (·.toChunk context now))

end SourceAtlas
