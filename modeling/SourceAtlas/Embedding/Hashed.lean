import SourceAtlas.Digest.Sha256
import SourceAtlas.Json.Access
import SourceAtlas.Search.Tokens
import SourceAtlas.Text.Blank
import SourceAtlas.Text.Case
import SourceAtlas.Text.Utf8

/-!
# Embeddings

An embedding turns a text into a vector. The hashed embedder needs no
service: it throws each word into a bucket, with a sign, so that texts that
share words get similar vectors.
-/

namespace SourceAtlas.Embedding

open Json (Value Record)

/-- How texts are embedded. A service gets some of it as it was given. -/
structure Config where
  model : Value := "jina-embeddings-v2-base-code"
  dimensions : Value := .int 768
  batchSize : Value := .int 32
  maxRetries : Value := .int 3
  timeout : Value := .float 30.0
  normalize : Value := .bool true

def Config.ofRecord (r : Record) : Outcome Config := do
  checkFields r []
    ["model_name", "dimensions", "batch_size", "max_retries", "timeout", "normalize"]
  let d : Config := {}
  let field := Record.given r
  pure { model := field "model_name" d.model, dimensions := field "dimensions" d.dimensions
         batchSize := field "batch_size" d.batchSize, maxRetries := field "max_retries" d.maxRetries
         timeout := field "timeout" d.timeout, normalize := field "normalize" d.normalize }

def Config.toRecord (c : Config) : Record :=
  [("model_name", c.model), ("dimensions", c.dimensions), ("batch_size", c.batchSize),
   ("max_retries", c.maxRetries), ("timeout", c.timeout), ("normalize", c.normalize)]

structure Embedded where
  text : String
  embedding : Value
  model : Value
  dimensions : Nat
  tokens : Value

def Embedded.toValue (e : Embedded) : Value :=
  .obj [("text", .str e.text), ("embedding", e.embedding), ("model", e.model),
    ("dimensions", .int e.dimensions), ("token_count", e.tokens)]

/-- The number of characters of some texts together. -/
def totalLength (texts : List String) : Nat := texts.foldl (fun n t => n + t.length) 0

namespace Hashed

def modelName : String := "mock-embedder"

/-- The bucket of a word and the sign with which it counts. -/
def bucket (dimensions : Nat) (word : String) : Nat × Float :=
  let digest := Digest.Sha256.hash.digest (Text.encode word)
  let n := (digest.take 8).foldl (fun n b => n * 256 + b.toNat) 0
  (n % dimensions, if (digest.getD 8 0).toNat % 2 = 1 then 1.0 else -1.0)

def counts (dimensions : Nat) (text : String) : Array Float :=
  (Search.wordsOf (Text.lower text)).foldl (fun v word =>
    let (i, sign) := bucket dimensions word
    v.modify i (· + sign)) (Array.replicate dimensions 0.0)

/-- Scales a vector to length one, unless it is null. -/
def unit (v : Array Float) : Array Float :=
  let norm := (v.foldl (fun s x => s + x * x) 0.0).sqrt
  if 0.0 < norm then v.map (· / norm) else v

def vector (c : Config) (text : String) : Outcome (List Float) := do
  let dimensions ← asInt c.dimensions
  if dimensions < 0 then throw (.badValue "negative dimensions are not allowed")
  if dimensions = 0 && !(Search.wordsOf (Text.lower text)).isEmpty then
    throw (.mishap .divisionByZero)
  let v := counts dimensions.toNat text
  pure (if c.normalize.truthy then unit v else v).toList

def tokenCount (text : String) : Nat := (Text.words text).length

def embed (c : Config) (text : String) : Outcome Embedded := do
  let v ← vector c text
  pure ⟨text, .list (v.map .float), .str modelName, v.length, .int (tokenCount text)⟩

end Hashed

end SourceAtlas.Embedding
