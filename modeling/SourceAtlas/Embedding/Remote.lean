import SourceAtlas.Embedding.Hashed
import SourceAtlas.Search.RemoteIndex

/-!
# A remote embedding service

Texts are sent in batches. A request that the service asks to slow down for, or
that does not get through, is repeated after a growing wait.
-/

namespace SourceAtlas.Embedding

open Json (Value Record)

structure Request where
  model : Value
  input : List String
  dimensions : Value
  normalized : Value

def Request.toValue (r : Request) : Value :=
  .obj [("model", r.model), ("input", Value.texts r.input), ("dimensions", r.dimensions),
    ("normalized", r.normalized)]

inductive Reply where
  /-- A status, and the value of the body if it has one. -/
  | answered (status : Int) (body : Outcome Value)
  | unreachable
  | timedOut

inductive Event where
  | sent (r : Request)
  | waited (seconds : Nat)

def Event.request? : Event → Option Request
  | .sent r => some r
  | .waited _ => none

def Event.wait? : Event → Option Nat
  | .sent _ => none
  | .waited seconds => some seconds

/-- The service by what it replies to its n-th request, and what happened so far. -/
structure Dialogue where
  service : Nat → Request → Reply
  events : List Event := []

namespace Dialogue

def sent (d : Dialogue) : List Request := d.events.filterMap Event.request?

def waits (d : Dialogue) : List Nat := d.events.filterMap Event.wait?

def record (d : Dialogue) (e : Event) : Dialogue := { d with events := d.events ++ [e] }

end Dialogue

namespace Remote

/-- How a reply that is no success is judged: its cause, and whether a repeat may help. -/
def judge : Reply → Option (Failure × Bool)
  | .answered status _ =>
    if 200 ≤ status ∧ status < 300 then none else some (.mishap .httpStatus, status == 429)
  | .unreachable => some (.mishap .connection, true)
  | .timedOut => some (.mishap .timeout, true)

/-- Sorts items by their index; indices must be comparable. -/
def byIndex (items : List Value) : Outcome (List Value) := do
  let keyed ← items.mapM fun v => do pure (← fieldOr v "index" (.int 0), v)
  let comparable := keyed.all fun a => keyed.all fun b => (a.1.before? b.1).isSome
  if 2 ≤ keyed.length && !comparable then misfit
  pure ((keyed.mergeSort fun a b => b.1.before? a.1 != some true).map (·.2))

/-- An even share of a number of tokens, rounded down; infinitely many have no share. -/
def share (total : Value) (n : Nat) : Outcome Value :=
  match total with
  | .float _ =>
    match total.number? with
    | some (.exact x) => do pure (.float (← floatOf (x / n).floor))
    | _ => pure (.float (0.0 / 0.0))
  | t => do pure (.int ((← asInt t).fdiv n))

def addTokens (a b : Value) : Outcome Value :=
  match a, b with
  | .int x, .int y => pure (.int (x + y))
  | .int x, .bool y => pure (.int (x + if y then 1 else 0))
  | a, b => do pure (.float ((← asFloat a) + (← asFloat b)))

def wrongCount (length expected got : Nat) : Failure :=
  .embedding length (.badValue s!"Expected {expected} embeddings, got {got}")

/-- Reads the body of a success: one item for each text, matched by index. -/
def interpret (c : Config) (texts : List String) (body : Value) :
    Outcome (List Embedded × Value) := do
  let items ← byIndex (← members (← fieldOr body "data" (.list [])))
  if items.length != texts.length then
    throw (wrongCount (totalLength texts) texts.length items.length)
  let total ← fieldOr (← fieldOr body "usage" (.obj [])) "total_tokens" (.int 0)
  let results ← (texts.zip items).mapM fun (text, item) => do
    let embedding ← fieldOr item "embedding" (.list [])
    let dimensions ← size embedding
    let tokens ← share total texts.length
    pure (⟨text, embedding, c.model, dimensions, tokens⟩ : Embedded)
  pure (results, total)

def requestFor (c : Config) (texts : List String) : Request :=
  ⟨c.model, texts.map fun t => if Text.strip t == "" then " " else t, c.dimensions, c.normalize⟩

def post (r : Request) : Act Dialogue Reply := do
  let d ← get
  set (d.record (.sent r))
  pure (d.service d.sent.length r)

/-- Up to `left` attempts; `done` were made before. -/
def attempts (c : Config) (texts : List String) : (left done : Nat) →
    Act Dialogue (List Embedded × Value)
  | 0, _ => throw (.embedding (totalLength texts) (.outage "Max retries exceeded"))
  | left + 1, done => do
    let reply ← post (requestFor c texts)
    match judge reply with
    | some (cause, repeatable) =>
      if repeatable && left != 0 then
        modify fun d => d.record (.waited (Nat.pow 2 (done + 1)))
        attempts c texts left (done + 1)
      else throw (.embedding (totalLength texts) cause)
    | none =>
      match reply with
      | .answered _ body => Act.ofOutcome (do interpret c texts (← body))
      | _ => throw (.mishap .malformedJson)

structure Batch where
  results : List Embedded
  tokens : Value

def embedBatch (c : Config) (texts : List String) : Act Dialogue Batch := do
  if texts.isEmpty then return ⟨[], .int 0⟩
  let pieces ← Act.ofOutcome (do Search.batchesOf (← asInt c.batchSize) texts)
  pieces.foldlM (fun (b : Batch) piece => do
    let (results, tokens) ← attempts c piece (← Act.ofOutcome (asInt c.maxRetries)).toNat 0
    pure ⟨b.results ++ results, ← Act.ofOutcome (addTokens b.tokens tokens)⟩) ⟨[], .int 0⟩

def embed (c : Config) (text : String) : Act Dialogue Embedded := do
  if Text.strip text == "" then throw (.embedding 0 (.badValue "Empty text"))
  match (← embedBatch c [text]).results with
  | e :: _ => pure e
  | [] => throw (.mishap .indexOutOfRange)

/-- The service asks for a key. -/
def checkKey (key : Value) : Outcome Unit :=
  if key.truthy then pure ()
  else throw (.modelLoad "jina" (.badValue "API key is required"))

end Remote

end SourceAtlas.Embedding
