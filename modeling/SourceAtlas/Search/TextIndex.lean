import SourceAtlas.OrderedMap
import SourceAtlas.Search.Filters
import SourceAtlas.Search.Ranking
import SourceAtlas.Search.Tokens

/-!
# Full-text search

Documents are ranked by Okapi BM25. Each searched field is scored on its own
and weighted, and counts are taken over the documents in the scope of the
query only.
-/

namespace SourceAtlas.Search

open Json (Value Record Key)

abbrev TermCounts := OrderedMap String Nat

def countTerms (tokens : List String) : TermCounts :=
  tokens.foldl (fun m t => m.update t 0 (· + 1)) .empty

def TermCounts.total (m : TermCounts) : Nat := m.values.foldl (· + ·) 0

/-- The searched fields with their weights. -/
def fieldWeights : List (String × Int) := [("symbol_name", 3), ("signature", 2), ("code", 1)]

/-- The term counts of each searched field. -/
abbrev DocumentTerms := List (String × TermCounts)

def termsOf (document : Document) : DocumentTerms :=
  fieldWeights.map fun (name, _) =>
    let v := Record.get document name
    (name, countTerms (tokenize (if v.truthy then Json.plain v else "")))

def DocumentTerms.field (t : DocumentTerms) (name : String) : TermCounts :=
  ((t.find? (·.1 == name)).map (·.2)).getD .empty

structure TextHit (α : Type) where
  id : Key
  score : α
  fields : Document

structure TextIndex (α : Type) where
  /-- How fast repeated terms saturate. -/
  k1 : α
  /-- How much long fields are held back. -/
  b : α
  documents : OrderedMap Key Document := .empty
  terms : OrderedMap Key DocumentTerms := .empty

namespace TextIndex

variable {α : Type} [Scalar α]

def add (x : TextIndex α) (document : Value) : Outcome (TextIndex α) := do
  let id ← Document.idOf document
  let document ← asRecord document
  pure { x with documents := x.documents.insert id document
                terms := x.terms.insert id (termsOf document) }

/-- Adds documents one by one, up to the first that has no id. -/
def addAll (documents : List Value) : Act (TextIndex α) Unit :=
  documents.forM fun d => do set (← Act.ofOutcome ((← get).add d))

/-- Removes the documents that satisfy `p`. -/
def delete (x : TextIndex α) (p : Document → Bool) : TextIndex α :=
  let doomed := (x.documents.filter fun _ d => p d).keys
  { x with documents := x.documents.filter fun _ d => !p d
           terms := x.terms.filter fun id _ => !doomed.contains id }

/-- What a query scores against: the documents in scope with their terms. -/
structure Scope where
  members : List (Key × DocumentTerms)

namespace Scope

def size (s : Scope) : Nat := s.members.length

/-- In how many documents a term occurs. -/
def frequency (s : Scope) (term : String) : Nat :=
  (s.members.filter fun m => m.2.any fun f => f.2.contains term).length

/-- The mean length of a field, one if the field is empty everywhere. -/
def averageLength (s : Scope) (name : String) : α :=
  let total := s.members.foldl (fun n m => n + (m.2.field name).total) 0
  if total = 0 then ofNat 1 else ofNat total / ofNat s.size

/-- How much a term that occurs in `df` of `n` documents tells. -/
def rarity (n df : Nat) : α :=
  Scalar.log (ofNat 1 + (ofNat (n - df) + Scalar.half) / (ofNat df + Scalar.half))

/-- What one term in one field adds to a score. -/
def termScore (s : Scope) (k1 b : α) (name : String) (weight : Int) (counts : TermCounts)
    (term : String) : Outcome α :=
  let frequency : α := ofNat ((counts.get? term).getD 0)
  let length : α := ofNat counts.total
  let norm := k1 * (ofNat 1 - b + b * length / s.averageLength name)
  let divisor := frequency + norm
  if isZero divisor then throw (.mishap .divisionByZero)
  else pure (Scalar.ofInt weight * rarity s.size (s.frequency term) * frequency *
    (k1 + ofNat 1) / divisor)

def score (s : Scope) (k1 b : α) (query : List String) (t : DocumentTerms) : Outcome α :=
  fieldWeights.foldlM (fun sum (name, weight) =>
    let counts := t.field name
    (query.filter counts.contains).foldlM (fun sum term => do
      pure (sum + (← s.termScore k1 b name weight counts term))) sum) (ofNat 0)

end Scope

/-- The documents that pass the filter. -/
def scope (x : TextIndex α) (filters : Filters) (workspace : Value) : Outcome Scope := do
  let passed ← x.documents.entries.filterM fun e => filters.accepts workspace e.2
  pure ⟨passed.map fun e => (e.1, (x.terms.get? e.1).getD [])⟩

/-- The best `limit` documents in scope that share a term with the query. -/
def search (x : TextIndex α) (query : String) (workspace : Value) (filters : Filters)
    (limit : Value) : Outcome (List (TextHit α)) := do
  let terms := (tokenize query).eraseDups
  if terms.isEmpty then return []
  if !(← isAbove limit 0) then return []
  let s ← x.scope filters workspace
  if s.members.isEmpty then return []
  let scored ← s.members.mapM fun m => do
    let score ← s.score x.k1 x.b terms m.2
    pure ({ id := m.1, score, fields := (x.documents.get? m.1).getD [] } : TextHit α)
  let hits ← ranked (fun h => (h.score, h.id)) (scored.filter fun h => isPositive h.score)
  pure (hits.take (← asInt limit).toNat)

def toRecord (x : TextIndex α) : Record :=
  [("documents", .list (x.documents.values.map .obj))]

/-- Replaces the documents by those that were written. What was read before a fault stays. -/
def load (data : Value) : Act (TextIndex α) Unit := do
  modify fun x => { x with documents := .empty, terms := .empty }
  let documents ← Act.ofOutcome (fieldOr data "documents" (.list []))
  (← Act.ofOutcome (members documents)).forM fun v => do
    set (← Act.ofOutcome ((← get).add v))

end TextIndex

end SourceAtlas.Search
