import SourceAtlas.OrderedMap
import SourceAtlas.Search.Ranking

/-!
# Fusion of signals

Three signals rate symbols: similarity of vectors, full-text relevance, and
closeness in the dependency graph. The fused score is their weighted sum; a
signal without an opinion counts as zero.
-/

namespace SourceAtlas.Search

open Json (Value Record Key)

/-- One number for each signal. -/
structure Signals (α : Type) where
  vector : α
  fulltext : α
  graph : α

namespace Signals

variable {α : Type} [Scalar α]

def zero : Signals α := ⟨ofNat 0, ofNat 0, ofNat 0⟩

def total (w : Signals α) : α := w.vector + w.fulltext + w.graph

def least (w : Signals α) : α := smaller (smaller w.vector w.fulltext) w.graph

/-- Weights are not negative. -/
def checked (w : Signals α) : Outcome (Signals α) :=
  if isNegative w.least then throw (.badValue "Fusion weights must be non-negative") else pure w

/-- Scales weights to the sum one; weights that are all zero stay so. -/
def normalized (w : Signals α) : Signals α :=
  if isNegative w.total || isZero w.total then zero
  else ⟨w.vector / w.total, w.fulltext / w.total, w.graph / w.total⟩

end Signals

/-- A symbol in the neighbourhood of a hit, and how far away. -/
structure Related (α : Type) where
  id : Key
  distance : α

structure Fused (α : Type) where
  id : Key
  score : α
  scores : Signals α
  payload : Value

/-- A hit of one signal. -/
structure Hit (α : Type) where
  id : Key
  score : α
  payload : Value

section
variable {α : Type} [Scalar α]

abbrev Merged (α : Type) := OrderedMap Key (Signals α × Value)

/-- Changes the scores of an id and gives it a payload unless it has one. -/
def merge (m : Merged α) (id : Key) (payload : Value) (f : Signals α → Signals α) : Merged α :=
  m.update id (Signals.zero, .obj []) fun (s, p) =>
    (f s, if payload.truthy && !p.truthy then payload else p)

/-- The closer a symbol, the higher its score. -/
def closeness (distance : α) : Outcome α :=
  if isZero (distance + ofNat 1) then throw (.mishap .divisionByZero)
  else pure (ofNat 1 / (distance + ofNat 1))

/-- The largest full-text score, at least one. -/
def ceiling (hits : List (Hit α)) : α :=
  match hits.map Hit.score ++ [ofNat 1] with
  | [] => ofNat 1
  | s :: rest => rest.foldl larger s

def weigh (w : Signals α) (e : Key × Signals α × Value) : Fused α :=
  let (id, s, payload) := e
  ⟨id, w.vector * s.vector + w.fulltext * s.fulltext + w.graph * s.graph, s, payload⟩

def fuse (vector fulltext : List (Hit α)) (related : List (Related α)) (w : Signals α) :
    Outcome (List (Fused α)) := do
  let m : Merged α := vector.foldl (fun m h => merge m h.id h.payload fun s =>
    { s with vector := h.score }) .empty
  let top := ceiling fulltext
  let m := fulltext.foldl (fun m h => merge m h.id h.payload fun s =>
    { s with fulltext := h.score / top }) m
  let m ← related.foldlM (fun m r => do
    let c ← closeness r.distance
    pure (merge m r.id .null fun s => { s with graph := larger s.graph c })) m
  ranked (fun f => (f.score, f.id)) (m.entries.map (weigh w))

end

/-- The weights that are used unless others are given. -/
def usualWeights : Signals Float := ⟨0.6, 0.3, 0.1⟩

def Signals.ofRecord (r : Record) : Outcome (Signals Float) := do
  checkFields r [] ["vector", "fulltext", "graph"]
  let weight (name : String) (usual : Float) : Outcome Float :=
    asFloat (Record.given r name (.float usual))
  Signals.checked ⟨← weight "vector" usualWeights.vector,
    ← weight "fulltext" usualWeights.fulltext, ← weight "graph" usualWeights.graph⟩

def Signals.toValue (s : Signals Float) : Value :=
  .obj [("vector", .float s.vector), ("fulltext", .float s.fulltext), ("graph", .float s.graph)]

def Fused.toRecord (f : Fused Float) : Record :=
  [("symbol_id", f.id.toValue), ("score", .float f.score), ("scores", f.scores.toValue),
    ("payload", f.payload)]

/-- Reads an id, a score and a payload, which may be missing. -/
def Hit.ofValue : Value → Outcome (Hit Float)
  | .list [id, score] => do pure ⟨← asKey id, ← asFloat score, .obj []⟩
  | .list [id, score, payload] => do pure ⟨← asKey id, ← asFloat score, payload⟩
  | _ => misfit

/-- Reads an id and a distance. -/
def Related.ofValue : Value → Outcome (Related Float)
  | .list [id, distance] => do pure ⟨← asKey id, ← asFloat distance⟩
  | _ => misfit

end SourceAtlas.Search
