import SourceAtlas.Atlas.Relations

/-!
# Hybrid search

Three signals are asked and fused. A signal that fails, or that has no weight,
has no opinion.
-/

namespace SourceAtlas.Atlas

open Json (Value)

/-- Asks a signal, which is silent when it fails. -/
def signal {α : Type} (weight : Float) (ask : Act Atlas (List α)) : Act Atlas (List α) := do
  if weight ≤ 0 then return []
  match ← Act.attempt ask with
  | .ok hits => pure hits
  | .error _ => pure []

def similar (query workspace : Value) (filters : Search.Filters) (limit : Value) :
    Act Atlas (List (Search.Hit Float)) := do
  let e ← Act.ofOutcome ((← get).embed query)
  let hits ← searchVectors e.embedding workspace filters limit
  hits.mapM fun h => do pure ⟨← asKey h.id, h.score, .obj h.payload⟩

def matching (query workspace : Value) (filters : Search.Filters) (limit : Value) :
    Act Atlas (List (Search.Hit Float)) := do
  let hits ← searchTexts query workspace filters limit
  pure (hits.map fun h => ⟨h.id, h.score, .obj h.fields⟩)

/-- The first `limit` elements; a negative limit says how many to leave out at the end. -/
def firstOf {α : Type} (limit : Int) (xs : List α) : List α :=
  if 0 ≤ limit then xs.take limit.toNat else xs.take (xs.length - (-limit).toNat)

/-- The best symbols for a query; a limit without content asks for as many as usual. -/
def searchHybrid (query workspace topK : Value) (filters : Search.Filters)
    (weights : Option (Search.Signals Float)) : Act Atlas (List (Search.Fused Float)) := do
  let plan := (← get).plan
  let limit := if topK.truthy then topK else plan.topK
  let w ← Act.ofOutcome (weights.getD plan.weights).normalized.checked
  let vector ← signal w.vector (similar query workspace filters limit)
  let fulltext ← signal w.fulltext (matching query workspace filters limit)
  let related ← signal w.graph (searchRelated query workspace .null filters)
  let all ← Act.ofOutcome (Search.fuse vector fulltext related w)
  pure (firstOf (← asInt limit) all)

end SourceAtlas.Atlas
