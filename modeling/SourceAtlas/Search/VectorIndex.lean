import SourceAtlas.Decimal.Reading
import SourceAtlas.OrderedMap
import SourceAtlas.Search.Filters

/-!
# Nearest neighbours

Points are compared by the cosine of their vectors. The vectors are laid out
in a table on the first search after a change and reused until the next one.
-/

namespace SourceAtlas.Search

open Json (Value Record Key)

/-- The numbers of a vector as they were given. -/
abbrev Components := List Value

structure VectorPoint where
  id : Value
  vector : Components
  payload : Record

def VectorPoint.toValue (p : VectorPoint) : Value :=
  .obj [("id", p.id), ("vector", .list p.vector), ("payload", .obj p.payload)]

def VectorPoint.ofValue (v : Value) : Outcome VectorPoint := do
  let r ← asRecord v
  let id ← require r "id"
  let vector ← members (← require r "vector")
  pure ⟨id, vector, ← recordOf (← require r "payload")⟩

structure VectorHit where
  id : Value
  score : Float
  payload : Record

/-- A number in a vector, which may be given as a text; null is no number. -/
def asComponent (v : Value) : Outcome Float :=
  match v with
  | .null => pure (0.0 / 0.0)
  | .str s =>
    match Decimal.ofText? s with
    | some x => pure x
    | none => throw (.badValue ("could not convert string to float: " ++ Json.quoted s))
  | v => asFloat v

/-- Ids and rows of numbers, one row per point. -/
structure Table where
  rows : List (Key × List Float)
  width : Nat

structure VectorIndex where
  /-- The length of vectors, null until the first vector fixes it. -/
  dimensions : Value
  points : OrderedMap Key VectorPoint := .empty
  table : Option Table := none

namespace VectorIndex

def wrongLength (operation : String) (expected : Value) (got : Nat) : Failure :=
  .vectorStore operation
    (.badValue ("Expected " ++ Json.plain expected ++ " dimensions, got " ++ toString got))

/-- Adds points one by one; the first point fixes the dimensions. -/
def put : List VectorPoint → Act VectorIndex Unit
  | [] => modify fun x => { x with table := none }
  | p :: ps => do
    let length : Value := .int p.vector.length
    let expected := match (← get).dimensions with
      | .null => length
      | n => n
    modify fun x => { x with dimensions := expected }
    if !expected.same length then throw (wrongLength "upsert" expected p.vector.length)
    let id ← asKey p.id
    modify fun x => { x with points := x.points.insert id p }
    put ps

/-- Rows of one length and nothing but numbers can be laid out; others have such a shape up to
some depth only. -/
def ragged (shape : List Nat) : Failure :=
  let text := match shape with
    | [n] => "(" ++ toString n ++ ",)"
    | ns => "(" ++ String.intercalate ", " (ns.map toString) ++ ")"
  .badValue ("setting an array element with a sequence. The requested array has an " ++
    "inhomogeneous shape after " ++ toString shape.length ++
    " dimensions. The detected shape was " ++ text ++ " + inhomogeneous part.")

def isNested : Value → Bool
  | .list _ => true
  | _ => false

/-- Lays out the vectors of all points. -/
def layOut (points : List (Key × VectorPoint)) : Outcome Table := do
  let width := match points with
    | (_, p) :: _ => p.vector.length
    | [] => 0
  if points.any fun e => e.2.vector.length != width then throw (ragged [points.length])
  if points.any fun e => e.2.vector.any isNested then throw (ragged [points.length, width])
  pure ⟨← points.mapM fun e => do pure (e.1, ← e.2.vector.mapM asComponent), width⟩

/-- The length of the rows that a list consists of, if it does and they are of one length. -/
def rowLength? : List Value → Option Nat
  | [] => none
  | [.list xs] => some xs.length
  | .list xs :: rest => (rowLength? rest).filter (· == xs.length)
  | _ => none

/-- The numbers of a vector that is searched for, `width` of them. A table has a length, but
not that of a row of numbers. -/
def queryOf (width : Nat) (vector : Value) : Outcome (List Float) := do
  match vector with
  | .list xs =>
    let isTable := (rowLength? xs).isSome
    if xs.any isNested && !isTable then throw (ragged [xs.length])
    let query ← if isTable then pure [] else xs.mapM asComponent
    if xs.length != width then throw (wrongLength "search" (.int width) xs.length)
    if isTable then misfit else pure query
  | v =>
    discard (asComponent v)
    throw (.mishap .indexOutOfRange)

def dot (xs ys : List Float) : Float := (xs.zip ys).foldl (fun s p => s + p.1 * p.2) 0.0

def norm (xs : List Float) : Float := (dot xs xs).sqrt

/-- The cosine of two vectors, zero when one of them is null. Products are added from left to right; a
sum that is taken in pairs may differ in its last bits. -/
def cosine (xs ys : List Float) : Float :=
  let divisor := norm xs * norm ys
  if 0.0 < divisor then dot xs ys / divisor else 0.0

/-- Higher similarity first, and no number last. -/
def closer (a b : Float) : Bool := b ≤ a || b.isNaN

/-- The closest points that pass the filter. -/
def nearest (x : VectorIndex) (ranked : List (Key × Float)) (workspace : Value)
    (filters : Filters) (limit : Nat) : Outcome (List VectorHit) :=
  match ranked, limit with
  | [], _ | _, 0 => pure []
  | (id, score) :: rest, limit + 1 =>
    match x.points.get? id with
    | none => throw (.missingKey id.toValue)
    | some p => do
      if ← filters.accepts workspace p.payload then
        pure (⟨p.id, score, p.payload⟩ :: (← x.nearest rest workspace filters limit))
      else x.nearest rest workspace filters (limit + 1)

def search (vector workspace : Value) (filters : Filters) (limit : Value) :
    Act VectorIndex (List VectorHit) := do
  let x ← get
  if x.points.size == 0 then return []
  let limit ← asCount x.points.size limit
  if limit == 0 then return []
  let table ← match x.table with
    | some t => pure t
    | none => Act.ofOutcome (layOut x.points.entries)
  set { x with table := some table }
  let query ← Act.ofOutcome (queryOf table.width vector)
  let scored := table.rows.map fun r => (r.1, cosine r.2 query)
  let ranked := scored.mergeSort fun a b => closer a.2 b.2
  Act.ofOutcome (x.nearest ranked workspace filters limit)

/-- Removes the points whose payload satisfies `p`, and says how many there were. -/
def delete (p : Document → Bool) : Act VectorIndex Nat := do
  let x ← get
  let doomed := (x.points.filter fun _ point => p point.payload).size
  set { x with points := x.points.filter fun _ point => !p point.payload
               table := if doomed = 0 then x.table else none }
  pure doomed

def toRecord (x : VectorIndex) : Record :=
  [("dimensions", x.dimensions),
   ("points", .list (x.points.values.map VectorPoint.toValue))]

/-- Replaces the points by those that were written. What was read before a fault stays, and
the table is dropped only at the end. -/
def load (data : Value) : Act VectorIndex Unit := do
  modify fun x => { x with points := .empty }
  let points ← Act.ofOutcome (fieldOr data "points" (.list []))
  (← Act.ofOutcome (members points)).forM fun v => do
    let p ← Act.ofOutcome (VectorPoint.ofValue v)
    let id ← Act.ofOutcome (asKey p.id)
    modify fun x => { x with points := x.points.insert id p }
  match ← Act.ofOutcome (fieldOr data "dimensions" .null) with
  | .null => pure ()
  | n => modify fun x => { x with dimensions := n }
  modify fun x => { x with table := none }

end VectorIndex

end SourceAtlas.Search
