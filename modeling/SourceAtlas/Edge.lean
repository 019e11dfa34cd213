import SourceAtlas.Json.Access

/-!
# Dependency edges

A typed edge from one reference to another. A target need not be the
reference of a known symbol: it may be a module path or a bare name. An edge
that is given as a record may have any values as its ends, but none without
content.
-/

namespace SourceAtlas

open Json (Value Record Key)

inductive EdgeType where
  | imports | calls | implements | extends_ | uses | references
  deriving DecidableEq, Hashable

namespace EdgeType

def name : EdgeType → String
  | imports => "IMPORTS"
  | calls => "CALLS"
  | implements => "IMPLEMENTS"
  | extends_ => "EXTENDS"
  | uses => "USES"
  | references => "REFERENCES"

def all : List EdgeType := [imports, calls, implements, extends_, uses, references]

def ofValue : Value → Outcome EdgeType := named "EdgeType" all name

end EdgeType

structure Edge where
  source : Value
  target : Value
  type : EdgeType
  confidence : Float := 1.0
  source_truthy : source.truthy
  target_truthy : target.truthy

/-- What tells edges apart. -/
abbrev EdgeKey := Key × Key × EdgeType

/-- A number from zero to one. -/
def asConfidence (v : Value) : Outcome Float :=
  match v.number? with
  | none => misfit
  | some x =>
    if x = .undefined || x.lt (.ofInt 0) || Decimal.Extended.lt (.ofInt 1) x then
      throw (.badValue "Edge confidence must be within [0, 1]")
    else asFloat v

namespace Edge

def make (source target : Value) (type : EdgeType) (confidence : Value := .float 1.0) :
    Outcome Edge :=
  if h : source.truthy ∧ target.truthy then do
    pure ⟨source, target, type, ← asConfidence confidence, h.1, h.2⟩
  else throw (.badValue "Edge endpoints must be non-empty")

def key (e : Edge) : Outcome EdgeKey := do pure (← asKey e.source, ← asKey e.target, e.type)

/-- Whether two edges have the same ends and type. -/
def parallel (a b : Edge) : Bool :=
  a.source.same b.source && a.target.same b.target && a.type == b.type

def ofRecord (r : Record) : Outcome Edge := do
  let source ← require r "from"
  let target ← require r "to"
  let type ← EdgeType.ofValue (← require r "type")
  make source target type (Record.given r "confidence" (.float 1.0))

/-- The ends and the type of an edge. -/
def toRecord (e : Edge) : Record := [("from", e.source), ("to", e.target), ("type", e.type.name)]

def toValue (e : Edge) : Value := .obj (e.toRecord ++ [("confidence", .float e.confidence)])

end Edge

end SourceAtlas
