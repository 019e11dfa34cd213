import SourceAtlas.Failure
import SourceAtlas.Json.Key

/-!
# Access to dynamic values

Reading a dynamic value as what is expected of it. A field that is missing
and a value of the wrong shape are different failures.
-/

namespace SourceAtlas

open Json (Value Record Key)

/-- What a value of the wrong shape fails with. -/
def misfit {α : Type} : Outcome α := throw (.wrongType "")

/-- The value of a required field. -/
def require (r : Record) (name : String) : Outcome Value :=
  match Record.get? r name with
  | some v => pure v
  | none => throw (.missingKey name)

/-- A value that stands for a name. -/
def asText (v : Value) : Outcome String :=
  match v with
  | .str s => pure s
  | _ => misfit

/-- A value that is used as a text at once, which no other value can be. -/
def asWords (v : Value) : Outcome String :=
  match v with
  | .str s => pure s
  | _ => throw (.mishap .missingAttribute)

/-- A whole number as a floating point number, unless it lies beyond all of them. -/
def floatOf (n : Int) : Outcome Float :=
  if Nat.pow 2 1024 - Nat.pow 2 970 ≤ n.natAbs then throw (.mishap .overflow) else pure (Float.ofInt n)

/-- A value that stands for a number. -/
def asFloat (v : Value) : Outcome Float :=
  match v with
  | .float x => pure x
  | .int n => floatOf n
  | .bool b => pure (if b then 1.0 else 0.0)
  | _ => misfit

def asInt (v : Value) : Outcome Int :=
  match v with
  | .int n => pure n
  | .bool b => pure (if b then 1 else 0)
  | _ => misfit

/-- Whether a value is a number above a whole one. -/
def isAbove (v : Value) (n : Int) : Outcome Bool :=
  match v.number? with
  | some x => pure (Decimal.Extended.lt (.ofInt n) x)
  | none => misfit

/-- A number of things. A part of one counts as a whole one, and `bound` stands for a number
without end. -/
def asCount (bound : Nat) (v : Value) : Outcome Nat :=
  match v.number? with
  | some (.exact x) => pure x.ceil.toNat
  | some (.infinite true) => pure 0
  | some _ => pure bound
  | none => misfit

def asRecord (v : Value) : Outcome Record :=
  match v with
  | .obj fields => pure fields
  | _ => misfit

/-- A value by which an entry can be found. -/
def asKey (v : Value) : Outcome Key :=
  match Key.ofValue? v with
  | some k => pure k
  | none => throw (.wrongType s!"unhashable type: '{v.typeName}'")

/-- The members that a value is iterated over: items, characters or field names. -/
def members : Value → Outcome (List Value)
  | .list xs => pure xs
  | .str s => pure (s.toList.map fun c => .str (String.ofList [c]))
  | .obj r => pure (r.map fun f => .str f.1)
  | _ => misfit

def size (v : Value) : Outcome Nat := do pure (← members v).length

/-- The record of the pairs of a name and a value that a value consists of. -/
def recordOf (v : Value) : Outcome Record :=
  match v with
  | .obj fields => pure fields
  | v => do
    (← members v).zipIdx.foldlM (fun r (pair, i) => do
      match ← members pair with
      | [name, item] => pure (Record.set r (Json.plain (← asKey name).toValue) item)
      | parts => throw (.badValue ("dictionary update sequence element #" ++ toString i ++
          " has length " ++ toString parts.length ++ "; 2 is required"))) []

/-- A field of what has to be a record. -/
def fieldOr (v : Value) (name : String) (default : Value) : Outcome Value :=
  match v with
  | .obj r => pure ((Record.get? r name).getD default)
  | _ => throw (.mishap .missingAttribute)

/-- A value that is null when there is nothing to read. -/
def optional {α : Type} (read : Value → Outcome α) : Value → Outcome (Option α)
  | .null => pure none
  | v => some <$> read v

/-- The items of a list; null has none. -/
def itemsOf {α : Type} (read : Value → Outcome α) : Value → Outcome (List α)
  | .null => pure []
  | .list xs => xs.mapM read
  | _ => misfit

/-- Checks that a record has the required fields and no others than these and optional ones. -/
def checkFields (r : Record) (required optional : List String) : Outcome Unit :=
  if required.all (fun name => (Record.get? r name).isSome) &&
      r.all fun f => required.contains f.1 || optional.contains f.1 then pure ()
  else misfit

/-- Sorts by a total order; of neighbours in that order each must be comparable to the next. -/
def sortChecked {α : Type} (le comparable : α → α → Bool) (xs : List α) : Outcome (List α) :=
  let sorted := xs.mergeSort le
  if (sorted.zip sorted.tail).all fun p => comparable p.1 p.2 then pure sorted else misfit

/-- Keys of one kind in their order. -/
def sortKeys (keys : List Key) : Outcome (List Key) := sortChecked Key.le Key.comparable keys

/-! Fields of a record; a field that is null counts as missing. -/

namespace Json.Record

def text (r : Record) (name : String) (default : String := "") : Outcome String := do
  pure ((← optional asText (get r name)).getD default)

def whole (r : Record) (name : String) (default : Int) : Outcome Int := do
  pure ((← optional asInt (get r name)).getD default)

def number (r : Record) (name : String) (default : Float) : Outcome Float := do
  pure ((← optional asFloat (get r name)).getD default)

def flag (r : Record) (name : String) (default : Bool) : Bool :=
  match get r name with
  | .null => default
  | v => v.truthy

def texts (r : Record) (name : String) : Outcome (List String) := itemsOf asText (get r name)

def records (r : Record) (name : String) : Outcome (List Record) := itemsOf asRecord (get r name)

def record (r : Record) (name : String) : Outcome Record := do
  pure ((← optional asRecord (get r name)).getD [])

/-- The value of a field, or what it is when it is not given. -/
def given (r : Record) (name : String) (default : Value) : Value := (get? r name).getD default

end Json.Record

end SourceAtlas
