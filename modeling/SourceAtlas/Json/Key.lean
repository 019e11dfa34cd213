import SourceAtlas.Json.Order

/-!
# Keys

The values that entries can be found by. Keys that are equal as values are the
same key, whatever their form: one, one point zero and true are one key.
-/

namespace SourceAtlas.Json

inductive Key where
  | null
  | bool (b : Bool)
  | int (n : Int)
  | float (x : Float)
  | str (s : String)
  deriving Inhabited

/-- What tells keys apart. The kinds come in this order. -/
inductive Key.Rank where
  | nothing
  | number (x : Decimal.Extended)
  | text (s : String)
  deriving DecidableEq

namespace Key

instance : Coe String Key := ⟨.str⟩

def toValue : Key → Value
  | null => .null
  | bool b => .bool b
  | int n => .int n
  | float x => .float x
  | str s => .str s

/-- A list or a record is no key. -/
def ofValue? : Value → Option Key
  | .null => some null
  | .bool b => some (bool b)
  | .int n => some (int n)
  | .float x => some (float x)
  | .str s => some (str s)
  | .list _ | .obj _ => none

def rank : Key → Rank
  | null => .nothing
  | bool b => .number (.ofInt (if b then 1 else 0))
  | int n => .number (.ofInt n)
  | float x => .number (.ofFloat x)
  | str s => .text s

instance : BEq Key := ⟨fun a b => a.rank == b.rank⟩

theorem beq_iff (a b : Key) : (a == b) = true ↔ a.rank = b.rank :=
  beq_iff_eq (a := a.rank) (b := b.rank)

instance : EquivBEq Key where
  rfl := (beq_iff _ _).2 rfl
  symm h := (beq_iff _ _).2 ((beq_iff _ _).1 h).symm
  trans h k := (beq_iff _ _).2 (((beq_iff _ _).1 h).trans ((beq_iff _ _).1 k))

/-- Whether two keys are of one kind, so that they have an order. -/
def comparable (a b : Key) : Bool :=
  match a.rank, b.rank with
  | .number _, .number _ | .text _, .text _ => true
  | _, _ => false

/-- Numbers by size, texts by code points, and kind before kind. -/
def le (a b : Key) : Bool :=
  match a.rank, b.rank with
  | .text s, .text t => s ≤ t
  | .number x, .number y => !y.lt x
  | .nothing, _ | _, .text _ => true
  | _, _ => false

end Key

end SourceAtlas.Json
