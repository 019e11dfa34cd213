import SourceAtlas.Decimal.Extended
import SourceAtlas.Json.Value

/-!
# Equality and order of values

Numbers of all kinds are compared by their exact values, and the truth values
count as one and zero. Texts are ordered by code points and lists by their
first difference; other values have no order.
-/

namespace SourceAtlas.Json.Value

open SourceAtlas.Decimal (Extended)

/-- The number that a value is. -/
def number? : Value → Option Extended
  | .bool b => some (.ofInt (if b then 1 else 0))
  | .int n => some (.ofInt n)
  | .float x => some (.ofFloat x)
  | _ => none

mutual

/-- Whether two values are equal; the order of fields does not matter. -/
def same : Value → Value → Bool
  | .null, .null => true
  | .str s, .str t => s == t
  | .list xs, .list ys => sameItems xs ys
  | .obj fs, .obj gs => fs.length == gs.length && sameFields fs gs
  | a, b =>
    match a.number?, b.number? with
    | some x, some y => x == y
    | _, _ => false

def sameItems : List Value → List Value → Bool
  | [], [] => true
  | x :: xs, y :: ys => same x y && sameItems xs ys
  | _, _ => false

/-- Whether all fields of the one record are fields of the other. -/
def sameFields : List (String × Value) → Record → Bool
  | [], _ => true
  | (name, v) :: fs, r =>
    (match Record.get? r name with
      | some w => same v w
      | none => false) && sameFields fs r

end

mutual

/-- Whether the one value comes before the other, if they can be compared. -/
def before? : Value → Value → Option Bool
  | .str s, .str t => some (s < t)
  | .list xs, .list ys => itemsBefore? xs ys
  | a, b =>
    match a.number?, b.number? with
    | some x, some y => some (x.lt y)
    | _, _ => none

def itemsBefore? : List Value → List Value → Option Bool
  | _, [] => some false
  | [], _ :: _ => some true
  | x :: xs, y :: ys => if same x y then itemsBefore? xs ys else before? x y

end

end SourceAtlas.Json.Value
