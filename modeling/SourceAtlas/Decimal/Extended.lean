import SourceAtlas.Decimal.Binary

/-!
# Numbers with the two infinities

Whole numbers and floating point numbers are compared by their exact values.
What is no number is neither above nor below any other.
-/

namespace SourceAtlas.Decimal

inductive Extended where
  | undefined
  | infinite (negative : Bool)
  | exact (value : Rat)
  deriving DecidableEq

namespace Extended

def ofInt (n : Int) : Extended := .exact n

def ofFloat (x : Float) : Extended :=
  match Binary.ofFloat x with
  | .nan => .undefined
  | .infinite negative => .infinite negative
  | .finite negative m q =>
    let (n, d) := scaled m 2 q
    .exact (mkRat (if negative then -n else n) d)

def lt : Extended → Extended → Bool
  | .exact a, .exact b => a < b
  | .undefined, _ | _, .undefined => false
  | .infinite a, .infinite b => a && !b
  | .infinite a, .exact _ => a
  | .exact _, .infinite b => !b

end Extended

end SourceAtlas.Decimal
