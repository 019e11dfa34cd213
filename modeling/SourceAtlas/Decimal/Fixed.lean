import SourceAtlas.Decimal.Binary

/-!
# Fixed places

A number is written with a fixed count of decimal places, rounded from its
exact value with ties to even. A result that is zero has no sign.
-/

namespace SourceAtlas.Decimal

/-- Writes `k / 10 ^ places`. -/
def fixedText (places : Nat) (negative : Bool) (k : Nat) : String :=
  let cs := padLeft (places + 1) (digits k)
  let whole := cs.take (cs.length - places)
  let text := String.ofList (whole ++ '.' :: cs.drop (cs.length - places))
  if negative && k != 0 then "-" ++ text else text

def fixed (places : Nat) (x : Float) : String :=
  match Binary.ofFloat x with
  | .nan => "nan"
  | .infinite negative => if negative then "-inf" else "inf"
  | .finite negative m q =>
    let (n, d) := scaled m 2 q
    fixedText places negative (roundDiv (n * Nat.pow 10 places) d)

end SourceAtlas.Decimal
