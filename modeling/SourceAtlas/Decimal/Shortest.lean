import SourceAtlas.Decimal.Binary

/-!
# Shortest decimals

The fewest digits that still lie in the interval of reals which round to a
given floating point number, and of those the nearest to it.
-/

namespace SourceAtlas.Decimal

/-- A decimal `coefficient * 10 ^ exponent`. -/
structure Scientific where
  coefficient : Nat
  exponent : Int

/-- Compares `c * 10 ^ g` with `x * 2 ^ q`. -/
def compareGrid (c : Nat) (g : Int) (x : Nat) (q : Int) : Ordering :=
  let (a, b) := scaled c 10 g
  let (n, d) := scaled x 2 q
  compare (a * d) (n * b)

/-- Whether `c * 10 ^ g` rounds to `m * 2 ^ q`. -/
def roundsTo (c : Nat) (g : Int) (m : Nat) (q : Int) : Bool :=
  let low := if m = Nat.pow 2 52 ∧ -1074 < q then 4 * m - 1 else 4 * m - 2
  let closed := m % 2 = 0
  let above := match compareGrid c g low (q - 2) with
    | .gt => true | .eq => closed | .lt => false
  let below := match compareGrid c g (4 * m + 2) (q - 2) with
    | .lt => true | .eq => closed | .gt => false
  above && below

/-- The power of ten at or below `m * 2 ^ q`. -/
def leadingPower (m : Nat) (q : Int) : Int :=
  let (n, d) := scaled m 2 q
  let guess : Int := (digits n).length - (digits d).length
  if compareGrid 1 guess m q = .gt then guess - 1 else guess

/-- The better of the two neighbours of the value on the grid of `10 ^ g`. -/
def onGrid? (m : Nat) (q : Int) (g : Int) : Option Scientific :=
  let (n, d) := scaled m 2 q
  let (a, b) := scaled 1 10 g
  let low := n * b / (d * a)
  let near := roundDiv (n * b) (d * a)
  let far := if near = low then low + 1 else low
  if roundsTo near g m q then some ⟨near, g⟩
  else if roundsTo far g m q then some ⟨far, g⟩
  else none

/-- Tries 1, 2, … 17 digits. -/
def shortest (m : Nat) (q : Int) : Scientific :=
  let top := leadingPower m q
  ((List.range 17).findSome? fun (k : Nat) => onGrid? m q (top - k)).getD ⟨0, 0⟩

/-- Positional from 10⁻⁴ up to 10¹⁶ with at least one decimal, else with an
exponent of at least two digits. -/
def showScientific (s : Scientific) : String :=
  let ds := digits s.coefficient
  let bare := match (ds.reverse.dropWhile (· == '0')).reverse with | [] => ['0'] | cs => cs
  let point : Int := (ds.length : Int) + s.exponent
  if -4 < point ∧ point ≤ 16 then
    if point ≤ 0 then
      String.ofList ('0' :: '.' :: List.replicate (-point).toNat '0' ++ bare)
    else
      let k := point.toNat
      let whole := bare.take k ++ List.replicate (k - bare.length) '0'
      let rest := bare.drop k
      String.ofList (whole ++ '.' :: if rest.isEmpty then ['0'] else rest)
  else
    let e := point - 1
    let mantissa := match bare with
      | [d] => [d]
      | d :: r => d :: '.' :: r
      | [] => []
    let mark := if e < 0 then ['e', '-'] else ['e', '+']
    String.ofList (mantissa ++ mark ++ padLeft 2 (digits e.natAbs))

/-- The shortest text that reads back as the number. -/
def shortestText (x : Float) : String :=
  match Binary.ofFloat x with
  | .nan => "nan"
  | .infinite negative => if negative then "-inf" else "inf"
  | .finite negative m q =>
    let text := if m = 0 then "0.0" else showScientific (shortest m q)
    if negative then "-" ++ text else text

end SourceAtlas.Decimal
