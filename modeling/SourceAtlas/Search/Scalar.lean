/-!
# Scores

The arithmetic that ranking needs. Programs run on floating point numbers;
statements about ranking can be made over exact ones.
-/

namespace SourceAtlas.Search

class Scalar (α : Type) extends Add α, Sub α, Mul α, Div α, BEq α where
  ofInt : Int → α
  half : α
  log : α → α
  lt : α → α → Bool

instance : Scalar Float where
  ofInt := Float.ofInt
  half := 0.5
  log := Float.log
  lt a b := a < b

section
variable {α : Type} [Scalar α]

def ofNat (n : Nat) : α := Scalar.ofInt n

def isZero (x : α) : Bool := x == ofNat 0

def isPositive (x : α) : Bool := Scalar.lt (ofNat 0) x

def isNegative (x : α) : Bool := Scalar.lt x (ofNat 0)

/-- The first unless the second is above it. -/
def larger (a b : α) : α := if Scalar.lt a b then b else a

/-- The first unless the second is below it. -/
def smaller (a b : α) : α := if Scalar.lt b a then b else a

end

end SourceAtlas.Search
