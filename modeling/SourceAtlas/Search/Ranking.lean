import SourceAtlas.Json.Access
import SourceAtlas.Search.Scalar

/-!
# Rankings

Higher scores come first, and equal scores in the order of the ids. Ids of
different kinds have no order, so equal scores must not meet there.
-/

namespace SourceAtlas.Search

open Json (Key)

section
variable {α β : Type} [Scalar α]

def ranksBefore (a b : α × Key) : Bool :=
  if a.1 == b.1 then a.2.le b.2 else !Scalar.lt a.1 b.1

def rankable (a b : α × Key) : Bool := a.1 != b.1 || a.2.comparable b.2

/-- Sorts by score and id. -/
def ranked (place : β → α × Key) (xs : List β) : Outcome (List β) :=
  sortChecked (fun a b => ranksBefore (place a) (place b))
    (fun a b => rankable (place a) (place b)) xs

end

end SourceAtlas.Search
