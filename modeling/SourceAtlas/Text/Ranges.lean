/-!
# Character classes as range tables

A class is a list of inclusive code point ranges in ascending order.
-/

namespace SourceAtlas.Text

/-- Whether some range of the table holds the character. -/
def inRanges (table : List (Nat × Nat)) (c : Char) : Bool :=
  table.any fun r => r.1 ≤ c.toNat && c.toNat ≤ r.2

end SourceAtlas.Text
