/-!
# Glob patterns

A star stands for any run of characters, a question mark for one, and
brackets for one of a set with ranges; an exclamation mark negates the set. A
bracket that is never closed stands for itself.
-/

namespace SourceAtlas.Text.Glob

inductive Piece where
  | star
  | any
  | exactly (c : Char)
  | oneOf (negated : Bool) (ranges : List (Char × Char))

def Piece.accepts : Piece → Char → Bool
  | .star, _ => true
  | .any, _ => true
  | .exactly d, c => c == d
  | .oneOf negated ranges, c => (ranges.any fun r => r.1 ≤ c && c ≤ r.2) != negated

/-- Splits the body of a set at the hyphens that stand between two ends. A hyphen is not
one of them within `skip` characters; `chunk` is the current piece in reverse. -/
def chunksFrom : Nat → List Char → List Char → List (List Char)
  | _, chunk, [] => [chunk.reverse]
  | 0, chunk, '-' :: rest => chunk.reverse :: chunksFrom 2 [] rest
  | skip, chunk, c :: rest => chunksFrom (skip - 1) (c :: chunk) rest

/-- A hyphen at the very end stands for itself. -/
def closeChunks : List (List Char) → List (List Char)
  | [chunk, []] => [chunk ++ ['-']]
  | chunk :: rest => chunk :: closeChunks rest
  | [] => []

/-- Joins neighbours whose ends form an empty range, without those ends. -/
def dropEmptyRanges : List (List Char) → List (List Char)
  | [] => []
  | chunk :: rest =>
    match chunk.getLast?, dropEmptyRanges rest with
    | some a, (b :: more) :: others =>
      if b < a then (chunk.dropLast ++ more) :: others else chunk :: (b :: more) :: others
    | _, others => chunk :: others

/-- The ranges of chunks that are joined by hyphens. -/
def rangesOf : List (List Char) → List (Char × Char)
  | [] => []
  | [chunk] => chunk.map fun c => (c, c)
  | chunk :: next :: rest =>
    let joined := match chunk.getLast?, next.head? with
      | some a, some b => [(a, b)]
      | _, _ => []
    chunk.map (fun c => (c, c)) ++ joined ++ rangesOf (next :: rest)

/-- A mark in front of what is left negates. A hyphen right after it stands for itself. -/
def setOf (body : List Char) : Piece :=
  let start := if body.head? == some '!' then 2 else 1
  match dropEmptyRanges (closeChunks (chunksFrom start [] body)) with
  | [['!']] => .any
  | ['!'] :: rest => .oneOf true (('-', '-') :: rangesOf rest)
  | ('!' :: chunk) :: rest => .oneOf true (rangesOf (chunk :: rest))
  | chunks => .oneOf false (rangesOf chunks)

/-- The body of a set and what follows its closing bracket. A bracket right at the start,
or right after the exclamation mark, belongs to the body. -/
def setBody? (cs : List Char) : Option (List Char × List Char) :=
  let (mark, cs) := match cs with | '!' :: r => (['!'], r) | r => ([], r)
  let (first, cs) := match cs with | ']' :: r => ([']'], r) | r => ([], r)
  match cs.dropWhile (· != ']') with
  | ']' :: rest => some (mark ++ first ++ cs.takeWhile (· != ']'), rest)
  | _ => none

/-- Reads a pattern; `fuel` bounds the number of pieces. -/
def piecesFrom : Nat → List Char → List Piece
  | 0, _ => []
  | _, [] => []
  | fuel + 1, '*' :: cs => .star :: piecesFrom fuel cs
  | fuel + 1, '?' :: cs => .any :: piecesFrom fuel cs
  | fuel + 1, '[' :: cs =>
    match setBody? cs with
    | some (body, rest) => setOf body :: piecesFrom fuel rest
    | none => .exactly '[' :: piecesFrom fuel cs
  | fuel + 1, c :: cs => .exactly c :: piecesFrom fuel cs

def pieces (pattern : String) : List Piece :=
  let cs := pattern.toList
  piecesFrom cs.length cs

/-- Which starts of a name a pattern with a star at its end matches, if the one without it
matches those of `row`. -/
def afterStar (found : Bool) : List Bool → List Bool
  | [] => []
  | b :: row => (found || b) :: afterStar (found || b) row

/-- Which starts of a name are matched with one more piece. The shortest start comes first. -/
def advance (name : List Char) (row : List Bool) : Piece → List Bool
  | .star => afterStar false row
  | p => false :: List.zipWith (fun b c => b && p.accepts c) row name

/-- Whether the whole name matches the pattern. -/
def «matches» (pattern name : String) : Bool :=
  let cs := name.toList
  ((pieces pattern).foldl (advance cs) (true :: cs.map fun _ => false)).getLast?.any id

end SourceAtlas.Text.Glob
