import SourceAtlas.Text.Blank

/-!
# Doc comments as plain text

Comment marks and the words TODO and FIXME are taken out in one pass from
left to right; line comment marks only where a line starts. The lines that
are left are trimmed, and blank ones dropped.
-/

namespace SourceAtlas.DocComment

/-- The length of the comment mark at the front, zero if there is none. -/
def markLength (lineStart : Bool) (cs : List Char) : Nat :=
  let starts (word : String) : Bool := word.toList.isPrefixOf cs
  if starts "/**" then 3
  else if starts "/*" then 2
  else if starts "*/" then 2
  else if starts "*" then 1
  else if starts "TODO" then 4
  else if starts "FIXME" then 5
  else if lineStart then
    let blanks := (cs.takeWhile fun c => c == ' ' || c == '\t').length
    let slashes := ((cs.drop blanks).takeWhile (· == '/')).length
    let hashes := ((cs.drop blanks).takeWhile (· == '#')).length
    if 2 ≤ slashes then blanks + slashes else if 1 ≤ hashes then blanks + hashes else 0
  else 0

/-- Takes out the marks; `skip` characters belong to a mark that is already found. -/
def withoutMarks : Nat → Bool → List Char → List Char
  | _, _, [] => []
  | skip + 1, _, c :: cs => withoutMarks skip (c == '\n') cs
  | 0, lineStart, c :: cs =>
    match markLength lineStart (c :: cs) with
    | 0 => c :: withoutMarks 0 (c == '\n') cs
    | n + 1 => withoutMarks n (c == '\n') cs

/-- The trimmed lines of a text that are not blank. -/
def trimmedLines (s : String) : List String := ((Text.lines s).map Text.strip).filter (· != "")

def clean (doc : String) : String :=
  Text.joinLines (trimmedLines (String.ofList (withoutMarks 0 true doc.toList)))

end SourceAtlas.DocComment
