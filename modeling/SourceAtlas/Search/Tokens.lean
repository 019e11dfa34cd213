/-!
# Tokens of identifiers

Words of ASCII letters, digits and underscores are lowered; a word that has
several parts, by underscores, capitals or digits, yields its parts as well.
-/

namespace SourceAtlas.Search

def isWordPart (c : Char) : Bool := c.isAlphanum || c == '_'

/-- The maximal runs of members of `p`; `run` is the current one in reverse. -/
def runs (p : Char → Bool) (run : List Char) : List Char → List (List Char)
  | [] => if run.isEmpty then [] else [run.reverse]
  | c :: cs =>
    if p c then runs p (c :: run) cs
    else if run.isEmpty then runs p [] cs
    else run.reverse :: runs p [] cs

/-- The length of the part at the front: capitals that no small letter follows, or small
letters with at most one capital in front, or digits. -/
def partLength (cs : List Char) : Nat :=
  let capitals := (cs.takeWhile Char.isUpper).length
  let small := ((cs.drop capitals).takeWhile Char.isLower).length
  if 0 < capitals then
    if small = 0 then capitals
    else if 1 < capitals then capitals - 1
    else 1 + small
  else if 0 < small then small
  else (cs.takeWhile Char.isDigit).length

/-- Cuts a word at the ends of its parts; `fuel` bounds their number. -/
def partsFrom : Nat → List Char → List (List Char)
  | 0, _ => []
  | _, [] => []
  | fuel + 1, c :: cs =>
    match partLength (c :: cs) with
    | 0 => partsFrom fuel cs
    | n + 1 => (c :: cs).take (n + 1) :: partsFrom fuel ((c :: cs).drop (n + 1))

def parts (word : List Char) : List (List Char) :=
  (runs (· != '_') [] word).flatMap fun chunk => partsFrom chunk.length chunk

def lowered (cs : List Char) : String := String.ofList (cs.map Char.toLower)

/-- A word followed by its parts, when there are at least two. -/
def wordTokens (word : List Char) : List String :=
  match parts word with
  | ps@(_ :: _ :: _) => lowered word :: ps.map lowered
  | _ => [lowered word]

def tokenize (text : String) : List String := (runs isWordPart [] text.toList).flatMap wordTokens

/-- The words alone. -/
def wordsOf (text : String) : List String := (runs isWordPart [] text.toList).map String.ofList

end SourceAtlas.Search
