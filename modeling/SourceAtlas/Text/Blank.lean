import SourceAtlas.Text.Ranges

/-!
# Blanks, words and lines

Blanks are the white space of Unicode 14 and the four separators U+001C to
U+001F. Lines end at any of eleven marks; a carriage return and a line feed
together are one mark.
-/

namespace SourceAtlas.Text

def blankRanges : List (Nat × Nat) :=
  [(9, 13), (28, 32), (133, 133), (160, 160), (5760, 5760), (8192, 8202), (8232, 8233),
   (8239, 8239), (8287, 8287), (12288, 12288)]

def isBlank (c : Char) : Bool := inRanges blankRanges c

/-- The list without the members of `p` at its end. -/
def dropEndWhile (p : Char → Bool) (cs : List Char) : List Char :=
  (cs.reverse.dropWhile p).reverse

def trimWhile (p : Char → Bool) (cs : List Char) : List Char :=
  dropEndWhile p (cs.dropWhile p)

def strip (s : String) : String := String.ofList (trimWhile isBlank s.toList)

def stripEnd (p : Char → Bool) (s : String) : String := String.ofList (dropEndWhile p s.toList)

/-- Splits at every member of `p`; adjacent members leave empty pieces. -/
def splitAt (p : Char → Bool) : List Char → List (List Char)
  | [] => [[]]
  | c :: rest =>
    if p c then [] :: splitAt p rest
    else match splitAt p rest with
      | piece :: more => (c :: piece) :: more
      | [] => [[c]]

/-- The maximal runs of characters that are not blank. -/
def words (s : String) : List String :=
  ((splitAt isBlank s.toList).filter (!·.isEmpty)).map String.ofList

/-- The text without any blank. -/
def squeeze (s : String) : String := String.ofList (s.toList.filter (!isBlank ·))

def isLineEnd (c : Char) : Bool :=
  inRanges [(10, 13), (28, 30), (133, 133), (8232, 8233)] c

/-- A carriage return with its line feed becomes the line feed alone. -/
def joinReturns : List Char → List Char
  | '\r' :: '\n' :: rest => '\n' :: joinReturns rest
  | c :: rest => c :: joinReturns rest
  | [] => []

/-- The lines of a text without their ends; an end mark at the very end opens no line. -/
def lines (s : String) : List String :=
  let pieces := splitAt isLineEnd (joinReturns s.toList)
  let kept := if pieces.getLast? == some [] then pieces.dropLast else pieces
  kept.map String.ofList

/-- Every line end of the three common kinds becomes a line feed. -/
def unixLines (s : String) : String :=
  String.ofList ((joinReturns s.toList).map fun c => if c == '\r' then '\n' else c)

def joinLines (ls : List String) : String := String.intercalate "\n" ls

def hasStart (start s : String) : Bool := start.toList.isPrefixOf s.toList

/-- Whether a text holds another one. -/
def occursIn (part : List Char) : List Char → Bool
  | [] => part.isEmpty
  | c :: cs => part.isPrefixOf (c :: cs) || occursIn part cs

def hasEnd (ending s : String) : Bool := ending.toList.isSuffixOf s.toList

end SourceAtlas.Text
