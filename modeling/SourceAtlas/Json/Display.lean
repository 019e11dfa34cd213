import SourceAtlas.Json.Value
import SourceAtlas.Text.Printable
import SourceAtlas.Decimal.Shortest

/-!
# Values as plain text

A text stands for itself at the top and is quoted inside lists and records.
Quotes are single unless the text holds a single quote and no double one.
-/

namespace SourceAtlas.Json

def hexText (width n : Nat) : List Char := Decimal.padLeft width (Nat.toDigits 16 n)

def quoteChar (quote : Char) (c : Char) : List Char :=
  if c == quote || c == '\\' then ['\\', c]
  else if c == '\n' then ['\\', 'n']
  else if c == '\r' then ['\\', 'r']
  else if c == '\t' then ['\\', 't']
  else if Text.isPrintable c then [c]
  else if c.toNat < 0x100 then '\\' :: 'x' :: hexText 2 c.toNat
  else if c.toNat < 0x10000 then '\\' :: 'u' :: hexText 4 c.toNat
  else '\\' :: 'U' :: hexText 8 c.toNat

def quoted (s : String) : String :=
  let cs := s.toList
  let quote := if cs.contains '\'' && !cs.contains '"' then '"' else '\''
  String.ofList (quote :: cs.flatMap (quoteChar quote) ++ [quote])

mutual

/-- The text of a value where texts are quoted. -/
def shown : Value → String
  | .null => "None"
  | .bool b => if b then "True" else "False"
  | .int n => toString n
  | .float x => Decimal.shortestText x
  | .str s => quoted s
  | .list xs => "[" ++ String.intercalate ", " (shownItems xs) ++ "]"
  | .obj fs => "\x7b" ++ String.intercalate ", " (shownFields fs) ++ "\x7d"

def shownItems : List Value → List String
  | [] => []
  | v :: vs => shown v :: shownItems vs

def shownFields : List (String × Value) → List String
  | [] => []
  | (name, v) :: fs => (quoted name ++ ": " ++ shown v) :: shownFields fs

end

/-- The text of a value where a text stands for itself. -/
def plain : Value → String
  | .str s => s
  | v => shown v

end SourceAtlas.Json
