import SourceAtlas.Json.Value
import SourceAtlas.Decimal.Fixed

/-!
# Writing values

Values are written on one line. A floating point number is written as a text
with nine decimal places.
-/

namespace SourceAtlas.Json

def writeChar (c : Char) : List Char :=
  if c == '"' || c == '\\' then ['\\', c]
  else if c.toNat < 32 then '\\' :: 'u' :: Decimal.padLeft 4 (Nat.toDigits 16 c.toNat)
  else [c]

def writeText (s : String) : String :=
  String.ofList ('"' :: s.toList.flatMap writeChar ++ ['"'])

mutual

def write : Value → String
  | .null => "null"
  | .bool b => if b then "true" else "false"
  | .int n => toString n
  | .float x => writeText (Decimal.fixed 9 x)
  | .str s => writeText s
  | .list xs => "[" ++ String.intercalate "," (writeItems xs) ++ "]"
  | .obj fs => "\x7b" ++ String.intercalate "," (writeFields fs) ++ "\x7d"

def writeItems : List Value → List String
  | [] => []
  | v :: vs => write v :: writeItems vs

def writeFields : List (String × Value) → List String
  | [] => []
  | (name, v) :: fs => (writeText name ++ ":" ++ write v) :: writeFields fs

end

end SourceAtlas.Json
