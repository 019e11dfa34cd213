import SourceAtlas.Decimal.Reading

/-!
# Lenient numerals

Numbers as people write them: with blanks around them, zeros in front,
underscores between digits, and a fraction of zeros after a whole number.
-/

namespace SourceAtlas.Settings.Numeral

/-- White space; the separators U+001C to U+001F are none. -/
def isBlank (c : Char) : Bool := Text.isBlank c && !(28 ≤ c.toNat && c.toNat ≤ 31)

def trim (s : String) : List Char := Text.trimWhile isBlank s.toList

/-- Takes out underscores, none of which may stand at an end or beside another. -/
def withoutUnderscores (cs : List Char) : Option (List Char) :=
  let pieces := Text.splitAt (· == '_') cs
  if pieces.any (·.isEmpty) then none else some pieces.flatten

/-- The part in front of a point, if zeros and nothing else follow it. -/
def withoutZeroFraction (cs : List Char) : List Char :=
  match cs.dropWhile (· != '.') with
  | '.' :: '0' :: rest => if rest.all (· == '0') then cs.takeWhile (· != '.') else cs
  | _ => cs

/-- What is left of a numeral after its zeros in front, the last of which was `last`. -/
def afterZeros (last : Char) : List Char → Option (List Char)
  | [] => some [last]
  | c :: rest =>
    if c == '0' || c == '_' then afterZeros c rest
    else if c == '.' then some (last :: c :: rest)
    else if c.isDigit || c == '-' then some (c :: rest)
    else none

/-- A numeral that starts with zeros keeps one only where it would start with none. -/
def withoutLeadingZeros : List Char → Option (List Char)
  | '0' :: rest => afterZeros '0' rest
  | c :: rest => if c.isDigit || c == '-' then some (c :: rest) else none
  | [] => none

def withoutPlus : List Char → Option (List Char)
  | '+' :: '-' :: _ => none
  | '+' :: rest => some rest
  | cs => some cs

/-- Digits with an optional minus. -/
def signedDigits? : List Char → Option Int
  | '-' :: cs => (Decimal.digits? cs).map fun (n : Nat) => -(n : Int)
  | cs => (Decimal.digits? cs).map fun (n : Nat) => (n : Int)

def whole? (s : String) : Option Int := do
  let cs ← withoutLeadingZeros (← withoutPlus (trim s))
  signedDigits? (← withoutUnderscores (withoutZeroFraction cs))

def real? (s : String) : Option Float :=
  Decimal.signed? (trim s) <|> (withoutUnderscores s.toList).bind Decimal.signed?

end SourceAtlas.Settings.Numeral
