import SourceAtlas.Text.Blank
import SourceAtlas.Text.Digits

/-!
# Reading decimals

A decimal is rounded to the nearest floating point number. It has a sign, a
point and an exponent if it needs them; there are also words for infinity and
for what is no number.
-/

namespace SourceAtlas.Decimal

open SourceAtlas.Text (digitsToNat decimalDigit?)

/-- `n * 10 ^ e`, rounded to the nearest floating point number. -/
def ofDecimal (negative : Bool) (n : Nat) (e : Int) : Float :=
  let size := (toString n).length + e
  let magnitude :=
    if n = 0 ∨ size < -400 then 0.0
    else if 400 < size then 1.0 / 0.0
    else if 0 ≤ e then Float.ofScientific (n * Nat.pow 10 e.toNat) false 0
    else Float.ofScientific n true (-e).toNat
  if negative then -magnitude else magnitude

/-- The number that digits spell, if there are nothing but digits. -/
def digits? (cs : List Char) : Option Nat :=
  if cs.isEmpty || !cs.all Char.isDigit then none else some (digitsToNat 10 cs)

/-- Digits with an optional point and exponent. -/
def unsigned? (cs : List Char) : Option Float :=
  let whole := cs.takeWhile Char.isDigit
  let rest := cs.dropWhile Char.isDigit
  let (places, rest) := match rest with
    | '.' :: r => (r.takeWhile Char.isDigit, r.dropWhile Char.isDigit)
    | r => ([], r)
  let n := digitsToNat 10 (whole ++ places)
  let build (e : Int) : Option Float :=
    if whole.isEmpty && places.isEmpty then none else some (ofDecimal false n (e - places.length))
  match rest with
  | [] => build 0
  | c :: r =>
    if c == 'e' || c == 'E' then
      match r with
      | '-' :: r => (digits? r).bind fun e => build (-e)
      | '+' :: r => (digits? r).bind fun e => build e
      | r => (digits? r).bind fun e => build e
    else none

/-- A decimal or one of the words, in any case, with an optional sign. -/
def signed? (cs : List Char) : Option Float :=
  let magnitude (cs : List Char) : Option Float :=
    match String.ofList (cs.map Char.toLower) with
    | "inf" | "infinity" => some (1.0 / 0.0)
    | "nan" => some (0.0 / 0.0)
    | _ => unsigned? cs
  match cs with
  | '-' :: r => (magnitude r).map (- ·)
  | '+' :: r => magnitude r
  | r => magnitude r

/-- Takes out underscores, each of which has to stand between two digits. -/
def withoutUnderscores : (before : Option Char) → List Char → Option (List Char)
  | _, [] => some []
  | before, '_' :: rest =>
    if before.any Char.isDigit && rest.head?.any Char.isDigit then withoutUnderscores none rest
    else none
  | _, c :: rest => (withoutUnderscores (some c) rest).map (c :: ·)

/-- A character of another script as the blank or the digit that it is. -/
def asciiOf (c : Char) : Char :=
  if c.toNat < 127 then c
  else if Text.isBlank c then ' '
  else match decimalDigit? c with
    | some d => Char.ofNat (48 + d)
    | none => '?'

def isAsciiBlank (c : Char) : Bool := c == ' ' || 9 ≤ c.toNat && c.toNat ≤ 13

/-- The number that a text spells, with blanks around it. -/
def ofText? (s : String) : Option Float :=
  (withoutUnderscores none (Text.trimWhile isAsciiBlank (s.toList.map asciiOf))).bind signed?

end SourceAtlas.Decimal
