import SourceAtlas.Text.Blank
import SourceAtlas.Text.Digits
import SourceAtlas.Text.EntityNames

/-!
# Character references

Decodes `&name;`, `&#10;` and `&#x0a;`. A name that is not known gives way
to the longest known name at its start; a number that names no character
gives a replacement character or nothing.
-/

namespace SourceAtlas.Text

def entityEntries : List (List Char × List Char) :=
  let named := (splitAt (· == ',') entityTable.toList).filterMap fun entry =>
    match splitAt (· == ' ') (entry.filter (· != '\n')) with
    | name :: codes => some (name, codes.map fun code => Char.ofNat (digitsToNat 16 code))
    | [] => none
  let bare := (words bareEntityNames).map String.toList
  named.map (fun e => (e.1 ++ [';'], e.2)) ++ named.filter (bare.contains ·.1)

def entity? (name : List Char) : Option (List Char) :=
  (entityEntries.find? (·.1 == name)).map (·.2)

/-- What old pages mean by the numbers 128 to 159. -/
def windowsCodes : List Nat :=
  [0x20ac, 0x81, 0x201a, 0x192, 0x201e, 0x2026, 0x2020, 0x2021, 0x2c6, 0x2030, 0x160, 0x2039,
   0x152, 0x8d, 0x17d, 0x8f, 0x90, 0x2018, 0x2019, 0x201c, 0x201d, 0x2022, 0x2013, 0x2014,
   0x2dc, 0x2122, 0x161, 0x203a, 0x153, 0x9d, 0x17e, 0x178]

/-- The text that a numeric reference stands for. -/
def ofReferenceNumber (n : Nat) : List Char :=
  if n = 0 then ['\ufffd']
  else if n = 13 then ['\r']
  else if 128 ≤ n ∧ n ≤ 159 then [Char.ofNat (windowsCodes.getD (n - 128) 0xfffd)]
  else if (0xd800 ≤ n ∧ n ≤ 0xdfff) ∨ 0x10ffff < n then ['\ufffd']
  else if n ≤ 8 ∨ n = 11 ∨ (14 ≤ n ∧ n ≤ 31) ∨ n = 127 ∨ (0xfdd0 ≤ n ∧ n ≤ 0xfdef) ∨
      n % 0x10000 ≥ 0xfffe then []
  else [Char.ofNat n]

/-- The longest known name of at least two characters that `name` starts with. -/
def longestEntity? (name : List Char) : Nat → Option (List Char)
  | 0 => none
  | k + 1 =>
    if k + 1 < 2 then none
    else match entity? (name.take (k + 1)) with
      | some cs => some (cs ++ name.drop (k + 1))
      | none => longestEntity? name k

def ofReferenceName (name : List Char) : List Char :=
  match entity? name with
  | some cs => cs
  | none => (longestEntity? name (name.length - 1)).getD ('&' :: name)

def isNameChar (c : Char) : Bool :=
  !(['\t', '\n', '\x0c', ' ', '<', '&', '#', ';'].contains c)

/-- The first at most `limit` members of `p` and what follows. -/
def takeUpTo (p : Char → Bool) : Nat → List Char → List Char × List Char
  | 0, cs => ([], cs)
  | _ + 1, [] => ([], [])
  | limit + 1, c :: cs =>
    if p c then let (a, b) := takeUpTo p limit cs; (c :: a, b) else ([], c :: cs)

/-- The reference that starts right after an ampersand, and what follows it. -/
def reference? (cs : List Char) : Option (List Char × List Char) :=
  let closed (rest : List Char) : List Char := match rest with | ';' :: r => r | r => r
  let number (base : Nat) (p : Char → Bool) (cs : List Char) : Option (List Char × List Char) :=
    match cs.takeWhile p with
    | [] => none
    | ds => some (ofReferenceNumber (digitsToNat base ds), closed (cs.dropWhile p))
  match cs with
  | '#' :: 'x' :: r | '#' :: 'X' :: r => number 16 (hexDigit? · |>.isSome) r
  | '#' :: r => number 10 Char.isDigit r
  | _ =>
    match takeUpTo isNameChar 32 cs with
    | ([], _) => none
    | (name, ';' :: r) => some (ofReferenceName (name ++ [';']), r)
    | (name, r) => some (ofReferenceName name, r)

/-- Decodes every reference; `fuel` bounds the number of steps. -/
def unescapeFrom : Nat → List Char → List Char
  | 0, cs => cs
  | _, [] => []
  | fuel + 1, '&' :: cs =>
    match reference? cs with
    | some (image, rest) => image ++ unescapeFrom fuel rest
    | none => '&' :: unescapeFrom fuel cs
  | fuel + 1, c :: cs => c :: unescapeFrom fuel cs

def unescape (s : String) : String :=
  let cs := s.toList
  String.ofList (unescapeFrom cs.length cs)

end SourceAtlas.Text
