import SourceAtlas.Text.Utf8

/-!
# Encodings

The encoding of a text that starts with two ASCII characters can be told from
where its first four bytes are zero. A mark in front may tell it, too.
-/

namespace SourceAtlas.Text

inductive Encoding where
  | utf8
  /-- Eight-bit units after a mark. -/
  | markedUtf8
  | utf16 (bigEndian : Bool)
  | utf32 (bigEndian : Bool)
  deriving DecidableEq

def Encoding.detect : List UInt8 → Encoding
  | 0xef :: 0xbb :: 0xbf :: _ => .markedUtf8
  | a :: b :: c :: d :: _ =>
    if a = 0 then if b = 0 then .utf32 true else .utf16 true
    else if b = 0 then if c = 0 && d = 0 then .utf32 false else .utf16 false
    else .utf8
  | [a, b] => if a = 0 then .utf16 true else if b = 0 then .utf16 false else .utf8
  | _ => .utf8

/-- The numbers that units of `n + 1` bytes make; a part of a unit is a fault. -/
def unitsOf (n : Nat) (bigEndian : Bool) (bytes : List UInt8) : Option (List Nat) :=
  match bytes with
  | [] => some []
  | b :: rest =>
    let unit := (b :: rest).take (n + 1)
    if unit.length < n + 1 then none
    else
      let ordered := if bigEndian then unit else unit.reverse
      let value := ordered.foldl (fun v b => v * 256 + b.toNat) 0
      (unitsOf n bigEndian ((b :: rest).drop (n + 1))).map (value :: ·)
termination_by bytes.length
decreasing_by rw [List.length_drop, List.length_cons]; omega

def isHighHalf (n : Nat) : Bool := 0xd800 ≤ n && n ≤ 0xdbff

def isLowHalf (n : Nat) : Bool := 0xdc00 ≤ n && n ≤ 0xdfff

/-- The character of a code point; half of a pair stands for no character. -/
def ofCodePoint (n : Nat) : Char := if isHighHalf n || isLowHalf n then replacement else Char.ofNat n

/-- Joins the pairs of halves. -/
def joinHalves : List Nat → List Char
  | high :: low :: rest =>
    if isHighHalf high && isLowHalf low then
      Char.ofNat (0x10000 + (high - 0xd800) * 0x400 + (low - 0xdc00)) :: joinHalves rest
    else ofCodePoint high :: joinHalves (low :: rest)
  | [n] => [ofCodePoint n]
  | [] => []

/-- The text of bytes in an encoding, or nothing if some part of them is ill-formed. -/
def Encoding.decode? (e : Encoding) (bytes : List UInt8) : Option String :=
  match e with
  | utf8 => Text.decode? bytes
  | markedUtf8 => Text.decode? (bytes.drop 3)
  | utf16 bigEndian => (unitsOf 1 bigEndian bytes).map fun ns => String.ofList (joinHalves ns)
  | utf32 bigEndian =>
    (unitsOf 3 bigEndian bytes).bind fun ns =>
      if ns.all (· < 0x110000) then some (String.ofList (ns.map ofCodePoint)) else none

end SourceAtlas.Text
