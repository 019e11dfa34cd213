/-!
# Reading bytes as text

Ill-formed bytes are replaced: each longest run that starts a well-formed
character but does not complete it becomes one replacement character.
-/

namespace SourceAtlas.Text

/-- A started character: bytes still to come, bits so far, bounds on the next byte. -/
structure Started where
  left : Nat
  bits : Nat
  low : Nat := 0x80
  high : Nat := 0xbf

/-- How a byte that starts a character is read. -/
inductive Lead where
  | whole (c : Char)
  | opens (s : Started)
  | bad

def leadOf (b : UInt8) : Lead :=
  let n := b.toNat
  if n < 0x80 then .whole (Char.ofNat n)
  else if n < 0xc2 then .bad
  else if n < 0xe0 then .opens { left := 1, bits := n - 0xc0 }
  else if n < 0xf0 then
    .opens { left := 2, bits := n - 0xe0, low := if n = 0xe0 then 0xa0 else 0x80,
             high := if n = 0xed then 0x9f else 0xbf }
  else if n < 0xf5 then
    .opens { left := 3, bits := n - 0xf0, low := if n = 0xf0 then 0x90 else 0x80,
             high := if n = 0xf4 then 0x8f else 0xbf }
  else .bad

def replacement : Char := '\ufffd'

def decodeFrom : Option Started → List UInt8 → List Char
  | none, [] => []
  | some _, [] => [replacement]
  | none, b :: rest =>
    match leadOf b with
    | .whole c => c :: decodeFrom none rest
    | .opens s => decodeFrom (some s) rest
    | .bad => replacement :: decodeFrom none rest
  | some s, b :: rest =>
    if s.low ≤ b.toNat && b.toNat ≤ s.high then
      let bits := s.bits * 64 + (b.toNat - 0x80)
      if s.left ≤ 1 then Char.ofNat bits :: decodeFrom none rest
      else decodeFrom (some { left := s.left - 1, bits }) rest
    else
      replacement :: match leadOf b with
        | .whole c => c :: decodeFrom none rest
        | .opens s => decodeFrom (some s) rest
        | .bad => replacement :: decodeFrom none rest

/-- The text of bytes, with ill-formed parts replaced. -/
def decode (bytes : List UInt8) : String := String.ofList (decodeFrom none bytes)

/-- The bytes of a text. -/
def encode (s : String) : List UInt8 := s.toUTF8.toList

/-- The text of bytes, or nothing if some part of them is ill-formed. -/
def decode? (bytes : List UInt8) : Option String :=
  let s := decode bytes
  if encode s = bytes then some s else none

end SourceAtlas.Text
