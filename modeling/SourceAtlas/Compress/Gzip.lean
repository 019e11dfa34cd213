import SourceAtlas.Compress.Deflate
import SourceAtlas.Digest.Crc32

/-!
# Compressed files

A file is a sequence of members. A member has a header that starts with a mark
of two bytes, a deflated stream, and the checksum and the length of what the
stream holds. Zeros may follow a member.
-/

namespace SourceAtlas.Compress.Gzip

/-- The first `n` bytes and those that follow. -/
def splitOff (n : Nat) (bytes : List UInt8) : Except Fault (List UInt8 × List UInt8) :=
  if bytes.length < n then throw .cutOff else pure (bytes.splitAt n)

def ofLittleEndian (bytes : List UInt8) : Nat := bytes.foldr (fun b n => b.toNat + 256 * n) 0

/-- What follows a text that ends with a zero; one that does not end has nothing behind it. -/
def dropText (bytes : List UInt8) : List UInt8 := (bytes.dropWhile (· != 0)).drop 1

/-- What follows a header, of which the mark was read. The method has to be 8, and flags tell which
optional parts there are. -/
def dropHeader (bytes : List UInt8) : Except Fault (List UInt8) := do
  let (fixed, bytes) ← splitOff 8 bytes
  if fixed.head? ≠ some 8 then throw .foreign
  let flag := (fixed.getD 1 0).toNat.testBit
  let bytes ← if flag 2 then do
      let (size, bytes) ← splitOff 2 bytes
      pure (← splitOff (ofLittleEndian size) bytes).2
    else pure bytes
  let bytes := if flag 3 then dropText bytes else bytes
  let bytes := if flag 4 then dropText bytes else bytes
  if flag 1 then pure (← splitOff 2 bytes).2 else pure bytes

/-- Whether a member ends with the checksum and the length of its contents. -/
def seals (trailer contents : List UInt8) : Bool :=
  ofLittleEndian (trailer.take 4) == (Digest.Crc32.digest contents).toNat &&
    ofLittleEndian (trailer.drop 4) == contents.length % Nat.pow 2 32

/-- The contents of all members, each of more than one byte. -/
def unpackFrom : (fuel : Nat) → List UInt8 → Except Fault (List UInt8)
  | _, [] => pure []
  | fuel + 1, 0x1f :: 0x8b :: bytes => do
    let (contents, bytes) ← Deflate.inflate (← dropHeader bytes)
    let (trailer, bytes) ← splitOff 8 bytes
    if !seals trailer contents then throw .foreign
    pure (contents ++ (← unpackFrom fuel (bytes.dropWhile (· == 0))))
  | _, _ => throw .foreign

/-- The bytes that a compressed file holds. -/
def unpack (bytes : List UInt8) : Except Fault (List UInt8) := unpackFrom bytes.length bytes

end SourceAtlas.Compress.Gzip
