/-!
# CRC-32

The remainder of a text of bits in the polynomial that the checksums of
compressed files use. Bits come lowest first.
-/

namespace SourceAtlas.Digest.Crc32

/-- Divides by one more bit. -/
def shift (crc : UInt32) : UInt32 := if crc &&& 1 = 1 then (crc >>> 1) ^^^ 0xedb88320 else crc >>> 1

def absorb (crc : UInt32) (b : UInt8) : UInt32 := (List.range 8).foldl (fun c _ => shift c) (crc ^^^ b.toUInt32)

def digest (bytes : List UInt8) : UInt32 := bytes.foldl absorb 0xffffffff ^^^ 0xffffffff

-- the usual check value
example : digest [0x31, 0x32, 0x33, 0x34, 0x35, 0x36, 0x37, 0x38, 0x39] = 0xcbf43926 := by decide +kernel

end SourceAtlas.Digest.Crc32
