import SourceAtlas.Digest.Stream

/-!
# XXH64 with seed zero
-/

namespace SourceAtlas.Digest.XxHash64

def p1 : UInt64 := 0x9e3779b185ebca87
def p2 : UInt64 := 0xc2b2ae3d27d4eb4f
def p3 : UInt64 := 0x165667b19e3779f9
def p4 : UInt64 := 0x85ebca77c2b2ae63
def p5 : UInt64 := 0x27d4eb2f165667c5

def rotateLeft (x : UInt64) (n : UInt64) : UInt64 := (x <<< n) ||| (x >>> (64 - n))

def ofLittleEndian (bytes : List UInt8) : UInt64 :=
  bytes.foldr (fun b w => (w <<< 8) ||| b.toUInt64) 0

def lane (acc input : UInt64) : UInt64 := rotateLeft (acc + input * p2) 31 * p1

/-- The four accumulators. -/
abbrev State := List UInt64

def start : State := [p1 + p2, p2, 0, 0 - p1]

def compress (s : State) (block : Array UInt8) : State :=
  s.zipIdx.map fun (acc, i) => lane acc (ofLittleEndian ((block.toList.drop (8 * i)).take 8))

def merge (s : State) : UInt64 :=
  let sum := (s.zip [1, 7, 12, 18]).foldl (fun h (acc, n) => h + rotateLeft acc n) 0
  s.foldl (fun h acc => (h ^^^ lane 0 acc) * p1 + p4) sum

/-- Mixes in the bytes that fill no block: eight at a time, then four, then single ones. -/
def absorbTail : Nat → UInt64 → List UInt8 → UInt64
  | 0, h, _ => h
  | fuel + 1, h, bytes =>
    if 8 ≤ bytes.length then
      let mixed := rotateLeft (h ^^^ lane 0 (ofLittleEndian (bytes.take 8))) 27 * p1 + p4
      absorbTail fuel mixed (bytes.drop 8)
    else if 4 ≤ bytes.length then
      let mixed := rotateLeft (h ^^^ (ofLittleEndian (bytes.take 4) * p1)) 23 * p2 + p3
      absorbTail fuel mixed (bytes.drop 4)
    else match bytes with
      | [] => h
      | b :: rest => absorbTail fuel (rotateLeft (h ^^^ (b.toUInt64 * p5)) 11 * p1) rest

def avalanche (h : UInt64) : UInt64 :=
  let h := (h ^^^ (h >>> 33)) * p2
  let h := (h ^^^ (h >>> 29)) * p3
  h ^^^ (h >>> 32)

def finish (s : State) (tail : Array UInt8) (length : Nat) : List UInt8 :=
  let base := (if length < 32 then p5 else merge s) + UInt64.ofNat length
  bigEndian 8 (avalanche (absorbTail (tail.size + 1) base tail.toList)).toNat

def hash : BlockHash := ⟨State, start, 32, compress, finish⟩

end SourceAtlas.Digest.XxHash64
