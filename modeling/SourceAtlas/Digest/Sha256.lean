import SourceAtlas.Digest.Stream

/-!
# SHA-256
-/

namespace SourceAtlas.Digest.Sha256

def roundKeys : List UInt32 :=
  [
   0x428a2f98, 0x71374491, 0xb5c0fbcf, 0xe9b5dba5, 0x3956c25b, 0x59f111f1, 0x923f82a4, 0xab1c5ed5,
   0xd807aa98, 0x12835b01, 0x243185be, 0x550c7dc3, 0x72be5d74, 0x80deb1fe, 0x9bdc06a7, 0xc19bf174,
   0xe49b69c1, 0xefbe4786, 0x0fc19dc6, 0x240ca1cc, 0x2de92c6f, 0x4a7484aa, 0x5cb0a9dc, 0x76f988da,
   0x983e5152, 0xa831c66d, 0xb00327c8, 0xbf597fc7, 0xc6e00bf3, 0xd5a79147, 0x06ca6351, 0x14292967,
   0x27b70a85, 0x2e1b2138, 0x4d2c6dfc, 0x53380d13, 0x650a7354, 0x766a0abb, 0x81c2c92e, 0x92722c85,
   0xa2bfe8a1, 0xa81a664b, 0xc24b8b70, 0xc76c51a3, 0xd192e819, 0xd6990624, 0xf40e3585, 0x106aa070,
   0x19a4c116, 0x1e376c08, 0x2748774c, 0x34b0bcb5, 0x391c0cb3, 0x4ed8aa4a, 0x5b9cca4f, 0x682e6ff3,
   0x748f82ee, 0x78a5636f, 0x84c87814, 0x8cc70208, 0x90befffa, 0xa4506ceb, 0xbef9a3f7, 0xc67178f2]

def start : Array UInt32 :=
  #[0x6a09e667, 0xbb67ae85, 0x3c6ef372, 0xa54ff53a,
    0x510e527f, 0x9b05688c, 0x1f83d9ab, 0x5be0cd19]

def rotateRight (x : UInt32) (n : UInt32) : UInt32 := (x >>> n) ||| (x <<< (32 - n))

def wordAt (block : Array UInt8) (i : Nat) : UInt32 :=
  (List.range 4).foldl (fun w k => (w <<< 8) ||| (block.getD (4 * i + k) 0).toUInt32) 0

/-- The sixteen words of a block followed by forty-eight mixed from earlier ones. -/
def schedule (block : Array UInt8) : Array UInt32 :=
  (List.range 48).foldl
    (fun w _ =>
      let earlier (back : Nat) : UInt32 := w.getD (w.size - back) 0
      let x := earlier 15
      let y := earlier 2
      let s0 := rotateRight x 7 ^^^ rotateRight x 18 ^^^ (x >>> 3)
      let s1 := rotateRight y 17 ^^^ rotateRight y 19 ^^^ (y >>> 10)
      w.push (earlier 16 + s0 + earlier 7 + s1))
    ((List.range 16).map (wordAt block)).toArray

def round (s : Array UInt32) (key word : UInt32) : Array UInt32 :=
  let get (i : Nat) : UInt32 := s.getD i 0
  let (a, e) := (get 0, get 4)
  let s1 := rotateRight e 6 ^^^ rotateRight e 11 ^^^ rotateRight e 25
  let choice := (e &&& get 5) ^^^ (~~~e &&& get 6)
  let t1 := get 7 + s1 + choice + key + word
  let s0 := rotateRight a 2 ^^^ rotateRight a 13 ^^^ rotateRight a 22
  let majority := (a &&& get 1) ^^^ (a &&& get 2) ^^^ (get 1 &&& get 2)
  #[t1 + s0 + majority, a, get 1, get 2, get 3 + t1, e, get 5, get 6]

def compress (s : Array UInt32) (block : Array UInt8) : Array UInt32 :=
  let mixed := (roundKeys.zip (schedule block).toList).foldl (fun t kw => round t kw.1 kw.2) s
  Array.zipWith (· + ·) s mixed

def finish (s : Array UInt32) (tail : Array UInt8) (length : Nat) : List UInt8 :=
  let padded := pad (bigEndian 8 (8 * length)) tail
  let last := (blocks 64 padded).foldl compress s
  last.toList.flatMap fun w => bigEndian 4 w.toNat

def hash : BlockHash := ⟨Array UInt32, start, 64, compress, finish⟩

end SourceAtlas.Digest.Sha256
