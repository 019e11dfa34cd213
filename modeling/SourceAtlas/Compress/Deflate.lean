/-!
# Deflated streams

A stream is a sequence of blocks. A block holds bytes as they are, or symbols
in a prefix code: a symbol is a byte, the end of the block, or the length of a
run that repeats what stands some distance back. The codes are fixed or come
with the block, told by the lengths of their words.
-/

namespace SourceAtlas.Compress

/-- Why bytes cannot be unpacked. -/
inductive Fault where
  /-- No mark of a compressed file, an unknown method, or contents that do not fit their checksum. -/
  | foreign
  | cutOff
  | corrupt
  deriving DecidableEq

namespace Deflate

/-- Reading from the front of some bits. -/
abbrev Reading := StateT (List Bool) (Except Fault)

def bit : Reading Bool
  | [] => throw .cutOff
  | b :: bits => pure (b, bits)

/-- A number of `n` bits, the lowest first. -/
def number : Nat → Reading Nat
  | 0 => pure 0
  | n + 1 => do
    let b ← bit
    pure (b.toNat + 2 * (← number n))

/-! ## Prefix codes -/

/-- A prefix code as the tree of its words. -/
inductive Code where
  | unused
  | symbol (n : Nat)
  | split (zero one : Code)

namespace Code

def read : Code → Reading Nat
  | unused => throw .corrupt
  | symbol n => pure n
  | split zero one => do if ← bit then one.read else zero.read

/-- Whether every word is used. -/
def isFull : Code → Bool
  | unused => false
  | symbol _ => true
  | split zero one => zero.isFull && one.isFull

/-- The code below a word of length `depth`, for symbols in the order of their words, with the
symbols that are left over. -/
def grow : (room depth : Nat) → List (Nat × Nat) → Code × List (Nat × Nat)
  | _, _, [] => (unused, [])
  | 0, _, rest => (unused, rest)
  | room + 1, depth, (length, n) :: rest =>
    if length = depth then (symbol n, rest)
    else
      let (zero, rest) := grow room (depth + 1) ((length, n) :: rest)
      let (one, rest) := grow room (depth + 1) rest
      (split zero one, rest)

def maxLength : Nat := 15

/-- The symbols that have words, with the lengths of these, the shortest first. -/
def ranked (lengths : List Nat) : List (Nat × Nat) :=
  (List.range maxLength).flatMap fun n => lengths.zipIdx.filter (·.1 == n + 1)

/-- The code whose words have some lengths, zero for none, with the symbols that find no word. -/
def ofLengths (lengths : List Nat) : Code × List (Nat × Nat) :=
  let (zero, rest) := grow maxLength 1 (ranked lengths)
  let (one, rest) := grow maxLength 1 rest
  (split zero one, rest)

/-- The code of a block. It is full, but for one of at most one word. -/
def checked (lengths : List Nat) : Reading Code :=
  let (code, left) := ofLengths lengths
  if left.isEmpty && (code.isFull || lengths.all (· ≤ 1)) then pure code else throw .corrupt

end Code

/-! ## Runs -/

/-- The ranges of consecutive numbers that have some numbers of bits, each by its start. -/
def ranges (start : Nat) : List Nat → List (Nat × Nat)
  | [] => []
  | bits :: rest => (start, bits) :: ranges (start + Nat.pow 2 bits) rest

def lengthRanges : List (Nat × Nat) :=
  ranges 3 (List.replicate 8 0 ++ [1, 2, 3, 4, 5].flatMap (List.replicate 4)) ++ [(258, 0)]

def distanceRanges : List (Nat × Nat) :=
  ranges 1 ([0, 0] ++ (List.range 14).flatMap (List.replicate 2))

/-- A number in one of some ranges. -/
def numberIn (rs : List (Nat × Nat)) (i : Nat) : Reading Nat :=
  match rs[i]? with
  | some (start, bits) => do pure (start + (← number bits))
  | none => throw .corrupt

/-- Repeats what stands some distance back, which may run into itself. -/
def again (distance : Nat) : Nat → Array UInt8 → Array UInt8
  | 0, out => out
  | n + 1, out => again distance n (out.push (out.getD (out.size - distance) 0))

/-! ## Blocks -/

/-- The symbols of a block up to its end, each of at least one bit. -/
def readSymbols (literals distances : Code) : (fuel : Nat) → Array UInt8 → Reading (Array UInt8)
  | 0, _ => throw .cutOff
  | fuel + 1, out => do
    let n ← literals.read
    if n < 256 then readSymbols literals distances fuel (out.push n.toUInt8)
    else if n = 256 then pure out
    else
      let length ← numberIn lengthRanges (n - 257)
      let distance ← numberIn distanceRanges (← distances.read)
      if out.size < distance then throw .corrupt
      readSymbols literals distances fuel (again distance length out)

def readBytes : Nat → Array UInt8 → Reading (Array UInt8)
  | 0, out => pure out
  | n + 1, out => do readBytes n (out.push (← number 8).toUInt8)

/-- A block of bytes as they are, which starts at a whole byte. -/
def readStored (out : Array UInt8) : Reading (Array UInt8) := do
  modify fun bits => bits.drop (bits.length % 8)
  let n ← number 16
  let complement ← number 16
  if n + complement ≠ 0xffff then throw .corrupt
  readBytes n out

/-- The lengths of words up to `total`; a symbol from 16 on repeats one. -/
def readLengths (code : Code) (total : Nat) : (fuel : Nat) → List Nat → Reading (List Nat)
  | 0, _ => throw .cutOff
  | fuel + 1, lengths =>
    if lengths.length = total then pure lengths
    else do
      let (length, times) ← match ← code.read with
        | 16 => do
          let times ← number 2
          match lengths.getLast? with
          | some length => pure (length, 3 + times)
          | none => throw .corrupt
        | 17 => do pure (0, 3 + (← number 3))
        | 18 => do pure (0, 11 + (← number 7))
        | length => pure (length, 1)
      if total < lengths.length + times then throw .corrupt
      readLengths code total fuel (lengths ++ List.replicate times length)

/-- The order in which the words for lengths are told. -/
def lengthOrder : List Nat := [16, 17, 18, 0, 8, 7, 9, 6, 10, 5, 11, 4, 12, 3, 13, 2, 14, 1, 15]

/-- The code for lengths. Where no length has a word, every bit stands for zero. -/
def lengthCode (told : List (Nat × Nat)) : Reading Code :=
  if told.all (·.2 == 0) then pure (.split (.symbol 0) (.symbol 0))
  else
    let (code, left) := Code.ofLengths ((List.range 19).map fun n => (told.lookup n).getD 0)
    if left.isEmpty && code.isFull then pure code else throw .corrupt

/-- The codes that come with a block, for literals and for distances. -/
def readCodes : Reading (Code × Code) := do
  let literals := 257 + (← number 5)
  let distances := 1 + (← number 5)
  let count := 4 + (← number 4)
  if 286 < literals || 30 < distances then throw .corrupt
  let code ← lengthCode (← (lengthOrder.take count).mapM fun n => do pure (n, ← number 3))
  let lengths ← readLengths code (literals + distances) (literals + distances + 1) []
  if lengths.getD 256 0 = 0 then throw .corrupt
  pure (← Code.checked (lengths.take literals), ← Code.checked (lengths.drop literals))

def fixedLiterals : Code :=
  (Code.ofLengths (List.replicate 144 8 ++ List.replicate 112 9 ++ List.replicate 24 7 ++ List.replicate 8 8)).1

def fixedDistances : Code := (Code.ofLengths (List.replicate 32 5)).1

/-- The blocks up to the last one, each of at least three bits. -/
def readBlocks : (fuel : Nat) → Array UInt8 → Reading (Array UInt8)
  | 0, _ => throw .cutOff
  | fuel + 1, out => do
    let last ← bit
    let out ← match ← number 2 with
      | 0 => readStored out
      | 1 => do readSymbols fixedLiterals fixedDistances ((← get).length + 1) out
      | 2 => do
        let (literals, distances) ← readCodes
        readSymbols literals distances ((← get).length + 1) out
      | _ => throw .corrupt
    if last then pure out else readBlocks fuel out

/-- The bits of a byte, the lowest first. -/
def bitsOf (b : UInt8) : List Bool := (List.range 8).map b.toNat.testBit

/-- What a stream at the front of some bytes holds, and the bytes that follow it. -/
def inflate (bytes : List UInt8) : Except Fault (List UInt8 × List UInt8) := do
  let bits := bytes.flatMap bitsOf
  let (out, rest) ← (readBlocks (bits.length + 1) #[]).run bits
  pure (out.toList, bytes.drop (bytes.length - rest.length / 8))

end Deflate

end SourceAtlas.Compress
