/-!
# Hashing byte by byte

A block hash consumes its input in blocks of a fixed size. A stream takes one
byte at a time and compresses whenever a block is full, so the digest of an
input does not depend on how the input was cut into pieces.
-/

namespace SourceAtlas.Digest

structure BlockHash where
  State : Type
  start : State
  blockSize : Nat
  compress : State → Array UInt8 → State
  /-- The digest from the state, the bytes of the unfilled block and the length of the input. -/
  finish : State → Array UInt8 → Nat → List UInt8

structure Stream (h : BlockHash) where
  state : h.State
  tail : Array UInt8
  length : Nat

namespace Stream

variable {h : BlockHash}

def start (h : BlockHash) : Stream h := ⟨h.start, #[], 0⟩

def push (s : Stream h) (b : UInt8) : Stream h :=
  let tail := s.tail.push b
  if tail.size < h.blockSize then ⟨s.state, tail, s.length + 1⟩
  else ⟨h.compress s.state tail, #[], s.length + 1⟩

def update (s : Stream h) (bytes : List UInt8) : Stream h := bytes.foldl push s

def digest (s : Stream h) : List UInt8 := h.finish s.state s.tail s.length

end Stream

def BlockHash.digest (h : BlockHash) (bytes : List UInt8) : List UInt8 :=
  ((Stream.start h).update bytes).digest

def littleEndian (width n : Nat) : List UInt8 :=
  (List.range width).map fun k => UInt8.ofNat (n >>> (8 * k))

def bigEndian (width n : Nat) : List UInt8 := (littleEndian width n).reverse

/-- Closes an input with a one bit, zeros and its eight-byte length up to a multiple of 64. -/
def pad (length : List UInt8) (tail : Array UInt8) : List UInt8 :=
  let zeros := (119 - tail.size % 64) % 64
  tail.toList ++ 0x80 :: List.replicate zeros 0 ++ length

/-- The blocks of a list; an unfilled last one is left out. -/
def blocks (size : Nat) (bytes : List UInt8) : List (Array UInt8) :=
  (List.range (bytes.length / size)).map fun i => ((bytes.drop (i * size)).take size).toArray

def hexOfByte (b : UInt8) : List Char :=
  [Nat.digitChar (b.toNat / 16), Nat.digitChar (b.toNat % 16)]

def hex (bytes : List UInt8) : String := String.ofList (bytes.flatMap hexOfByte)

end SourceAtlas.Digest
